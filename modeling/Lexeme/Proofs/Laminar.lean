import Lexeme.Proofs.Markup

/-! The spans of a run with repair, for every choice of categories and every table of rules. They
are matches of the source in strict document order, and of any two one is over where the other
begins or encloses it. -/

namespace Lexeme

namespace Lexer

variable {config : Config} {source : String} {a b : Span}

theorem lexed_mem_matchAll (h : a ∈ spans config source) :
    a ∈ Matching.matchAll source config.categories := (Markup.lexed_sublist config source).mem h

theorem lexed_increasing (config : Config) (source : String) :
    (spans config source).Pairwise fun a b => a.sortKey < b.sortKey :=
  (Markup.lexed_tidy config source).increasing (Span.sort_precedes _)

/-- With repair the spans of a run are those that the repair keeps. -/
theorem spans_eq_kept (h : config.repairs = true) (source : String) :
    spans config source = (Repair.run (Resolution.left config.rules
      (Matching.matchAll source config.categories))).kept := by
  rw [spans, Run.spans, run, Resolution.resolve_spans, h, if_pos rfl]
  exact Span.sort_eq_self (Repair.run_kept_precedes _)

theorem lexed_endsOrEncloses (h : config.repairs = true) (source : String) :
    (spans config source).Pairwise Repair.EndsOrEncloses := by
  rw [spans_eq_kept h]
  exact Repair.run_kept_endsOrEncloses _

theorem lexed_laminar (h : config.repairs = true) (source : String) :
    (spans config source).Pairwise fun a b => ¬ a.Crosses b ∧ ¬ a.SameExtent b := by
  refine (lexed_endsOrEncloses h source).imp_of_mem fun {a b} ha _ hab =>
    ⟨hab.not_crosses, fun hsame => ?_⟩
  rcases hab with hover | ⟨-, hsmall⟩
  · have hproper := (Markup.lexed_tidy config source).proper a ha
    have hstart := hsame.1
    omega
  · exact hsmall hsame

/-- The spans of a run with repair are matches of the source in strict document order, no two of
them cross, and no two have one extent. -/
theorem spans_laminar (config : Config) (hrepair : config.repairs = true) (source : String) :
    ((spans config source).Pairwise fun a b => a.sortKey < b.sortKey) ∧
      (∀ s ∈ spans config source, 0 ≤ s.start ∧ s.start < s.stop ∧ s.stop ≤ source.length ∧
        s ∈ Matching.matchAll source config.categories) ∧
      ∀ a ∈ spans config source, ∀ b ∈ spans config source, a ≠ b →
        ¬ a.Crosses b ∧ ¬ a.SameExtent b := by
  refine ⟨lexed_increasing config source, fun s hs => ?_, fun a ha b hb hne => ?_⟩
  · have hrange := Markup.lexed_range hs
    have hproper := (Markup.lexed_tidy config source).proper s hs
    exact ⟨hrange.1, hproper, hrange.2, lexed_mem_matchAll hs⟩
  · have : Std.Symm fun x y : Span => ¬ x.Crosses y ∧ ¬ x.SameExtent y :=
      ⟨fun x y h => ⟨fun hc => h.1 ⟨hc.1.symm, hc.2.2, hc.2.1⟩,
        fun hs => h.2 ⟨hs.1.symm, hs.2.symm⟩⟩⟩
    exact (lexed_laminar hrepair source).forall ha hb hne

/-- A string literal between apostrophes lies within a character constant. -/
theorem spans_laminar_quoted :
    Config.standard.repairs = true ∧
      ((spans .standard "'\"a\"'").Pairwise fun a b => a.sortKey < b.sortKey) ∧
      (∀ s ∈ spans .standard "'\"a\"'", 0 ≤ s.start ∧ s.start < s.stop ∧
        s.stop ≤ "'\"a\"'".length ∧ s ∈ Matching.matchAll "'\"a\"'" Category.all) ∧
      ∀ a ∈ spans .standard "'\"a\"'", ∀ b ∈ spans .standard "'\"a\"'", a ≠ b →
        ¬ a.Crosses b ∧ ¬ a.SameExtent b :=
  ⟨by decide, spans_laminar .standard (by decide) "'\"a\"'"⟩

end Lexer

end Lexeme
