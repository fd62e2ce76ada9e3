import Lexeme.Proofs.Locality.Resolution
import Lexeme.Proofs.Markup

/-! No span gets lost without a reason, whatever the table of rules. A span that is missing from a
resolution lies within an outer span of one of the rules, or the repair found a span of the result
in its way. Main statement: this holds copy by copy, and a match that shares no character with
another one becomes a token. -/

namespace Lexeme.Resolution

variable {rules : List Rule} {repair : Bool} {spans : List Span} {s : Span}

/-! ### Copies of a span -/

/-- A rule takes every copy of a span or none. -/
theorem count_suppress {r : Rule} (h : s ∈ Suppression.suppress r spans) :
    (Suppression.suppress r spans).count s = spans.count s := by
  have hkept := (Suppression.mem_suppress.mp h).2
  exact List.count_filter (by simpa using hkept)

theorem count_left (h : s ∈ left rules spans) : (left rules spans).count s = spans.count s := by
  induction rules generalizing spans with
  | nil => rfl
  | cons r rules ih =>
    rw [left_cons] at h ⊢
    rw [ih h, count_suppress ((left_sublist _ _).mem h)]

/-! ### Reasons -/

/-- The span lies within a span that one of the rules calls outer to it. -/
def Absorbed (rules : List Rule) (spans : List Span) (s : Span) : Prop :=
  ∃ r ∈ rules, s.category ∈ r.inner ∧ ∃ o ∈ spans, o.category ∈ r.outer ∧ o.Contains s

/-- One of the kept spans crosses the span or has its extent. -/
def Displaced (kept : List Span) (s : Span) : Prop := ∃ k ∈ kept, k.Crosses s ∨ k.SameExtent s

/-- Copies that the rules leave are missing only where the repair found something in the way; of
several copies the first one is. -/
theorem displaced_of_count_lt (hs : s ∈ left rules spans)
    (hlost : (resolve rules repair spans).spans.count s < spans.count s) :
    repair = true ∧ Displaced (resolve rules repair spans).spans s := by
  rw [resolve_spans] at hlost ⊢
  cases repair with
  | false =>
    rw [if_neg Bool.false_ne_true, count_left hs] at hlost
    exact absurd hlost (Nat.lt_irrefl _)
  | true =>
    rw [if_pos rfl]
    refine ⟨rfl, ?_⟩
    by_cases hkept : s ∈ (Repair.run (left rules spans)).kept
    · exact ⟨s, hkept, .inr ⟨rfl, rfl⟩⟩
    · exact Repair.exists_of_not_mem_kept hs hkept

theorem absorbed_or_displaced (h : ∀ s ∈ spans, s.start < s.stop)
    (hlost : (resolve rules repair spans).spans.count s < spans.count s) :
    Absorbed rules spans s ∨ repair = true ∧ Displaced (resolve rules repair spans).spans s := by
  by_cases hs : s ∈ left rules spans
  · exact .inr (displaced_of_count_lt hs hlost)
  · have hmem : s ∈ spans := List.count_pos_iff.mp (Nat.zero_lt_of_lt hlost)
    exact .inl (exists_outer_of_not_mem_left h hmem hs)

/-! ### Spans that stand alone -/

theorem Absorbed.exists_overlaps (h : Absorbed rules spans s) (hs : s.start < s.stop) :
    ∃ o ∈ spans, o ≠ s ∧ o.Overlaps s := by
  obtain ⟨r, -, hinner, o, ho, houter, hcont⟩ := h
  refine ⟨o, ho, ?_, .of_contains hcont hs⟩
  rintro rfl
  exact r.disjoint _ houter hinner

theorem Displaced.exists_overlaps {kept : List Span} (h : Displaced kept s)
    (hs : s.start < s.stop) : ∃ k ∈ kept, k.Overlaps s := by
  obtain ⟨k, hk, hcross | ⟨hstart, hstop⟩⟩ := h
  · exact ⟨k, hk, hcross.1⟩
  · exact ⟨k, hk, by omega, by omega⟩

/-- A span that shares no character with another one is kept. -/
theorem mem_resolve_of_apart (h : ∀ s ∈ spans, s.start < s.stop) (hs : s ∈ spans)
    (hapart : ∀ u ∈ spans, u ≠ s → ¬ u.Overlaps s) : s ∈ (resolve rules repair spans).spans := by
  refine Classical.byContradiction fun hn => ?_
  have hlost : (resolve rules repair spans).spans.count s < spans.count s := by
    rw [List.count_eq_zero.mpr hn]
    exact List.count_pos_iff.mpr hs
  rcases absorbed_or_displaced h hlost with habs | ⟨-, hdis⟩
  · obtain ⟨o, ho, hne, hover⟩ := habs.exists_overlaps (h s hs)
    exact hapart o ho hne hover
  · obtain ⟨k, hk, hover⟩ := hdis.exists_overlaps (h s hs)
    refine hapart k (resolve_subset rules repair spans hk) ?_ hover
    rintro rfl
    exact hn hk

theorem exists_token_of_apart (config : Config) (source : String) (sourceFile : Option String)
    (hs : s ∈ Matching.matchAll source config.categories)
    (hapart : ∀ u ∈ Matching.matchAll source config.categories, u ≠ s → ¬ u.Overlaps s) :
    ∃ token ∈ Lexer.tokenize config source sourceFile, token.span = s := by
  have hproper := (Matching.spansOfAll_tidy source.toList.toArray config.categories).proper
  have hspans : s ∈ Lexer.spans config source :=
    Span.mem_sort.mpr (mem_resolve_of_apart hproper hs hapart)
  rw [← Markup.map_span_tokenize config source sourceFile] at hspans
  exact List.mem_map.mp hspans

/-- Every copy of a span that a resolution loses was absorbed or, if overlaps are repaired,
displaced by a span of the result. A match that shares no character with another one becomes a
token. -/
theorem lost_for_a_reason :
    (∀ (rules : List Rule) (repair : Bool) (spans : List Span), (∀ s ∈ spans, s.start < s.stop) →
      ∀ s, (resolve rules repair spans).spans.count s < spans.count s →
        Absorbed rules spans s ∨
          repair = true ∧ Displaced (resolve rules repair spans).spans s) ∧
      ∀ (config : Config) (source : String) (sourceFile : Option String),
        ∀ s ∈ Matching.matchAll source config.categories,
          (∀ u ∈ Matching.matchAll source config.categories, u ≠ s → ¬ u.Overlaps s) →
            ∃ token ∈ Lexer.tokenize config source sourceFile, token.span = s :=
  ⟨fun _ _ _ h _ hlost => absorbed_or_displaced h hlost,
    fun config source sourceFile _ hs hapart =>
      exists_token_of_apart config source sourceFile hs hapart⟩

/-- Two copies of an identifier lie within a string literal, and an integer crosses its end; the
letter before the sign is a token of its own. -/
theorem lost_in_and_across_string :
    (∀ s ∈ ([⟨.string, 0, 4⟩, ⟨.identifier, 1, 3⟩, ⟨.identifier, 1, 3⟩, ⟨.integer, 3, 6⟩] :
        List Span), s.start < s.stop) ∧
      (resolve Rule.standard true [⟨.string, 0, 4⟩, ⟨.identifier, 1, 3⟩, ⟨.identifier, 1, 3⟩,
        ⟨.integer, 3, 6⟩]).spans = [⟨.string, 0, 4⟩] ∧
      (Absorbed Rule.standard [⟨.string, 0, 4⟩, ⟨.identifier, 1, 3⟩, ⟨.identifier, 1, 3⟩,
          ⟨.integer, 3, 6⟩] ⟨.integer, 3, 6⟩ ∨
        true = true ∧ Displaced (resolve Rule.standard true [⟨.string, 0, 4⟩, ⟨.identifier, 1, 3⟩,
          ⟨.identifier, 1, 3⟩, ⟨.integer, 3, 6⟩]).spans ⟨.integer, 3, 6⟩) ∧
      ∃ token ∈ Lexer.tokenize .standard "a+1" none, token.span = ⟨.identifier, 0, 1⟩ :=
  ⟨by decide, by decide, lost_for_a_reason.1 _ _ _ (by decide) _ (by decide),
    lost_for_a_reason.2 .standard "a+1" none ⟨.identifier, 0, 1⟩ (by decide) (by decide)⟩

end Lexeme.Resolution
