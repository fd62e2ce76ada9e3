import Lexeme.Proofs.Repair

/-! Repair compared with the plain greedy choice, which looks at every span kept so far. A kept span
that has left the stack is over before the next span begins, and of those still open the innermost
one answers for all. Main statement: for spans that are not empty the two choices agree, and every
repair leaves spans that do not cross and that it would keep again. -/

namespace Lexeme.Repair

variable {kept stack spans rest : List Span} {s : Span}

/-- No kept span crosses `s` or has its extent. -/
def Fits (kept : List Span) (s : Span) : Prop := ∀ k ∈ kept, ¬ k.Crosses s ∧ ¬ k.SameExtent s

instance (kept : List Span) (s : Span) : Decidable (Fits kept s) :=
  inferInstanceAs (Decidable (∀ k ∈ kept, _))

/-- Keeps a span that fits. -/
def choose (kept : List Span) (s : Span) : List Span := if Fits kept s then kept ++ [s] else kept

/-- The greedy choice in document order. -/
def greedy (spans : List Span) : List Span := (Span.sort spans).foldl choose []

/-- The stack stands for all kept spans: those that are not on it are over before the spans to
come. -/
structure Represents (stack kept spans : List Span) : Prop where
  ready : Ready stack spans
  subset : stack ⊆ kept
  past : ∀ k ∈ kept, k ∈ stack ∨ ∀ s ∈ spans, k.stop ≤ s.start

/-! ### One span -/

theorem Represents.openAt_or_over (h : Represents stack kept (s :: rest)) {k : Span}
    (hk : k ∈ kept) : k ∈ openAt stack s ∨ ∀ u ∈ s :: rest, k.stop ≤ u.start := by
  rcases h.past k hk with hstack | hover
  · rcases mem_openAt_or hstack s with hopen | hle
    · exact .inl hopen
    · -- the spans to come start no earlier than `s`
      refine .inr fun u hu => ?_
      rcases List.mem_cons.mp hu with rfl | hu
      · exact hle
      · have := start_le_of_precedes ((List.pairwise_cons.mp h.ready.sorted).1 u hu)
        omega
  · exact .inr hover

/-- A span that is over is in nobody's way. -/
theorem not_conflicts_of_stop_le {k : Span} (hs : s.start < s.stop) (h : k.stop ≤ s.start) :
    ¬ k.Crosses s ∧ ¬ k.SameExtent s := by
  refine ⟨not_crosses_of_stop_le h, ?_⟩
  rintro ⟨-, hstop⟩
  omega

/-- To look at the top of the stack is to look at all kept spans. -/
theorem Represents.fits_iff (h : Represents stack kept (s :: rest)) (hs : s.start < s.stop) :
    Fits kept s ↔ ¬ Blocked stack s := by
  constructor
  · intro hfits hblocked
    obtain ⟨b, hb, hconflict⟩ := h.ready.exists_of_blocked hblocked
    obtain ⟨hcross, hsame⟩ := hfits b (h.subset hb)
    exact hconflict.elim hcross hsame
  · intro hfree k hk
    rcases h.openAt_or_over hk with hopen | hover
    · exact ⟨not_crosses_of_contains (h.ready.contains_of_not_blocked hfree hopen),
        h.ready.not_sameExtent_of_not_blocked hfree hopen⟩
    · exact not_conflicts_of_stop_le hs (hover s List.mem_cons_self)

theorem Represents.pass (h : Represents stack kept (s :: rest)) :
    Represents (openAt stack s) kept rest where
  ready := h.ready.pass
  subset := List.Subset.trans (openAt_sublist stack s).subset h.subset
  past _ hk := (h.openAt_or_over hk).imp_right fun hover u hu =>
    hover u (List.mem_cons_of_mem s hu)

theorem Represents.push (h : Represents stack kept (s :: rest)) (hs : ¬ Blocked stack s) :
    Represents (s :: openAt stack s) (kept ++ [s]) rest where
  ready := h.ready.push hs
  subset := by
    intro b hb
    rcases List.mem_cons.mp hb with rfl | hb
    · exact List.mem_append_right kept List.mem_cons_self
    · exact List.mem_append_left [s] (h.pass.subset hb)
  past k hk := by
    rcases List.mem_append.mp hk with hk | hk
    · exact (h.pass.past k hk).imp_left (List.mem_cons_of_mem s)
    · rw [List.mem_singleton.mp hk]
      exact .inl List.mem_cons_self

/-! ### All spans -/

/-- From any point on, the greedy choice adds what the visit keeps. -/
theorem Represents.foldl_choose (h : Represents stack kept spans)
    (hspans : ∀ s ∈ spans, s.start < s.stop) :
    spans.foldl choose kept = kept ++ (visit stack spans).kept := by
  induction spans generalizing stack kept with
  | nil => simp [visit]
  | cons s rest ih =>
    have hfits := h.fits_iff (hspans s List.mem_cons_self)
    have hrest : ∀ u ∈ rest, u.start < u.stop := fun u hu => hspans u (List.mem_cons_of_mem s hu)
    rw [List.foldl_cons, choose]
    rcases visit_cons stack s rest with ⟨hs, hvisit⟩ | ⟨hs, hvisit⟩
    · rw [if_neg fun hf => hfits.mp hf hs, ih h.pass hrest, hvisit]
    · rw [if_pos (hfits.mpr hs), ih (h.push hs) hrest, hvisit, List.append_assoc,
        List.singleton_append]

theorem run_kept_eq_greedy (h : ∀ s ∈ spans, s.start < s.stop) :
    (run spans).kept = greedy spans := by
  have hstart : Represents [] [] (Span.sort spans) :=
    ⟨ready_nil (Span.sort_precedes spans), List.Subset.refl [],
      fun k hk => absurd hk List.not_mem_nil⟩
  rw [greedy, hstart.foldl_choose fun s hs => h s (Span.mem_sort.mp hs), List.nil_append]
  rfl

/-- An empty span is over when it begins, so that a repair keeps a second one like it. -/
example : (run [⟨.string, 3, 3⟩, ⟨.string, 3, 3⟩]).kept = [⟨.string, 3, 3⟩, ⟨.string, 3, 3⟩] ∧
    greedy [⟨.string, 3, 3⟩, ⟨.string, 3, 3⟩] = [⟨.string, 3, 3⟩] := by decide

theorem not_crosses_of_mem_kept {a b : Span} (ha : a ∈ (run spans).kept)
    (hb : b ∈ (run spans).kept) : ¬ a.Crosses b := by
  have hflip : (run spans).kept.Pairwise (flip fun a b => ¬ a.Crosses b) :=
    (run_kept_not_crosses spans).imp fun hab hba => hab ⟨hba.1.symm, hba.2.2, hba.2.1⟩
  exact (run_kept_not_crosses spans).forall_of_forall_of_flip
    (fun x _ => not_crosses_of_contains ⟨Int.le_refl _, Int.le_refl _⟩) hflip ha hb

/-- For spans that are not empty a repair is the greedy choice over all kept spans. Whatever the
spans are, no two that it keeps cross, and a second repair keeps them all. -/
theorem repair_is_greedy :
    (∀ spans : List Span, (∀ s ∈ spans, s.start < s.stop) → (run spans).kept = greedy spans) ∧
      ∀ spans : List Span,
        (∀ a ∈ (run spans).kept, ∀ b ∈ (run spans).kept, ¬ a.Crosses b) ∧
          run (run spans).kept = ⟨(run spans).kept, []⟩ :=
  ⟨fun _ h => run_kept_eq_greedy h,
    fun spans => ⟨fun _ ha _ hb => not_crosses_of_mem_kept ha hb, run_kept spans⟩⟩

/-- A string literal with a keyword and an identifier of one extent inside, of which the keyword is
kept, and with an integer across its end. -/
theorem repair_is_greedy_across :
    (∀ s ∈ ([⟨.integer, 7, 12⟩, ⟨.identifier, 1, 4⟩, ⟨.string, 0, 9⟩, ⟨.keyword, 1, 4⟩,
        ⟨.punctuator, 9, 10⟩] : List Span), s.start < s.stop) ∧
      greedy [⟨.integer, 7, 12⟩, ⟨.identifier, 1, 4⟩, ⟨.string, 0, 9⟩, ⟨.keyword, 1, 4⟩,
        ⟨.punctuator, 9, 10⟩] = [⟨.string, 0, 9⟩, ⟨.keyword, 1, 4⟩, ⟨.punctuator, 9, 10⟩] ∧
      (run [⟨.integer, 7, 12⟩, ⟨.identifier, 1, 4⟩, ⟨.string, 0, 9⟩, ⟨.keyword, 1, 4⟩,
        ⟨.punctuator, 9, 10⟩]).kept =
        [⟨.string, 0, 9⟩, ⟨.keyword, 1, 4⟩, ⟨.punctuator, 9, 10⟩] := by
  have hproper : ∀ s ∈ ([⟨.integer, 7, 12⟩, ⟨.identifier, 1, 4⟩, ⟨.string, 0, 9⟩,
      ⟨.keyword, 1, 4⟩, ⟨.punctuator, 9, 10⟩] : List Span), s.start < s.stop := by decide
  have hgreedy : greedy [⟨.integer, 7, 12⟩, ⟨.identifier, 1, 4⟩, ⟨.string, 0, 9⟩,
      ⟨.keyword, 1, 4⟩, ⟨.punctuator, 9, 10⟩] =
      [⟨.string, 0, 9⟩, ⟨.keyword, 1, 4⟩, ⟨.punctuator, 9, 10⟩] := by decide
  exact ⟨hproper, hgreedy, (repair_is_greedy.1 _ hproper).trans hgreedy⟩

end Lexeme.Repair
