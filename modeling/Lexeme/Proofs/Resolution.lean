import Lexeme.Resolution
import Lexeme.Proofs.Repair
import Lexeme.Proofs.Suppression.Containment

/-! A table of rules, rule by rule. Spans are only ever dropped, so what one rule has cleared away
stays away, and what is missing in the end was inside a span that some rule calls outer. -/

namespace Lexeme.Resolution

variable {rules : List Rule} {spans : List Span} {s : Span}

/-- The spans that a table leaves. -/
def left (rules : List Rule) (spans : List Span) : List Span := (applyRules rules spans).1

@[simp] theorem left_nil (spans : List Span) : left [] spans = spans := rfl

@[simp] theorem left_cons (r : Rule) (rules : List Rule) (spans : List Span) :
    left (r :: rules) spans = left rules (Suppression.suppress r spans) := rfl

theorem resolve_spans (rules : List Rule) (repair : Bool) (spans : List Span) :
    (resolve rules repair spans).spans =
      if repair = true then (Repair.run (left rules spans)).kept else left rules spans := by
  cases repair <;> rfl

/-- Removals are counted by name, and none of them twice. -/
theorem suppressed_eq (r : Resolution) : r.suppressed = Tally.total r.removals + r.repaired := by
  rw [suppressed, Tally.foldr_eq_total, removedByRule, Tally.total_addAll]
  simp [Tally.total]

theorem left_append (pre post : List Rule) (spans : List Span) :
    left (pre ++ post) spans = left post (left pre spans) := by
  induction pre generalizing spans with
  | nil => rfl
  | cons r pre ih => simp [ih]

theorem left_sublist (rules : List Rule) (spans : List Span) :
    (left rules spans).Sublist spans := by
  induction rules generalizing spans with
  | nil => exact List.Sublist.refl _
  | cons r rules ih => exact (ih _).trans (Suppression.suppress_sublist r spans)

/-- The repair adds nothing to what the table leaves. -/
theorem resolve_subset_left (rules : List Rule) (repair : Bool) (spans : List Span) :
    (resolve rules repair spans).spans ⊆ left rules spans := by
  intro s hs
  rw [resolve_spans] at hs
  split at hs
  · exact Repair.mem_of_mem_kept hs
  · exact hs

/-- Spans in document order stay in that order, some of them dropped. -/
theorem resolve_spans_sublist (rules : List Rule) (repair : Bool)
    (h : spans.Pairwise Span.Precedes) : (resolve rules repair spans).spans.Sublist spans := by
  have hleft := left_sublist rules spans
  rw [resolve_spans]
  split
  · have hkept := Repair.run_kept_sublist (left rules spans)
    rw [Span.sort_eq_self (h.sublist hleft)] at hkept
    exact hkept.trans hleft
  · exact hleft

/-- What the table leaves was left by each rule in its turn. -/
theorem mem_left_split {pre post : List Rule} {r : Rule}
    (hs : s ∈ left (pre ++ r :: post) spans) :
    s ∈ left pre spans ∧ s ∉ Suppression.removed r (left pre spans) := by
  rw [left_append, left_cons] at hs
  exact Suppression.mem_suppress.mp ((left_sublist _ _).mem hs)

/-- A span that the table does not leave was removed by one of its rules. -/
theorem exists_removed_of_not_mem_left (hs : s ∈ spans) (hn : s ∉ left rules spans) :
    ∃ n r, rules[n]? = some r ∧ s ∈ Suppression.removed r (left (rules.take n) spans) := by
  induction rules generalizing spans with
  | nil => exact absurd hs hn
  | cons r rules ih =>
    by_cases hr : s ∈ Suppression.removed r spans
    · exact ⟨0, r, rfl, hr⟩
    · obtain ⟨n, r', hr', hrem⟩ := ih (Suppression.mem_suppress.mpr ⟨hs, hr⟩) hn
      exact ⟨n + 1, r', hr', hrem⟩

/-- A span that the table does not leave lies within a span of the list, by one of the rules. -/
theorem exists_outer_of_not_mem_left (h : ∀ s ∈ spans, s.start < s.stop) (hs : s ∈ spans)
    (hn : s ∉ left rules spans) :
    ∃ r ∈ rules, s.category ∈ r.inner ∧ ∃ o ∈ spans, o.category ∈ r.outer ∧ o.Contains s := by
  obtain ⟨n, r, hr, hrem⟩ := exists_removed_of_not_mem_left hs hn
  have hsub := left_sublist (rules.take n) spans
  obtain ⟨-, hc, o, ho, hoc, hcont⟩ :=
    Suppression.exists_outer_of_mem_removed (fun u hu => h u (hsub.mem hu)) hrem
  exact ⟨r, List.mem_of_getElem? hr, hc, o, hsub.mem ho, hoc, hcont⟩

/-- What the table leaves lies within no span that was there when its rule was applied, unless an
outer span interrupts it. -/
theorem exists_interrupts_of_contains (h : Span.Tidy spans) {pre post : List Rule} {r : Rule}
    (hr : Suppression.FollowsEach r) (hs : s ∈ left (pre ++ r :: post) spans)
    (hsc : s.category ∈ r.inner) {o : Span} (ho : o ∈ left pre spans)
    (hoc : o.category ∈ r.outer) (hcont : o.Contains s) :
    ∃ u ∈ left pre spans, u.category ∈ r.outer ∧ Suppression.Interrupts u s := by
  obtain ⟨hm, hn⟩ := mem_left_split hs
  rw [Suppression.mem_removed_iff (h.sublist (left_sublist pre spans)) hr] at hn
  refine Classical.byContradiction fun hno => hn ⟨hm, hsc, ⟨o, ho, hoc, hcont⟩, ?_⟩
  exact fun u hu huc hint => hno ⟨u, hu, huc, hint⟩

end Lexeme.Resolution
