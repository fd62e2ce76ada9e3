import Lexeme.Proofs.Resolution

/-! A table of rules needs one run. A rule with one outer category that follows each of its inner
spans leaves none of them inside an outer span, and since later rules and the repair only take spans
away, what is settled stays settled. Main statement: the outcome of a resolution is settled for
every rule, and resolving it again changes nothing. -/

namespace Lexeme.Resolution

open Suppression (FollowsEach SingleOuter suppress mem_suppress suppress_sublist)

variable {r : Rule} {rules : List Rule} {spans kept : List Span}

/-- No inner span of the rule lies within an outer one. -/
def Settled (r : Rule) (spans : List Span) : Prop :=
  ∀ s ∈ spans, s.category ∈ r.inner → ∀ o ∈ spans, o.category ∈ r.outer → ¬ o.Contains s

theorem Settled.subset (h : Settled r spans) (hk : kept ⊆ spans) : Settled r kept :=
  fun s hs hsc o ho hoc => h s (hk hs) hsc o (hk ho) hoc

/-! ### The outcome is settled -/

theorem settled_suppress (h : Span.Tidy spans) (hr : SingleOuter r) (hf : FollowsEach r) :
    Settled r (suppress r spans) := by
  intro s hs hsc o ho hoc hcont
  obtain ⟨hs, hnot⟩ := mem_suppress.mp hs
  obtain ⟨ho, -⟩ := mem_suppress.mp ho
  exact hnot ((hr.mem_removed_iff hf h).mpr ⟨hs, hsc, o, ho, hoc, hcont⟩)

theorem settled_left (h : Span.Tidy spans)
    (hrules : ∀ r ∈ rules, SingleOuter r ∧ FollowsEach r) :
    ∀ r ∈ rules, Settled r (left rules spans) := by
  induction rules generalizing spans with
  | nil => exact fun r hr => absurd hr List.not_mem_nil
  | cons r rules ih =>
    obtain ⟨hr, hf⟩ := hrules r List.mem_cons_self
    intro q hq
    rw [left_cons]
    rcases List.mem_cons.mp hq with rfl | hq
    · -- the rules to come only drop spans
      exact (settled_suppress h hr hf).subset (left_sublist rules _).subset
    · exact ih (h.sublist (suppress_sublist r spans))
        (fun p hp => hrules p (List.mem_cons_of_mem r hp)) q hq

/-! ### What is settled is left alone -/

theorem suppress_eq_self (h : ∀ s ∈ spans, s.start < s.stop) (hr : Settled r spans) :
    suppress r spans = spans := by
  rw [suppress, List.filter_eq_self]
  intro s hs
  have hnot : s ∉ Suppression.removed r spans := by
    intro hrem
    obtain ⟨-, hsc, o, ho, hoc, hcont⟩ := Suppression.exists_outer_of_mem_removed h hrem
    exact hr s hs hsc o ho hoc hcont
  simpa using hnot

theorem applyRules_eq_self (h : ∀ s ∈ spans, s.start < s.stop)
    (hrules : ∀ r ∈ rules, Settled r spans) :
    applyRules rules spans = (spans, rules.map fun r => (r.name, 0)) := by
  induction rules with
  | nil => rfl
  | cons r rules ih =>
    have hrest := ih fun q hq => hrules q (List.mem_cons_of_mem r hq)
    rw [applyRules, suppress_eq_self h (hrules r List.mem_cons_self), hrest, Nat.sub_self]
    rfl

theorem total_map_zero (rules : List Rule) : Tally.total (rules.map fun r => (r.name, 0)) = 0 := by
  induction rules with
  | nil => rfl
  | cons r rules ih => simp [Tally.total, ih]

/-- The outcome of a table of rules, each with one outer category and following each of its inner
spans, holds no span that a rule would remove, and to resolve it again removes nothing. -/
theorem resolve_resolve (rules : List Rule)
    (hrules : ∀ r ∈ rules, SingleOuter r ∧ FollowsEach r) (repair : Bool) (spans : List Span)
    (h : Span.Tidy spans) :
    (∀ r ∈ rules, Settled r (resolve rules repair spans).spans) ∧
      resolve rules repair (resolve rules repair spans).spans =
        ⟨(resolve rules repair spans).spans, rules.map fun r => (r.name, 0), []⟩ ∧
      (resolve rules repair (resolve rules repair spans).spans).suppressed = 0 := by
  have hleft := h.sublist (left_sublist rules spans)
  have hsettled := settled_left h hrules
  have hkept := resolve_subset_left rules repair spans
  have hall : ∀ r ∈ rules, Settled r (resolve rules repair spans).spans :=
    fun r hr => (hsettled r hr).subset hkept
  have happly := applyRules_eq_self (fun s hs => hleft.proper s (hkept hs)) hall
  have hagain : resolve rules repair (resolve rules repair spans).spans =
      ⟨(resolve rules repair spans).spans, rules.map fun r => (r.name, 0), []⟩ := by
    rw [resolve, happly, resolve_spans]
    cases repair with
    | false => rfl
    | true => simp [Repair.run_kept]
  refine ⟨hall, hagain, ?_⟩
  rw [hagain, suppressed_eq]
  simp [repaired, total_map_zero]

/-- Rules that suppress each other's categories, on spans that coincide, nest and cross. -/
theorem resolve_resolve_mutual :
    (∀ r ∈ Rule.supplementary, SingleOuter r ∧ FollowsEach r) ∧
      (resolve Rule.supplementary true [⟨.floating, 0, 3⟩, ⟨.identifier, 0, 3⟩, ⟨.string, 2, 8⟩,
        ⟨.character, 4, 6⟩, ⟨.floating, 4, 5⟩]).spans =
        [⟨.identifier, 0, 3⟩, ⟨.floating, 4, 5⟩] ∧
      resolve Rule.supplementary true [⟨.identifier, 0, 3⟩, ⟨.floating, 4, 5⟩] =
        ⟨[⟨.identifier, 0, 3⟩, ⟨.floating, 4, 5⟩],
          Rule.supplementary.map fun r => (r.name, 0), []⟩ := by
  have hrules : ∀ r ∈ Rule.supplementary, SingleOuter r ∧ FollowsEach r := by decide
  have hfirst : (resolve Rule.supplementary true [⟨.floating, 0, 3⟩, ⟨.identifier, 0, 3⟩,
      ⟨.string, 2, 8⟩, ⟨.character, 4, 6⟩, ⟨.floating, 4, 5⟩]).spans =
      [⟨.identifier, 0, 3⟩, ⟨.floating, 4, 5⟩] := by decide
  have hagain := (resolve_resolve Rule.supplementary hrules true [⟨.floating, 0, 3⟩,
    ⟨.identifier, 0, 3⟩, ⟨.string, 2, 8⟩, ⟨.character, 4, 6⟩, ⟨.floating, 4, 5⟩]
    ⟨by decide, by decide⟩).2.1
  rw [hfirst] at hagain
  exact ⟨hrules, hfirst, hagain⟩

end Lexeme.Resolution
