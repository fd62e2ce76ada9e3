import Lexeme.Proofs.Resolution

/-! Spans may be given in any order. A rule reads a sorted stream, in which only equal markers could
change places, and removes spans by value; so from lists with the same spans it removes the same
ones. Main statement: resolutions of such lists agree in every count and, after a repair, in all.
-/

namespace Lexeme

variable {xs ys : List Span}

/-- The stream does not show in which order the spans were given. -/
theorem Marker.stream_eq_of_perm (outer : List Category) (h : xs.Perm ys) :
    stream outer xs = stream outer ys :=
  Sorting.sortBy_eq_of_perm (fun _ _ => sortKey_inj) (h.flatMap_right _)

namespace Suppression

theorem removed_eq_of_perm (r : Rule) (h : xs.Perm ys) : removed r xs = removed r ys := by
  unfold removed
  dsimp only
  rw [Marker.stream_eq_of_perm r.outer (h.filter _)]

theorem suppress_perm (r : Rule) (h : xs.Perm ys) : (suppress r xs).Perm (suppress r ys) := by
  unfold suppress
  rw [removed_eq_of_perm r h]
  exact h.filter _

end Suppression

namespace Resolution

/-- One rule after another keeps the two lists permutations of each other. -/
theorem applyRules_perm (rules : List Rule) (h : xs.Perm ys) :
    (applyRules rules xs).1.Perm (applyRules rules ys).1 ∧
      (applyRules rules xs).2 = (applyRules rules ys).2 := by
  induction rules generalizing xs ys with
  | nil => exact ⟨h, rfl⟩
  | cons r rules ih =>
    have hleft := Suppression.suppress_perm r h
    obtain ⟨hspans, hcounts⟩ := ih hleft
    refine ⟨hspans, ?_⟩
    rw [applyRules, applyRules]
    dsimp only
    rw [hcounts, h.length_eq, hleft.length_eq]

/-- The order in which spans are given has no effect on what is removed and how often. With repair
the whole outcome is the same, and without it the same spans are left, in some order. -/
theorem resolve_of_perm (rules : List Rule) (h : xs.Perm ys) :
    resolve rules true xs = resolve rules true ys ∧
      (resolve rules false xs).spans.Perm (resolve rules false ys).spans ∧
      (resolve rules false xs).removedByRule = (resolve rules false ys).removedByRule ∧
      (resolve rules false xs).repaired = (resolve rules false ys).repaired := by
  obtain ⟨hspans, hcounts⟩ := applyRules_perm rules h
  refine ⟨?_, hspans, congrArg (Tally.addAll []) hcounts, rfl⟩
  have hrepair : Repair.run (applyRules rules xs).1 = Repair.run (applyRules rules ys).1 := by
    rw [Repair.run, Repair.run, Span.sort_eq_of_perm hspans]
  rw [resolve, resolve]
  simp only [if_true, hrepair, hcounts]

/-- Spans that are doubled, empty, inverted and crossing, backwards. -/
theorem resolve_of_perm_reversed :
    ([⟨.string, 0, 4⟩, ⟨.identifier, 1, 3⟩, ⟨.identifier, 1, 3⟩, ⟨.integer, 2, 2⟩,
      ⟨.floating, 5, 3⟩, ⟨.character, 3, 6⟩] : List Span).Perm
      [⟨.character, 3, 6⟩, ⟨.floating, 5, 3⟩, ⟨.integer, 2, 2⟩, ⟨.identifier, 1, 3⟩,
        ⟨.identifier, 1, 3⟩, ⟨.string, 0, 4⟩] ∧
      resolve Rule.standard true [⟨.string, 0, 4⟩, ⟨.identifier, 1, 3⟩, ⟨.identifier, 1, 3⟩,
        ⟨.integer, 2, 2⟩, ⟨.floating, 5, 3⟩, ⟨.character, 3, 6⟩] =
        resolve Rule.standard true [⟨.character, 3, 6⟩, ⟨.floating, 5, 3⟩, ⟨.integer, 2, 2⟩,
          ⟨.identifier, 1, 3⟩, ⟨.identifier, 1, 3⟩, ⟨.string, 0, 4⟩] :=
  ⟨by decide, (resolve_of_perm Rule.standard (by decide)).1⟩

end Resolution

end Lexeme
