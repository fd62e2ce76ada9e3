import Lexeme.Proofs.Stream

/-! Spans moved along a text, and lists of spans on the two sides of a place. Document order and
marker streams follow the move, and both are put together from the two sides. -/

namespace Lexeme

/-! ### Sorting -/

namespace Sorting

variable {α β : Type} {key : α → List Int} {xs ys : List α}

theorem map_sortBy {key' : β → List Int} {f : α → β}
    (h : ∀ a b, keyLe (key' (f a)) (key' (f b)) = keyLe (key a) (key b)) (xs : List α) :
    sortBy key' (xs.map f) = (sortBy key xs).map f := by
  rw [sortBy, sortBy, sort_eq_mergeSort, sort_eq_mergeSort]
  symm
  apply List.map_mergeSort
  intro a _ b _
  exact (h a b).symm

theorem sortBy_append (hinj : ∀ a b, key a = key b → a = b)
    (h : ∀ x ∈ xs, ∀ y ∈ ys, keyLe (key x) (key y) = true) :
    sortBy key (xs ++ ys) = sortBy key xs ++ sortBy key ys := by
  have hperm : (sortBy key (xs ++ ys)).Perm (sortBy key xs ++ sortBy key ys) :=
    (sortBy_perm key _).trans ((sortBy_perm key xs).append (sortBy_perm key ys)).symm
  refine hperm.eq_of_pairwise ?_ (sortBy_pairwise key _) ?_
  · exact fun a b _ _ hab hba => hinj a b (keyLe_antisymm hab hba)
  · rw [List.pairwise_append]
    refine ⟨sortBy_pairwise key xs, sortBy_pairwise key ys, fun x hx y hy => ?_⟩
    exact h x (mem_sortBy.mp hx) y (mem_sortBy.mp hy)

end Sorting

/-! ### Moved spans -/

namespace Span

variable {k n : Int} {s : Span} {xs ys spans : List Span}

/-- The span `k` places further. -/
def shift (k : Int) (s : Span) : Span := ⟨s.category, s.start + k, s.stop + k⟩

@[simp] theorem shift_category (k : Int) (s : Span) : (s.shift k).category = s.category := rfl

@[simp] theorem shift_start (k : Int) (s : Span) : (s.shift k).start = s.start + k := rfl

@[simp] theorem shift_stop (k : Int) (s : Span) : (s.shift k).stop = s.stop + k := rfl

theorem shift_injective (k : Int) : Function.Injective (shift k) := by
  rintro ⟨c, i, j⟩ ⟨d, i', j'⟩ h
  simpa [shift] using h

theorem sort_shift (k : Int) (spans : List Span) :
    sort (spans.map (shift k)) = (sort spans).map (shift k) := by
  apply Sorting.map_sortBy
  intro a b
  simp only [sortKey, Sorting.keyLe, shift_category, shift_start, shift_stop,
    Int.add_lt_add_iff_right, Int.neg_lt_neg_iff, Int.add_left_inj, Int.neg_inj]

/-- Every span of `xs` ends by the place `n`, every span of `ys` begins there or later, and none of
them is empty or inverted. -/
structure Divided (n : Int) (xs ys : List Span) : Prop where
  left : ∀ s ∈ xs, s.start < s.stop ∧ s.stop ≤ n
  right : ∀ s ∈ ys, n ≤ s.start ∧ s.start < s.stop

theorem Divided.mono {xs' ys' : List Span} (h : Divided n xs ys) (hx : xs' ⊆ xs) (hy : ys' ⊆ ys) :
    Divided n xs' ys' :=
  ⟨fun s hs => h.left s (hx hs), fun s hs => h.right s (hy hs)⟩

theorem Divided.not_mem_right (h : Divided n xs ys) (hs : s ∈ xs) : s ∉ ys := by
  intro hs'
  have h1 := h.left s hs
  have h2 := h.right s hs'
  omega

theorem Divided.sort_append (h : Divided n xs ys) : sort (xs ++ ys) = sort xs ++ sort ys := by
  apply Sorting.sortBy_append fun a b => sortKey_inj
  intro x hx y hy
  have h1 := h.left x hx
  have h2 := h.right y hy
  change x.Precedes y
  rw [precedes_iff]
  omega

end Span

/-! ### Marker streams -/

namespace Marker

variable {n : Int} {xs ys : List Span}

/-- The marker of the span that `f` puts in the place of its own. -/
def relabel (f : Span → Span) (m : Marker) : Marker := ⟨f m.span, m.role⟩

theorem pairs_map (f : Span → Span) (spans : List Span) :
    pairs (spans.map f) = (pairs spans).map (relabel f) := by
  simp [pairs, List.flatMap_map, List.map_flatMap, relabel]

theorem stream_shift (outer : List Category) (k : Int) (spans : List Span) :
    stream outer (spans.map (Span.shift k)) =
      (stream outer spans).map (relabel (Span.shift k)) := by
  unfold stream
  rw [pairs_map]
  apply Sorting.map_sortBy
  rintro ⟨a, role⟩ ⟨b, role'⟩
  rw [Bool.eq_iff_iff]
  change Precedes outer ⟨a.shift k, role⟩ ⟨b.shift k, role'⟩ ↔ Precedes outer ⟨a, role⟩ ⟨b, role'⟩
  cases role <;> cases role'
  · simp [precedes_opening_opening]
  · simp [precedes_opening_closing]
  · simp [precedes_closing_opening]
  · simp [precedes_closing_closing]

theorem stream_append (outer : List Category) (h : Span.Divided n xs ys) :
    stream outer (xs ++ ys) = stream outer xs ++ stream outer ys := by
  unfold stream
  rw [show pairs (xs ++ ys) = pairs xs ++ pairs ys from List.flatMap_append]
  apply Sorting.sortBy_append fun a b => sortKey_inj
  rintro ⟨x, role⟩ hx ⟨y, role'⟩ hy
  have h1 := h.left x (mem_pairs.mp hx)
  have h2 := h.right y (mem_pairs.mp hy)
  change Precedes outer ⟨x, role⟩ ⟨y, role'⟩
  cases role <;> cases role'
  · rw [precedes_opening_opening]
    omega
  · rw [precedes_opening_closing]
    omega
  · rw [precedes_closing_opening]
    omega
  · rw [precedes_closing_closing]
    omega

end Marker

end Lexeme
