import Lexeme.Marker
import Lexeme.Proofs.Span

/-! The order of a marker stream. Each marker of a tidy list of spans has one place in the stream,
and two places are compared by comparing the ends of the spans. -/

namespace Lexeme.Marker

variable {outer : List Category} {spans : List Span} {m m' : Marker} {i j : Nat}

/-- `m` does not stand after `m'` in a stream. -/
def Precedes (outer : List Category) (m m' : Marker) : Prop :=
  Sorting.keyLe (sortKey outer m) (sortKey outer m') = true

theorem sortKey_inj (h : sortKey outer m = sortKey outer m') : m = m' := by
  obtain ⟨⟨c, s, e⟩, role⟩ := m
  obtain ⟨⟨c', s', e'⟩, role'⟩ := m'
  cases role <;> cases role' <;>
    simp only [sortKey, List.cons.injEq, and_true, Int.reduceEq, false_and, and_false,
      true_and] at h
  all_goals
    obtain ⟨h1, h2, -, h4⟩ := h
    have hc : c = c' := Category.precedence_inj (by omega)
    have he : e = e' := by omega
    have hs : s = s' := by omega
    rw [hc, he, hs]

/-- The order of a stream rests on which categories are outer ones. -/
theorem sortKey_congr {outer' : List Category} (h : ∀ c, c ∈ outer ↔ c ∈ outer') :
    sortKey outer = sortKey outer' := by
  funext m
  simp only [sortKey, h]

theorem Precedes.antisymm (h : Precedes outer m m') (h' : Precedes outer m' m) : m = m' :=
  sortKey_inj (Sorting.keyLe_antisymm h h')

theorem Precedes.trans {m'' : Marker} (h : Precedes outer m m') (h' : Precedes outer m' m'') :
    Precedes outer m m'' := Sorting.keyLe_trans h h'

theorem stream_precedes (outer : List Category) (spans : List Span) :
    (stream outer spans).Pairwise (Precedes outer) := Sorting.sortBy_pairwise _ _

@[simp] theorem mem_pairs : m ∈ pairs spans ↔ m.span ∈ spans := by
  obtain ⟨s, role⟩ := m
  cases role <;> simp [pairs]

@[simp] theorem mem_stream : m ∈ stream outer spans ↔ m.span ∈ spans := by
  rw [(stream_perm outer spans).mem_iff, mem_pairs]

theorem pairs_nodup (h : spans.Nodup) : (pairs spans).Nodup := by
  induction spans with
  | nil => exact .nil
  | cons s spans ih =>
    rw [List.nodup_cons] at h
    have hs : ∀ role, (⟨s, role⟩ : Marker) ∉ pairs spans := fun role => by simpa using h.1
    change (⟨s, .opening⟩ :: ⟨s, .closing⟩ :: pairs spans : List Marker).Nodup
    simp [hs, ih h.2]

theorem stream_nodup (h : spans.Nodup) : (stream outer spans).Nodup :=
  (stream_perm outer spans).nodup_iff.mpr (pairs_nodup h)

/-- Both ends of a span of the list have a place in the stream. -/
theorem exists_index (outer : List Category) {s : Span} (hs : s ∈ spans) (role : Role) :
    ∃ i : Nat, (stream outer spans)[i]? = some ⟨s, role⟩ :=
  List.getElem?_of_mem (mem_stream.mpr hs)

theorem mem_of_index (h : (stream outer spans)[i]? = some m) : m.span ∈ spans :=
  mem_stream.mp (List.mem_of_getElem? h)

theorem precedes_of_lt (hi : (stream outer spans)[i]? = some m)
    (hj : (stream outer spans)[j]? = some m') (h : i < j) : Precedes outer m m' := by
  obtain ⟨hil, rfl⟩ := List.getElem?_eq_some_iff.mp hi
  obtain ⟨hjl, rfl⟩ := List.getElem?_eq_some_iff.mp hj
  exact List.pairwise_iff_getElem.mp (stream_precedes outer spans) i j hil hjl h

theorem index_unique (hd : spans.Nodup) (hi : (stream outer spans)[i]? = some m)
    (hj : (stream outer spans)[j]? = some m) : i = j := by
  obtain ⟨hil, -⟩ := List.getElem?_eq_some_iff.mp hi
  exact (List.getElem?_inj hil (stream_nodup hd)).mp (hi.trans hj.symm)

/-- Different markers stand in the order of their keys. -/
theorem index_lt_iff (hi : (stream outer spans)[i]? = some m)
    (hj : (stream outer spans)[j]? = some m') (hne : m ≠ m') :
    i < j ↔ Precedes outer m m' := by
  constructor
  · exact precedes_of_lt hi hj
  · intro h
    rcases Nat.lt_trichotomy i j with hlt | rfl | hlt
    · exact hlt
    · exact absurd (Option.some.inj (hi.symm.trans hj)) hne
    · exact absurd (h.antisymm (precedes_of_lt hj hi hlt)) hne

/-! ### Places compared by the ends of spans -/

section Places

variable {s u : Span}

theorem precedes_opening_closing :
    Precedes outer ⟨s, .opening⟩ ⟨u, .closing⟩ ↔ s.start < u.stop := by
  simp [Precedes, sortKey, Sorting.keyLe]

theorem precedes_closing_opening :
    Precedes outer ⟨s, .closing⟩ ⟨u, .opening⟩ ↔ s.stop ≤ u.start := by
  simp [Precedes, sortKey, Sorting.keyLe]
  omega

theorem precedes_opening_opening : Precedes outer ⟨s, .opening⟩ ⟨u, .opening⟩ ↔
    s.start < u.start ∨ s.start = u.start ∧ (u.stop < s.stop ∨ s.stop = u.stop ∧
      ((s.category ∈ outer ∧ u.category ∉ outer) ∨ ((s.category ∈ outer ↔ u.category ∈ outer) ∧
        s.category.precedence ≤ u.category.precedence))) := by
  by_cases hs : s.category ∈ outer <;> by_cases hu : u.category ∈ outer <;>
    simp [Precedes, sortKey, Sorting.keyLe, hs, hu] <;> omega

theorem precedes_closing_closing : Precedes outer ⟨s, .closing⟩ ⟨u, .closing⟩ ↔
    s.stop < u.stop ∨ s.stop = u.stop ∧ (u.start < s.start ∨ s.start = u.start ∧
      ((s.category ∉ outer ∧ u.category ∈ outer) ∨ ((s.category ∈ outer ↔ u.category ∈ outer) ∧
        u.category.precedence ≤ s.category.precedence))) := by
  by_cases hs : s.category ∈ outer <;> by_cases hu : u.category ∈ outer <;>
    simp [Precedes, sortKey, Sorting.keyLe, hs, hu] <;> omega

end Places

end Lexeme.Marker
