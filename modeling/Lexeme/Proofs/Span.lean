import Lexeme.Span
import Mathlib.Data.List.Sort

/-! Lists of spans as matching leaves them: no span is empty, and spans of one category share no
character. Main statements: such a list stays so when spans are dropped or moved, sorting forgets
the order in which spans were given, and a list in strict document order is known by its members. -/

namespace Lexeme.Span

/-- No span is empty or inverted, and spans of one category do not overlap. -/
structure Tidy (spans : List Span) : Prop where
  proper : ∀ s ∈ spans, s.start < s.stop
  apart : spans.Pairwise fun a b => a.category = b.category → ¬ a.Overlaps b

variable {spans : List Span} {a b : Span}

theorem Overlaps.symm (h : a.Overlaps b) : b.Overlaps a := ⟨h.2, h.1⟩

theorem Overlaps.of_contains (h : a.Contains b) (hb : b.start < b.stop) : a.Overlaps b := by
  obtain ⟨h1, h2⟩ := h
  constructor <;> omega

theorem Contains.trans {c : Span} (h : a.Contains b) (h' : b.Contains c) : a.Contains c :=
  ⟨Int.le_trans h.1 h'.1, Int.le_trans h'.2 h.2⟩

theorem Tidy.sublist {kept : List Span} (h : Tidy spans) (hs : kept.Sublist spans) : Tidy kept :=
  ⟨fun s hm => h.proper s (hs.mem hm), h.apart.sublist hs⟩

theorem Tidy.perm {moved : List Span} (h : Tidy spans) (hp : moved.Perm spans) : Tidy moved := by
  refine ⟨fun s hm => h.proper s (hp.mem_iff.mp hm), hp.symm.pairwise h.apart ?_⟩
  intro x y hxy hc ho
  exact hxy hc.symm ho.symm

theorem Tidy.sort (h : Tidy spans) : Tidy (sort spans) := h.perm (sort_perm spans)

/-- Two spans of one category that share a character are one span. -/
theorem Tidy.eq_of_overlaps (h : Tidy spans) (ha : a ∈ spans) (hb : b ∈ spans)
    (hc : a.category = b.category) (ho : a.Overlaps b) : a = b := by
  have hpair : spans.Pairwise fun x y => x.category = y.category → x.Overlaps y → x = y :=
    h.apart.imp fun hxy hc ho => absurd ho (hxy hc)
  have hflip : spans.Pairwise (flip fun x y => x.category = y.category → x.Overlaps y → x = y) :=
    h.apart.imp fun hxy hc ho => absurd ho.symm (hxy hc.symm)
  exact hpair.forall_of_forall_of_flip (fun _ _ _ _ => rfl) hflip ha hb hc ho

theorem Tidy.eq_of_contains (h : Tidy spans) (ha : a ∈ spans) (hb : b ∈ spans)
    (hc : a.category = b.category) (hab : a.Contains b) : a = b :=
  h.eq_of_overlaps ha hb hc (.of_contains hab (h.proper b hb))

theorem Tidy.nodup (h : Tidy spans) : spans.Nodup := by
  refine h.apart.imp_of_mem fun ha _ hxy => ?_
  rintro rfl
  exact hxy rfl ⟨h.proper _ ha, h.proper _ ha⟩

/-- The text of a span within a text is cut out of it. -/
theorem text_eq_take_drop {t : Array Char} (h0 : 0 ≤ a.start) (hle : a.start ≤ a.stop)
    (hstop : a.stop ≤ t.size) :
    a.text t = String.ofList ((t.toList.drop a.start.toNat).take (a.stop - a.start).toNat) := by
  have hlen : a.stop.toNat - a.start.toNat = (a.stop - a.start).toNat := by omega
  rw [text, Slice.slice, Slice.position_of_le h0 (by omega), Slice.position_of_le (by omega) hstop,
    Array.toList_extract, List.extract_eq_take_drop, hlen]

/-! ### Document order -/

/-- `a` does not come after `b` in a document. -/
def Precedes (a b : Span) : Prop := Sorting.keyLe a.sortKey b.sortKey = true

theorem precedes_iff : a.Precedes b ↔
    a.start < b.start ∨ a.start = b.start ∧
      (b.stop < a.stop ∨ a.stop = b.stop ∧ a.category.precedence ≤ b.category.precedence) := by
  simp only [Precedes, sortKey, Sorting.keyLe, Bool.or_eq_true, Bool.and_eq_true,
    decide_eq_true_eq, and_true]
  omega

theorem sort_precedes (spans : List Span) : (sort spans).Pairwise Precedes :=
  Sorting.sortBy_pairwise sortKey spans

theorem sort_eq_self (h : spans.Pairwise Precedes) : sort spans = spans :=
  Sorting.sortBy_of_pairwise h

theorem sort_sort (spans : List Span) : sort (sort spans) = sort spans :=
  sort_eq_self (sort_precedes spans)

theorem sort_eq_of_perm {xs ys : List Span} (h : xs.Perm ys) : sort xs = sort ys :=
  Sorting.sortBy_eq_of_perm (fun _ _ => sortKey_inj) h

/-- Document order is strict between different spans. -/
theorem sortKey_lt_iff : a.sortKey < b.sortKey ↔ a.Precedes b ∧ a ≠ b := by
  constructor
  · intro h
    refine ⟨?_, fun heq => List.lt_irrefl _ (heq ▸ h)⟩
    simp only [sortKey, List.cons_lt_cons_iff, List.not_lt_nil, and_false, or_false] at h
    rw [precedes_iff]
    omega
  · rintro ⟨h, hne⟩
    have hkey : a.sortKey ≠ b.sortKey := fun he => hne (sortKey_inj he)
    simp only [sortKey, List.cons_lt_cons_iff, List.not_lt_nil, and_false, or_false, ne_eq,
      List.cons.injEq, and_true] at hkey ⊢
    rw [precedes_iff] at h
    omega

theorem Tidy.increasing (h : Tidy spans) (hs : spans.Pairwise Precedes) :
    spans.Pairwise fun a b => a.sortKey < b.sortKey :=
  (hs.and h.nodup).imp sortKey_lt_iff.mpr

/-- Lists in strict document order that have the same spans are one list. -/
theorem eq_of_increasing {xs ys : List Span} (hx : xs.Pairwise fun a b => a.sortKey < b.sortKey)
    (hy : ys.Pairwise fun a b => a.sortKey < b.sortKey) (h : ∀ s, s ∈ xs ↔ s ∈ ys) : xs = ys := by
  have : Std.Irrefl fun a b : Span => a.sortKey < b.sortKey := ⟨fun _ => List.lt_irrefl _⟩
  have : Std.Antisymm fun a b : Span => a.sortKey < b.sortKey :=
    ⟨fun _ _ hab hba => absurd (List.lt_trans hab hba) (List.lt_irrefl _)⟩
  exact hx.eq_of_mem_iff hy h

end Lexeme.Span
