import Lexeme.Matching
import Lexeme.Proofs.Regex.Scan
import Lexeme.Proofs.Span

/-! The matches of the categories as a list of spans. Main statements: a span is a match at its
start, matches of one category share no character, and no match is passed over. -/

namespace Lexeme.Matching

variable {t : Array Char} {c : Category} {cs : List Category} {s : Span} {i j p q : Nat}

theorem regex_not_nullable (c : Category) : (Grammar.regex c).nullable = false := by
  cases c <;> decide

/-- The match of a category at a place of the text. -/
def Matched (t : Array Char) (c : Category) (i j : Nat) : Prop :=
  (Grammar.regex c).matchAt t i = some j

theorem Matched.mem_ends (h : Matched t c i j) : j ∈ (Grammar.regex c).ends t i :=
  Regex.mem_ends_of_matchAt h

theorem Matched.shaped (h : Matched t c i j) : Regex.Shaped t (Grammar.regex c) i j :=
  Regex.shaped_of_mem_ends h.mem_ends

theorem Matched.lt (h : Matched t c i j) : i < j := Regex.lt_of_matchAt (regex_not_nullable c) h

theorem Matched.le_size (h : Matched t c i j) : j ≤ t.size := by
  have hlt := Regex.lt_size_of_matchAt (regex_not_nullable c) h
  exact (Regex.matchAt_bounds (Nat.le_of_lt hlt) h).2

theorem mem_spansOf : s ∈ spansOf t c ↔
    ∃ i j : Nat, s = ⟨c, i, j⟩ ∧ (i, j) ∈ (Grammar.regex c).allMatches t := by
  simp only [spansOf, List.mem_map, List.mem_filter, Prod.exists, decide_eq_true_eq]
  constructor
  · rintro ⟨i, j, ⟨hm, -⟩, rfl⟩
    exact ⟨i, j, rfl, hm⟩
  · rintro ⟨i, j, rfl, hm⟩
    have h := Regex.matchAt_of_mem_allMatches (regex_not_nullable c) hm
    exact ⟨i, j, ⟨hm, Regex.lt_of_matchAt (regex_not_nullable c) h⟩, rfl⟩

/-- A span is the match of its category at its start. -/
theorem matched_of_mem (hs : s ∈ spansOf t c) : ∃ i j : Nat, s = ⟨c, i, j⟩ ∧ Matched t c i j := by
  obtain ⟨i, j, he, hm⟩ := mem_spansOf.mp hs
  exact ⟨i, j, he, Regex.matchAt_of_mem_allMatches (regex_not_nullable c) hm⟩

theorem matched_of_mem_spansOf (h : (⟨c, i, j⟩ : Span) ∈ spansOf t c) : Matched t c i j := by
  obtain ⟨i', j', heq, hm⟩ := matched_of_mem h
  simp only [Span.mk.injEq, Int.natCast_inj, true_and] at heq
  obtain ⟨rfl, rfl⟩ := heq
  exact hm

/-- Where a category matches, one of its spans covers the place. -/
theorem exists_mem_covering (h : Matched t c p q) :
    ∃ i j : Nat, (⟨c, i, j⟩ : Span) ∈ spansOf t c ∧ i ≤ p ∧ p < j := by
  obtain ⟨⟨i, j⟩, hm, hi, hj⟩ := Regex.exists_mem_allMatches (regex_not_nullable c) h
  exact ⟨i, j, mem_spansOf.mpr ⟨i, j, rfl, hm⟩, hi, hj⟩

/-- A match is one of the scan where no match that begins before it covers its start. -/
theorem mem_spansOf_of_matched (h : Matched t c i j)
    (hstart : ∀ x y, Matched t c x y → x < i → ¬ i < y) : (⟨c, i, j⟩ : Span) ∈ spansOf t c := by
  obtain ⟨x, y, hmem, hx, hy⟩ := exists_mem_covering h
  have hxy := matched_of_mem_spansOf hmem
  obtain rfl : x = i := Nat.le_antisymm hx (Nat.le_of_not_lt fun hlt => hstart x y hxy hlt hy)
  obtain rfl : y = j := Option.some.inj (hxy.symm.trans h)
  exact hmem

theorem spansOf_pairwise (t : Array Char) (c : Category) :
    (spansOf t c).Pairwise fun a b => a.stop ≤ b.start := by
  rw [spansOf, List.pairwise_map]
  refine ((Regex.allMatches_pairwise (regex_not_nullable c)).filter _).imp ?_
  intro x y h
  exact Int.ofNat_le.mpr h

/-- The text of a span stands at its start, and reaches to its stop. -/
theorem stands_text (hij : i ≤ j) (hj : j ≤ t.size) :
    Regex.Stands t i ((⟨c, i, j⟩ : Span).text t).toList ∧
      j = i + ((⟨c, i, j⟩ : Span).text t).length := by
  rw [Span.text_eq_take_drop (Int.natCast_nonneg i) (Int.ofNat_le.mpr hij) (Int.ofNat_le.mpr hj),
    ← String.length_toList, String.toList_ofList, Regex.stands_iff_begins]
  refine ⟨List.take_prefix _ _, ?_⟩
  rw [List.length_take, List.length_drop, Array.length_toList, Int.toNat_natCast]
  dsimp only
  omega

/-- A span over the place where a word stands has the word as its text. -/
theorem text_of_stands {w : String} (h : Regex.Stands t i w.toList) (hi : i + w.length ≤ t.size) :
    (⟨c, i, (i + w.length : Nat)⟩ : Span).text t = w := by
  obtain ⟨hs, hlen⟩ := stands_text (c := c) (Nat.le_add_right i w.length) hi
  apply String.toList_inj.mp
  refine hs.eq_of_length h ?_
  rw [String.length_toList, String.length_toList]
  omega

/-! ### All categories -/

theorem mem_spansOfAll : s ∈ spansOfAll t cs ↔ s.category ∈ cs ∧ s ∈ spansOf t s.category := by
  simp only [spansOfAll, Span.mem_sort, List.mem_flatMap, Category.mem_normalize]
  constructor
  · rintro ⟨c, hc, hs⟩
    obtain ⟨i, j, rfl, -⟩ := mem_spansOf.mp hs
    exact ⟨hc, hs⟩
  · rintro ⟨hc, hs⟩
    exact ⟨_, hc, hs⟩

/-- Every match of the categories has characters, and none of its category shares them. -/
theorem spansOfAll_tidy (t : Array Char) (cs : List Category) : Span.Tidy (spansOfAll t cs) := by
  refine Span.Tidy.sort ⟨?_, ?_⟩
  · intro s hs
    obtain ⟨c, -, hs⟩ := List.mem_flatMap.mp hs
    obtain ⟨i, j, rfl, hm⟩ := matched_of_mem hs
    exact Int.ofNat_lt.mpr hm.lt
  · rw [List.pairwise_flatMap]
    constructor
    · intro c _
      refine (spansOf_pairwise t c).imp fun h _ ho => ?_
      have := ho.2
      omega
    · have hall : Category.all.Pairwise fun c d => c ≠ d := by decide
      refine (hall.filter _).imp fun hcd a ha b hb hc => absurd hc ?_
      obtain ⟨i, j, rfl, -⟩ := mem_spansOf.mp ha
      obtain ⟨i', j', rfl, -⟩ := mem_spansOf.mp hb
      exact hcd

end Lexeme.Matching
