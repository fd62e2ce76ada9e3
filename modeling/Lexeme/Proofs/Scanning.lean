import Lexeme.Proofs.Matching

/-! The matches of a category as a scan of the text. A scan is known by what it says about places:
where a span stands the category matches, and where none stands it does not. Main statement: the
matches of a category are the only scan, and those of several categories are the union of their
scans in strict document order. -/

namespace Lexeme.Matching

variable {t : Array Char} {c : Category} {cs : List Category} {spans : List Span} {a b : Span}

/-- Spans of one category from left to right, none of which begins before the last one has ended.
Each is the match of the category at its start, and at no place outside of them is there a match. -/
structure IsScan (t : Array Char) (c : Category) (spans : List Span) : Prop where
  ranged : ∀ s ∈ spans, s.category = c ∧ 0 ≤ s.start ∧ s.start < s.stop ∧ s.stop ≤ t.size
  ordered : spans.Pairwise fun a b => a.stop ≤ b.start
  anchored : ∀ s ∈ spans, Matched t c s.start.toNat s.stop.toNat
  complete : ∀ p : Nat, (∀ s ∈ spans, ¬ (s.start ≤ p ∧ p < s.stop)) →
    (Grammar.regex c).matchAt t p = none

theorem isScan_spansOf (t : Array Char) (c : Category) : IsScan t c (spansOf t c) where
  ranged s hs := by
    obtain ⟨i, j, rfl, hm⟩ := matched_of_mem hs
    exact ⟨rfl, Int.natCast_nonneg i, Int.ofNat_lt.mpr hm.lt, Int.ofNat_le.mpr hm.le_size⟩
  ordered := spansOf_pairwise t c
  anchored s hs := by
    obtain ⟨i, j, rfl, hm⟩ := matched_of_mem hs
    exact hm
  complete p hp := by
    rw [Option.eq_none_iff_forall_ne_some]
    intro q hm
    obtain ⟨i, j, hs, hi, hj⟩ := exists_mem_covering hm
    exact hp _ hs ⟨Int.ofNat_le.mpr hi, Int.ofNat_lt.mpr hj⟩

/-! ### One scan only -/

theorem IsScan.tidy (h : IsScan t c spans) : Span.Tidy spans := by
  refine ⟨fun s hs => (h.ranged s hs).2.2.1, h.ordered.imp fun hab _ ho => ?_⟩
  have := ho.2
  omega

/-- A span of a scan is the match at its place. -/
theorem IsScan.matched_of_mem (h : IsScan t c spans) (ha : a ∈ spans) :
    ∃ i j : Nat, a = ⟨c, i, j⟩ ∧ Matched t c i j := by
  obtain ⟨hc, h0, hlt, -⟩ := h.ranged a ha
  refine ⟨a.start.toNat, a.stop.toNat, ?_, h.anchored a ha⟩
  rw [Int.toNat_of_nonneg h0, Int.toNat_of_nonneg (by omega), ← hc]

theorem IsScan.increasing (h : IsScan t c spans) :
    spans.Pairwise fun a b => a.sortKey < b.sortKey := by
  refine h.tidy.increasing (h.ordered.imp_of_mem fun {a b} ha _ hab => ?_)
  have hproper := h.tidy.proper a ha
  rw [Span.precedes_iff]
  omega

/-- What one scan has, every other one has: were a span missing, its place would be taken by one
that begins earlier, and that one would be in both scans. -/
theorem IsScan.mem_of_mem {xs ys : List Span} (hx : IsScan t c xs) (hy : IsScan t c ys) {i j : Nat}
    (h : (⟨c, i, j⟩ : Span) ∈ xs) : (⟨c, i, j⟩ : Span) ∈ ys := by
  induction i using Nat.strongRecOn generalizing j xs ys with
  | ind i ih =>
    have hm : Matched t c i j := hx.anchored _ h
    obtain ⟨u, hu, hui, hiu⟩ : ∃ u ∈ ys, u.start ≤ i ∧ i < u.stop := by
      refine Classical.byContradiction fun hno => ?_
      have hnone := hy.complete i fun u hu hcover => hno ⟨u, hu, hcover⟩
      rw [Matched, hnone] at hm
      cases hm
    obtain ⟨p, q, rfl, hpq⟩ := hy.matched_of_mem hu
    rcases Nat.lt_or_eq_of_le (Int.ofNat_le.mp hui) with hlt | rfl
    · have hpj : p < j := Nat.lt_trans hlt hm.lt
      have hboth := hx.tidy.eq_of_overlaps (ih p hlt hy hx hu) h rfl ⟨Int.ofNat_lt.mpr hpj, hiu⟩
      simp only [Span.mk.injEq, Int.natCast_inj] at hboth
      omega
    · obtain rfl : q = j := Option.some.inj (hpq.symm.trans hm)
      exact hu

theorem IsScan.unique {xs ys : List Span} (hx : IsScan t c xs) (hy : IsScan t c ys) : xs = ys := by
  have hsubset : ∀ {xs ys : List Span}, IsScan t c xs → IsScan t c ys → ∀ s ∈ xs, s ∈ ys := by
    intro xs ys hx hy s hs
    obtain ⟨i, j, rfl, -⟩ := hx.matched_of_mem hs
    exact hx.mem_of_mem hy hs
  exact Span.eq_of_increasing hx.increasing hy.increasing
    fun s => ⟨hsubset hx hy s, hsubset hy hx s⟩

/-! ### Several categories -/

theorem spansOfAll_increasing (t : Array Char) (cs : List Category) :
    (spansOfAll t cs).Pairwise fun a b => a.sortKey < b.sortKey :=
  (spansOfAll_tidy t cs).increasing (Span.sort_precedes _)

theorem mem_spansOfAll_iff_exists : a ∈ spansOfAll t cs ↔ ∃ c ∈ cs, a ∈ spansOf t c := by
  rw [mem_spansOfAll]
  constructor
  · rintro ⟨hc, ha⟩
    exact ⟨a.category, hc, ha⟩
  · rintro ⟨c, hc, ha⟩
    obtain rfl := ((isScan_spansOf t c).ranged a ha).1
    exact ⟨hc, ha⟩

theorem spansOfAll_eq_filter (t : Array Char) (cs : List Category) :
    spansOfAll t cs = (spansOfAll t Category.all).filter (·.category ∈ cs) := by
  refine Span.eq_of_increasing (spansOfAll_increasing t cs)
    ((spansOfAll_increasing t Category.all).filter _) fun s => ?_
  simp [mem_spansOfAll, and_comm]

/-- The matches of a category are the one scan of the source. The matches of a collection of
categories, whatever its order and repetitions, are the union of their scans in strict document
order: of the matches of all categories those that are of its own. -/
theorem matches_scan (source : String) :
    (∀ c, IsScan source.toList.toArray c (matchCategory source c) ∧
      ∀ spans, IsScan source.toList.toArray c spans → spans = matchCategory source c) ∧
    ∀ cs, (∀ s, s ∈ matchAll source cs ↔ ∃ c ∈ cs, s ∈ matchCategory source c) ∧
      ((matchAll source cs).Pairwise fun a b => a.sortKey < b.sortKey) ∧
      matchAll source cs = (matchAll source Category.all).filter (·.category ∈ cs) := by
  refine ⟨fun c => ?_, fun cs => ?_⟩
  · have hscan := isScan_spansOf source.toList.toArray c
    exact ⟨hscan, fun spans hspans => hspans.unique hscan⟩
  · exact ⟨fun _ => mem_spansOfAll_iff_exists, spansOfAll_increasing _ cs,
      spansOfAll_eq_filter _ cs⟩

/-- A keyword is an identifier as well, and stands in front of it. -/
theorem matches_scan_keyword :
    IsScan "int x".toList.toArray .identifier [⟨.identifier, 0, 3⟩, ⟨.identifier, 4, 5⟩] ∧
      matchAll "int x" [.identifier, .keyword, .identifier] =
        [⟨.keyword, 0, 3⟩, ⟨.identifier, 0, 3⟩, ⟨.identifier, 4, 5⟩] ∧
      matchAll "int x" [.identifier, .keyword, .identifier] =
        (matchAll "int x" Category.all).filter
          (·.category ∈ [.identifier, .keyword, .identifier]) := by
  have hidentifiers : matchCategory "int x" .identifier =
      [⟨.identifier, 0, 3⟩, ⟨.identifier, 4, 5⟩] := by decide
  obtain ⟨hscan, hall⟩ := matches_scan "int x"
  exact ⟨hidentifiers ▸ (hscan .identifier).1, by decide, (hall _).2.2⟩

end Lexeme.Matching
