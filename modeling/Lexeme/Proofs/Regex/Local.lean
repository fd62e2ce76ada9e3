import Lexeme.Proofs.Regex.Ends
import Mathlib.Data.List.ProdSigma

/-! What an expression says about single characters of its matches: which classes occur, which ones
cannot be missing, which begin and end a match, and which stand side by side. All of it is computed
from the expression, so that facts about a grammar are settled by evaluation. -/

namespace Lexeme

/-- No character is of both classes; said of plain classes only. -/
def CharClass.apart (k l : CharClass) : Bool :=
  !k.negated && !l.negated &&
    k.ranges.all fun a => l.ranges.all fun b => a.last < b.first || b.last < a.first

theorem CharClass.not_test_of_apart {k l : CharClass} (h : k.apart l = true) {c : Char}
    (hk : k.test c = true) : l.test c = false := by
  simp only [apart, Bool.and_eq_true, Bool.not_eq_true', List.all_eq_true, Bool.or_eq_true,
    decide_eq_true_eq] at h
  obtain ⟨⟨h1, h2⟩, h3⟩ := h
  rw [test, h1, Bool.bne_false, CodeRange.anyContains_iff] at hk
  obtain ⟨a, ha, ha1, ha2⟩ := hk
  rw [test, h2, Bool.bne_false, ← Bool.not_eq_true, CodeRange.anyContains_iff]
  rintro ⟨b, hb, hb1, hb2⟩
  have := h3 a ha b hb
  omega

/-- Every character of `k` is one of `l`; said of plain classes only. -/
def CharClass.within (k l : CharClass) : Bool :=
  !k.negated && !l.negated &&
    k.ranges.all fun a => l.ranges.any fun b => b.first ≤ a.first && a.last ≤ b.last

theorem CharClass.test_of_within {k l : CharClass} (h : k.within l = true) {c : Char}
    (hk : k.test c = true) : l.test c = true := by
  simp only [within, Bool.and_eq_true, Bool.not_eq_true', List.all_eq_true, List.any_eq_true,
    decide_eq_true_eq] at h
  obtain ⟨⟨h1, h2⟩, h3⟩ := h
  rw [test, h1, Bool.bne_false, CodeRange.anyContains_iff] at hk
  obtain ⟨a, ha, ha1, ha2⟩ := hk
  obtain ⟨b, hb, hb1, hb2⟩ := h3 a ha
  rw [test, h2, Bool.bne_false, CodeRange.anyContains_iff]
  exact ⟨b, hb, by omega, by omega⟩

namespace Regex

theorem At.within {t : Array Char} {k l : CharClass} {p : Nat} (h : At t k p)
    (hk : k.within l = true) : At t l p := by
  obtain ⟨c, hc, hkc⟩ := h
  exact ⟨c, hc, CharClass.test_of_within hk hkc⟩

theorem At.not_apart {t : Array Char} {k l : CharClass} {p : Nat} (h : At t k p)
    (hk : k.apart l = true) : ¬ At t l p := by
  rintro ⟨d, hd, hl⟩
  obtain ⟨c, hc, hkc⟩ := h
  obtain rfl : c = d := Option.some.inj (hc.symm.trans hd)
  rw [CharClass.not_test_of_apart hk hkc] at hl
  cases hl

/-! ### What is computed from an expression -/

/-- The classes that occur in an expression outside of its look-aheads. -/
def classes : Regex → List CharClass
  | .empty => []
  | .never => []
  | .one k => [k]
  | .boundary => []
  | .seq a b => a.classes ++ b.classes
  | .alt a b => a.classes ++ b.classes
  | .notAhead _ => []
  | .rep r _ _ => r.classes

/-- Every match has a character of a class with the property. -/
def needs (p : CharClass → Bool) : Regex → Bool
  | .empty => false
  | .never => true
  | .one k => p k
  | .boundary => false
  | .seq a b => a.needs p || b.needs p
  | .alt a b => a.needs p && b.needs p
  | .notAhead _ => false
  | .rep r low _ => low != 0 && r.needs p

/-- Some match may be empty. -/
def nullable : Regex → Bool
  | .empty => true
  | .never => false
  | .one _ => false
  | .boundary => true
  | .seq a b => a.nullable && b.nullable
  | .alt a b => a.nullable || b.nullable
  | .notAhead _ => true
  | .rep r low _ => low == 0 || r.nullable

/-- The classes that can begin a match. -/
def firsts : Regex → List CharClass
  | .empty => []
  | .never => []
  | .one k => [k]
  | .boundary => []
  | .seq a b => if a.nullable then a.firsts ++ b.firsts else a.firsts
  | .alt a b => a.firsts ++ b.firsts
  | .notAhead _ => []
  | .rep r _ _ => r.firsts

/-- The classes that can end a match. -/
def lasts : Regex → List CharClass
  | .empty => []
  | .never => []
  | .one k => [k]
  | .boundary => []
  | .seq a b => if b.nullable then a.lasts ++ b.lasts else b.lasts
  | .alt a b => a.lasts ++ b.lasts
  | .notAhead _ => []
  | .rep r _ _ => r.lasts

/-- A repetition of at most one round. -/
def atMostOnce (low : Nat) (high : Option Nat) : Bool := high.any fun h => max low h ≤ 1

/-- The pairs of classes that can stand side by side in a match. -/
def adjacent : Regex → List (CharClass × CharClass)
  | .empty => []
  | .never => []
  | .one _ => []
  | .boundary => []
  | .seq a b => a.adjacent ++ b.adjacent ++ a.lasts.product b.firsts
  | .alt a b => a.adjacent ++ b.adjacent
  | .notAhead _ => []
  | .rep r low high =>
    if atMostOnce low high then r.adjacent else r.adjacent ++ r.lasts.product r.firsts

/-! ### What it says about a match -/

variable {t : Array Char} {i j m : Nat} {r a b : Regex}

/-- The part of the text from `i` to `j` is made as the expression says. -/
structure Shaped (t : Array Char) (r : Regex) (i j : Nat) : Prop where
  le : i ≤ j
  empty : i = j → r.nullable = true
  inside : ∀ p, i ≤ p → p < j → ∃ k ∈ r.classes, At t k p
  first : i < j → ∃ k ∈ r.firsts, At t k i
  last : i < j → ∃ k ∈ r.lasts, At t k (j - 1)
  beside : ∀ p, i ≤ p → p + 1 < j → ∃ k ∈ r.adjacent, At t k.1 p ∧ At t k.2 (p + 1)

theorem shaped_nothing (h : r.nullable = true) (i : Nat) : Shaped t r i i :=
  ⟨Nat.le_refl i, fun _ => h, fun p _ _ => by omega, fun _ => by omega, fun _ => by omega,
    fun p _ _ => by omega⟩

theorem shaped_one {k : CharClass} (h : At t k i) : Shaped t (.one k) i (i + 1) := by
  refine ⟨by omega, by omega, fun p hp hp' => ?_, fun _ => ⟨k, by simp [firsts], h⟩,
    fun _ => ⟨k, by simp [lasts], h⟩, fun p _ _ => by omega⟩
  obtain rfl : p = i := by omega
  exact ⟨k, by simp [classes], h⟩

/-- Classes at the end of one part and at the beginning of the next stand side by side. -/
theorem beside_seam (ha : Shaped t a i m) (hb : Shaped t b m j) (him : i < m) (hmj : m < j) :
    ∃ k ∈ a.lasts.product b.firsts, At t k.1 (m - 1) ∧ At t k.2 m := by
  obtain ⟨k, hk, hkt⟩ := ha.last him
  obtain ⟨l, hl, hlt⟩ := hb.first hmj
  exact ⟨(k, l), List.mem_product.mpr ⟨hk, hl⟩, hkt, hlt⟩

theorem Shaped.seq (ha : Shaped t a i m) (hb : Shaped t b m j) : Shaped t (.seq a b) i j := by
  have him := ha.le
  have hmj := hb.le
  refine ⟨by omega, ?_, ?_, ?_, ?_, ?_⟩
  · intro hij
    simp only [nullable, Bool.and_eq_true]
    exact ⟨ha.empty (by omega), hb.empty (by omega)⟩
  · intro p hp hp'
    simp only [classes, List.mem_append]
    rcases Nat.lt_or_ge p m with hpm | hpm
    · obtain ⟨k, hk, hkt⟩ := ha.inside p hp hpm
      exact ⟨k, .inl hk, hkt⟩
    · obtain ⟨k, hk, hkt⟩ := hb.inside p hpm hp'
      exact ⟨k, .inr hk, hkt⟩
  · intro hij
    rw [firsts]
    rcases Nat.lt_or_eq_of_le him with him | rfl
    · obtain ⟨k, hk, hkt⟩ := ha.first him
      refine ⟨k, ?_, hkt⟩
      split
      · exact List.mem_append_left _ hk
      · exact hk
    · obtain ⟨k, hk, hkt⟩ := hb.first hij
      rw [if_pos (ha.empty rfl)]
      exact ⟨k, List.mem_append_right _ hk, hkt⟩
  · intro hij
    rw [lasts]
    rcases Nat.lt_or_eq_of_le hmj with hmj | rfl
    · obtain ⟨k, hk, hkt⟩ := hb.last hmj
      refine ⟨k, ?_, hkt⟩
      split
      · exact List.mem_append_right _ hk
      · exact hk
    · obtain ⟨k, hk, hkt⟩ := ha.last hij
      rw [if_pos (hb.empty rfl)]
      exact ⟨k, List.mem_append_left _ hk, hkt⟩
  · intro p hp hp'
    simp only [adjacent, List.mem_append]
    rcases Nat.lt_trichotomy (p + 1) m with hpm | rfl | hpm
    · obtain ⟨k, hk, hkt⟩ := ha.beside p hp hpm
      exact ⟨k, .inl (.inl hk), hkt⟩
    · obtain ⟨k, hk, hkt⟩ := beside_seam ha hb (by omega) hp'
      exact ⟨k, .inr hk, hkt⟩
    · obtain ⟨k, hk, hkt⟩ := hb.beside p (by omega) hp'
      exact ⟨k, .inl (.inr hk), hkt⟩

/-- An expression that says no less gives the same shape. -/
theorem Shaped.weaken (h : Shaped t a i j) (hn : a.nullable = true → b.nullable = true)
    (hc : a.classes ⊆ b.classes) (hf : a.firsts ⊆ b.firsts) (hl : a.lasts ⊆ b.lasts)
    (hx : a.adjacent ⊆ b.adjacent) : Shaped t b i j := by
  refine ⟨h.le, fun hij => hn (h.empty hij), fun p hp hp' => ?_, fun hij => ?_, fun hij => ?_,
    fun p hp hp' => ?_⟩
  · obtain ⟨k, hk, hkt⟩ := h.inside p hp hp'
    exact ⟨k, hc hk, hkt⟩
  · obtain ⟨k, hk, hkt⟩ := h.first hij
    exact ⟨k, hf hk, hkt⟩
  · obtain ⟨k, hk, hkt⟩ := h.last hij
    exact ⟨k, hl hk, hkt⟩
  · obtain ⟨k, hk, hkt⟩ := h.beside p hp hp'
    exact ⟨k, hx hk, hkt⟩

/-- Rounds of one shape have the shape of a repetition. -/
theorem shaped_of_rounds (hr : ∀ i j, j ∈ ends t r i → Shaped t r i j) {n : Nat}
    (h : Rounds (ends t r) n i j) : Shaped t (.rep r 0 none) i j := by
  induction h with
  | done i => exact shaped_nothing (by simp [nullable]) i
  | more hm h ih =>
    refine ((hr _ _ hm).seq ih).weaken (by simp [nullable]) ?_ ?_ ?_ ?_
    · simp [classes]
    · simp only [firsts]
      split <;> simp
    · simp [lasts, nullable]
    · simp [adjacent, firsts, atMostOnce]

/-- Rounds within its bounds have the shape of the repetition itself. -/
theorem shaped_rep (hr : ∀ i j, j ∈ ends t r i → Shaped t r i j) {n low : Nat}
    {high : Option Nat} (hlow : low ≤ n) (hhigh : ∀ b ∈ high, n ≤ max low b)
    (h : Rounds (ends t r) n i j) : Shaped t (.rep r low high) i j := by
  have hs := shaped_of_rounds hr h
  refine ⟨hs.le, fun hij => ?_, hs.inside, hs.first, hs.last, ?_⟩
  · simp only [nullable, Bool.or_eq_true, beq_iff_eq]
    cases h with
    | done => exact .inl (by omega)
    | more hm hrest =>
      have h1 := (hr _ _ hm).le
      have h2 := (shaped_of_rounds hr hrest).le
      exact .inr ((hr _ _ hm).empty (by omega))
  · rw [adjacent]
    split
    · -- at most one round: every pair of neighbours lies inside it
      rename_i hone
      obtain ⟨b, hb, hle⟩ := (Option.any_eq_true _ _).mp hone
      have hn := hhigh b hb
      have hle := of_decide_eq_true hle
      cases h with
      | done => exact fun p _ _ => by omega
      | more hm hrest =>
        cases hrest with
        | done => exact (hr _ _ hm).beside
        | more => omega
    · simpa [adjacent, atMostOnce] using hs.beside

/-- Every match is made as the expression says. -/
theorem shaped_of_mem_ends (h : j ∈ r.ends t i) : Shaped t r i j := by
  induction r generalizing i j with
  | empty =>
    obtain rfl := mem_ends_empty.mp h
    exact shaped_nothing rfl j
  | never => exact absurd h mem_ends_never
  | one k =>
    obtain ⟨hk, rfl⟩ := mem_ends_one.mp h
    exact shaped_one hk
  | boundary =>
    obtain ⟨-, rfl⟩ := mem_ends_boundary.mp h
    exact shaped_nothing rfl j
  | seq a b iha ihb =>
    obtain ⟨m, hm, hj⟩ := mem_ends_seq.mp h
    exact (iha hm).seq (ihb hj)
  | alt a b iha ihb =>
    rcases mem_ends_alt.mp h with h | h
    · exact (iha h).weaken (by simp +contextual [nullable]) (by simp [classes]) (by simp [firsts])
        (by simp [lasts]) (by simp [adjacent])
    · exact (ihb h).weaken (by simp +contextual [nullable]) (by simp [classes]) (by simp [firsts])
        (by simp [lasts]) (by simp [adjacent])
  | notAhead r =>
    obtain ⟨-, rfl⟩ := mem_ends_notAhead.mp h
    exact shaped_nothing rfl j
  | rep r low high ih =>
    obtain ⟨n, hlow, hhigh, hn⟩ := rounds_of_mem_rep h
    exact shaped_rep (fun _ _ => ih) hlow hhigh hn

theorem le_of_mem_ends (h : j ∈ r.ends t i) : i ≤ j := (shaped_of_mem_ends h).le

theorem lt_of_mem_ends (hr : r.nullable = false) (h : j ∈ r.ends t i) : i < j := by
  have hs := shaped_of_mem_ends h
  refine Nat.lt_of_le_of_ne hs.le fun hij => ?_
  rw [hs.empty hij] at hr
  cases hr

/-- What cannot be missing is found in every match. -/
theorem exists_of_needs {p : CharClass → Bool} (hr : r.needs p = true) (h : j ∈ r.ends t i) :
    ∃ q, i ≤ q ∧ q < j ∧ ∃ k, p k = true ∧ At t k q := by
  induction r generalizing i j with
  | empty => cases hr
  | never => exact absurd h mem_ends_never
  | one k =>
    obtain ⟨hk, rfl⟩ := mem_ends_one.mp h
    exact ⟨i, by omega, by omega, k, hr, hk⟩
  | boundary => cases hr
  | seq a b iha ihb =>
    obtain ⟨m, hm, hj⟩ := mem_ends_seq.mp h
    have h1 := le_of_mem_ends hm
    have h2 := le_of_mem_ends hj
    rcases Bool.or_eq_true_iff.mp hr with hr | hr
    · obtain ⟨q, hq, hq', hk⟩ := iha hr hm
      exact ⟨q, hq, by omega, hk⟩
    · obtain ⟨q, hq, hq', hk⟩ := ihb hr hj
      exact ⟨q, by omega, hq', hk⟩
  | alt a b iha ihb =>
    obtain ⟨ha, hb⟩ := Bool.and_eq_true_iff.mp hr
    rcases mem_ends_alt.mp h with h | h
    · exact iha ha h
    · exact ihb hb h
  | notAhead r => cases hr
  | rep r low high ih =>
    obtain ⟨hlow, hr⟩ := Bool.and_eq_true_iff.mp hr
    obtain ⟨n, hn, -, hrounds⟩ := rounds_of_mem_rep h
    cases hrounds with
    | done =>
      obtain rfl : low = 0 := by omega
      cases hlow
    | more hm hrest =>
      obtain ⟨q, hq, hq', hk⟩ := ih hr hm
      have := (shaped_of_rounds (fun _ _ => shaped_of_mem_ends) hrest).le
      exact ⟨q, hq, by omega, hk⟩

/-- No character inside a match is of a class that the expression has none in common with. -/
theorem not_at_of_apart {k : CharClass} (hk : r.classes.all k.apart = true) {p : Nat}
    (h : j ∈ r.ends t i) (hp : i ≤ p) (hj : p < j) : ¬ At t k p := by
  intro hkp
  obtain ⟨l, hl, hlp⟩ := (shaped_of_mem_ends h).inside p hp hj
  exact hkp.not_apart (List.all_eq_true.mp hk l hl) hlp

/-! ### Matches inside matches -/

/-- No match of `b` fits into a match of `a`: it needs a character that `a` has no class for. -/
def excludes (a b : Regex) : Bool := b.needs fun k => a.classes.all k.apart

theorem not_within_of_excludes (h : a.excludes b = true) {i' j' : Nat} (ha : j ∈ a.ends t i)
    (hb : j' ∈ b.ends t i') : ¬ (i ≤ i' ∧ j' ≤ j) := by
  rintro ⟨hi, hj⟩
  obtain ⟨q, hq, hq', k, hk, hkq⟩ := exists_of_needs h hb
  exact not_at_of_apart hk ha (by omega) (by omega) hkq

end Regex

end Lexeme
