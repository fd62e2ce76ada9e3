import Lexeme.Pattern.Basic
import Lexeme.Proofs.Regex.Longest

/-! What patterns reach in a text: literals, bracket classes and choices among words. Main
statement: of the words that stand at a place, ordered choice takes the longest. -/

namespace Lexeme

/-- The class of a bracket body; a malformed body has no characters. -/
def CharClass.ofBody [CharNames] (body : String) : CharClass :=
  (CharClass.ofBody? body).getD ⟨false, []⟩

namespace Pattern

open Regex

variable {t : Array Char} {i j : Nat}

/-! ### The order of words -/

theorem wordLe_total (a b : String) : (wordLe a b || wordLe b a) = true := by
  simp only [wordLe, Bool.or_eq_true, Bool.and_eq_true, decide_eq_true_eq, beq_iff_eq]
  have := String.le_total a b
  rcases Nat.lt_trichotomy a.length b.length with h | h | h
  · exact .inr (.inl h)
  · rcases this with hab | hab
    · exact .inl (.inr ⟨h, hab⟩)
    · exact .inr (.inr ⟨h.symm, hab⟩)
  · exact .inl (.inl h)

theorem wordLe_trans {a b c : String} (hab : wordLe a b = true) (hbc : wordLe b c = true) :
    wordLe a c = true := by
  simp only [wordLe, Bool.or_eq_true, Bool.and_eq_true, decide_eq_true_eq, beq_iff_eq] at *
  rcases hab with hab | ⟨hab, hab'⟩ <;> rcases hbc with hbc | ⟨hbc, hbc'⟩
  · exact .inl (by omega)
  · exact .inl (by omega)
  · exact .inl (by omega)
  · exact .inr ⟨by omega, String.le_trans hab' hbc'⟩

@[simp] theorem mem_longestFirst {words : List String} {w : String} :
    w ∈ longestFirst words ↔ w ∈ words := by
  rw [longestFirst, (Sorting.sort_perm _ _).mem_iff, List.mem_eraseDups]

theorem longestFirst_sorted (words : List String) :
    (longestFirst words).Pairwise fun a b => wordLe a b = true := by
  rw [longestFirst, Sorting.sort_eq_mergeSort]
  exact List.pairwise_mergeSort (fun a b c => wordLe_trans (a := a) (b := b) (c := c))
    wordLe_total _

theorem longestFirst_pairwise (words : List String) :
    (longestFirst words).Pairwise fun a b => b.length ≤ a.length := by
  refine (longestFirst_sorted words).imp fun hab => ?_
  simp only [wordLe, Bool.or_eq_true, Bool.and_eq_true, decide_eq_true_eq, beq_iff_eq] at hab
  omega

theorem oneOf_eq_foldl {words : List String} (h : words ≠ []) :
    ∃ w ws, longestFirst words = w :: ws ∧
      oneOf words = ws.foldl (fun p v => .alt p (.literal v)) (.literal w) := by
  cases hl : longestFirst words with
  | nil =>
    obtain ⟨w, hw⟩ := List.exists_mem_of_ne_nil words h
    rw [← mem_longestFirst, hl] at hw
    cases hw
  | cons w ws => exact ⟨w, ws, rfl, by rw [oneOf, hl]⟩

/-! ### Characters and literals -/

variable [CharNames]

@[simp] theorem toRegex_append (a b : Pattern) :
    (a ++ b).toRegex = .seq a.toRegex b.toRegex := rfl

@[simp] theorem toRegex_orElse (a b : Pattern) :
    (a <|> b).toRegex = .alt a.toRegex b.toRegex := rfl

@[simp] theorem toRegex_plus (p : Pattern) : (plus p).toRegex = .rep p.toRegex 1 none := rfl

@[simp] theorem toRegex_star (p : Pattern) : (star p).toRegex = .rep p.toRegex 0 none := rfl

@[simp] theorem toRegex_optional (p : Pattern) :
    (optional p).toRegex = .rep p.toRegex 0 (some 1) := rfl

/-- A set is its class; a malformed one matches nothing, as its class has no characters. -/
theorem toRegex_set (body : String) :
    (set body).toRegex = .one (.ofBody body) ∨
      (set body).toRegex = .never ∧ CharClass.ofBody body = ⟨false, []⟩ := by
  rw [toRegex, CharClass.ofBody]
  cases CharClass.ofBody? body with
  | some k => exact .inl rfl
  | none => exact .inr ⟨rfl, rfl⟩

@[simp] theorem mem_ends_set {body : String} :
    j ∈ ends t (set body).toRegex i ↔ At t (.ofBody body) i ∧ j = i + 1 := by
  rcases toRegex_set body with h | ⟨h, hbody⟩
  · rw [h, mem_ends_one]
  · rw [h, hbody]
    simp [At, CharClass.test]

@[simp] theorem mem_ends_literal {text : String} :
    j ∈ ends t (literal text).toRegex i ↔ Stands t i text.toList ∧ j = i + text.length := by
  rw [← String.length_toList]
  exact mem_ends_chars

@[simp] theorem mem_ends_wordUnless {p c : Pattern} :
    j ∈ ends t (wordUnless p c).toRegex i ↔
      atBoundary t i = true ∧ j ∈ ends t p.toRegex i ∧ atBoundary t j = true ∧
        ends t c.toRegex j = [] := by
  change j ∈ ends t (.seq .boundary (.seq p.toRegex (.seq .boundary (.notAhead c.toRegex)))) i ↔ _
  simp only [mem_ends_seq, mem_ends_boundary, mem_ends_notAhead]
  constructor
  · rintro ⟨m, ⟨hb, rfl⟩, n, hw, n', ⟨hb', rfl⟩, hu, rfl⟩
    exact ⟨hb, hw, hb', hu⟩
  · rintro ⟨hb, hw, hb', hu⟩
    exact ⟨i, ⟨hb, rfl⟩, j, hw, j, ⟨hb', rfl⟩, hu, rfl⟩

theorem longestFirst_set (body : String) : LongestFirst t (set body).toRegex [] := by
  rcases toRegex_set body with h | ⟨h, -⟩
  · exact h ▸ longestFirst_one _
  · exact h ▸ longestFirst_of_length_le_one fun i => by simp [ends]

theorem set_not_nullable (body : String) : (set body).toRegex.nullable = false := by
  rcases toRegex_set body with h | ⟨h, -⟩ <;> rw [h] <;> rfl

theorem firsts_set_subset (body : String) : (set body).toRegex.firsts ⊆ [.ofBody body] := by
  rcases toRegex_set body with h | ⟨h, -⟩ <;> rw [h]
  · exact List.Subset.refl _
  · exact List.nil_subset _

/-- A run of characters of a class goes on where one of them stands. -/
theorem longestFirst_run (body : String) (low : Nat) :
    LongestFirst t (.rep (set body).toRegex low none) [.ofBody body] :=
  ((longestFirst_set body).rep (set_not_nullable body) low none).mono (firsts_set_subset body)

theorem longestFirst_literal (text : String) : LongestFirst t (literal text).toRegex [] :=
  longestFirst_chars text.toList

/-! ### Choice among words -/

theorem ends_foldl_alt (words : List String) (p : Pattern) :
    ends t (words.foldl (fun p v => .alt p (.literal v)) p).toRegex i =
      ends t p.toRegex i ++ words.flatMap fun w => ends t (literal w).toRegex i := by
  induction words generalizing p with
  | nil => simp
  | cons w words ih =>
    rw [List.foldl_cons, ih, List.flatMap_cons, ← List.append_assoc]
    rfl

theorem ends_oneOf {words : List String} (h : words ≠ []) :
    ends t (oneOf words).toRegex i =
      (longestFirst words).flatMap fun w => ends t (literal w).toRegex i := by
  obtain ⟨w, ws, hl, hw⟩ := oneOf_eq_foldl h
  rw [hl, hw]
  exact ends_foldl_alt ws (.literal w)

@[simp] theorem mem_ends_oneOf {words : List String} (h : words ≠ []) :
    j ∈ ends t (oneOf words).toRegex i ↔
      ∃ w ∈ words, Stands t i w.toList ∧ j = i + w.length := by
  simp only [ends_oneOf h, List.mem_flatMap, mem_longestFirst, mem_ends_literal]

/-- Of the words that stand at a place the longest is taken. -/
theorem le_matchAt_oneOf {words : List String} (h : words ≠ []) {e : Nat}
    (hj : (oneOf words).toRegex.matchAt t i = some j)
    (he : e ∈ ends t (oneOf words).toRegex i) : e ≤ j := by
  have hdesc : (ends t (oneOf words).toRegex i).Pairwise fun x y => y ≤ x := by
    rw [ends_oneOf h, List.pairwise_flatMap]
    constructor
    · intro w _
      exact ((longestFirst_literal w).descending i).imp Nat.le_of_lt
    · refine (longestFirst_pairwise words).imp fun hab x hx y hy => ?_
      rw [mem_ends_literal] at hx hy
      omega
  rw [matchAt_eq_head?] at hj
  cases hl : ends t (oneOf words).toRegex i with
  | nil =>
    rw [hl] at he
    cases he
  | cons x xs =>
    rw [hl] at hdesc hj he
    cases hj
    rcases List.mem_cons.mp he with rfl | he
    · exact Nat.le_refl _
    · exact (List.pairwise_cons.mp hdesc).1 e he

end Pattern

end Lexeme
