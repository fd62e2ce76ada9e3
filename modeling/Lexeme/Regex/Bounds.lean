import Lexeme.Regex.Scan

/-! Where matches can end. Main statement: no expression moves backwards or leaves the text. -/

namespace Lexeme.Regex

theorem mem_times_bounds {body : Nat → List Nat} {size : Nat}
    (h : ∀ i, i ≤ size → ∀ j ∈ body i, i ≤ j ∧ j ≤ size) (n : Nat) {i j : Nat} (hi : i ≤ size)
    (hj : j ∈ times body n i) : i ≤ j ∧ j ≤ size := by
  induction n generalizing i with
  | zero =>
    simp only [times, List.mem_singleton] at hj
    omega
  | succ n ih =>
    obtain ⟨m, hm, hj⟩ := List.mem_flatMap.mp hj
    have h1 := h i hi m hm
    have h2 := ih h1.2 hj
    omega

theorem mem_greedy_bounds {body : Nat → List Nat} {size : Nat}
    (h : ∀ i, i ≤ size → ∀ j ∈ body i, i ≤ j ∧ j ≤ size) (n : Nat) {i j : Nat} (hi : i ≤ size)
    (hj : j ∈ greedy body n i) : i ≤ j ∧ j ≤ size := by
  induction n generalizing i with
  | zero =>
    simp only [greedy, List.mem_singleton] at hj
    omega
  | succ n ih =>
    rcases List.mem_append.mp hj with hj | hj
    · obtain ⟨m, hm, hj⟩ := List.mem_flatMap.mp hj
      have h1 := h i hi m hm
      by_cases hmi : m = i
      · simp only [hmi, if_true, List.mem_singleton] at hj
        omega
      · simp only [hmi, if_false] at hj
        have h2 := ih h1.2 hj
        omega
    · simp only [List.mem_singleton] at hj
      omega

/-- From a position of the text every end lies behind it and inside the text. -/
theorem mem_ends_bounds {t : Array Char} {r : Regex} {i j : Nat} (hi : i ≤ t.size)
    (hj : j ∈ r.ends t i) : i ≤ j ∧ j ≤ t.size := by
  induction r generalizing i j with
  | empty =>
    simp only [ends, List.mem_singleton] at hj
    omega
  | never => simp [ends] at hj
  | one k =>
    by_cases hk : t[i]?.any k.test
    · simp only [ends, hk, if_true, List.mem_singleton] at hj
      have hlt : i < t.size := by
        by_cases hlt : i < t.size
        · exact hlt
        · simp [Array.getElem?_eq_none (Nat.le_of_not_lt hlt)] at hk
      omega
    · simp [ends, hk] at hj
  | boundary =>
    by_cases hb : atBoundary t i
    · simp only [ends, hb, if_true, List.mem_singleton] at hj
      omega
    · simp [ends, hb] at hj
  | seq a b iha ihb =>
    obtain ⟨m, hm, hj⟩ := List.mem_flatMap.mp hj
    have h1 := iha hi hm
    have h2 := ihb h1.2 hj
    omega
  | alt a b iha ihb =>
    rcases List.mem_append.mp hj with hj | hj
    · exact iha hi hj
    · exact ihb hi hj
  | notAhead r =>
    by_cases hr : (r.ends t i).isEmpty
    · simp only [ends, hr, if_true, List.mem_singleton] at hj
      omega
    · simp [ends, hr] at hj
  | rep r low high ih =>
    have h : ∀ i, i ≤ t.size → ∀ j ∈ r.ends t i, i ≤ j ∧ j ≤ t.size :=
      fun i hi j hj => ih hi hj
    obtain ⟨m, hm, hj⟩ := List.mem_flatMap.mp hj
    have h1 := mem_times_bounds h low hi hm
    have h2 := mem_greedy_bounds h _ h1.2 hj
    omega

theorem matchAt_bounds {t : Array Char} {r : Regex} {i j : Nat} (hi : i ≤ t.size)
    (hj : r.matchAt t i = some j) : i ≤ j ∧ j ≤ t.size := by
  rw [matchAt_eq_head?] at hj
  exact mem_ends_bounds hi (List.mem_of_head? hj)

end Lexeme.Regex
