import Lexeme.Proofs.Regex.Local

/-! The scan of a whole text by an expression that never matches the empty text: its matches follow
one another, each is what the expression matches there, and no place where it matches is passed
over. -/

namespace Lexeme.Regex

variable {r : Regex} {t : Array Char} {n i j resume p q : Nat}

theorem mem_ends_of_matchAt (h : r.matchAt t i = some j) : j ∈ r.ends t i := by
  rw [matchAt_eq_head?] at h
  exact List.mem_of_head? h

theorem lt_of_matchAt (hr : r.nullable = false) (h : r.matchAt t i = some j) : i < j :=
  lt_of_mem_ends hr (mem_ends_of_matchAt h)

theorem matchAt_isSome (h : j ∈ r.ends t i) : ∃ k, r.matchAt t i = some k := by
  rw [matchAt_eq_head?]
  cases he : r.ends t i with
  | nil =>
    rw [he] at h
    cases h
  | cons k ks => exact ⟨k, rfl⟩

/-- One position of the scan: it is passed over, or a match begins there. -/
theorem matchesFrom_succ (hr : r.nullable = false) (n i resume : Nat) :
    ((i < resume ∨ r.matchAt t i = none) ∧
      matchesFrom r t (n + 1) i resume = matchesFrom r t n (i + 1) resume) ∨
    ∃ j, resume ≤ i ∧ r.matchAt t i = some j ∧
      matchesFrom r t (n + 1) i resume = (i, j) :: matchesFrom r t n (i + 1) j := by
  rw [matchesFrom]
  by_cases hi : i < resume
  · exact .inl ⟨.inl hi, if_pos hi⟩
  · rw [if_neg hi]
    cases hm : r.matchAt t i with
    | none => exact .inl ⟨.inr rfl, rfl⟩
    | some j =>
      refine .inr ⟨j, by omega, rfl, ?_⟩
      exact if_pos (lt_of_matchAt hr hm)

theorem mem_matchesFrom (hr : r.nullable = false) (h : (p, q) ∈ matchesFrom r t n i resume) :
    i ≤ p ∧ p < i + n ∧ resume ≤ p ∧ r.matchAt t p = some q := by
  induction n generalizing i resume with
  | zero => cases h
  | succ n ih =>
    rcases matchesFrom_succ (t := t) hr n i resume with
      ⟨-, he⟩ | ⟨j, hi, hm, he⟩
    · rw [he] at h
      have := ih h
      exact ⟨by omega, by omega, this.2.2⟩
    · have hij := lt_of_matchAt hr hm
      rw [he] at h
      rcases List.mem_cons.mp h with h | h
      · cases h
        exact ⟨by omega, by omega, hi, hm⟩
      · have := ih h
        exact ⟨by omega, by omega, by omega, this.2.2.2⟩

theorem matchesFrom_pairwise (hr : r.nullable = false) :
    (matchesFrom r t n i resume).Pairwise fun x y => x.2 ≤ y.1 := by
  induction n generalizing i resume with
  | zero => exact .nil
  | succ n ih =>
    rcases matchesFrom_succ (t := t) hr n i resume with
      ⟨-, he⟩ | ⟨j, -, -, he⟩
    · rw [he]
      exact ih
    · rw [he, List.pairwise_cons]
      exact ⟨fun x hx => (mem_matchesFrom hr hx).2.2.1, ih⟩

/-- Where the expression matches, a match of the scan covers the place. -/
theorem exists_mem_matchesFrom (hr : r.nullable = false) (hi : i ≤ p) (hn : p < i + n)
    (hres : resume ≤ p) (hm : r.matchAt t p = some q) :
    ∃ x ∈ matchesFrom r t n i resume, x.1 ≤ p ∧ p < x.2 := by
  induction n generalizing i resume with
  | zero => omega
  | succ n ih =>
    rcases matchesFrom_succ (t := t) hr n i resume with
      ⟨hskip, he⟩ | ⟨j, -, hij, he⟩
    · have hpi : i ≠ p := by
        rintro rfl
        rcases hskip with hlt | hnone
        · omega
        · rw [hm] at hnone
          cases hnone
      rw [he]
      exact ih (by omega) (by omega) hres
    · rw [he]
      by_cases hpj : p < j
      · exact ⟨(i, j), List.mem_cons_self, hi, hpj⟩
      · have hpi : i ≠ p := by
          rintro rfl
          have := lt_of_matchAt hr hij
          omega
        obtain ⟨x, hx, hxp⟩ := ih (by omega : i + 1 ≤ p) (by omega) (by omega : j ≤ p)
        exact ⟨x, List.mem_cons_of_mem _ hx, hxp⟩

/-! ### All matches of a text -/

theorem matchAt_of_mem_allMatches (hr : r.nullable = false) (h : (p, q) ∈ r.allMatches t) :
    r.matchAt t p = some q := (mem_matchesFrom hr h).2.2.2

theorem allMatches_pairwise (hr : r.nullable = false) :
    (r.allMatches t).Pairwise fun x y => x.2 ≤ y.1 := matchesFrom_pairwise hr

theorem lt_size_of_matchAt (hr : r.nullable = false) (h : r.matchAt t p = some q) :
    p < t.size := by
  have hlt := lt_of_matchAt hr h
  obtain ⟨k, -, hk⟩ := (shaped_of_mem_ends (mem_ends_of_matchAt h)).first hlt
  exact hk.lt_size

theorem exists_mem_allMatches (hr : r.nullable = false) (h : r.matchAt t p = some q) :
    ∃ x ∈ r.allMatches t, x.1 ≤ p ∧ p < x.2 := by
  have hp := lt_size_of_matchAt hr h
  exact exists_mem_matchesFrom hr (Nat.zero_le p) (by omega) (Nat.zero_le p) h

end Lexeme.Regex
