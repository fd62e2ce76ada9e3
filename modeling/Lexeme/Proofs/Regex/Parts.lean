import Lexeme.Proofs.Regex.Scan
import Mathlib.Data.List.Basic

/-! Expressions on the parts of a text. Behind a character that no word has, an expression reaches
in the whole text what it reaches in the part alone. Before such a character it reaches in the part
alone what it reaches in the whole text without passing the part. Main statement: if no match covers
the character in between, the matches of a text are those of its two parts. -/

namespace Lexeme.Regex

variable {t u v : Array Char} {r : Regex} {c : Char} {i j k n m size : Nat}

/-! ### The second part -/

/-- From position `k` on the text is `v`, and no word reaches over that position. -/
structure Tail (t : Array Char) (k : Nat) (v : Array Char) : Prop where
  size : t.size = k + v.size
  same : ∀ i, t[k + i]? = v[i]?
  edge : ∀ i, i + 1 = k → wordAt t i = false

theorem Tail.wordAt (h : Tail t k v) (i : Nat) : wordAt t (k + i) = wordAt v i := by
  simp [Regex.wordAt, h.same]

theorem Tail.atBoundary (h : Tail t k v) (i : Nat) : atBoundary t (k + i) = atBoundary v i := by
  unfold Regex.atBoundary
  rw [h.wordAt]
  cases i with
  | zero =>
    cases k with
    | zero => simp
    | succ k => simp [h.edge k rfl]
  | succ i =>
    have hne : (k + (i + 1) != 0) = true := by simp
    have hne' : (i + 1 != 0) = true := by simp
    rw [hne, hne', show k + (i + 1) - 1 = k + i by omega, Nat.add_sub_cancel, h.wordAt]

theorem times_map {body body' : Nat → List Nat} (h : ∀ i, body (k + i) = (body' i).map (k + ·))
    (n i : Nat) : times body n (k + i) = (times body' n i).map (k + ·) := by
  induction n generalizing i with
  | zero => rfl
  | succ n ih =>
    simp only [times, h, List.flatMap_map, List.map_flatMap]
    apply List.flatMap_congr
    intro j _
    exact ih j

theorem greedy_map {body body' : Nat → List Nat} (h : ∀ i, body (k + i) = (body' i).map (k + ·))
    (n i : Nat) : greedy body n (k + i) = (greedy body' n i).map (k + ·) := by
  induction n generalizing i with
  | zero => rfl
  | succ n ih =>
    simp only [greedy, h, List.flatMap_map, List.map_append, List.map_flatMap]
    congr 1
    apply List.flatMap_congr
    intro j _
    by_cases hj : j = i
    · simp [hj]
    · simp [hj, ih]

/-- An expression reaches in the second part of a text what it reaches in that part alone. -/
theorem ends_tail (h : Tail t k v) (r : Regex) (i : Nat) :
    r.ends t (k + i) = (r.ends v i).map (k + ·) := by
  induction r generalizing i with
  | empty => rfl
  | never => rfl
  | one l =>
    simp only [ends, h.same]
    split <;> simp [Nat.add_assoc]
  | boundary =>
    simp only [ends, h.atBoundary]
    split <;> rfl
  | seq a b iha ihb =>
    simp only [ends, iha, List.flatMap_map, List.map_flatMap]
    apply List.flatMap_congr
    intro j _
    exact ihb j
  | alt a b iha ihb => simp [ends, iha, ihb]
  | notAhead a ih =>
    simp only [ends, ih, List.isEmpty_map]
    split <;> rfl
  | rep a low high ih =>
    simp only [ends, times_map ih, List.flatMap_map, List.map_flatMap]
    apply List.flatMap_congr
    intro j _
    have hspare : spareRounds t low high (k + j) = spareRounds v low high j := by
      cases high with
      | none =>
        simp only [spareRounds, h.size]
        omega
      | some b => rfl
    rw [hspare]
    exact greedy_map ih _ j

theorem matchAt_tail (h : Tail t k v) (r : Regex) (i : Nat) :
    r.matchAt t (k + i) = (r.matchAt v i).map (k + ·) := by
  rw [matchAt_eq_head?, matchAt_eq_head?, ends_tail h, List.head?_map]

/-! ### The first part -/

/-- The text begins with `u`, which is followed by the character `c`. -/
structure Head (t u : Array Char) (c : Char) : Prop where
  same : ∀ i, i < u.size → t[i]? = u[i]?
  next : t[u.size]? = some c
  edge : WordChar.isWord c = false

/-- An expression that can be cut at the character: no look-ahead has the character in sight, and
repetitions without a bound always consume something. -/
def cuttable (c : Char) : Regex → Bool
  | .empty => true
  | .never => true
  | .one _ => true
  | .boundary => true
  | .seq a b => a.cuttable c && b.cuttable c
  | .alt a b => a.cuttable c && b.cuttable c
  | .notAhead r => r.cuttable c && r.classes.all fun k => !k.test c
  | .rep r _ high => r.cuttable c && (high.isSome || !r.nullable)

theorem Head.size_lt (h : Head t u c) : u.size < t.size :=
  (Array.getElem?_eq_some_iff.mp h.next).1

theorem Head.wordAt (h : Head t u c) (hi : i ≤ u.size) : wordAt t i = wordAt u i := by
  rcases Nat.lt_or_eq_of_le hi with hi | rfl
  · simp [Regex.wordAt, h.same i hi]
  · simp [Regex.wordAt, h.next, h.edge]

theorem Head.atBoundary (h : Head t u c) (hi : i ≤ u.size) : atBoundary t i = atBoundary u i := by
  unfold Regex.atBoundary
  rw [h.wordAt hi, h.wordAt (Nat.le_trans (Nat.sub_le i 1) hi)]

/-- What cannot consume the character does not pass it. -/
theorem Head.le_of_classes (h : Head t u c) (hr : (r.classes.all fun k => !k.test c) = true)
    (hi : i ≤ u.size) (hj : j ∈ r.ends t i) : j ≤ u.size := by
  rcases Nat.lt_or_ge u.size j with hlt | hge
  · obtain ⟨l, hl, d, hd, htest⟩ := (shaped_of_mem_ends hj).inside u.size hi hlt
    rw [h.next] at hd
    cases hd
    have hno := List.all_eq_true.mp hr l hl
    rw [htest] at hno
    cases hno
  · exact hge

/-- A step in front of a filter, if what fails the test leads to nothing that passes it. -/
theorem filter_flatMap_of {p : Nat → Bool} {f g : Nat → List Nat} {l : List Nat}
    (hpass : ∀ m ∈ l, p m = true → (f m).filter p = g m)
    (hfail : ∀ m ∈ l, p m = false → ∀ x ∈ f m, p x = false) :
    (l.flatMap f).filter p = (l.filter p).flatMap g := by
  induction l with
  | nil => rfl
  | cons a l ih =>
    have hrest := ih (fun m hm => hpass m (List.mem_cons_of_mem a hm))
      fun m hm => hfail m (List.mem_cons_of_mem a hm)
    rw [List.flatMap_cons, List.filter_append, hrest, List.filter_cons]
    cases hp : p a with
    | true =>
      rw [hpass a List.mem_cons_self hp]
      rfl
    | false =>
      rw [List.filter_eq_nil_iff.mpr fun x hx => by simp [hfail a List.mem_cons_self hp x hx]]
      rfl

section Rounds

variable {body body' : Nat → List Nat}

theorem Rounds.start_le (hb : ∀ i, ∀ m ∈ body i, i ≤ m) (h : Rounds body n i j) : i ≤ j := by
  induction h with
  | done i => exact Nat.le_refl i
  | more hm _ ih => exact Nat.le_trans (hb _ _ hm) ih

variable (hcut : ∀ i, i ≤ size → body' i = (body i).filter (· ≤ size))
  (hmono : ∀ i, ∀ m ∈ body i, i ≤ m)
include hcut hmono

theorem times_filter (n : Nat) (hi : i ≤ size) :
    times body' n i = (times body n i).filter (· ≤ size) := by
  induction n generalizing i with
  | zero => simp [times, hi]
  | succ n ih =>
    rw [times, times, hcut i hi]
    symm
    apply filter_flatMap_of
    · intro m _ hm
      exact (ih (of_decide_eq_true hm)).symm
    · intro m _ hm x hx
      have hle := (mem_times.mp hx).start_le hmono
      simp only [decide_eq_false_iff_not] at hm ⊢
      omega

theorem greedy_filter (n : Nat) (hi : i ≤ size) :
    greedy body' n i = (greedy body n i).filter (· ≤ size) := by
  induction n generalizing i with
  | zero => simp [greedy, hi]
  | succ n ih =>
    rw [greedy, greedy, hcut i hi, List.filter_append]
    congr 1
    · symm
      apply filter_flatMap_of
      · intro m _ hm
        by_cases hmi : m = i
        · simp [hmi, hi]
        · rw [if_neg hmi, if_neg hmi]
          exact (ih (of_decide_eq_true hm)).symm
      · intro m _ hm x hx
        simp only [decide_eq_false_iff_not] at hm ⊢
        rw [if_neg (by omega)] at hx
        obtain ⟨k, -, hr⟩ := rounds_of_mem_greedy hx
        have hle := hr.start_le hmono
        omega
    · simp [hi]

end Rounds

/-- If every round consumes something, more rounds than there are characters left change nothing. -/
theorem greedy_stable {body : Nat → List Nat}
    (hb : ∀ i, i ≤ size → ∀ j ∈ body i, i < j ∧ j ≤ size) (hi : i ≤ size) (hn : size ≤ i + n)
    (hm : size ≤ i + m) : greedy body n i = greedy body m i := by
  have hlast : size ≤ i → body i = [] := by
    intro hle
    rw [List.eq_nil_iff_forall_not_mem]
    intro j hj
    have := hb i hi j hj
    omega
  induction n generalizing i m with
  | zero =>
    cases m with
    | zero => rfl
    | succ m => simp [greedy, hlast (by omega)]
  | succ n ih =>
    cases m with
    | zero => simp [greedy, hlast (by omega)]
    | succ m =>
      rw [greedy, greedy]
      congr 1
      apply List.flatMap_congr
      intro j hj
      obtain ⟨hij, hjs⟩ := hb i hi j hj
      rw [if_neg (by omega), if_neg (by omega)]
      apply ih hjs (by omega) (by omega)
      intro hle
      rw [List.eq_nil_iff_forall_not_mem]
      intro x hx
      have := hb j hjs x hx
      omega

/-- An expression reaches in the first part of a text alone what it reaches in the whole text
without passing the part. -/
theorem ends_head (h : Head t u c) (hr : r.cuttable c = true) (hi : i ≤ u.size) :
    r.ends u i = (r.ends t i).filter (· ≤ u.size) := by
  induction r generalizing i with
  | empty => simp [ends, hi]
  | never => rfl
  | one l =>
    rcases Nat.lt_or_eq_of_le hi with hlt | rfl
    · simp only [ends, h.same i hlt]
      split
      · have : i + 1 ≤ u.size := hlt
        simp [this]
      · rfl
    · simp only [ends, Array.getElem?_eq_none (Nat.le_refl _), Option.any_none, Bool.false_eq_true,
        if_false]
      split <;> simp
  | boundary =>
    simp only [ends, h.atBoundary hi]
    split <;> simp [hi]
  | seq a b iha ihb =>
    obtain ⟨ha, hb⟩ := Bool.and_eq_true_iff.mp hr
    rw [ends, ends, iha ha hi]
    symm
    apply filter_flatMap_of
    · intro j _ hj
      exact (ihb hb (of_decide_eq_true hj)).symm
    · intro j _ hj x hx
      have hle := le_of_mem_ends hx
      simp only [decide_eq_false_iff_not] at hj ⊢
      omega
  | alt a b iha ihb =>
    obtain ⟨ha, hb⟩ := Bool.and_eq_true_iff.mp hr
    simp [ends, iha ha hi, ihb hb hi]
  | notAhead a ih =>
    obtain ⟨ha, hclasses⟩ := Bool.and_eq_true_iff.mp hr
    have hall : (a.ends t i).filter (· ≤ u.size) = a.ends t i := by
      rw [List.filter_eq_self]
      intro j hj
      simpa using h.le_of_classes hclasses hi hj
    simp only [ends, ih ha hi, hall]
    split <;> simp [hi]
  | rep a low high ih =>
    obtain ⟨ha, hbound⟩ := Bool.and_eq_true_iff.mp hr
    have hcut : ∀ i, i ≤ u.size → a.ends u i = (a.ends t i).filter (· ≤ u.size) :=
      fun i hi => ih ha hi
    have hmono : ∀ i, ∀ m ∈ a.ends t i, i ≤ m := fun i m hm => le_of_mem_ends hm
    have hspare : ∀ j, j ≤ u.size → greedy (a.ends u) (spareRounds u low high j) j =
        greedy (a.ends u) (spareRounds t low high j) j := by
      intro j hj
      cases high with
      | some b => rfl
      | none =>
        have hnull : a.nullable = false := by simpa using hbound
        have hbody : ∀ i, i ≤ u.size → ∀ x ∈ a.ends u i, i < x ∧ x ≤ u.size :=
          fun i hi x hx => ⟨lt_of_mem_ends hnull hx, (mem_ends_bounds hi hx).2⟩
        have hsize := h.size_lt
        apply greedy_stable hbody hj
        · simp only [spareRounds]
          omega
        · simp only [spareRounds]
          omega
    rw [ends, ends, times_filter hcut hmono low hi]
    symm
    apply filter_flatMap_of
    · intro j _ hj
      rw [hspare j (of_decide_eq_true hj), greedy_filter hcut hmono _ (of_decide_eq_true hj)]
    · intro j _ hj x hx
      obtain ⟨k, -, hrounds⟩ := rounds_of_mem_greedy hx
      have hle := hrounds.start_le hmono
      simp only [decide_eq_false_iff_not] at hj ⊢
      omega

theorem matchAt_head_none (h : Head t u c) (hr : r.cuttable c = true) (hi : i ≤ u.size)
    (hm : r.matchAt t i = none) : r.matchAt u i = none := by
  rw [matchAt_eq_head?, List.head?_eq_none_iff] at hm ⊢
  rw [ends_head h hr hi, hm]
  rfl

theorem matchAt_head_some (h : Head t u c) (hr : r.cuttable c = true) (hi : i ≤ u.size)
    (hm : r.matchAt t i = some j) (hj : j ≤ u.size) : r.matchAt u i = some j := by
  rw [matchAt_eq_head?] at hm ⊢
  rw [ends_head h hr hi]
  cases hl : r.ends t i with
  | nil =>
    rw [hl] at hm
    cases hm
  | cons x xs =>
    rw [hl] at hm
    cases hm
    simp [hj]

/-! ### All matches -/

/-- A match that is over is forgotten. -/
theorem matchesFrom_resume (r : Regex) (t : Array Char) (n : Nat) {i resume resume' : Nat}
    (h : resume ≤ i) (h' : resume' ≤ i) :
    matchesFrom r t n i resume = matchesFrom r t n i resume' := by
  induction n generalizing i with
  | zero => rfl
  | succ n ih =>
    rw [matchesFrom, matchesFrom, if_neg (by omega), if_neg (by omega)]
    have hrest := ih (i := i + 1) (by omega) (by omega)
    cases r.matchAt t i with
    | none => exact hrest
    | some j =>
      dsimp only
      split
      · rfl
      · cases r.advanceAt t i with
        | none => simp [hrest]
        | some j => rfl

theorem matchesFrom_tail (h : Tail t k v) (hr : r.nullable = false) (n i resume : Nat) :
    matchesFrom r t n (k + i) (k + resume) =
      (matchesFrom r v n i resume).map fun x => (k + x.1, k + x.2) := by
  induction n generalizing i resume with
  | zero => rfl
  | succ n ih =>
    rw [matchesFrom, matchesFrom, matchAt_tail h]
    by_cases hi : i < resume
    · rw [if_pos hi, if_pos (by omega)]
      exact ih (i + 1) resume
    · rw [if_neg hi, if_neg (by omega)]
      cases hm : r.matchAt v i with
      | none => exact ih (i + 1) resume
      | some j =>
        have hlt := lt_of_matchAt hr hm
        simp only [Option.map_some, hlt, if_true, Nat.add_lt_add_iff_left, List.map_cons]
        rw [← ih (i + 1) j]
        rfl

/-- Up to the character between the parts the scan of the whole text is that of the first part. -/
theorem matchesFrom_head (h : Head t u c) (hcut : r.cuttable c = true) (hr : r.nullable = false)
    (n m : Nat) {i resume : Nat} (hi : i + n = u.size + 1) (hres : resume ≤ u.size)
    (hcover : ∀ x ∈ matchesFrom r t (n + m) i resume, ¬ (x.1 ≤ u.size ∧ u.size < x.2)) :
    matchesFrom r t (n + m) i resume =
      matchesFrom r u n i resume ++ matchesFrom r t m (u.size + 1) 0 := by
  induction n generalizing i resume with
  | zero =>
    obtain rfl : i = u.size + 1 := by omega
    rw [Nat.zero_add]
    exact matchesFrom_resume r t m (by omega) (by omega)
  | succ n ih =>
    rw [Nat.succ_add] at hcover ⊢
    rw [matchesFrom] at hcover ⊢
    rw [matchesFrom]
    by_cases hlt : i < resume
    · rw [if_pos hlt] at hcover ⊢
      rw [if_pos hlt]
      exact ih (by omega) hres hcover
    · rw [if_neg hlt] at hcover ⊢
      rw [if_neg hlt]
      cases hm : r.matchAt t i with
      | none =>
        rw [matchAt_head_none h hcut (by omega) hm]
        rw [hm] at hcover
        exact ih (by omega) hres hcover
      | some j =>
        have hij := lt_of_matchAt hr hm
        rw [hm] at hcover
        simp only [hij, if_true] at hcover ⊢
        -- the match is one of the scan, so it ends within the first part
        have hj : j ≤ u.size := by
          have := hcover (i, j) List.mem_cons_self
          omega
        rw [matchAt_head_some h hcut (by omega) hm hj]
        simp only [hij, if_true, List.cons_append, List.cons.injEq, true_and]
        exact ih (by omega) hj fun x hx => hcover x (List.mem_cons_of_mem _ hx)

/-- If no match covers the character between two parts of a text, the matches of the text are those
of its parts. -/
theorem allMatches_parts (hcut : r.cuttable c = true) (hr : r.nullable = false)
    (hhead : Head t u c) (htail : Tail t (u.size + 1) v)
    (hcover : ∀ x ∈ r.allMatches t, ¬ (x.1 ≤ u.size ∧ u.size < x.2)) :
    r.allMatches t = r.allMatches u ++
      (r.allMatches v).map fun x => (u.size + 1 + x.1, u.size + 1 + x.2) := by
  unfold allMatches at hcover ⊢
  rw [htail.size, show u.size + 1 + v.size + 1 = (u.size + 1) + (v.size + 1) by omega] at hcover ⊢
  rw [matchesFrom_head hhead hcut hr _ _ (by omega) (by omega) hcover,
    ← matchesFrom_tail htail hr]
  congr 1
  exact matchesFrom_resume r t _ (by omega) (by omega)

end Lexeme.Regex
