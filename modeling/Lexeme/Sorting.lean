/-! Stable merge sort by structural recursion, so that it evaluates on closed terms, and the
lexicographic order on integer keys. Main statement: the sort agrees with `List.mergeSort`. -/

namespace Lexeme.Sorting

variable {α : Type}

/-- Puts `x` before the first element that it may precede, and lets `tail` place the rest. -/
def place (le : α → α → Bool) (x : α) (tail : List α → List α) : List α → List α
  | [] => x :: tail []
  | y :: ys => if le x y then x :: tail (y :: ys) else y :: place le x tail ys

/-- Stable merge of two lists; of equal elements the left one comes first. -/
def merge (le : α → α → Bool) : List α → List α → List α
  | [], ys => ys
  | x :: xs, ys => place le x (merge le xs) ys

/-- Halves, sorts and merges, with the length of the list as a bound on the depth. -/
def sortWithin (le : α → α → Bool) : Nat → List α → List α
  | 0, xs => xs
  | _ + 1, [] => []
  | _ + 1, [x] => [x]
  | n + 1, x :: y :: xs =>
    let half := ((x :: y :: xs).length + 1) / 2
    merge le (sortWithin le n ((x :: y :: xs).take half))
      (sortWithin le n ((x :: y :: xs).drop half))

/-- Stable sort. -/
def sort (le : α → α → Bool) (xs : List α) : List α := sortWithin le xs.length xs

theorem merge_eq (le : α → α → Bool) (xs ys : List α) : merge le xs ys = xs.merge ys le := by
  induction xs generalizing ys with
  | nil => simp [merge]
  | cons x xs ih =>
    rw [merge]
    induction ys with
    | nil => simp [place, ih]
    | cons y ys ihy => rw [place, List.cons_merge_cons, ih, ihy]

theorem sortWithin_eq (le : α → α → Bool) (n : Nat) (xs : List α) (h : xs.length ≤ n) :
    sortWithin le n xs = xs.mergeSort le := by
  induction n generalizing xs with
  | zero =>
    have : xs = [] := by simpa using h
    simp [this, sortWithin]
  | succ n ih =>
    match xs, h with
    | [], _ => simp [sortWithin]
    | [x], _ => simp [sortWithin]
    | x :: y :: xs, h =>
      rw [sortWithin, List.mergeSort]
      simp only [List.MergeSort.Internal.splitInTwo_fst, List.MergeSort.Internal.splitInTwo_snd]
      rw [ih _ (by simp only [List.length_take, List.length_cons] at *; omega),
        ih _ (by simp only [List.length_drop, List.length_cons] at *; omega), merge_eq]

theorem sort_eq_mergeSort (le : α → α → Bool) (xs : List α) : sort le xs = xs.mergeSort le :=
  sortWithin_eq le xs.length xs (Nat.le_refl _)

theorem sort_perm (le : α → α → Bool) (xs : List α) : (sort le xs).Perm xs := by
  rw [sort_eq_mergeSort]
  exact List.mergeSort_perm xs le

/-! ### Keys -/

/-- Lexicographic order on keys; a key comes before its extensions. -/
def keyLe : List Int → List Int → Bool
  | [], _ => true
  | _ :: _, [] => false
  | a :: as, b :: bs => decide (a < b) || (decide (a = b) && keyLe as bs)

theorem keyLe_total (a b : List Int) : (keyLe a b || keyLe b a) = true := by
  induction a generalizing b with
  | nil => simp [keyLe]
  | cons x a ih =>
    cases b with
    | nil => simp [keyLe]
    | cons y b =>
      have := ih b
      simp only [keyLe, Bool.or_eq_true, Bool.and_eq_true, decide_eq_true_eq] at this ⊢
      rcases Int.lt_trichotomy x y with h | h | h
      · exact .inl (.inl h)
      · subst h
        exact this.imp (fun h => .inr ⟨rfl, h⟩) (fun h => .inr ⟨rfl, h⟩)
      · exact .inr (.inl h)

theorem keyLe_trans {a b c : List Int} (hab : keyLe a b = true) (hbc : keyLe b c = true) :
    keyLe a c = true := by
  induction a generalizing b c with
  | nil => simp [keyLe]
  | cons x a ih =>
    match b, c with
    | [], _ => simp [keyLe] at hab
    | _ :: _, [] => simp [keyLe] at hbc
    | y :: b, z :: c =>
      simp only [keyLe, Bool.or_eq_true, Bool.and_eq_true, decide_eq_true_eq] at hab hbc ⊢
      rcases hab with h | ⟨rfl, h⟩
      · rcases hbc with h' | ⟨rfl, _⟩
        · exact .inl (by omega)
        · exact .inl h
      · exact hbc.imp id fun ⟨e, h'⟩ => ⟨e, ih h h'⟩

theorem keyLe_antisymm {a b : List Int} (hab : keyLe a b = true) (hba : keyLe b a = true) :
    a = b := by
  induction a generalizing b with
  | nil =>
    cases b with
    | nil => rfl
    | cons y b => simp [keyLe] at hba
  | cons x a ih =>
    cases b with
    | nil => simp [keyLe] at hab
    | cons y b =>
      simp only [keyLe, Bool.or_eq_true, Bool.and_eq_true, decide_eq_true_eq] at hab hba
      rcases hab with h | ⟨rfl, h⟩
      · rcases hba with h' | ⟨h', _⟩ <;> omega
      · rcases hba with h' | ⟨_, h'⟩
        · omega
        · rw [ih h h']

/-- Stable sort by an integer key. -/
def sortBy (key : α → List Int) (xs : List α) : List α :=
  sort (fun a b => keyLe (key a) (key b)) xs

theorem sortBy_perm (key : α → List Int) (xs : List α) : (sortBy key xs).Perm xs :=
  sort_perm _ xs

theorem mem_sortBy {key : α → List Int} {xs : List α} {a : α} : a ∈ sortBy key xs ↔ a ∈ xs :=
  (sortBy_perm key xs).mem_iff

theorem sortBy_pairwise (key : α → List Int) (xs : List α) :
    (sortBy key xs).Pairwise fun a b => keyLe (key a) (key b) = true := by
  rw [sortBy, sort_eq_mergeSort]
  exact List.pairwise_mergeSort (fun a b c => keyLe_trans (b := key b))
    (fun a b => keyLe_total (key a) (key b)) xs

/-- A sorted list is left as it is. -/
theorem sortBy_of_pairwise {key : α → List Int} {xs : List α}
    (h : xs.Pairwise fun a b => keyLe (key a) (key b) = true) : sortBy key xs = xs := by
  rw [sortBy, sort_eq_mergeSort]
  exact List.mergeSort_of_pairwise h

/-- A key that tells elements apart leaves no trace of the order in which they were given. -/
theorem sortBy_eq_of_perm {key : α → List Int} {xs ys : List α}
    (hinj : ∀ a b, key a = key b → a = b) (h : xs.Perm ys) : sortBy key xs = sortBy key ys := by
  have hperm : (sortBy key xs).Perm (sortBy key ys) :=
    (sortBy_perm key xs).trans (h.trans (sortBy_perm key ys).symm)
  refine hperm.eq_of_pairwise ?_ (sortBy_pairwise key xs) (sortBy_pairwise key ys)
  exact fun a b _ _ hab hba => hinj a b (keyLe_antisymm hab hba)

end Lexeme.Sorting
