/-! Values by key, in the order in which the keys were first seen: counts that add up, and fields
that are overwritten. -/

namespace Lexeme.Tally

variable {α β : Type} [DecidableEq α]

/-- Sets the value of `k`, in place if the key is known and at the end if it is new. -/
def set (k : α) (v : β) : List (α × β) → List (α × β)
  | [] => [(k, v)]
  | (a, w) :: rest => if a = k then (a, v) :: rest else (a, w) :: set k v rest

theorem set_of_new {k : α} (v : β) {t : List (α × β)} (hk : k ∉ t.map Prod.fst) :
    set k v t = t ++ [(k, v)] := by
  induction t with
  | nil => rfl
  | cons p t ih =>
    simp only [List.map_cons, List.mem_cons, not_or] at hk
    rw [set, if_neg (Ne.symm hk.1), ih hk.2, List.cons_append]

theorem lookup_cons_eq_ite (k : α) (v : β) (t : List (α × β)) (a : α) :
    ((k, v) :: t).lookup a = if a = k then some v else t.lookup a := by
  by_cases h : a = k
  · simp [h]
  · have hne : (a == k) = false := by simpa using h
    simp [List.lookup_cons, h, hne]

theorem lookup_set (k : α) (v : β) (t : List (α × β)) (a : α) :
    (set k v t).lookup a = if a = k then some v else t.lookup a := by
  induction t with
  | nil => exact lookup_cons_eq_ite k v [] a
  | cons p t ih =>
    obtain ⟨b, w⟩ := p
    rw [set]
    by_cases hb : b = k
    · subst hb
      rw [if_pos rfl, lookup_cons_eq_ite, lookup_cons_eq_ite]
      split <;> rfl
    · rw [if_neg hb, lookup_cons_eq_ite, lookup_cons_eq_ite, ih]
      by_cases hk : a = k
      · have hab : a ≠ b := fun h => hb (h.symm.trans hk)
        rw [if_neg hab, if_pos hk, if_pos hk]
      · rw [if_neg hk, if_neg hk]

@[simp] theorem lookup_set_self (k : α) (v : β) (t : List (α × β)) :
    (set k v t).lookup k = some v := by
  rw [lookup_set, if_pos rfl]

theorem lookup_set_of_ne {k a : α} (h : a ≠ k) (v : β) (t : List (α × β)) :
    (set k v t).lookup a = t.lookup a := by
  rw [lookup_set, if_neg h]

variable [Add β]

/-- Adds `n` to the count of `k`; a key that is new goes to the end. -/
def add (k : α) (n : β) : List (α × β) → List (α × β)
  | [] => [(k, n)]
  | (a, m) :: rest => if a = k then (a, m + n) :: rest else (a, m) :: add k n rest

/-- Adds a list of counts one after another. -/
def addAll (tally counts : List (α × β)) : List (α × β) :=
  counts.foldl (fun t p => add p.1 p.2 t) tally

/-! ### Totals -/

/-- The sum of the counts. -/
def total : List (α × Nat) → Nat
  | [] => 0
  | p :: t => p.2 + total t

omit [DecidableEq α] in
theorem foldr_eq_total (t : List (α × Nat)) (z : Nat) :
    t.foldr (fun p s => p.2 + s) z = total t + z := by
  induction t with
  | nil => simp [total]
  | cons p t ih =>
    rw [List.foldr_cons, ih, total]
    omega

theorem total_add (k : α) (n : Nat) (t : List (α × Nat)) : total (add k n t) = total t + n := by
  induction t with
  | nil => simp [add, total]
  | cons p t ih =>
    by_cases h : p.1 = k
    · simp only [add, total, h, if_true]
      omega
    · simp only [add, total, h, if_false, ih]
      omega

/-- Counts that are added up keep their total. -/
theorem total_addAll (t counts : List (α × Nat)) :
    total (addAll t counts) = total t + total counts := by
  induction counts generalizing t with
  | nil => rfl
  | cons c counts ih =>
    change total (addAll (add c.1 c.2 t) counts) = _
    rw [ih, total_add, total]
    omega

end Lexeme.Tally
