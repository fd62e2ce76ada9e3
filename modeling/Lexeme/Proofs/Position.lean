import Lexeme.Location
import Mathlib.Data.List.DropRight

/-! Lines and columns by counting. The line index holds where lines start, in increasing order, and
is searched by halving; what it answers is what counting gives. Main statement: the line of an
offset is one more than the newlines before it, and the column one more than the characters before
it that stand behind the last of them. -/

namespace Lexeme.LineIndex

variable {i n : Nat} {cs : List Char}

/-! ### Halving -/

section Halving

variable {xs : List Nat} {x rounds low high : Nat}

/-- The entries before `low` are at most `x`, and those from `high` on are greater. -/
structure Divides (xs : List Nat) (x low high : Nat) : Prop where
  before : ∀ k (hk : k < xs.length), k < low → xs[k] ≤ x
  behind : ∀ k (hk : k < xs.length), high ≤ k → x < xs[k]

/-- The search ends at the one place that divides the list, if it began around that place and with
rounds enough. -/
theorem bisect_divides (hs : xs.Pairwise (· < ·)) (hrounds : high - low ≤ rounds) (hle : low ≤ high)
    (hhigh : high ≤ xs.length) (h : Divides xs x low high) :
    Divides xs x (bisect xs x rounds low high) (bisect xs x rounds low high) := by
  induction rounds generalizing low high with
  | zero =>
    obtain rfl : low = high := by omega
    exact h
  | succ rounds ih =>
    rw [bisect]
    split
    · have hmiddle : (low + high) / 2 < xs.length := by omega
      have hsorted := List.pairwise_iff_getElem.mp hs
      dsimp only
      rw [List.getD_eq_getElem?_getD, List.getElem?_eq_getElem hmiddle, Option.getD_some]
      split
      · next hlt =>
        refine ih (by omega) (by omega) (by omega) ⟨h.before, fun k hk hle => ?_⟩
        rcases Nat.lt_or_eq_of_le hle with hgt | rfl
        · exact Nat.lt_trans hlt (hsorted _ _ hmiddle hk hgt)
        · exact hlt
      · next hge =>
        refine ih (by omega) (by omega) hhigh ⟨fun k hk hlt => ?_, h.behind⟩
        rcases Nat.lt_or_eq_of_le (Nat.le_of_lt_succ hlt) with hlt | rfl
        · exact Nat.le_trans (Nat.le_of_lt (hsorted _ _ hk hmiddle hlt)) (Nat.le_of_not_lt hge)
        · exact Nat.le_of_not_lt hge
    · obtain rfl : low = high := by omega
      exact h

/-- Halving finds how far the entries are at most `x`. -/
theorem bisect_eq_length_takeWhile (hs : xs.Pairwise (· < ·)) (x : Nat) :
    bisect xs x xs.length 0 xs.length = (xs.takeWhile (· ≤ x)).length := by
  have hdivides : Divides xs x (bisect xs x xs.length 0 xs.length)
      (bisect xs x xs.length 0 xs.length) :=
    bisect_divides hs (by omega) (Nat.zero_le _) (Nat.le_refl _)
      ⟨fun k _ hk => absurd hk (Nat.not_lt_zero k), fun k hk hle => by omega⟩
  have hplace : bisect xs x xs.length 0 xs.length ≤ xs.length := bisect_le xs x (Nat.zero_le _)
  generalize bisect xs x xs.length 0 xs.length = place at hdivides hplace
  have hbefore : ∀ k ∈ xs.take place, decide (k ≤ x) = true := by
    intro k hk
    obtain ⟨m, hm, rfl⟩ := List.mem_take_iff_getElem.mp hk
    exact decide_eq_true (hdivides.before m (by omega) (by omega))
  have hbehind : (xs.drop place).takeWhile (· ≤ x) = [] := by
    rw [List.takeWhile_eq_nil_iff]
    intro hlen
    rw [List.length_drop] at hlen
    simpa using hdivides.behind place (by omega) (Nat.le_refl _)
  rw [← List.take_append_drop place xs, List.takeWhile_append_of_pos hbefore, hbehind,
    List.append_nil, List.length_take_of_le hplace]

end Halving

/-! ### Line starts -/

theorem lt_of_mem_startsFrom {k : Nat} (h : k ∈ startsFrom i cs) : i < k := by
  induction cs generalizing i with
  | nil => cases h
  | cons c cs ih =>
    rw [startsFrom] at h
    split at h
    · rcases List.mem_cons.mp h with rfl | h
      · exact Nat.lt_succ_self i
      · exact Nat.lt_of_succ_lt (ih h)
    · exact Nat.lt_of_succ_lt (ih h)

theorem startsFrom_pairwise (i : Nat) (cs : List Char) :
    (startsFrom i cs).Pairwise (· < ·) := by
  induction cs generalizing i with
  | nil => exact .nil
  | cons c cs ih =>
    rw [startsFrom]
    split
    · exact .cons (fun _ hk => lt_of_mem_startsFrom hk) (ih (i + 1))
    · exact ih (i + 1)

theorem starts_pairwise (cs : List Char) : (ofText cs).starts.Pairwise (· < ·) :=
  .cons (fun _ hk => lt_of_mem_startsFrom hk) (startsFrom_pairwise 0 cs)

theorem length_startsFrom (i : Nat) (cs : List Char) :
    (startsFrom i cs).length = cs.count '\n' := by
  induction cs generalizing i with
  | nil => rfl
  | cons c cs ih =>
    rw [startsFrom]
    by_cases hc : c = '\n'
    · rw [if_pos hc, hc, List.count_cons_self, List.length_cons, ih]
    · rw [if_neg hc, List.count_cons_of_ne hc, ih]

/-- Of the lines those that start within the first `n` characters. -/
theorem takeWhile_startsFrom (i n : Nat) (cs : List Char) :
    (startsFrom i cs).takeWhile (· ≤ i + n) = startsFrom i (cs.take n) := by
  induction cs generalizing i n with
  | nil => rw [List.take_nil]; rfl
  | cons c cs ih =>
    cases n with
    | zero =>
      rw [List.take_zero, startsFrom, List.takeWhile_eq_nil_iff]
      intro hlen
      have hlt := lt_of_mem_startsFrom (List.get_mem _ ⟨0, hlen⟩)
      simp only [Nat.add_zero, decide_eq_true_eq]
      omega
    | succ n =>
      have hstep : i + (n + 1) = i + 1 + n := by omega
      rw [List.take_succ_cons, startsFrom, startsFrom, hstep, ← ih]
      split
      · rw [List.takeWhile_cons_of_pos (by simp)]
      · rfl

theorem startsFrom_concat (i : Nat) (cs : List Char) (c : Char) :
    startsFrom i (cs ++ [c]) =
      startsFrom i cs ++ if c = '\n' then [i + cs.length + 1] else [] := by
  induction cs generalizing i with
  | nil => rfl
  | cons d cs ih =>
    rw [List.cons_append, startsFrom, startsFrom, ih, List.length_cons,
      show i + 1 + cs.length + 1 = i + (cs.length + 1) + 1 by omega]
    split <;> rfl

/-- The last line starts behind the last newline. -/
theorem getLastD_starts (cs : List Char) :
    (0 :: startsFrom 0 cs).getLastD 0 + (cs.rtakeWhile (· ≠ '\n')).length = cs.length := by
  induction cs using List.reverseRecOn with
  | nil => rfl
  | append_singleton cs c ih =>
    rw [startsFrom_concat, List.length_append, List.length_singleton]
    by_cases hc : c = '\n'
    · rw [List.rtakeWhile_concat_neg _ _ _ (by simp [hc]), if_pos hc, ← List.cons_append,
        List.getLastD_concat, Nat.zero_add]
      rfl
    · rw [List.rtakeWhile_concat_pos _ _ _ (by simp [hc]), if_neg hc, List.append_nil,
        List.length_append, List.length_singleton]
      omega

/-! ### Positions -/

/-- The line is the last one that starts no later than the offset. -/
theorem position_eq (cs : List Char) (offset : Int) :
    (ofText cs).position offset =
      (((ofText cs).starts.takeWhile (· ≤ (ofText cs).clamp offset)).length,
        (ofText cs).clamp offset -
          ((ofText cs).starts.takeWhile (· ≤ (ofText cs).clamp offset)).getLastD 0 + 1) := by
  rw [position, bisect_eq_length_takeWhile (starts_pairwise cs)]
  generalize hpassed : (ofText cs).starts.takeWhile (· ≤ (ofText cs).clamp offset) = passed
  have hprefix : passed <+: (ofText cs).starts := hpassed ▸ List.takeWhile_prefix _
  have hlen : 0 < passed.length := by
    rw [← hpassed, ofText, List.takeWhile_cons_of_pos (by simp), List.length_cons]
    exact Nat.succ_pos _
  have hlast : (ofText cs).starts[passed.length - 1]? = passed[passed.length - 1]? := by
    rw [List.getElem?_eq_getElem (by omega : passed.length - 1 < passed.length)]
    exact List.prefix_iff_getElem?.mp hprefix _ (by omega)
  rw [List.getLastD_eq_getLast?, List.getLast?_eq_getElem?, List.getD_eq_getElem?_getD, hlast]

/-- Line and column of an offset count the newlines before it, and the characters behind the last
one of them. -/
theorem position_ofText (cs : List Char) (offset : Int) :
    (ofText cs).position offset =
      ((cs.take ((ofText cs).clamp offset)).count '\n' + 1,
        ((cs.take ((ofText cs).clamp offset)).rtakeWhile (· ≠ '\n')).length + 1) := by
  have hpassed : (ofText cs).starts.takeWhile (· ≤ (ofText cs).clamp offset) =
      0 :: startsFrom 0 (cs.take ((ofText cs).clamp offset)) := by
    rw [ofText, List.takeWhile_cons_of_pos (by simp), ← takeWhile_startsFrom, Nat.zero_add]
  have hlast := getLastD_starts (cs.take ((ofText cs).clamp offset))
  have hlen : (cs.take ((ofText cs).clamp offset)).length = (ofText cs).clamp offset :=
    List.length_take_of_le (Nat.min_le_right _ _)
  rw [position_eq, hpassed, List.length_cons, length_startsFrom]
  simp only [Prod.mk.injEq, Nat.add_right_cancel_iff, true_and]
  omega

end Lexeme.LineIndex
