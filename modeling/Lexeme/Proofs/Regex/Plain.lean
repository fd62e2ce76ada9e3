import Lexeme.Proofs.Regex.Scan

/-! Expressions that look at nothing but the characters they consume. Main statement: such a match
is found wherever its characters stand, in any text. -/

namespace Lexeme.Regex

variable {t u : Array Char} {r : Regex} {d i j n : Nat}

/-- The expression has no zero-width tests, and all its repetitions consume something. -/
def plain : Regex → Bool
  | .empty => true
  | .never => true
  | .one _ => true
  | .boundary => false
  | .seq a b => a.plain && b.plain
  | .alt a b => a.plain && b.plain
  | .notAhead _ => false
  | .rep r _ _ => r.plain && !r.nullable

/-- The characters from `i` to `j` stand `d` places further in the other text. -/
def Copied (t u : Array Char) (d i j : Nat) : Prop :=
  j + d ≤ u.size ∧ ∀ p, i ≤ p → p < j → u[p + d]? = t[p]?

theorem Copied.mono {i' j' : Nat} (h : Copied t u d i j) (hi : i ≤ i') (hj : j' ≤ j) :
    Copied t u d i' j' := by
  refine ⟨?_, fun p hp hp' => h.2 p (by omega) (by omega)⟩
  have := h.1
  omega

theorem Copied.at {k : CharClass} {p : Nat} (h : Copied t u d i j) (hk : At t k p) (hi : i ≤ p)
    (hj : p < j) : At u k (p + d) := by
  obtain ⟨c, hc, hkc⟩ := hk
  exact ⟨c, by rw [h.2 p hi hj, hc], hkc⟩

/-- Rounds can be made wherever their characters stand. -/
theorem Rounds.copied (hr : ∀ i j, j ∈ ends t r i → Copied t u d i j → j + d ∈ ends u r (i + d))
    (h : Rounds (ends t r) n i j) (hc : Copied t u d i j) :
    Rounds (ends u r) n (i + d) (j + d) := by
  induction h with
  | done i => exact .done _
  | more hm h ih =>
    have h1 := le_of_mem_ends hm
    have h2 := (shaped_of_rounds (fun _ _ => shaped_of_mem_ends) h).le
    exact .more (hr _ _ hm (hc.mono (Nat.le_refl _) h2)) (ih (hc.mono h1 (Nat.le_refl _)))

/-- A plain match is found wherever its characters stand. -/
theorem mem_ends_copied (hr : r.plain = true) (h : j ∈ ends t r i) (hc : Copied t u d i j) :
    j + d ∈ ends u r (i + d) := by
  induction r generalizing i j with
  | empty =>
    obtain rfl := mem_ends_empty.mp h
    exact mem_ends_empty.mpr rfl
  | never => exact absurd h mem_ends_never
  | one k =>
    obtain ⟨hk, rfl⟩ := mem_ends_one.mp h
    exact mem_ends_one.mpr ⟨hc.at hk (Nat.le_refl i) (Nat.lt_succ_self i), by omega⟩
  | boundary => cases hr
  | seq a b iha ihb =>
    obtain ⟨ha, hb⟩ := Bool.and_eq_true_iff.mp hr
    obtain ⟨m, hm, hj⟩ := mem_ends_seq.mp h
    have h1 := le_of_mem_ends hm
    have h2 := le_of_mem_ends hj
    exact mem_ends_seq.mpr ⟨m + d, iha ha hm (hc.mono (Nat.le_refl _) h2),
      ihb hb hj (hc.mono h1 (Nat.le_refl _))⟩
  | alt a b iha ihb =>
    obtain ⟨ha, hb⟩ := Bool.and_eq_true_iff.mp hr
    rcases mem_ends_alt.mp h with h | h
    · exact mem_ends_alt.mpr (.inl (iha ha h hc))
    · exact mem_ends_alt.mpr (.inr (ihb hb h hc))
  | notAhead r => cases hr
  | rep r low high ih =>
    obtain ⟨hplain, hnull⟩ := Bool.and_eq_true_iff.mp hr
    have hnull : r.nullable = false := by simpa using hnull
    obtain ⟨n, hlow, hhigh, hn⟩ := rounds_of_mem_rep h
    have hij := le_of_mem_ends h
    have hsize := hc.1
    exact mem_rep_of_rounds (fun _ _ => lt_of_mem_ends hnull) (by omega) hlow hhigh
      (hn.copied (fun _ _ hm => ih hplain hm) hc)

/-- An expression that matches a whole text matches the text inside of another one. -/
theorem mem_ends_of_fullMatch (hr : r.plain = true) {w : List Char}
    (h : r.fullMatch w.toArray = true) (hs : Stands t i w) (hi : i + w.length ≤ t.size) :
    i + w.length ∈ ends t r i := by
  rw [fullMatch_iff, List.size_toArray] at h
  have hc : Copied w.toArray t i 0 w.length := by
    refine ⟨by omega, fun p _ hp => ?_⟩
    rw [Nat.add_comm p i, hs p hp, List.getElem?_toArray]
  have := mem_ends_copied hr h hc
  rwa [Nat.add_comm w.length, Nat.zero_add] at this

end Lexeme.Regex
