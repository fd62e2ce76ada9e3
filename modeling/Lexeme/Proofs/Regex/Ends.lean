import Lexeme.Regex.Bounds

/-! Which ends an expression reaches, whatever their order: one statement for each kind of
expression. A repetition reaches what a number of rounds reaches, and if every round consumes
something the number is only bound by what the repetition asks for. -/

namespace Lexeme.Regex

variable {t : Array Char} {i j : Nat}

/-- A character of the class stands at position `p`. -/
def At (t : Array Char) (k : CharClass) (p : Nat) : Prop := ∃ c, t[p]? = some c ∧ k.test c = true

/-- The characters stand in the text from position `i` on. -/
def Stands (t : Array Char) (i : Nat) (cs : List Char) : Prop :=
  ∀ q, q < cs.length → t[i + q]? = cs[q]?

instance (t : Array Char) (i : Nat) (cs : List Char) : Decidable (Stands t i cs) :=
  inferInstanceAs (Decidable (∀ q, q < cs.length → t[i + q]? = cs[q]?))

theorem stands_iff_begins {w : List Char} : Stands t i w ↔ w <+: t.toList.drop i := by
  rw [List.prefix_iff_getElem?]
  refine forall₂_congr fun q hq => ?_
  rw [List.getElem?_drop, t.getElem?_toList, List.getElem?_eq_getElem hq]

/-- Of all texts of one length only one stands at a place. -/
theorem Stands.eq_of_length {v w : List Char} (hv : Stands t i v) (hw : Stands t i w)
    (h : v.length = w.length) : v = w := by
  apply List.ext_getElem?
  intro q
  rcases Nat.lt_or_ge q v.length with hq | hq
  · rw [← hv q hq, hw q (h ▸ hq)]
  · rw [List.getElem?_eq_none hq, List.getElem?_eq_none (h ▸ hq)]

theorem any_test_iff {k : CharClass} {p : Nat} : t[p]?.any k.test = true ↔ At t k p := by
  simp [At, Option.any_eq_true]

theorem At.lt_size {k : CharClass} {p : Nat} (h : At t k p) : p < t.size := by
  obtain ⟨c, hc, -⟩ := h
  exact (Array.getElem?_eq_some_iff.mp hc).1

theorem at_single_iff {c : Char} {p : Nat} : At t (.single c) p ↔ t[p]? = some c := by
  simp [At]

@[simp] theorem mem_ends_empty : j ∈ ends t .empty i ↔ j = i := by simp [ends]

@[simp] theorem mem_ends_never : j ∉ ends t .never i := by simp [ends]

@[simp] theorem mem_ends_one {k : CharClass} : j ∈ ends t (.one k) i ↔ At t k i ∧ j = i + 1 := by
  rw [ends, ← any_test_iff]
  split <;> simp_all

@[simp] theorem mem_ends_boundary : j ∈ ends t .boundary i ↔ atBoundary t i = true ∧ j = i := by
  rw [ends]
  split <;> simp_all

@[simp] theorem mem_ends_seq {a b : Regex} :
    j ∈ ends t (.seq a b) i ↔ ∃ m ∈ ends t a i, j ∈ ends t b m := by
  simp [ends, List.mem_flatMap]

@[simp] theorem mem_ends_alt {a b : Regex} :
    j ∈ ends t (.alt a b) i ↔ j ∈ ends t a i ∨ j ∈ ends t b i := by
  simp [ends]

@[simp] theorem mem_ends_notAhead {r : Regex} :
    j ∈ ends t (.notAhead r) i ↔ ends t r i = [] ∧ j = i := by
  rw [ends]
  split <;> simp_all

theorem ends_boundary_seq (r : Regex) (i : Nat) :
    ends t (.seq .boundary r) i = if atBoundary t i then r.ends t i else [] := by
  by_cases hi : atBoundary t i <;> simp [ends, hi]

/-- A test after an expression keeps the ends that pass it. -/
theorem ends_seq_test {f : Nat → Bool} {r : Regex}
    (hr : ∀ j, r.ends t j = if f j then [j] else []) (a : Regex) (i : Nat) :
    ends t (.seq a r) i = (a.ends t i).filter f := by
  rw [ends, funext hr]
  induction a.ends t i with
  | nil => rfl
  | cons j js ih => by_cases hj : f j <;> simp [hj, ih]

theorem mem_ends_chars {cs : List Char} :
    j ∈ ends t (chars cs) i ↔ Stands t i cs ∧ j = i + cs.length := by
  induction cs generalizing i with
  | nil => simp [chars, Stands]
  | cons c cs ih =>
    simp only [chars, mem_ends_seq, mem_ends_one, at_single_iff, ih, List.length_cons]
    constructor
    · rintro ⟨m, ⟨hc, rfl⟩, hs, rfl⟩
      refine ⟨?_, by omega⟩
      rintro (_ | q) hq
      · simpa using hc
      · rw [List.length_cons] at hq
        rw [List.getElem?_cons_succ, ← hs q (by omega), show i + (q + 1) = i + 1 + q by omega]
    · rintro ⟨hs, rfl⟩
      refine ⟨i + 1, ⟨by simpa using hs 0 (by simp), rfl⟩, ?_, by omega⟩
      intro q hq
      have := hs (q + 1) (by simp only [List.length_cons]; omega)
      rwa [List.getElem?_cons_succ, show i + (q + 1) = i + 1 + q by omega] at this

/-! ### Rounds of a repetition -/

/-- `n` rounds of `body` lead from `i` to `j`. -/
inductive Rounds (body : Nat → List Nat) : Nat → Nat → Nat → Prop where
  | done (i : Nat) : Rounds body 0 i i
  | more {n i m j : Nat} (hm : m ∈ body i) (h : Rounds body n m j) : Rounds body (n + 1) i j

variable {body : Nat → List Nat} {n : Nat}

theorem mem_times : j ∈ times body n i ↔ Rounds body n i j := by
  induction n generalizing i with
  | zero =>
    simp only [times, List.mem_singleton]
    constructor
    · rintro rfl
      exact .done j
    · rintro ⟨⟩
      rfl
  | succ n ih =>
    simp only [times, List.mem_flatMap, ih]
    constructor
    · rintro ⟨m, hm, h⟩
      exact .more hm h
    · rintro (_ | ⟨hm, h⟩)
      exact ⟨_, hm, h⟩

theorem rounds_of_mem_greedy (h : j ∈ greedy body n i) : ∃ m ≤ n, Rounds body m i j := by
  induction n generalizing i with
  | zero =>
    rw [greedy, List.mem_singleton] at h
    exact ⟨0, Nat.le_refl 0, h ▸ .done j⟩
  | succ n ih =>
    rw [greedy, List.mem_append, List.mem_flatMap] at h
    rcases h with ⟨m, hm, h⟩ | h
    · by_cases hmi : m = i
      · rw [if_pos hmi, List.mem_singleton] at h
        exact ⟨0, Nat.zero_le _, h ▸ .done j⟩
      · rw [if_neg hmi] at h
        obtain ⟨k, hk, hr⟩ := ih h
        exact ⟨k + 1, by omega, .more hm hr⟩
    · rw [List.mem_singleton] at h
      exact ⟨0, Nat.zero_le _, h ▸ .done j⟩

/-- If every round consumes something, all ends of at most `n` rounds are reached. -/
theorem mem_greedy_of_rounds (hb : ∀ i, ∀ m ∈ body i, i < m) {k : Nat} (hk : k ≤ n)
    (h : Rounds body k i j) : j ∈ greedy body n i := by
  induction h generalizing n with
  | done i =>
    cases n with
    | zero => simp [greedy]
    | succ n => simp [greedy]
  | more hm h ih =>
    cases n with
    | zero => omega
    | succ n =>
      rw [greedy, List.mem_append, List.mem_flatMap]
      refine .inl ⟨_, hm, ?_⟩
      rw [if_neg (Nat.ne_of_gt (hb _ _ hm))]
      exact ih (by omega)

theorem Rounds.trans {k m : Nat} (h : Rounds body n i m) (h' : Rounds body k m j) :
    Rounds body (n + k) i j := by
  induction h with
  | done i => rwa [Nat.zero_add]
  | more hm h ih =>
    rw [Nat.add_right_comm]
    exact .more hm (ih h')

/-- Rounds can be cut after any number of them. -/
theorem Rounds.split {k : Nat} (hk : k ≤ n) (h : Rounds body n i j) :
    ∃ m, Rounds body k i m ∧ Rounds body (n - k) m j := by
  induction h generalizing k with
  | done i =>
    obtain rfl : k = 0 := by omega
    exact ⟨i, .done i, .done i⟩
  | more hm h ih =>
    cases k with
    | zero => exact ⟨_, .done _, .more hm h⟩
    | succ k =>
      obtain ⟨m, h1, h2⟩ := ih (by omega : k ≤ _)
      exact ⟨m, .more hm h1, by rwa [Nat.add_sub_add_right]⟩

/-- Rounds that consume something are no more than the characters they consume. -/
theorem Rounds.le (hb : ∀ i, ∀ m ∈ body i, i < m) (h : Rounds body n i j) : i + n ≤ j := by
  induction h with
  | done i => omega
  | more hm h ih =>
    have := hb _ _ hm
    omega

theorem rounds_of_mem_rep {r : Regex} {low : Nat} {high : Option Nat}
    (h : j ∈ ends t (.rep r low high) i) :
    ∃ m, low ≤ m ∧ (∀ b ∈ high, m ≤ max low b) ∧ Rounds (ends t r) m i j := by
  rw [ends, List.mem_flatMap] at h
  obtain ⟨p, hp, hj⟩ := h
  obtain ⟨k, hk, hr⟩ := rounds_of_mem_greedy hj
  refine ⟨low + k, by omega, ?_, (mem_times.mp hp).trans hr⟩
  intro b hb
  rw [Option.mem_def.mp hb] at hk
  simp only [spareRounds] at hk
  omega

/-- A repetition of something that always consumes reaches what rounds in its bounds reach. -/
theorem mem_rep_of_rounds {r : Regex} {low m : Nat} {high : Option Nat}
    (hr : ∀ i, ∀ j ∈ ends t r i, i < j) (hi : i ≤ t.size) (hlow : low ≤ m)
    (hhigh : ∀ b ∈ high, m ≤ max low b) (h : Rounds (ends t r) m i j) :
    j ∈ ends t (.rep r low high) i := by
  obtain ⟨p, h1, h2⟩ := h.split hlow
  have hbounds : ∀ i, i ≤ t.size → ∀ j ∈ ends t r i, i ≤ j ∧ j ≤ t.size :=
    fun i hi j hj => mem_ends_bounds hi hj
  have hp := mem_times_bounds hbounds low hi (mem_times.mpr h1)
  have hj := mem_times_bounds hbounds (m - low) hp.2 (mem_times.mpr h2)
  have hle := h2.le hr
  rw [ends, List.mem_flatMap]
  refine ⟨p, mem_times.mpr h1, mem_greedy_of_rounds hr ?_ h2⟩
  cases high with
  | none =>
    simp only [spareRounds]
    omega
  | some b =>
    have := hhigh b rfl
    simp only [spareRounds]
    omega

end Lexeme.Regex
