import Lexeme.Proofs.Regex.Scan
import Mathlib.Data.List.Basic

/-! Expressions whose longest match is found first. Their ends are listed from the farthest to the
nearest, and wherever a longer match passes the end of a shorter one, the text there shows it: it
has a character of one of a few known classes. Each kind of expression keeps the property under a
condition on classes that is settled by evaluation. -/

namespace Lexeme.Regex

variable {t : Array Char} {r a b : Regex} {ks ls : List CharClass} {i j m : Nat}

/-- A character of one of the classes stands at position `p`. -/
def AtAny (t : Array Char) (ks : List CharClass) (p : Nat) : Prop := ∃ k ∈ ks, At t k p

theorem AtAny.mono {p : Nat} (h : AtAny t ks p) (hs : ks ⊆ ls) : AtAny t ls p := by
  obtain ⟨k, hk, hp⟩ := h
  exact ⟨k, hs hk, hp⟩

/-- No character is of a class of both lists. -/
def classesApart (ks ls : List CharClass) : Bool := ks.all fun k => ls.all k.apart

theorem not_atAny_of_apart (h : classesApart ks ls = true) {p : Nat} (hk : AtAny t ks p) :
    ¬ AtAny t ls p := by
  rintro ⟨l, hl, hlp⟩
  obtain ⟨k, hk, hkp⟩ := hk
  exact hkp.not_apart (List.all_eq_true.mp (List.all_eq_true.mp h k hk) l hl) hlp

/-- Ends are listed from the farthest to the nearest, and at an end that another match passes stands
a character of one of the classes. -/
structure LongestFirst (t : Array Char) (r : Regex) (ks : List CharClass) : Prop where
  descending : ∀ i, (r.ends t i).Pairwise (· > ·)
  passed : ∀ i, ∀ m ∈ r.ends t i, ∀ m' ∈ r.ends t i, m' < m → AtAny t ks m'

theorem LongestFirst.mono (h : LongestFirst t r ks) (hs : ks ⊆ ls) : LongestFirst t r ls :=
  ⟨h.descending, fun i m hm m' hm' hlt => (h.passed i m hm m' hm' hlt).mono hs⟩

/-- The match that is found first is the longest one. -/
theorem LongestFirst.le_matchAt (h : LongestFirst t r ks) (hj : r.matchAt t i = some j) {e : Nat}
    (he : e ∈ r.ends t i) : e ≤ j := by
  rw [matchAt_eq_head?] at hj
  have hd := h.descending i
  cases hl : r.ends t i with
  | nil =>
    rw [hl] at he
    cases he
  | cons x xs =>
    rw [hl] at hd hj he
    cases hj
    rcases List.mem_cons.mp he with rfl | he
    · exact Nat.le_refl _
    · exact Nat.le_of_lt ((List.pairwise_cons.mp hd).1 e he)

/-- The longest match is the one that is found. -/
theorem LongestFirst.matchAt_eq (h : LongestFirst t r ks) (hj : j ∈ r.ends t i)
    (hmax : ∀ e ∈ r.ends t i, e ≤ j) : r.matchAt t i = some j := by
  obtain ⟨k, hk⟩ := matchAt_isSome hj
  have h1 := h.le_matchAt hk hj
  have h2 := hmax k (mem_ends_of_matchAt hk)
  rw [hk, Nat.le_antisymm h2 h1]

/-- Of the ends at which no character goes on there is only one. -/
theorem LongestFirst.end_unique (h : LongestFirst t r ks) {x y : Nat} (hx : x ∈ r.ends t i)
    (hy : y ∈ r.ends t i) (hxt : ¬ AtAny t ks x) (hyt : ¬ AtAny t ks y) : x = y := by
  rcases Nat.lt_trichotomy x y with hlt | heq | hgt
  · exact absurd (h.passed i y hy x hx hlt) hxt
  · exact heq
  · exact absurd (h.passed i x hx y hy hgt) hyt

/-! ### Single ends -/

theorem nil_or_singleton {l : List Nat} (h : l.length ≤ 1) : l = [] ∨ ∃ x, l = [x] := by
  rcases Nat.le_one_iff_eq_zero_or_eq_one.mp h with h | h
  · exact .inl (List.length_eq_zero_iff.mp h)
  · exact .inr (List.length_eq_one_iff.mp h)

theorem longestFirst_of_length_le_one (h : ∀ i, (r.ends t i).length ≤ 1) : LongestFirst t r [] := by
  constructor
  · intro i
    rcases nil_or_singleton (h i) with hl | ⟨x, hl⟩ <;> rw [hl]
    · exact .nil
    · exact List.pairwise_singleton _ _
  · intro i m hm m' hm' hlt
    rcases nil_or_singleton (h i) with hl | ⟨x, hl⟩
    · rw [hl] at hm
      cases hm
    · rw [hl, List.mem_singleton] at hm hm'
      omega

/-- With no class to go on by there is at most one end. -/
theorem LongestFirst.length_le_one (h : LongestFirst t r []) (i : Nat) :
    (r.ends t i).length ≤ 1 := by
  have hd := h.descending i
  have hp := h.passed i
  rcases hl : r.ends t i with - | ⟨x, - | ⟨y, rest⟩⟩
  · simp
  · simp
  · rw [hl] at hd hp
    have hlt := (List.pairwise_cons.mp hd).1 y (by simp)
    obtain ⟨k, hk, -⟩ := hp x (by simp) y (by simp) hlt
    cases hk

theorem longestFirst_one (k : CharClass) : LongestFirst t (.one k) [] := by
  apply longestFirst_of_length_le_one
  intro i
  rw [ends]
  split <;> simp

theorem longestFirst_empty : LongestFirst t .empty [] :=
  longestFirst_of_length_le_one fun i => by simp [ends]

/-! ### Sequences and alternatives -/

/-- Where none of its first characters stands, an expression consumes nothing. -/
theorem eq_of_mem_ends_of_apart (h : classesApart ks b.firsts = true) (hm : AtAny t ks m)
    (he : j ∈ b.ends t m) : j = m := by
  have hs := shaped_of_mem_ends he
  rcases Nat.lt_or_eq_of_le hs.le with hlt | heq
  · exact absurd (hs.first hlt) (not_atAny_of_apart h hm)
  · exact heq.symm

/-- The second part of a sequence must not begin where the first part can go on. -/
theorem LongestFirst.seq (ha : LongestFirst t a ks) (hb : LongestFirst t b ls)
    (h : classesApart ks b.firsts = true) :
    LongestFirst t (.seq a b) (if b.nullable then ks ++ ls else ls) := by
  constructor
  · intro i
    rw [ends, List.pairwise_flatMap]
    refine ⟨fun m _ => hb.descending m, (ha.descending i).imp_of_mem ?_⟩
    intro m m' hm hm' hlt x hx y hy
    have hy' := eq_of_mem_ends_of_apart h (ha.passed i m hm m' hm' hlt) hy
    have hx' := le_of_mem_ends hx
    omega
  · intro i x hx y hy hlt
    obtain ⟨m, hm, hx⟩ := mem_ends_seq.mp hx
    obtain ⟨m', hm', hy⟩ := mem_ends_seq.mp hy
    have hls : ls ⊆ if b.nullable then ks ++ ls else ls := by
      split <;> simp
    rcases Nat.lt_trichotomy m m' with hmm | rfl | hmm
    · have := eq_of_mem_ends_of_apart h (ha.passed i m' hm' m hm hmm) hx
      have := le_of_mem_ends hy
      omega
    · exact (hb.passed m x hx y hy hlt).mono hls
    · have hp := ha.passed i m hm m' hm' hmm
      obtain rfl := eq_of_mem_ends_of_apart h hp hy
      rw [if_pos ((shaped_of_mem_ends hy).empty rfl)]
      exact hp.mono (List.subset_append_left ks ls)

theorem LongestFirst.seq_single (ha : LongestFirst t a []) (hb : LongestFirst t b ls) :
    LongestFirst t (.seq a b) ls :=
  (ha.seq hb rfl).mono (by split <;> simp)

/-- The ends of the first alternative must lie behind those of the second. -/
theorem LongestFirst.alt {ns : List CharClass} (ha : LongestFirst t a ks)
    (hb : LongestFirst t b ls) (hk : ks ⊆ ns) (hl : ls ⊆ ns)
    (h : ∀ i, ∀ x ∈ a.ends t i, ∀ y ∈ b.ends t i, y < x ∧ AtAny t ns y) :
    LongestFirst t (.alt a b) ns := by
  constructor
  · intro i
    rw [ends, List.pairwise_append]
    exact ⟨ha.descending i, hb.descending i, fun x hx y hy => (h i x hx y hy).1⟩
  · intro i x hx y hy hlt
    rcases mem_ends_alt.mp hx with hx | hx <;> rcases mem_ends_alt.mp hy with hy | hy
    · exact (ha.passed i x hx y hy hlt).mono hk
    · exact (h i x hx y hy).2
    · have := (h i y hy x hx).1
      omega
    · exact (hb.passed i x hx y hy hlt).mono hl

/-- Alternatives that begin with different characters do not match at one place. -/
theorem LongestFirst.alt_of_firsts (ha : LongestFirst t a ks) (hb : LongestFirst t b ls)
    (hna : a.nullable = false) (hnb : b.nullable = false)
    (h : classesApart a.firsts b.firsts = true) : LongestFirst t (.alt a b) (ks ++ ls) := by
  refine ha.alt hb (List.subset_append_left ks ls) (List.subset_append_right ks ls) ?_
  intro i x hx y hy
  have hx' := (shaped_of_mem_ends hx).first (lt_of_mem_ends hna hx)
  have hy' := (shaped_of_mem_ends hy).first (lt_of_mem_ends hnb hy)
  exact absurd hy' (not_atAny_of_apart h hx')

theorem longestFirst_chars (cs : List Char) : LongestFirst t (chars cs) [] := by
  induction cs with
  | nil => exact longestFirst_empty
  | cons c cs ih => exact (longestFirst_one (.single c)).seq_single ih

theorem ends_chars (cs : List Char) (i : Nat) :
    ends t (chars cs) i = if Stands t i cs then [i + cs.length] else [] := by
  rcases nil_or_singleton ((longestFirst_chars cs).length_le_one i) with h | ⟨x, h⟩
  · have hs : ¬ Stands t i cs := by
      intro hs
      have := mem_ends_chars.mpr ⟨hs, rfl⟩
      rw [h] at this
      cases this
    rw [h, if_neg hs]
  · obtain ⟨hs, rfl⟩ := mem_ends_chars.mp (h ▸ List.mem_singleton_self x)
    rw [h, if_pos hs]

/-! ### Repetitions -/

theorem ends_optional (r : Regex) (i : Nat) :
    ends t (.rep r 0 (some 1)) i = ends t r i ++ [i] := by
  have hbody : (ends t r i).flatMap (fun j => if j = i then [i] else greedy (ends t r) 0 j) =
      (ends t r i).flatMap fun j => [j] := by
    apply List.flatMap_congr
    intro j _
    split <;> simp_all [greedy]
  simp only [ends, times, spareRounds, List.flatMap_cons, List.flatMap_nil, List.append_nil]
  rw [greedy, hbody, List.flatMap_singleton']

theorem mem_optional (h : j ∈ r.ends t i) : j ∈ ends t (.rep r 0 (some 1)) i := by
  rw [ends_optional]
  exact List.mem_append_left _ h

theorem LongestFirst.optional (h : LongestFirst t r ks) (hr : r.nullable = false) :
    LongestFirst t (.rep r 0 (some 1)) (ks ++ r.firsts) := by
  constructor
  · intro i
    rw [ends_optional r, List.pairwise_append]
    refine ⟨h.descending i, List.pairwise_singleton _ _, fun x hx y hy => ?_⟩
    rw [List.mem_singleton] at hy
    exact hy ▸ lt_of_mem_ends hr hx
  · intro i x hx y hy hlt
    rw [ends_optional r, List.mem_append, List.mem_singleton] at hx hy
    rcases hx with hx | rfl
    · rcases hy with hy | rfl
      · exact (h.passed i x hx y hy hlt).mono (List.subset_append_left _ _)
      · obtain ⟨k, hk, hkt⟩ := (shaped_of_mem_ends hx).first hlt
        exact ⟨k, List.mem_append_right _ hk, hkt⟩
    · rcases hy with hy | rfl
      · have := le_of_mem_ends hy
        omega
      · omega

/-- Rounds with at most one end each have at most one end together. -/
theorem length_times_le_one {body : Nat → List Nat} (h : ∀ i, (body i).length ≤ 1) (n i : Nat) :
    (times body n i).length ≤ 1 := by
  induction n generalizing i with
  | zero => simp [times]
  | succ n ih =>
    rw [times]
    rcases nil_or_singleton (h i) with hl | ⟨x, hl⟩ <;> rw [hl]
    · simp
    · simpa using ih x

/-- As many rounds as there are, one by one: every end but the farthest is passed by a round. -/
theorem greedy_descending {body : Nat → List Nat} (hb : ∀ i, ∀ m ∈ body i, i < m)
    (h : ∀ i, (body i).length ≤ 1) (n i : Nat) :
    (greedy body n i).Pairwise (· > ·) ∧ ∀ m ∈ greedy body n i, ∀ m' ∈ greedy body n i,
      m' < m → ∃ e, e ∈ body m' := by
  induction n generalizing i with
  | zero =>
    simp only [greedy, List.mem_singleton]
    exact ⟨List.pairwise_singleton _ _, fun m hm m' hm' hlt => by omega⟩
  | succ n ih =>
    rcases nil_or_singleton (h i) with hl | ⟨x, hl⟩
    · simp only [greedy, hl, List.flatMap_nil, List.nil_append, List.mem_singleton]
      exact ⟨List.pairwise_singleton _ _, fun m hm m' hm' hlt => by omega⟩
    · have hx : i < x := hb i x (by simp [hl])
      have hfar : ∀ m ∈ greedy body n x, i < m := by
        intro m hm
        obtain ⟨k, -, hk⟩ := rounds_of_mem_greedy hm
        have := hk.le hb
        omega
      obtain ⟨hd, hp⟩ := ih x
      have hgreedy : greedy body (n + 1) i = greedy body n x ++ [i] := by
        simp [greedy, hl, Nat.ne_of_gt hx]
      rw [hgreedy]
      constructor
      · rw [List.pairwise_append]
        refine ⟨hd, List.pairwise_singleton _ _, fun m hm y hy => ?_⟩
        rw [List.mem_singleton] at hy
        exact hy ▸ hfar m hm
      · intro m hm m' hm' hlt
        rw [List.mem_append, List.mem_singleton] at hm hm'
        rcases hm with hm | rfl
        · rcases hm' with hm' | rfl
          · exact hp m hm m' hm' hlt
          · exact ⟨x, by simp [hl]⟩
        · rcases hm' with hm' | rfl
          · have := hfar m' hm'
            omega
          · omega

/-- A repetition of something with at most one end goes on where a round can begin. -/
theorem LongestFirst.rep (h : LongestFirst t r []) (hr : r.nullable = false) (low : Nat)
    (high : Option Nat) : LongestFirst t (.rep r low high) r.firsts := by
  have hone := h.length_le_one
  have hround : ∀ i, ∀ m ∈ r.ends t i, i < m := fun i m hm => lt_of_mem_ends hr hm
  have hgreedy : ∀ i, (ends t (.rep r low high) i).Pairwise (· > ·) ∧
      ∀ m ∈ ends t (.rep r low high) i, ∀ m' ∈ ends t (.rep r low high) i,
        m' < m → ∃ e, e ∈ r.ends t m' := by
    intro i
    rw [ends]
    rcases nil_or_singleton (length_times_le_one hone low i) with hl | ⟨x, hl⟩ <;> rw [hl]
    · simp
    · simpa using greedy_descending hround hone (spareRounds t low high x) x
  refine ⟨fun i => (hgreedy i).1, fun i m hm m' hm' hlt => ?_⟩
  obtain ⟨e, he⟩ := (hgreedy i).2 m hm m' hm' hlt
  exact (shaped_of_mem_ends he).first (lt_of_mem_ends hr he)

/-- A fixed number of rounds leaves no choice. -/
theorem LongestFirst.times (h : LongestFirst t r []) (n : Nat) :
    LongestFirst t (.rep r n (some n)) [] := by
  apply longestFirst_of_length_le_one
  intro i
  rw [ends]
  rcases nil_or_singleton (length_times_le_one h.length_le_one n i) with hl | ⟨x, hl⟩ <;> rw [hl]
  · simp
  · simp [spareRounds, greedy]

end Lexeme.Regex
