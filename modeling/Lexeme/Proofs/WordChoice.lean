import Lexeme.Proofs.Compilation
import Mathlib.Data.List.Perm.Basic

/-! Choice among words, from the words to the compiled source. Main statement: at every place of
every text the source of a choice matches the longest of its words that stands there, and the
source is made from the set of words alone. -/

namespace Lexeme.Pattern

open Regex

variable {words others : List String} {t : Array Char} {i j : Nat} {p : Pattern}

/-! ### The set of words -/

theorem wordLe_antisymm {a b : String} (hab : wordLe a b = true) (hba : wordLe b a = true) :
    a = b := by
  simp only [wordLe, Bool.or_eq_true, Bool.and_eq_true, decide_eq_true_eq, beq_iff_eq] at hab hba
  rcases hab with hab | ⟨hab, hab'⟩ <;> rcases hba with hba | ⟨hba, hba'⟩
  · omega
  · omega
  · omega
  · exact String.le_antisymm hab' hba'

theorem nodup_eraseDups : ∀ words : List String, words.eraseDups.Nodup
  | [] => .nil
  | w :: words => by
    rw [List.eraseDups_cons, List.nodup_cons, List.mem_eraseDups]
    exact ⟨by simp, nodup_eraseDups _⟩
termination_by words => words.length
decreasing_by exact Nat.lt_succ_of_le (List.length_filter_le _ _)

theorem nodup_longestFirst (words : List String) : (longestFirst words).Nodup :=
  (Sorting.sort_perm _ _).nodup_iff.mpr (nodup_eraseDups words)

/-- Neither order nor repetition of the words is left. -/
theorem longestFirst_eq_of_mem_iff (h : ∀ w, w ∈ others ↔ w ∈ words) :
    longestFirst others = longestFirst words := by
  have hperm : (longestFirst others).Perm (longestFirst words) := by
    rw [List.perm_ext_iff_of_nodup (nodup_longestFirst _) (nodup_longestFirst _)]
    intro w
    rw [mem_longestFirst, mem_longestFirst, h]
  exact hperm.eq_of_pairwise (fun _ _ _ _ => wordLe_antisymm) (longestFirst_sorted _)
    (longestFirst_sorted _)

theorem oneOf_eq_of_mem_iff (h : ∀ w, w ∈ others ↔ w ∈ words) : oneOf others = oneOf words := by
  rw [oneOf, oneOf, longestFirst_eq_of_mem_iff h]

/-- A choice can be built from words that are not empty, if there are any. -/
theorem oneOf?_eq_ok (hwords : words ≠ []) (hne : ∀ w ∈ words, w ≠ "") :
    oneOf? words = .ok (oneOf words) := by
  have hempty : words.any String.isEmpty = false := by
    rw [List.any_eq_false]
    exact fun w hw => by simpa using hne w hw
  rw [oneOf?, if_neg (by simpa using hwords), if_neg (by simp [hempty])]

/-! ### What the source matches -/

theorem isBounded_chars (cs : List Char) : (chars cs).isBounded = true := by
  induction cs with
  | nil => rfl
  | cons c cs ih => simpa [chars, isBounded] using ih

theorem isBounded_foldl_alt (h : p.toRegex.isBounded = true) (words : List String) :
    (words.foldl (fun p v => Pattern.alt p (.literal v)) p).toRegex.isBounded = true := by
  induction words generalizing p with
  | nil => exact h
  | cons w words ih =>
    refine ih ?_
    simp [toRegex, isBounded, h, isBounded_chars]

theorem isBounded_oneOf (h : words ≠ []) : (oneOf words).toRegex.isBounded = true := by
  obtain ⟨w, ws, -, hw⟩ := oneOf_eq_foldl h
  rw [hw]
  exact isBounded_foldl_alt (p := .literal w) (isBounded_chars w.toList) ws

/-- The source of a choice compiles to an expression with the ends of the choice. -/
theorem compile_oneOf (hwords : words ≠ []) (hne : ∀ w ∈ words, w ≠ "") :
    ∃ r, (oneOf words).compile = .ok r ∧
      ∀ (t : Array Char) (i : Nat), r.ends t i = (oneOf words).toRegex.ends t i :=
  (Built.oneOf (oneOf?_eq_ok hwords hne)).compile_ends (isBounded_oneOf hwords)

/-! ### Words at a place -/

/-- Of the words that begin a text one of the longest. -/
structure LongestWord (words : List String) (text : List Char) (w : String) : Prop where
  mem : w ∈ words
  begins : w.toList <+: text
  longest : ∀ v ∈ words, v.toList <+: text → v.length ≤ w.length

theorem mem_ends_oneOf_iff_begins (hwords : words ≠ []) : j ∈ (oneOf words).toRegex.ends t i ↔
    ∃ w ∈ words, w.toList <+: t.toList.drop i ∧ j = i + w.length := by
  simp only [mem_ends_oneOf hwords, stands_iff_begins]

theorem matchAt_oneOf_isSome (hwords : words ≠ []) (t : Array Char) (i : Nat) :
    ((oneOf words).toRegex.matchAt t i).isSome = true ↔
      ∃ w ∈ words, w.toList <+: t.toList.drop i := by
  rw [Option.isSome_iff_exists]
  constructor
  · rintro ⟨j, hj⟩
    obtain ⟨w, hw, hbegins, -⟩ := (mem_ends_oneOf_iff_begins hwords).mp (mem_ends_of_matchAt hj)
    exact ⟨w, hw, hbegins⟩
  · rintro ⟨w, hw, hbegins⟩
    exact matchAt_isSome ((mem_ends_oneOf_iff_begins hwords).mpr ⟨w, hw, hbegins, rfl⟩)

theorem matchAt_oneOf_iff (hwords : words ≠ []) :
    (oneOf words).toRegex.matchAt t i = some j ↔
      ∃ w, LongestWord words (t.toList.drop i) w ∧ j = i + w.length := by
  constructor
  · intro hj
    obtain ⟨w, hw, hbegins, rfl⟩ :=
      (mem_ends_oneOf_iff_begins hwords).mp (mem_ends_of_matchAt hj)
    refine ⟨w, ⟨hw, hbegins, fun v hv hvbegins => ?_⟩, rfl⟩
    have hle := le_matchAt_oneOf hwords hj
      ((mem_ends_oneOf_iff_begins hwords).mpr ⟨v, hv, hvbegins, rfl⟩)
    omega
  · rintro ⟨w, hw, rfl⟩
    have hmem := (mem_ends_oneOf_iff_begins hwords).mpr ⟨w, hw.mem, hw.begins, rfl⟩
    obtain ⟨k, hk⟩ := matchAt_isSome hmem
    have hge := le_matchAt_oneOf hwords hk hmem
    obtain ⟨v, hv, hbegins, rfl⟩ :=
      (mem_ends_oneOf_iff_begins hwords).mp (mem_ends_of_matchAt hk)
    have hle := hw.longest v hv hbegins
    rw [hk, show v.length = w.length by omega]

/-- A choice among words that are not empty can be built and compiled. At a place of a text it
matches if a word begins what is left of the text, and then it matches the longest such word. Words
in another order or with other repetitions give the same source. -/
theorem oneOf_longest (hwords : words ≠ []) (hne : ∀ w ∈ words, w ≠ "") :
    ∃ p r, oneOf? words = .ok p ∧ p.compile = .ok r ∧
      (∀ (text : String) (i : Nat),
        ((r.matchAt text.toList.toArray i).isSome = true ↔
          ∃ w ∈ words, w.toList <+: text.toList.drop i) ∧
        ∀ j, r.matchAt text.toList.toArray i = some j ↔
          ∃ w, LongestWord words (text.toList.drop i) w ∧ j = i + w.length) ∧
      ∀ others, (∀ w, w ∈ others ↔ w ∈ words) →
        ∃ q, oneOf? others = .ok q ∧ q.source = p.source := by
  obtain ⟨r, hcompile, hends⟩ := compile_oneOf hwords hne
  have hmatch : ∀ t i, r.matchAt t i = (oneOf words).toRegex.matchAt t i := by
    intro t i
    rw [matchAt_eq_head?, matchAt_eq_head?, hends]
  refine ⟨oneOf words, r, oneOf?_eq_ok hwords hne, hcompile, fun text i => ?_, fun others h => ?_⟩
  · simp only [hmatch]
    exact ⟨matchAt_oneOf_isSome hwords _ i, fun j => matchAt_oneOf_iff hwords⟩
  · have hothers : others ≠ [] := by
      rintro rfl
      obtain ⟨w, hw⟩ := List.exists_mem_of_ne_nil words hwords
      cases (h w).mpr hw
    refine ⟨oneOf others, oneOf?_eq_ok hothers fun w hw => hne w ((h w).mp hw), ?_⟩
    rw [oneOf_eq_of_mem_iff h]

/-- One of three operators that begin alike. -/
theorem oneOf_longest_shift :
    (["<", "<<=", "<<", "<"] : List String) ≠ [] ∧ (∀ w ∈ ["<", "<<=", "<<", "<"], w ≠ "") ∧
      ∃ p r, oneOf? ["<", "<<=", "<<", "<"] = .ok p ∧ p.compile = .ok r ∧
        p.source = "<<=|<<|<" ∧ r.matchAt "a<<b".toList.toArray 1 = some 3 := by
  have hne : ∀ w ∈ ["<", "<<=", "<<", "<"], w ≠ "" := by decide
  obtain ⟨p, r, hp, hr, hmatch, -⟩ := oneOf_longest (by decide) hne
  refine ⟨by decide, hne, p, r, hp, hr, ?_, ((hmatch "a<<b" 1).2 3).mpr ⟨"<<", ?_, rfl⟩⟩
  · cases hp
    decide
  · exact ⟨by decide, by decide, by decide⟩

end Lexeme.Pattern
