import Lexeme.Grammar.Basic
import Lexeme.Proofs.Pattern

/-! Identifiers, keywords and punctuators. Main statements: the match of an identifier is the
longest one and no letter or digit follows it, and a keyword within an identifier is all of it. -/

namespace Lexeme.Grammar

open Pattern Regex

variable {t : Array Char} {i j p q : Nat}

/-! ### Universal character names -/

/-- The letter after the backslash of a universal character name. -/
def universalLetter : CharClass := .ofBody "uU"

/-- Letters, digits and the underscore. -/
def wordClass : CharClass := .ofBody "_a-zA-Z0-9"

theorem isWord_of_wordClass {c : Char} (h : wordClass.test c = true) :
    WordChar.isWord c = true := by
  have hk : wordClass = ⟨false, [⟨95, 95⟩, ⟨97, 122⟩, ⟨65, 90⟩, ⟨48, 57⟩]⟩ := by decide
  rw [hk, CharClass.test, Bool.bne_false, CodeRange.anyContains_iff] at h
  obtain ⟨r, hr, h1, h2⟩ := h
  simp only [List.mem_cons, List.not_mem_nil, or_false] at hr
  rcases hr with rfl | rfl | rfl | rfl
  · obtain rfl : c = '_' := Char.toNat_inj.mp (Nat.le_antisymm h2 h1)
    exact WordChar.isWord_underscore
  all_goals
    apply WordChar.isWord_of_isAlphanum
    rw [WordChar.isAlphanum_iff]
    simp only at h1 h2
    omega

theorem wordAt_of_at (h : At t wordClass p) : wordAt t p = true := by
  obtain ⟨c, hc, hk⟩ := h
  simp [wordAt, hc, isWord_of_wordClass hk]

theorem longestFirst_hexQuad : LongestFirst t hexQuad.toRegex [] := (longestFirst_set _).times 4

theorem longestFirst_universalCharacterName :
    LongestFirst t universalCharacterName.toRegex [] := by
  refine ((longestFirst_literal "\\u").seq_single longestFirst_hexQuad).alt
    (((longestFirst_literal "\\U").seq_single longestFirst_hexQuad).seq_single
      longestFirst_hexQuad) (List.Subset.refl _) (List.Subset.refl _) ?_
  intro i x hx y hy
  obtain ⟨m, hm, -⟩ := mem_ends_seq.mp hx
  obtain ⟨n, hn, -⟩ := mem_ends_seq.mp hy
  obtain ⟨m', hm', -⟩ := mem_ends_seq.mp hn
  have hlower := (mem_ends_literal.mp hm).1 1 (by decide)
  have hupper := (mem_ends_literal.mp hm').1 1 (by decide)
  exact absurd (hlower.symm.trans hupper) (by decide)

/-- A name begins with its backslash, the letter and a digit. -/
theorem at_universalCharacterName {e : Nat} (h : e ∈ ends t universalCharacterName.toRegex p) :
    At t universalLetter (p + 1) ∧ At t (.ofBody "0-9a-fA-F") (p + 2) := by
  have hquad : ∀ {x y}, y ∈ ends t hexQuad.toRegex x → At t (.ofBody "0-9a-fA-F") x := by
    intro x y hy
    have hn : hexQuad.toRegex.nullable = false := by decide
    have hf : hexQuad.toRegex.firsts = [.ofBody "0-9a-fA-F"] := by decide
    obtain ⟨k, hk, hkx⟩ := (shaped_of_mem_ends hy).first (lt_of_mem_ends hn hy)
    rw [hf, List.mem_singleton] at hk
    exact hk ▸ hkx
  rcases mem_ends_alt.mp h with h | h
  · obtain ⟨m, hm, hq⟩ := mem_ends_seq.mp h
    obtain ⟨hs, rfl⟩ := mem_ends_literal.mp hm
    exact ⟨⟨'u', hs 1 (by decide), by decide⟩, hquad hq⟩
  · obtain ⟨n, hn, -⟩ := mem_ends_seq.mp h
    obtain ⟨m, hm, hq⟩ := mem_ends_seq.mp hn
    obtain ⟨hs, rfl⟩ := mem_ends_literal.mp hm
    exact ⟨⟨'U', hs 1 (by decide), by decide⟩, hquad hq⟩

theorem at_word_of_universalCharacterName {m e : Nat}
    (h : e ∈ ends t universalCharacterName.toRegex m) (hm : m < p) (he : p < e) :
    At t wordClass p := by
  obtain ⟨k, hk, -, hp⟩ := (shaped_of_mem_ends h).beside (p - 1) (by omega) (by omega)
  have hall : ∀ k ∈ universalCharacterName.toRegex.adjacent, k.2.within wordClass = true := by
    decide
  rw [show p - 1 + 1 = p by omega] at hp
  exact hp.within (hall k hk)

/-! ### Identifiers -/

/-- What follows the first character of an identifier, one at a time. -/
def identifierUnit : Pattern := identifierNondigit <|> digit

/-- A letter, digit or underscore stands at the place, or a universal character name begins. -/
def UnitAt (t : Array Char) (p : Nat) : Prop :=
  At t wordClass p ∨ ∃ e, e ∈ ends t universalCharacterName.toRegex p

theorem longestFirst_identifierNondigit : LongestFirst t identifierNondigit.toRegex [] :=
  (longestFirst_set _).alt_of_firsts longestFirst_universalCharacterName (by decide)
    (by decide) (by decide)

theorem longestFirst_identifierUnit : LongestFirst t identifierUnit.toRegex [] :=
  longestFirst_identifierNondigit.alt_of_firsts (longestFirst_set _) (by decide)
    (by decide) (by decide)

theorem identifierUnit_not_nullable : identifierUnit.toRegex.nullable = false := by decide

theorem longestFirst_identifier :
    LongestFirst t identifier.toRegex identifierUnit.toRegex.firsts :=
  longestFirst_identifierNondigit.seq_single
    (longestFirst_identifierUnit.rep identifierUnit_not_nullable 0 none)

theorem unitAt_of_mem_unit {m e : Nat} (h : e ∈ ends t identifierUnit.toRegex m) (hm : m ≤ p)
    (he : p < e) : UnitAt t p := by
  have hset : ∀ {body}, (CharClass.ofBody body).within wordClass = true →
      e ∈ ends t (Pattern.set body).toRegex m → UnitAt t p := by
    intro body hw he'
    obtain ⟨hk, rfl⟩ := mem_ends_set.mp he'
    obtain rfl : p = m := by omega
    exact .inl (hk.within hw)
  rcases mem_ends_alt.mp h with h | h
  · rcases mem_ends_alt.mp h with h | h
    · exact hset (by decide) h
    · rcases Nat.lt_or_eq_of_le hm with hlt | rfl
      · exact .inl (at_word_of_universalCharacterName h hlt he)
      · exact .inr ⟨e, h⟩
  · exact hset (by decide) h

theorem unitAt_of_rounds {n m e : Nat} (h : Rounds (ends t identifierUnit.toRegex) n m e)
    (hm : m ≤ p) (he : p < e) : UnitAt t p := by
  induction h with
  | done i => omega
  | more hx h ih =>
    rename_i x _
    rcases Nat.lt_or_ge p x with hlt | hge
    · exact unitAt_of_mem_unit hx hm hlt
    · exact ih hge he

/-- Every place of an identifier holds one of its characters or begins a name of one. -/
theorem unitAt_of_mem_identifier (h : j ∈ ends t identifier.toRegex i) (hp : i ≤ p)
    (hj : p < j) : UnitAt t p := by
  obtain ⟨m, hm, hr⟩ := mem_ends_seq.mp h
  obtain ⟨n, -, -, hn⟩ := rounds_of_mem_rep hr
  rcases Nat.lt_or_ge p m with hlt | hge
  · exact unitAt_of_mem_unit (mem_ends_alt.mpr (.inl hm)) hp hlt
  · exact unitAt_of_rounds hn hge hj

theorem succ_mem_identifierUnit (h : At t wordClass p) :
    p + 1 ∈ ends t identifierUnit.toRegex p := by
  obtain ⟨c, hc, hk⟩ := h
  have hranges : wordClass = ⟨false, (CharClass.ofBody "_a-zA-Z").ranges ++
      (CharClass.ofBody "0-9").ranges⟩ := by decide
  have hletters : (CharClass.ofBody "_a-zA-Z").negated = false := by decide
  have hdigits : (CharClass.ofBody "0-9").negated = false := by decide
  rw [hranges, CharClass.test, CodeRange.anyContains_append, Bool.bne_false, Bool.or_eq_true] at hk
  rcases hk with hk | hk
  · have hset : p + 1 ∈ ends t nondigit.toRegex p :=
      mem_ends_set.mpr ⟨⟨c, hc, by rw [CharClass.test, hletters, Bool.bne_false, hk]⟩, rfl⟩
    exact mem_ends_alt.mpr (.inl (mem_ends_alt.mpr (.inl hset)))
  · have hset : p + 1 ∈ ends t digit.toRegex p :=
      mem_ends_set.mpr ⟨⟨c, hc, by rw [CharClass.test, hdigits, Bool.bne_false, hk]⟩, rfl⟩
    exact mem_ends_alt.mpr (.inr hset)

/-- An identifier can be read one character further. -/
theorem succ_mem_identifier (h : j ∈ ends t identifier.toRegex i) (hj : At t wordClass j) :
    j + 1 ∈ ends t identifier.toRegex i := by
  obtain ⟨m, hm, hr⟩ := mem_ends_seq.mp h
  obtain ⟨n, -, -, hn⟩ := rounds_of_mem_rep hr
  have hmj := le_of_mem_ends hr
  have hjt := hj.lt_size
  have hround : Rounds (ends t identifierUnit.toRegex) 1 j (j + 1) :=
    .more (succ_mem_identifierUnit hj) (.done _)
  refine mem_ends_seq.mpr ⟨m, hm, ?_⟩
  exact mem_rep_of_rounds (fun _ _ => lt_of_mem_ends identifierUnit_not_nullable) (by omega)
    (Nat.zero_le _) (by simp) (hn.trans hround)

theorem mem_identifier_of_nondigit (h : At t (.ofBody "_a-zA-Z") p) :
    p + 1 ∈ ends t identifier.toRegex p := by
  have hset : p + 1 ∈ ends t nondigit.toRegex p := mem_ends_set.mpr ⟨h, rfl⟩
  have hp := h.lt_size
  refine mem_ends_seq.mpr ⟨p + 1, mem_ends_alt.mpr (.inl hset), ?_⟩
  exact mem_rep_of_rounds (fun _ _ => lt_of_mem_ends identifierUnit_not_nullable) (by omega)
    (Nat.zero_le _) (by simp) (.done _)

/-- No letter or digit follows the match of an identifier. -/
theorem not_at_of_identifier_matchAt (h : identifier.toRegex.matchAt t i = some j) :
    ¬ At t wordClass j := by
  intro hj
  have := longestFirst_identifier.le_matchAt h (succ_mem_identifier (mem_ends_of_matchAt h) hj)
  omega

/-! ### Keywords -/

theorem mem_ends_keywords : j ∈ ends t (oneOf keywords).toRegex i ↔
    ∃ w ∈ keywords, Stands t i w.toList ∧ j = i + w.length :=
  mem_ends_oneOf (by decide)

theorem mem_ends_keyword : j ∈ ends t keyword.toRegex i ↔
    atBoundary t i = true ∧ j ∈ ends t (oneOf keywords).toRegex i ∧ atBoundary t j = true ∧
      ends t universalCharacterName.toRegex j = [] :=
  mem_ends_wordUnless

theorem at_word_of_keywords (h : j ∈ ends t (oneOf keywords).toRegex i) (hp : i ≤ p)
    (hj : p < j) : At t wordClass p := by
  obtain ⟨k, hk, hkp⟩ := (shaped_of_mem_ends h).inside p hp hj
  have hall : ∀ k ∈ (oneOf keywords).toRegex.classes, k.within wordClass = true := by
    decide +kernel
  exact hkp.within (hall k hk)

theorem at_word_of_keyword (h : j ∈ ends t keyword.toRegex i) (hp : i ≤ p) (hj : p < j) :
    At t wordClass p := at_word_of_keywords (mem_ends_keyword.mp h).2.1 hp hj

theorem wordAt_of_keyword (h : j ∈ ends t keyword.toRegex i) (hp : i ≤ p) (hj : p < j) :
    wordAt t p = true := wordAt_of_at (at_word_of_keyword h hp hj)

/-- No word character stands before or behind a keyword. -/
theorem not_wordAt_of_keyword (h : j ∈ ends t keyword.toRegex i) :
    (0 < i → wordAt t (i - 1) = false) ∧ wordAt t j = false := by
  have hlt := lt_of_mem_ends (r := keyword.toRegex) (by decide) h
  have hfirst := wordAt_of_keyword h (Nat.le_refl i) hlt
  have hlast := wordAt_of_keyword h (p := j - 1) (by omega) (by omega)
  obtain ⟨hi, -, hj, -⟩ := mem_ends_keyword.mp h
  rw [atBoundary, hfirst] at hi
  rw [atBoundary, hlast] at hj
  constructor
  · intro h0
    simpa [Nat.ne_of_gt h0] using hi
  · have hj0 : (j != 0) = true := by simp only [bne_iff_ne]; omega
    simpa [hj0] using hj

/-- A keyword is not what follows the backslash of a universal character name. -/
theorem not_universal_before_keyword (h : j ∈ ends t keyword.toRegex (p + 1)) :
    ends t universalCharacterName.toRegex p = [] := by
  rw [List.eq_nil_iff_forall_not_mem]
  intro e he
  obtain ⟨hu, hx⟩ := at_universalCharacterName he
  obtain ⟨w, hw, hs, -⟩ := mem_ends_keywords.mp (mem_ends_keyword.mp h).2.1
  have hlen : ∀ w ∈ keywords, 1 < w.toList.length := by decide
  have hall : ∀ w ∈ keywords, ¬ (w.toList[0]?.any universalLetter.test = true ∧
      w.toList[1]?.any (CharClass.ofBody "0-9a-fA-F").test = true) := by decide
  have hlen := hlen w hw
  refine hall w hw ⟨?_, ?_⟩
  · rw [← hs 0 (by omega)]
    exact any_test_iff.mpr hu
  · rw [← hs 1 (by omega)]
    exact any_test_iff.mpr hx

/-- No identifier goes on into a keyword. -/
theorem not_unitAt_before_keyword (h : j ∈ ends t keyword.toRegex (p + 1)) : ¬ UnitAt t p := by
  rintro (hw | ⟨e, he⟩)
  · have hbefore := (not_wordAt_of_keyword h).1 (Nat.succ_pos p)
    rw [Nat.add_sub_cancel, wordAt_of_at hw] at hbefore
    cases hbefore
  · rw [not_universal_before_keyword h] at he
    cases he

/-- No identifier goes on behind a keyword. -/
theorem not_unitAt_behind_keyword (h : j ∈ ends t keyword.toRegex i) : ¬ UnitAt t j := by
  rintro (hw | ⟨e, he⟩)
  · have hbehind := (not_wordAt_of_keyword h).2
    rw [wordAt_of_at hw] at hbehind
    cases hbehind
  · rw [(mem_ends_keyword.mp h).2.2.2] at he
    cases he

/-- An identifier that reaches into a keyword begins no earlier. -/
theorem keyword_start_le (hi : j ∈ ends t identifier.toRegex i)
    (hk : q ∈ ends t keyword.toRegex p) (hpj : p < j) : p ≤ i := by
  refine Nat.le_of_not_lt fun hip => ?_
  obtain ⟨p, rfl⟩ := Nat.exists_eq_succ_of_ne_zero (Nat.ne_of_gt (Nat.zero_lt_of_lt hip))
  exact not_unitAt_before_keyword hk (unitAt_of_mem_identifier hi (by omega) (by omega))

/-- An identifier that begins before the end of a keyword goes no further. -/
theorem le_keyword_end (hi : j ∈ ends t identifier.toRegex i)
    (hk : q ∈ ends t keyword.toRegex p) (hiq : i ≤ q) : j ≤ q :=
  Nat.le_of_not_lt fun hqj => not_unitAt_behind_keyword hk (unitAt_of_mem_identifier hi hiq hqj)

/-- A keyword within an identifier is all of it. -/
theorem keyword_within_identifier (hi : j ∈ ends t identifier.toRegex i)
    (hk : q ∈ ends t keyword.toRegex p) (hip : i ≤ p) (hqj : q ≤ j) : p = i ∧ q = j := by
  have hlt := lt_of_mem_ends (r := keyword.toRegex) (by decide) hk
  have hstart := keyword_start_le hi hk (by omega)
  have hend := le_keyword_end hi hk (by omega)
  omega

/-- A keyword is an identifier that cannot be read on. -/
theorem identifier_matchAt_of_keyword (h : j ∈ ends t keyword.toRegex i) :
    identifier.toRegex.matchAt t i = some j := by
  have hlt := lt_of_mem_ends (r := keyword.toRegex) (by decide) h
  have hfirst : At t (.ofBody "_a-zA-Z") i := by
    obtain ⟨k, hk, hki⟩ := (shaped_of_mem_ends h).first hlt
    have hall : ∀ k ∈ keyword.toRegex.firsts, k.within (.ofBody "_a-zA-Z") = true := by
      decide +kernel
    exact hki.within (hall k hk)
  obtain ⟨e, he⟩ := matchAt_isSome (mem_identifier_of_nondigit hfirst)
  have hle := le_keyword_end (mem_ends_of_matchAt he) h (Nat.le_of_lt hlt)
  have hge : j ≤ e := by
    refine Nat.le_of_not_lt fun hej => ?_
    have hie := le_of_mem_ends (mem_ends_of_matchAt he)
    exact not_at_of_identifier_matchAt he (at_word_of_keyword h hie hej)
  rw [he, Nat.le_antisymm hle hge]

/-- The word that opens an enumeration is a keyword of its own. -/
theorem keyword_of_enumeration (h : j ∈ ends t enumerationConstant.toRegex i) :
    i + 4 ∈ ends t keyword.toRegex i ∧ Stands t i "enum".toList := by
  have hword : ∀ {m}, m ∈ ends t enumKeyword.toRegex i →
      i + 4 ∈ ends t keyword.toRegex i ∧ Stands t i "enum".toList := by
    intro m hm
    obtain ⟨hb, hw, hb', hu⟩ := mem_ends_wordUnless.mp hm
    obtain ⟨hs, rfl⟩ := mem_ends_literal.mp hw
    refine ⟨mem_ends_keyword.mpr ⟨hb, ?_, hb', hu⟩, hs⟩
    exact mem_ends_keywords.mpr ⟨"enum", by decide, hs, rfl⟩
  rcases mem_ends_alt.mp h with h | h
  · obtain ⟨m, hm, -⟩ := mem_ends_seq.mp h
    obtain ⟨m', hm', -⟩ := mem_ends_seq.mp hm
    obtain ⟨m'', hm'', -⟩ := mem_ends_seq.mp hm'
    exact hword hm''
  · obtain ⟨m, hm, -⟩ := mem_ends_seq.mp h
    obtain ⟨m', hm', -⟩ := mem_ends_seq.mp hm
    exact hword hm'

/-! ### Punctuators -/

theorem mem_ends_punctuator : j ∈ ends t punctuator.toRegex i ↔
    ∃ w ∈ punctuators, Stands t i w.toList ∧ j = i + w.length :=
  mem_ends_oneOf (by decide)

theorem le_matchAt_punctuator {e : Nat} (hj : punctuator.toRegex.matchAt t i = some j)
    (he : e ∈ ends t punctuator.toRegex i) : e ≤ j :=
  le_matchAt_oneOf (by decide) hj he

end Lexeme.Grammar
