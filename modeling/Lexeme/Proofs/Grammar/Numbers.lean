import Lexeme.Proofs.Grammar.Words

/-! Integer and floating constants. Main statements: the match of a number is the longest one, and a
floating constant within an integer constant lies behind the mark of a hexadecimal number. -/

namespace Lexeme.Grammar

open Pattern Regex

variable {t : Array Char} {i j p q : Nat}

theorem at_hexadecimalMark (h : j ∈ ends t hexadecimalMark.toRegex i) :
    At t (.single '0') i ∧ At t (.ofBody "xX") (i + 1) ∧ j = i + 2 := by
  obtain ⟨m, hm, hj⟩ := mem_ends_seq.mp h
  obtain ⟨hs, rfl⟩ := mem_ends_literal.mp hm
  obtain ⟨hx, rfl⟩ := mem_ends_set.mp hj
  exact ⟨at_single_iff.mpr (hs 0 (by decide)), hx, rfl⟩

theorem at_digitSequence (h : j ∈ ends t digitSequence.toRegex i) (hp : i ≤ p) (hj : p < j) :
    At t (.ofBody "0-9") p := by
  obtain ⟨k, hk, hkp⟩ := (shaped_of_mem_ends h).inside p hp hj
  have hclasses : digitSequence.toRegex.classes = [.ofBody "0-9"] := by decide
  rw [hclasses, List.mem_singleton] at hk
  exact hk ▸ hkp

theorem at_exponentPart (h : j ∈ ends t exponentPart.toRegex i) : At t (.ofBody "eE") i := by
  obtain ⟨m, hm, -⟩ := mem_ends_seq.mp h
  obtain ⟨n, hn, -⟩ := mem_ends_seq.mp hm
  exact (mem_ends_set.mp hn).1

/-! ### Floating constants within integer constants -/

/-- Only a hexadecimal number has the letter of an exponent among its digits. -/
theorem hexadecimal_of_exponent_letter (h : j ∈ ends t integerConstant.toRegex i) (hp : i ≤ p)
    (hj : p < j) (he : At t (.ofBody "eE") p) : At t (.ofBody "xX") (i + 1) := by
  obtain ⟨m, hm, hsuffix⟩ := mem_ends_seq.mp h
  rcases Nat.lt_or_ge p m with hpm | hpm
  · rcases mem_ends_alt.mp hm with hm | hm
    · obtain ⟨n, hn, -⟩ := mem_ends_seq.mp hm
      exact (at_hexadecimalMark hn).2.1
    · exact absurd he (not_at_of_apart (by decide) hm hp hpm)
  · exact absurd he (not_at_of_apart (by decide) hsuffix hpm hj)

/-- Of the floating constants only one without a point and without a `p` fits. -/
theorem exponent_of_floating_within_integer {s e : Nat} (hI : e ∈ ends t integerConstant.toRegex s)
    (hF : q ∈ ends t floatingConstant.toRegex p) (hsp : s ≤ p) (hqe : q ≤ e) :
    ∃ m x, m ∈ ends t digitSequence.toRegex p ∧ x ∈ ends t exponentPart.toRegex m ∧ x ≤ q := by
  rcases mem_ends_alt.mp hF with hF | hF
  · exact absurd ⟨hsp, hqe⟩ (not_within_of_excludes (by decide) hI hF)
  · obtain ⟨x, hx, hsuffix⟩ := mem_ends_seq.mp hF
    have hxq := le_of_mem_ends hsuffix
    rcases mem_ends_alt.mp hx with hx | hx
    · refine absurd ⟨hsp, ?_⟩ (not_within_of_excludes (by decide) hI hx)
      omega
    · obtain ⟨m, hm, hx⟩ := mem_ends_seq.mp hx
      exact ⟨m, x, hm, hx, hxq⟩

/-- A floating constant within an integer constant lies behind the mark `0x`. -/
theorem floating_within_integer {s e : Nat} (hI : e ∈ ends t integerConstant.toRegex s)
    (hF : q ∈ ends t floatingConstant.toRegex p) (hsp : s ≤ p) (hqe : q ≤ e) :
    At t (.ofBody "xX") (s + 1) ∧ s + 2 ≤ p := by
  obtain ⟨m, x, hm, hx, hxq⟩ := exponent_of_floating_within_integer hI hF hsp hqe
  have hpm := lt_of_mem_ends (r := digitSequence.toRegex) (by decide) hm
  have hmx := lt_of_mem_ends (r := exponentPart.toRegex) (by decide) hx
  have he := at_exponentPart hx
  have hmark := hexadecimal_of_exponent_letter hI (p := m) (by omega) (by omega) he
  refine ⟨hmark, ?_⟩
  -- before the exponent there are digits only, and the mark is none
  rcases Nat.lt_trichotomy (s + 1) m with hlt | heq | hgt
  · rcases Nat.lt_or_ge (s + 1) p with hsp' | hsp'
    · exact hsp'
    · exact absurd hmark ((at_digitSequence hm hsp' hlt).not_apart (by decide))
  · exact absurd hmark (heq ▸ he.not_apart (by decide))
  · omega

/-! ### The longest integer constant -/

theorem longestFirst_hexadecimalMark : LongestFirst t hexadecimalMark.toRegex [] :=
  (longestFirst_literal "0").seq_single (longestFirst_set "xX")

theorem longestFirst_longLongSuffix : LongestFirst t longLongSuffix.toRegex [] :=
  (longestFirst_literal "ll").alt_of_firsts (longestFirst_literal "LL") (by decide)
    (by decide) (by decide)

theorem at_longLongSuffix (h : j ∈ ends t longLongSuffix.toRegex i) :
    At t (.ofBody "lL") (i + 1) ∧ j = i + 2 := by
  rcases mem_ends_alt.mp h with h | h
  · obtain ⟨hs, rfl⟩ := mem_ends_literal.mp h
    exact ⟨⟨'l', hs 1 (by decide), by decide⟩, rfl⟩
  · obtain ⟨hs, rfl⟩ := mem_ends_literal.mp h
    exact ⟨⟨'L', hs 1 (by decide), by decide⟩, rfl⟩

/-- Where `ll` stands, `l` alone is passed. -/
theorem longestFirst_anyLongSuffix :
    LongestFirst t (longLongSuffix <|> longSuffix).toRegex [.ofBody "lL"] := by
  refine longestFirst_longLongSuffix.alt (longestFirst_set "lL") (List.nil_subset _)
    (List.nil_subset _) ?_
  intro i x hx y hy
  obtain ⟨hl, rfl⟩ := at_longLongSuffix hx
  obtain ⟨-, rfl⟩ := mem_ends_set.mp hy
  exact ⟨by omega, _, List.mem_singleton_self _, hl⟩

theorem longestFirst_longThenUnsigned :
    LongestFirst t (longLongSuffix ++ .optional unsignedSuffix <|>
      longSuffix ++ .optional unsignedSuffix).toRegex [.ofBody "uU", .ofBody "lL"] := by
  have hu : LongestFirst t (Pattern.optional unsignedSuffix).toRegex [.ofBody "uU"] :=
    ((longestFirst_set "uU").optional (by decide)).mono (by decide)
  refine (longestFirst_longLongSuffix.seq_single hu).alt ((longestFirst_set "lL").seq_single hu)
    (by simp) (by simp) ?_
  intro i x hx y hy
  obtain ⟨m, hm, hx⟩ := mem_ends_seq.mp hx
  obtain ⟨n, hn, hy⟩ := mem_ends_seq.mp hy
  obtain ⟨hl, rfl⟩ := at_longLongSuffix hm
  obtain ⟨-, rfl⟩ := mem_ends_set.mp hn
  have hany : AtAny t [.ofBody "lL"] (i + 1) := ⟨_, List.mem_singleton_self _, hl⟩
  have hy := eq_of_mem_ends_of_apart (by decide) hany hy
  have hx := le_of_mem_ends hx
  subst hy
  exact ⟨by omega, hany.mono (by simp)⟩

theorem longestFirst_integerSuffix : LongestFirst t integerSuffix.toRegex
    [.ofBody "uU", .ofBody "lL", .single 'l', .single 'L'] := by
  have hu : LongestFirst t (unsignedSuffix ++ .optional (longLongSuffix <|> longSuffix)).toRegex
      ([.ofBody "lL"] ++ (longLongSuffix <|> longSuffix).toRegex.firsts) :=
    (longestFirst_set "uU").seq_single (longestFirst_anyLongSuffix.optional (by decide))
  exact (hu.alt_of_firsts longestFirst_longThenUnsigned (by decide) (by decide)
    (by decide)).mono (by decide)

/-- A hexadecimal number is longer than the zero at its beginning. -/
theorem longestFirst_integerDigits :
    LongestFirst t (hexadecimalConstant <|> decimalConstant <|> octalConstant).toRegex
      [.ofBody "0-9a-fA-F", .ofBody "0-9", .ofBody "0-7", .ofBody "xX"] := by
  have hhex : LongestFirst t hexadecimalConstant.toRegex [.ofBody "0-9a-fA-F"] :=
    longestFirst_hexadecimalMark.seq_single (longestFirst_run _ 1)
  have hdec : LongestFirst t decimalConstant.toRegex [.ofBody "0-9"] :=
    (longestFirst_set "1-9").seq_single (longestFirst_run _ 0)
  have hoct : LongestFirst t octalConstant.toRegex [.ofBody "0-7"] :=
    (longestFirst_literal "0").seq_single (longestFirst_run _ 0)
  refine hhex.alt (hdec.alt_of_firsts hoct (by decide) (by decide)
    (by decide)) (by simp) (by simp) ?_
  intro i x hx y hy
  obtain ⟨m, hm, hx⟩ := mem_ends_seq.mp hx
  obtain ⟨hzero, hmark, rfl⟩ := at_hexadecimalMark hm
  have hx := le_of_mem_ends hx
  rcases mem_ends_alt.mp hy with hy | hy
  · obtain ⟨n, hn, -⟩ := mem_ends_seq.mp hy
    exact absurd (mem_ends_set.mp hn).1 (hzero.not_apart (by decide))
  · obtain ⟨n, hn, hy⟩ := mem_ends_seq.mp hy
    obtain ⟨-, rfl⟩ := mem_ends_literal.mp hn
    have hany : AtAny t [.ofBody "xX"] (i + 1) := ⟨_, List.mem_singleton_self _, hmark⟩
    have hy := eq_of_mem_ends_of_apart (by decide) hany hy
    subst hy
    exact ⟨Nat.lt_of_lt_of_le (Nat.lt_succ_self _) hx, hany.mono (by simp)⟩

theorem longestFirst_integerConstant : ∃ ks, LongestFirst t integerConstant.toRegex ks :=
  ⟨_, longestFirst_integerDigits.seq (longestFirst_integerSuffix.optional (by decide))
    (by decide)⟩

/-! ### The longest floating constant -/

/-- Digits of one class around a point; the digits on one side may be missing. -/
def fraction (body : String) : Pattern :=
  .optional (.plus (.set body)) ++ .literal "." ++ .plus (.set body) <|>
    .plus (.set body) ++ .literal "."

theorem longestFirst_optional_run (body : String) :
    LongestFirst t (Pattern.optional (.plus (.set body))).toRegex [.ofBody body] := by
  have hrun : (Pattern.plus (.set body)).toRegex.nullable = false := set_not_nullable body
  refine ((longestFirst_run body 1).optional hrun).mono ?_
  exact List.append_subset.mpr ⟨List.Subset.refl _, firsts_set_subset body⟩

theorem at_of_mem_run {body : String} (h : j ∈ ends t (Pattern.plus (.set body)).toRegex i) :
    At t (.ofBody body) i ∧ i < j := by
  have hlt := lt_of_mem_ends (r := (Pattern.plus (.set body)).toRegex) (set_not_nullable body) h
  obtain ⟨k, hk, hki⟩ := (shaped_of_mem_ends h).first hlt
  have hk := firsts_set_subset body hk
  rw [List.mem_singleton] at hk
  exact ⟨hk ▸ hki, hlt⟩

/-- The point stands behind the digits before it, if there are any. -/
theorem point_of_fraction (body : String) (h : j ∈ ends t (fraction body).toRegex i) :
    ∃ n ∈ ends t (Pattern.optional (.plus (.set body))).toRegex i,
      At t (.single '.') n ∧ n < j := by
  rcases mem_ends_alt.mp h with h | h
  · obtain ⟨m, hm, hj⟩ := mem_ends_seq.mp h
    obtain ⟨n, hn, hm⟩ := mem_ends_seq.mp hm
    obtain ⟨hs, rfl⟩ := mem_ends_literal.mp hm
    have := (at_of_mem_run hj).2
    exact ⟨n, hn, at_single_iff.mpr (hs 0 (by decide)), by omega⟩
  · obtain ⟨n, hn, hj⟩ := mem_ends_seq.mp h
    obtain ⟨hs, rfl⟩ := mem_ends_literal.mp hj
    exact ⟨n, mem_optional hn, at_single_iff.mpr (hs 0 (by decide)),
      Nat.lt_succ_self n⟩

theorem longestFirst_fraction (body : String)
    (hpoint : (CharClass.ofBody body).apart (.single '.') = true) :
    LongestFirst t (fraction body).toRegex [.ofBody body] := by
  have hfirsts : (Pattern.literal ".").toRegex.firsts = [.single '.'] := by decide
  have hnull : (Pattern.literal ".").toRegex.nullable = false := by decide
  have hapart : classesApart [.ofBody body] (Pattern.literal ".").toRegex.firsts = true := by
    simp [hfirsts, classesApart, hpoint]
  have hbefore : LongestFirst t (Pattern.optional (.plus (.set body)) ++ .literal ".").toRegex [] :=
    ((longestFirst_optional_run body).seq (longestFirst_literal ".") hapart).mono (by simp [hnull])
  have hbehind : LongestFirst t (Pattern.plus (.set body) ++ .literal ".").toRegex [] :=
    ((longestFirst_run body 1).seq (longestFirst_literal ".") hapart).mono (by simp [hnull])
  refine (hbefore.seq_single (longestFirst_run body 1)).alt hbehind (List.Subset.refl _)
    (List.nil_subset _) ?_
  intro i x hx y hy
  obtain ⟨m, hm, hx⟩ := mem_ends_seq.mp hx
  obtain ⟨n, hn, hy⟩ := mem_ends_seq.mp hy
  have hy' : y ∈ ends t (Pattern.optional (.plus (.set body)) ++ .literal ".").toRegex i :=
    mem_ends_seq.mpr ⟨n, mem_optional hn, hy⟩
  have hym : y = m := hbefore.end_unique hy' hm (by simp [AtAny]) (by simp [AtAny])
  obtain ⟨hk, hlt⟩ := at_of_mem_run hx
  subst hym
  exact ⟨hlt, _, List.mem_singleton_self _, hk⟩

/-- Digits that go on to the end of their run stop at one place only. -/
theorem run_end_unique {body : String} {k l : CharClass} {x y : Nat}
    (hx : x ∈ ends t (Pattern.optional (.plus (.set body))).toRegex i)
    (hy : y ∈ ends t (Pattern.optional (.plus (.set body))).toRegex i) (hk : At t k x)
    (hl : At t l y) (hkb : (CharClass.ofBody body).apart k = true)
    (hlb : (CharClass.ofBody body).apart l = true) : x = y := by
  have hnot : ∀ {p m}, At t m p → (CharClass.ofBody body).apart m = true →
      ¬ AtAny t [.ofBody body] p := by
    rintro p m hp hm ⟨k, hk, hkp⟩
    rw [List.mem_singleton] at hk
    exact hkp.not_apart (hk ▸ hm) hp
  exact (longestFirst_optional_run body).end_unique hx hy (hnot hk hkb) (hnot hl hlb)

theorem longestFirst_exponent (body : String) :
    LongestFirst t (Pattern.set body ++ .optional sign ++ digitSequence).toRegex
      [.ofBody "0-9"] := by
  have hsign : LongestFirst t (Pattern.optional sign).toRegex [.ofBody "+-"] :=
    ((longestFirst_set "+-").optional (by decide)).mono (by decide)
  exact (((longestFirst_set body).seq_single hsign).seq (longestFirst_run "0-9" 1)
    (by decide)).mono (by decide)

theorem longestFirst_decimalDigits :
    LongestFirst t (fractionalConstant ++ .optional exponentPart <|>
      digitSequence ++ exponentPart).toRegex [.ofBody "0-9", .ofBody "eE"] := by
  have hexp : LongestFirst t exponentPart.toRegex [.ofBody "0-9"] := longestFirst_exponent "eE"
  have hfrac : LongestFirst t fractionalConstant.toRegex [.ofBody "0-9"] :=
    longestFirst_fraction "0-9" (by decide)
  have hfirst : LongestFirst t (fractionalConstant ++ .optional exponentPart).toRegex
      [.ofBody "0-9", .ofBody "eE"] :=
    (hfrac.seq (hexp.optional (by decide)) (by decide)).mono (by decide)
  have hsecond : LongestFirst t (digitSequence ++ exponentPart).toRegex [.ofBody "0-9"] :=
    ((longestFirst_run "0-9" 1).seq hexp (by decide)).mono (by decide)
  refine hfirst.alt hsecond (List.Subset.refl _) (by simp) ?_
  intro i x hx y hy
  -- the first digits end at a point or at the letter of an exponent, never at both
  obtain ⟨m, hm, -⟩ := mem_ends_seq.mp hx
  obtain ⟨n, hn, hpoint, -⟩ := point_of_fraction "0-9" hm
  obtain ⟨n', hn', hy⟩ := mem_ends_seq.mp hy
  have hletter := at_exponentPart hy
  have hn' := mem_optional (r := digitSequence.toRegex) hn'
  obtain rfl := run_end_unique hn hn' hpoint hletter (by decide) (by decide)
  exact absurd hletter (hpoint.not_apart (by decide))

theorem longestFirst_hexadecimalDigits :
    LongestFirst t (hexadecimalFractionalConstant <|> hexadecimalDigitSequence).toRegex
      [.ofBody "0-9a-fA-F", .single '.'] := by
  have hfrac : LongestFirst t hexadecimalFractionalConstant.toRegex [.ofBody "0-9a-fA-F"] :=
    longestFirst_fraction "0-9a-fA-F" (by decide)
  refine hfrac.alt (longestFirst_run "0-9a-fA-F" 1) (by simp) (by simp) ?_
  intro i x hx y hy
  obtain ⟨n, hn, hpoint, hnx⟩ := point_of_fraction "0-9a-fA-F" hx
  have hy := mem_optional (r := hexadecimalDigitSequence.toRegex) hy
  have hpassed := (longestFirst_optional_run (t := t) "0-9a-fA-F").passed i
  rcases Nat.lt_trichotomy y n with hlt | rfl | hgt
  · exact ⟨by omega, (hpassed n hn y hy hlt).mono (by simp)⟩
  · exact ⟨hnx, .single '.', by simp, hpoint⟩
  · obtain ⟨k, hk, hkn⟩ := hpassed y hy n hn hgt
    rw [List.mem_singleton] at hk
    exact absurd hpoint (hkn.not_apart (hk ▸ by decide))

theorem longestFirst_floatingSuffix :
    LongestFirst t (Pattern.optional floatingSuffix).toRegex [.ofBody "flFL"] :=
  ((longestFirst_set "flFL").optional (by decide)).mono (by decide)

theorem longestFirst_decimalFloatingConstant :
    LongestFirst t decimalFloatingConstant.toRegex
      [.ofBody "0-9", .ofBody "eE", .ofBody "flFL"] :=
  (longestFirst_decimalDigits.seq longestFirst_floatingSuffix (by decide)).mono
    (by decide)

theorem longestFirst_hexadecimalFloatingConstant :
    LongestFirst t hexadecimalFloatingConstant.toRegex [.ofBody "0-9", .ofBody "flFL"] := by
  have hexp : LongestFirst t binaryExponentPart.toRegex [.ofBody "0-9"] :=
    longestFirst_exponent "pP"
  have hbody := ((longestFirst_hexadecimalMark.seq_single longestFirst_hexadecimalDigits).seq hexp
    (by decide) : LongestFirst t _ _)
  exact (hbody.seq longestFirst_floatingSuffix (by decide)).mono (by decide)

/-- Behind the zero of a decimal floating constant stands no `x`. -/
theorem not_decimal_of_hexadecimalMark (hzero : At t (.single '0') i)
    (hmark : At t (.ofBody "xX") (i + 1)) : j ∉ ends t decimalFloatingConstant.toRegex i := by
  intro h
  obtain ⟨q, hq, hqj, k, hk, hkq⟩ := exists_of_needs (p := fun k => k.apart (.single '0'))
    (by decide) h
  have hne : q ≠ i := by
    rintro rfl
    exact hkq.not_apart hk hzero
  exact not_at_of_apart (by decide) h (by omega) (by omega) hmark

theorem longestFirst_floatingConstant : LongestFirst t floatingConstant.toRegex
    [.ofBody "0-9", .ofBody "eE", .ofBody "flFL"] := by
  refine longestFirst_hexadecimalFloatingConstant.alt longestFirst_decimalFloatingConstant
    (by simp) (List.Subset.refl _) ?_
  intro i x hx y hy
  obtain ⟨n, hn, -⟩ := mem_ends_seq.mp hx
  obtain ⟨m, hm, -⟩ := mem_ends_seq.mp hn
  obtain ⟨l, hl, -⟩ := mem_ends_seq.mp hm
  obtain ⟨hzero, hmark, -⟩ := at_hexadecimalMark hl
  exact absurd hy (not_decimal_of_hexadecimalMark hzero hmark)

end Lexeme.Grammar
