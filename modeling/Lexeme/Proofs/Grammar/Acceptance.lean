import Lexeme.Proofs.Grammar.Derivation
import Lexeme.Proofs.Grammar.Words
import Lexeme.Proofs.Regex.Language
import Lexeme.Proofs.Regex.Reader

/-! The patterns of the grammar and its rules of derivation, production by production. Main
statement: a category matches exactly the texts that the rules derive for it. -/

namespace Lexeme

/-! ### Characters -/

/-- The range between two characters, both included. -/
def CodeRange.between (a b : Char) : CodeRange := ⟨a.toNat, b.toNat⟩

theorem CodeRange.contains_single {a c : Char} : (single a).contains c = true ↔ c = a := by
  rw [contains_iff, ← Char.toNat_inj]
  exact ⟨fun h => Nat.le_antisymm h.2 h.1, fun h => ⟨Nat.le_of_eq h.symm, Nat.le_of_eq h⟩⟩

theorem CodeRange.contains_between {a b c : Char} :
    (between a b).contains c = true ↔ a ≤ c ∧ c ≤ b := by
  rw [contains_iff, Char.le_def, Char.le_def]
  rfl

namespace Grammar

open CharClass Lexical Pattern

variable {c quote : Char} {v w b : List Char}

theorem test_digit (c : Char) : (ofBody "0-9").test c = true ↔ IsDigit c := by
  have hk : ofBody "0-9" = ⟨false, [.between '0' '9']⟩ := by decide
  simp [hk, test, CodeRange.anyContains, CodeRange.contains_between, IsDigit]

theorem test_nonzeroDigit (c : Char) : (ofBody "1-9").test c = true ↔ IsNonzeroDigit c := by
  have hk : ofBody "1-9" = ⟨false, [.between '1' '9']⟩ := by decide
  simp [hk, test, CodeRange.anyContains, CodeRange.contains_between, IsNonzeroDigit]

theorem test_octalDigit (c : Char) : (ofBody "0-7").test c = true ↔ IsOctalDigit c := by
  have hk : ofBody "0-7" = ⟨false, [.between '0' '7']⟩ := by decide
  simp [hk, test, CodeRange.anyContains, CodeRange.contains_between, IsOctalDigit]

theorem test_hexadecimalDigit (c : Char) :
    (ofBody "0-9a-fA-F").test c = true ↔ IsHexDigit c := by
  have hk : ofBody "0-9a-fA-F" =
      ⟨false, [.between '0' '9', .between 'a' 'f', .between 'A' 'F']⟩ := by decide
  simp [hk, test, CodeRange.anyContains, CodeRange.contains_between, IsHexDigit]

theorem test_nondigit (c : Char) : (ofBody "_a-zA-Z").test c = true ↔ IsNondigit c := by
  have hk : ofBody "_a-zA-Z" =
      ⟨false, [.single '_', .between 'a' 'z', .between 'A' 'Z']⟩ := by decide
  simp [hk, test, CodeRange.anyContains, CodeRange.contains_between, CodeRange.contains_single,
    IsNondigit]

/-- The class of some letters. -/
theorem test_letters {k : CharClass} {letters : List Char}
    (hk : k = ⟨false, letters.map .single⟩) (c : Char) : k.test c = true ↔ c ∈ letters := by
  simp [hk, test, CodeRange.anyContains, CodeRange.contains_single]

/-- The class of all but some letters. -/
theorem test_others {k : CharClass} {letters : List Char}
    (hk : k = ⟨true, letters.map .single⟩) (c : Char) : k.test c = true ↔ c ∉ letters := by
  simp [hk, test, CodeRange.anyContains, CodeRange.contains_single, List.forall_mem_ne]

/-! ### Identifiers -/

theorem spells_hexQuad : hexQuad.Spells w ↔ Many IsHexDigit w ∧ w.length = 4 := by
  rw [hexQuad, hexadecimalDigit, spells_rep_set test_hexadecimalDigit (Nat.le_refl 4), and_comm]
  exact and_congr_right fun _ => Nat.le_antisymm_iff.symm.trans eq_comm

theorem spells_universalCharacterName : universalCharacterName.Spells w ↔ UniversalName w := by
  rw [universalCharacterName, spells_orElse, spells_literal_append, spells_append]
  constructor
  · rintro (⟨ds, rfl, hds⟩ | ⟨u, v, rfl, hu, hv⟩)
    · obtain ⟨hds, hlen⟩ := spells_hexQuad.mp hds
      exact .short hds hlen
    · obtain ⟨ds, rfl, hds⟩ := spells_literal_append.mp hu
      obtain ⟨hds, hlen⟩ := spells_hexQuad.mp hds
      obtain ⟨hv, hlen'⟩ := spells_hexQuad.mp hv
      have hlong : (ds ++ v).length = 8 := by rw [List.length_append, hlen, hlen']
      have hall : Many IsHexDigit (ds ++ v) := List.forall_mem_append.mpr ⟨hds, hv⟩
      rw [List.append_assoc]
      exact .long hall hlong
  · rintro (⟨hds, hlen⟩ | ⟨hds, hlen⟩)
    · exact .inl ⟨_, rfl, spells_hexQuad.mpr ⟨hds, hlen⟩⟩
    · rename_i ds
      refine .inr ⟨_, ds.drop 4, ?_, spells_literal_append.mpr ⟨ds.take 4, rfl, ?_⟩, ?_⟩
      · rw [List.append_assoc, List.take_append_drop]
        rfl
      · exact spells_hexQuad.mpr ⟨fun c hc => hds c (List.mem_of_mem_take hc), by simp [hlen]⟩
      · exact spells_hexQuad.mpr ⟨fun c hc => hds c (List.mem_of_mem_drop hc), by simp [hlen]⟩

theorem spells_identifierNondigit : identifierNondigit.Spells w ↔ IdentifierNondigit w := by
  rw [identifierNondigit, spells_orElse, nondigit, spells_set test_nondigit,
    spells_universalCharacterName]
  constructor
  · rintro (⟨c, hc, rfl⟩ | hw)
    · exact .nondigit hc
    · exact .universal hw
  · rintro (hc | hw)
    · exact .inl ⟨_, hc, rfl⟩
    · exact .inr hw

theorem spells_identifier : identifier.Spells w ↔ Identifier w := by
  constructor
  · intro h
    refine h.seq_star_rec (fun u hu => .first (spells_identifierNondigit.mp hu)) ?_
    rintro u v hu (hv | hv)
    · exact .nondigit hu (spells_identifierNondigit.mp hv)
    · obtain ⟨c, hc, rfl⟩ := (spells_set test_digit).mp hv
      exact .digit hu hc
  · intro h
    induction h with
    | first hw => exact Spells.seq_star (spells_identifierNondigit.mpr hw)
    | nondigit _ hu ih => exact ih.seq_star_concat (.inl (spells_identifierNondigit.mpr hu))
    | digit _ hc ih => exact ih.seq_star_concat (.inr ((spells_set test_digit).mpr ⟨_, hc, rfl⟩))

/-! ### Integer constants -/

theorem spells_unsignedSuffix : unsignedSuffix.Spells w ↔ ∃ c ∈ ['u', 'U'], w = [c] :=
  spells_set (test_letters (by decide))

theorem spells_longMark : (longLongSuffix <|> longSuffix).Spells w ↔ w ∈ longMarks := by
  have hl : longSuffix.Spells w ↔ ∃ c ∈ ['l', 'L'], w = [c] :=
    spells_set (test_letters (by decide))
  have hll : longLongSuffix.Spells w ↔ w = ['l', 'l'] ∨ w = ['L', 'L'] := by
    rw [longLongSuffix, spells_orElse, spells_literal, spells_literal]
    rfl
  rw [spells_orElse, hl, hll]
  simp only [longMarks, List.mem_cons, List.not_mem_nil, or_false, exists_eq_or_imp,
    exists_eq_left]
  tauto

theorem spells_integerSuffix : (optional integerSuffix).Spells w ↔ IntegerSuffix w := by
  -- a mark of either length before the unsigned one, in a single alternative
  have hlong : (longLongSuffix ++ optional unsignedSuffix).Spells w ∨
      (longSuffix ++ optional unsignedSuffix).Spells w ↔
        ((longLongSuffix <|> longSuffix) ++ optional unsignedSuffix).Spells w := by
    simp only [spells_append, spells_orElse, or_and_right, and_or_left, exists_or]
  rw [spells_optional, integerSuffix, spells_orElse, spells_orElse, hlong, spells_append,
    spells_append]
  simp only [spells_optional, spells_longMark, spells_unsignedSuffix]
  constructor
  · rintro (rfl | ⟨_, v, rfl, ⟨c, hc, rfl⟩, rfl | hv⟩ | ⟨u, _, rfl, hu, rfl | ⟨c, hc, rfl⟩⟩)
    · exact .none
    · exact .unsigned hc
    · exact .unsignedLong hc hv
    · rw [List.append_nil]
      exact .long hu
    · exact .longUnsigned hu hc
  · rintro (_ | hc | hl | ⟨hc, hl⟩ | ⟨hl, hc⟩)
    · exact .inl rfl
    · exact .inr (.inl ⟨_, [], rfl, ⟨_, hc, rfl⟩, .inl rfl⟩)
    · exact .inr (.inr ⟨_, [], (List.append_nil _).symm, hl, .inl rfl⟩)
    · exact .inr (.inl ⟨_, _, rfl, ⟨_, hc, rfl⟩, .inr hl⟩)
    · exact .inr (.inr ⟨_, _, rfl, hl, .inr ⟨_, hc, rfl⟩⟩)

theorem spells_hexadecimalMark : hexadecimalMark.Spells w ↔ ∃ x ∈ ['x', 'X'], w = ['0', x] := by
  have hx : ∀ w, (set "xX").Spells w ↔ ∃ x ∈ ['x', 'X'], w = [x] :=
    fun w => spells_set (test_letters (by decide))
  rw [hexadecimalMark, spells_literal_append]
  simp only [hx]
  constructor
  · rintro ⟨_, rfl, x, hx, rfl⟩
    exact ⟨x, hx, rfl⟩
  · rintro ⟨x, hx, rfl⟩
    exact ⟨[x], rfl, x, hx, rfl⟩

theorem spells_digitSequence : digitSequence.Spells w ↔ OneOrMore IsDigit w :=
  spells_plus_set test_digit

theorem spells_hexadecimalDigitSequence :
    hexadecimalDigitSequence.Spells w ↔ OneOrMore IsHexDigit w :=
  spells_plus_set test_hexadecimalDigit

theorem spells_integerDigits :
    (hexadecimalConstant <|> decimalConstant <|> octalConstant).Spells w ↔ IntegerDigits w := by
  rw [spells_orElse, spells_orElse, hexadecimalConstant, decimalConstant, octalConstant,
    spells_append, spells_append, spells_literal_append]
  simp only [spells_hexadecimalMark, spells_hexadecimalDigitSequence, nonzeroDigit, digit,
    octalDigit, spells_set test_nonzeroDigit, spells_star_set test_digit,
    spells_star_set test_octalDigit]
  constructor
  · rintro (⟨_, ds, rfl, ⟨x, hx, rfl⟩, hds⟩ | ⟨_, ds, rfl, ⟨d, hd, rfl⟩, hds⟩ | ⟨ds, rfl, hds⟩)
    · exact .hexadecimal hx hds
    · exact .decimal hd hds
    · exact .octal hds
  · rintro (⟨hx, hds⟩ | ⟨hd, hds⟩ | hds)
    · exact .inl ⟨_, _, rfl, ⟨_, hx, rfl⟩, hds⟩
    · exact .inr (.inl ⟨_, _, rfl, ⟨_, hd, rfl⟩, hds⟩)
    · exact .inr (.inr ⟨_, rfl, hds⟩)

theorem spells_integerConstant : integerConstant.Spells w ↔ IntegerConstant w := by
  rw [integerConstant, spells_append]
  simp only [spells_integerDigits, spells_integerSuffix]
  constructor
  · rintro ⟨ds, s, rfl, hds, hs⟩
    exact ⟨hds, hs⟩
  · rintro ⟨hds, hs⟩
    exact ⟨_, _, rfl, hds, hs⟩

/-! ### Floating constants -/

theorem spells_exponent {body : String} {letters : List Char}
    (h : ∀ c, (ofBody body).test c = true ↔ c ∈ letters) :
    (set body ++ optional sign ++ digitSequence).Spells w ↔ Exponent letters w := by
  have hsign : ∀ w, sign.Spells w ↔ ∃ s ∈ ['+', '-'], w = [s] :=
    fun w => spells_set (test_letters (by decide))
  simp only [spells_append, spells_optional, spells_set h, hsign, spells_digitSequence]
  constructor
  · rintro ⟨_, ds, rfl, ⟨_, _, rfl, ⟨e, he, rfl⟩, rfl | ⟨s, hs, rfl⟩⟩, hds⟩
    · exact .unsigned he hds
    · exact .signed he hs hds
  · rintro (⟨he, hds⟩ | ⟨he, hs, hds⟩)
    · exact ⟨_, _, rfl, ⟨_, [], rfl, ⟨_, he, rfl⟩, .inl rfl⟩, hds⟩
    · exact ⟨_, _, rfl, ⟨_, _, rfl, ⟨_, he, rfl⟩, .inr ⟨_, hs, rfl⟩⟩, hds⟩

theorem spells_fraction {digits : Pattern} {P : Char → Prop}
    (h : ∀ w, digits.Spells w ↔ OneOrMore P w) :
    (optional digits ++ literal "." ++ digits <|> digits ++ literal ".").Spells w ↔
      Fraction P w := by
  rw [spells_orElse, spells_append, spells_append_literal]
  simp only [spells_append_literal, spells_optional, h]
  constructor
  · rintro (⟨_, f, rfl, ⟨_, rfl, rfl | hw⟩, hf⟩ | ⟨_, rfl, hw⟩)
    · exact .behind hf
    · rw [List.append_assoc]
      exact .both hw hf
    · exact .before hw
  · rintro (⟨hw, hf⟩ | hf | hw)
    · exact .inl ⟨_, _, (List.append_cons _ _ _), ⟨_, rfl, .inr hw⟩, hf⟩
    · exact .inl ⟨_, _, rfl, ⟨[], rfl, .inl rfl⟩, hf⟩
    · exact .inr ⟨_, rfl, hw⟩

theorem spells_floatingSuffix : (optional floatingSuffix).Spells w ↔ FloatingSuffix w := by
  have hletter : floatingSuffix.Spells w ↔ ∃ c ∈ ['f', 'l', 'F', 'L'], w = [c] :=
    spells_set (test_letters (by decide))
  rw [spells_optional, hletter]
  constructor
  · rintro (rfl | ⟨c, hc, rfl⟩)
    · exact .none
    · exact .letter hc
  · rintro (_ | hc)
    · exact .inl rfl
    · exact .inr ⟨_, hc, rfl⟩

theorem spells_floatingConstant : floatingConstant.Spells w ↔ FloatingConstant w := by
  have hhex : ∀ w, hexadecimalFractionalConstant.Spells w ↔ Fraction IsHexDigit w :=
    fun w => spells_fraction fun _ => spells_hexadecimalDigitSequence
  have hdec : ∀ w, fractionalConstant.Spells w ↔ Fraction IsDigit w :=
    fun w => spells_fraction fun _ => spells_digitSequence
  have hbinary : ∀ w, binaryExponentPart.Spells w ↔ Exponent ['p', 'P'] w :=
    fun w => spells_exponent (test_letters (by decide))
  have hexponent : ∀ w, exponentPart.Spells w ↔ Exponent ['e', 'E'] w :=
    fun w => spells_exponent (test_letters (by decide))
  have hoptional : ∀ w, (optional exponentPart).Spells w ↔ w = [] ∨ Exponent ['e', 'E'] w :=
    fun w => by rw [spells_optional, hexponent]
  simp only [floatingConstant, hexadecimalFloatingConstant, decimalFloatingConstant, spells_orElse,
    spells_append, spells_hexadecimalMark, hhex, hdec, hbinary, hexponent, hoptional,
    spells_hexadecimalDigitSequence, spells_digitSequence, spells_floatingSuffix]
  constructor
  · rintro (⟨_, s, rfl, ⟨_, e, rfl, ⟨_, m, rfl, ⟨x, hx, rfl⟩, hm⟩, he⟩, hs⟩ |
      ⟨_, s, rfl, ⟨m, e, rfl, hm, he⟩ | ⟨m, e, rfl, hm, he⟩, hs⟩)
    · exact .hexadecimal hx hm he hs
    · exact .fraction hm he hs
    · exact .whole hm he hs
  · rintro (⟨hx, hm, he, hs⟩ | ⟨hm, he, hs⟩ | ⟨hm, he, hs⟩)
    · exact .inl ⟨_, _, rfl, ⟨_, _, rfl, ⟨_, _, rfl, ⟨_, hx, rfl⟩, hm⟩, he⟩, hs⟩
    · exact .inr ⟨_, _, rfl, .inl ⟨_, _, rfl, hm, he⟩, hs⟩
    · exact .inr ⟨_, _, rfl, .inr ⟨_, _, rfl, hm, he⟩, hs⟩

/-! ### Character constants and string literals -/

theorem spells_escapeSequence : escapeSequence.Spells w ↔ Escape w := by
  have hsimple : ∀ w, (set "'\"?\\\\abfnrtv").Spells w ↔
      ∃ c ∈ ['\'', '"', '?', '\\', 'a', 'b', 'f', 'n', 'r', 't', 'v'], w = [c] :=
    fun w => spells_set (test_letters (by decide))
  simp only [escapeSequence, spells_orElse, simpleEscapeSequence, octalEscapeSequence,
    hexadecimalEscapeSequence, spells_literal_append, hsimple, octalDigit,
    spells_rep_set test_octalDigit (by decide : 1 ≤ Option.getD (some 3) 1),
    spells_hexadecimalDigitSequence, spells_universalCharacterName]
  constructor
  · rintro (⟨_, rfl, c, hc, rfl⟩ | ⟨ds, rfl, ⟨hone, hlen⟩, hds⟩ | ⟨ds, rfl, hds⟩ | hw)
    · exact .simple hc
    · exact .octal ⟨List.length_pos_iff.mp hone, hds⟩ hlen
    · exact .hexadecimal hds
    · exact .universal hw
  · rintro (hc | ⟨⟨hne, hds⟩, hlen⟩ | hds | hw)
    · exact .inl ⟨_, rfl, _, hc, rfl⟩
    · exact .inr (.inl ⟨_, rfl, ⟨List.length_pos_iff.mpr hne, hlen⟩, hds⟩)
    · exact .inr (.inr (.inl ⟨_, rfl, hds⟩))
    · exact .inr (.inr (.inr hw))

theorem spells_quotedChar {body : String}
    (h : ∀ c, (ofBody body).test c = true ↔ c ∉ [quote, '\\', '\n']) :
    (set body <|> escapeSequence).Spells w ↔ QuotedChar quote w := by
  rw [spells_orElse, spells_set h, spells_escapeSequence]
  constructor
  · rintro (⟨c, hc, rfl⟩ | hw)
    · exact .plain hc
    · exact .escape hw
  · rintro (hc | hw)
    · exact .inl ⟨_, hc, rfl⟩
    · exact .inr hw

theorem spells_cChar : cChar.Spells w ↔ QuotedChar '\'' w :=
  spells_quotedChar (test_others (by decide))

theorem spells_sChar : sChar.Spells w ↔ QuotedChar '"' w :=
  spells_quotedChar (test_others (by decide))

theorem spells_star_quotedChar {p : Pattern} (h : ∀ w, p.Spells w ↔ QuotedChar quote w) :
    (star p).Spells w ↔ Quoted quote w := by
  constructor
  · intro hw
    exact hw.star_rec .nil fun u v hu hv => .cons ((h u).mp hu) hv
  · intro hw
    induction hw with
    | nil => exact spells_star_nil p
    | cons hu _ ih => exact Spells.star_cons ((h _).mpr hu) ih

theorem spells_plus_quotedChar {p : Pattern} (h : ∀ w, p.Spells w ↔ QuotedChar quote w) :
    (plus p).Spells w ↔ Quoted quote w ∧ w ≠ [] := by
  rw [spells_plus, spells_append]
  constructor
  · rintro ⟨u, v, rfl, hu, hv⟩
    have hu := (h u).mp hu
    have hv := (spells_star_quotedChar h).mp hv
    exact ⟨.cons hu hv, List.append_ne_nil_of_left_ne_nil hu.ne_nil v⟩
  · rintro ⟨hw, hne⟩
    cases hw with
    | nil => exact absurd rfl hne
    | cons hu hw => exact ⟨_, _, rfl, (h _).mpr hu, (spells_star_quotedChar h).mpr hw⟩

/-- A text between two marks of one kind, with something before the first. -/
theorem spells_enclosed {mark body : Pattern} {text : String} :
    (mark ++ literal text ++ body ++ literal text).Spells w ↔
      ∃ m v, w = m ++ (text.toList ++ (v ++ text.toList)) ∧ mark.Spells m ∧ body.Spells v := by
  rw [spells_append_literal]
  constructor
  · rintro ⟨_, rfl, h⟩
    obtain ⟨_, v, rfl, hopen, hv⟩ := spells_append.mp h
    obtain ⟨m, rfl, hm⟩ := spells_append_literal.mp hopen
    exact ⟨m, v, by simp, hm, hv⟩
  · rintro ⟨m, v, rfl, hm, hv⟩
    refine ⟨m ++ text.toList ++ v, by simp, ?_⟩
    exact (spells_append_literal.mpr ⟨m, rfl, hm⟩).append hv

theorem spells_characterMark :
    (optional (set "LuU")).Spells w ↔ w ∈ [[], ['L'], ['u'], ['U']] := by
  have hset : (set "LuU").Spells w ↔ ∃ c ∈ ['L', 'u', 'U'], w = [c] :=
    spells_set (test_letters (by decide))
  rw [spells_optional, hset]
  simp

theorem spells_encodingMark :
    (optional encodingMark).Spells w ↔ w ∈ [[], ['u', '8'], ['u'], ['U'], ['L']] := by
  have hset : (set "uUL").Spells w ↔ ∃ c ∈ ['u', 'U', 'L'], w = [c] :=
    spells_set (test_letters (by decide))
  rw [spells_optional, encodingMark, spells_orElse, spells_literal, hset]
  simp

theorem spells_characterConstant : characterConstant.Spells w ↔ CharacterConstant w := by
  rw [characterConstant, spells_enclosed]
  simp only [spells_characterMark, spells_plus_quotedChar fun _ => spells_cChar]
  constructor
  · rintro ⟨m, v, rfl, hm, hv, hne⟩
    exact ⟨hm, hv, hne⟩
  · rintro ⟨hm, hv, hne⟩
    exact ⟨_, _, rfl, hm, hv, hne⟩

theorem spells_stringLiteral : stringLiteral.Spells w ↔ StringLiteral w := by
  rw [stringLiteral, spells_enclosed]
  simp only [spells_encodingMark, spells_star_quotedChar fun _ => spells_sChar]
  constructor
  · rintro ⟨m, v, rfl, hm, hv⟩
    exact ⟨hm, hv⟩
  · rintro ⟨hm, hv⟩
    exact ⟨_, _, rfl, hm, hv⟩

/-! ### Enumeration specifiers -/

theorem spells_whitespace : whitespace.Spells w ↔ Blanks w := spells_star_blank

theorem spells_separated {text : String} {p : Pattern} :
    (whitespace ++ literal text ++ whitespace ++ p).Spells w ↔
      ∃ b b' v, w = b ++ (text.toList ++ (b' ++ v)) ∧ Blanks b ∧ Blanks b' ∧ p.Spells v := by
  simp only [spells_append, spells_literal, spells_whitespace]
  constructor
  · rintro ⟨_, v, rfl, ⟨_, b', rfl, ⟨b, _, rfl, hb, rfl⟩, hb'⟩, hv⟩
    exact ⟨b, b', v, by simp, hb, hb', hv⟩
  · rintro ⟨b, b', v, rfl, hb, hb', hv⟩
    exact ⟨_, v, by simp, ⟨_, b', rfl, ⟨b, _, rfl, hb, rfl⟩, hb'⟩, hv⟩

theorem spells_enumerator : enumerator.Spells w ↔ Enumerator w := by
  rw [enumerator, spells_append]
  simp only [spells_optional, spells_identifier, spells_separated, spells_integerConstant]
  constructor
  · rintro ⟨u, _, rfl, hu, rfl | ⟨b, b', n, rfl, hb, hb', hn⟩⟩
    · rw [List.append_nil]
      exact .name hu
    · have hvalue := Enumerator.value hu hb hb' hn
      rwa [List.append_assoc] at hvalue
  · rintro (hw | ⟨hw, hb, hb', hn⟩)
    · exact ⟨_, [], (List.append_nil _).symm, hw, .inl rfl⟩
    · exact ⟨_, _, List.append_assoc _ _ _, hw, .inr ⟨_, _, _, rfl, hb, hb', hn⟩⟩

theorem spells_enumeratorList : enumeratorList.Spells w ↔ EnumeratorList w := by
  constructor
  · intro h
    refine h.seq_star_rec (fun u hu => .single (spells_enumerator.mp hu)) ?_
    intro u v hu hv
    obtain ⟨b, b', x, rfl, hb, hb', hx⟩ := spells_separated.mp hv
    have hmore := EnumeratorList.more hu hb hb' (spells_enumerator.mp hx)
    rwa [List.append_assoc] at hmore
  · intro h
    induction h with
    | single hw => exact Spells.seq_star (spells_enumerator.mpr hw)
    | more _ hb hb' hw ih =>
      rw [List.append_assoc]
      refine ih.seq_star_concat (spells_separated.mpr ⟨_, _, _, rfl, hb, hb', ?_⟩)
      exact spells_enumerator.mpr hw

theorem spells_enumBody : enumBody.Spells w ↔ EnumBody w := by
  simp only [enumBody, spells_append, spells_optional, spells_literal, spells_whitespace,
    spells_enumeratorList]
  constructor
  · rintro ⟨_, _, rfl, ⟨_, b', rfl, ⟨_, o, rfl, ⟨_, l, rfl, ⟨_, b, rfl, rfl, hb⟩, hl⟩, ho⟩, hb'⟩,
      rfl⟩
    rcases ho with rfl | ⟨b'', _, rfl, hb'', rfl⟩
    · simpa using EnumBody.mk hb hl (.plain hb')
    · simpa using EnumBody.mk hb hl (.comma hb'' hb')
  · rintro ⟨hb, hl, he⟩
    rename_i b l e
    cases he with
    | plain hb' =>
      exact ⟨_, _, by simp, ⟨_, e, rfl, ⟨_, [], rfl, ⟨_, l, rfl, ⟨_, b, rfl, rfl, hb⟩, hl⟩,
        .inl rfl⟩, hb'⟩, rfl⟩
    | comma hb'' hb' =>
      exact ⟨_, _, by simp, ⟨_, _, rfl, ⟨_, _, rfl, ⟨_, l, rfl, ⟨_, b, rfl, rfl, hb⟩, hl⟩,
        .inr ⟨_, _, rfl, hb'', rfl⟩⟩, hb'⟩, rfl⟩

/-! ### The end of a word -/

/-- A word ends before the text: no word character comes next, and no name of one. -/
def WordEnds (v : List Char) : Prop :=
  (∀ c ∈ v.head?, WordChar.isWord c = false) ∧ ∀ u, u <+: v → ¬ UniversalName u

theorem isWord_of_nondigit (h : IsNondigit c) : WordChar.isWord c = true :=
  isWord_of_wordClass (test_of_within (by decide) ((test_nondigit c).mpr h))

theorem not_isWord_of_blank (h : Blank.isBlank c = true) : WordChar.isWord c = false := by
  rw [WordChar.isWord]
  split
  · obtain ⟨r, hr, hc⟩ := CodeRange.anyContains_iff.mp h
    have hapart : ∀ r ∈ Blank.ranges, r.last < 48 ∨ 122 < r.first := by decide
    have hunderscore : '_'.toNat = 95 := rfl
    have hr := hapart r hr
    rw [← Bool.not_eq_true, Bool.or_eq_true, WordChar.isAlphanum_iff, beq_iff_eq, ← Char.toNat_inj]
    omega
  · have hapart : CharClass.blank.apart ⟨false, WordChar.ranges⟩ = true := by decide +kernel
    rw [← test_blank] at h
    have htest := not_test_of_apart hapart h
    rwa [test, Bool.bne_false] at htest

theorem wordEnds_cons (hw : WordChar.isWord c = false) (hc : c ≠ '\\') (v : List Char) :
    WordEnds (c :: v) := by
  refine ⟨fun d hd => ?_, fun u hu hname => hc ?_⟩
  · obtain rfl : c = d := by simpa using hd
    exact hw
  · cases hname with
    | short => exact (List.cons_prefix_cons.mp hu).1.symm
    | long => exact (List.cons_prefix_cons.mp hu).1.symm

/-- No word ends before an identifier. -/
theorem not_wordEnds_of_identifier (h : Identifier w) (v : List Char) : ¬ WordEnds (w ++ v) := by
  rintro ⟨hchar, hname⟩
  induction h generalizing v with
  | first hw =>
    cases hw with
    | nondigit hc =>
      have := hchar _ rfl
      rw [isWord_of_nondigit hc] at this
      cases this
    | universal hw => exact hname _ (List.prefix_append _ v) hw
  | nondigit _ _ ih =>
    rw [List.append_assoc] at hchar hname
    exact ih _ hchar hname
  | digit _ _ ih =>
    rw [List.append_assoc] at hchar hname
    exact ih _ hchar hname

theorem wordEnds_blanks (hb : Blanks b) (hne : b ≠ []) (v : List Char) : WordEnds (b ++ v) := by
  cases b with
  | nil => exact absurd rfl hne
  | cons c b =>
    have hc := hb c List.mem_cons_self
    refine wordEnds_cons (not_isWord_of_blank hc) ?_ _
    rintro rfl
    cases hc

theorem wordEnds_enumBody (h : EnumBody w) : WordEnds w := by
  cases h
  exact wordEnds_cons (by decide) (by decide) _

theorem atBoundary_behind_enum (v : List Char) :
    Regex.atBoundary ("enum".toList ++ v).toArray 4 = true ↔
      ∀ c ∈ v.head?, WordChar.isWord c = false := by
  have hlast : Regex.wordAt ("enum".toList ++ v).toArray 3 = true := by
    have hm : ("enum".toList ++ v).toArray[3]? = some 'm' := by simp
    rw [Regex.wordAt, hm]
    decide
  have hnext : Regex.wordAt ("enum".toList ++ v).toArray 4 = v.head?.any WordChar.isWord := by
    rw [Regex.wordAt, List.getElem?_toArray, List.getElem?_append_right (by decide),
      List.head?_eq_getElem?]
    rfl
  rw [Regex.atBoundary, hnext]
  simp only [hlast]
  cases v.head? <;> simp

/-- At the start of a text the word is found where it ends. -/
theorem mem_ends_enumKeyword {j : Nat} : j ∈ Regex.ends ("enum".toList ++ v).toArray
    enumKeyword.toRegex 0 ↔ j = 4 ∧ WordEnds v := by
  have hfirst : Regex.atBoundary ("enum".toList ++ v).toArray 0 = true := by
    have he : ("enum".toList ++ v).toArray[0]? = some 'e' := by simp
    simp only [Regex.atBoundary, Regex.wordAt, he]
    decide
  have hstands : Regex.Stands ("enum".toList ++ v).toArray 0 "enum".toList :=
    (Regex.stands_behind (u := [])).mpr (List.prefix_append _ v)
  have hname : Regex.ends ("enum".toList ++ v).toArray universalCharacterName.toRegex 4 = [] ↔
      ∀ u, u <+: v → ¬ UniversalName u := by
    rw [Regex.ends_eq_nil_iff (by decide) (by simp)]
    refine forall_congr' fun u => ?_
    have hu : Regex.Stands ("enum".toList ++ v).toArray 4 u ↔ u <+: v := Regex.stands_behind
    rw [hu, ← spells_universalCharacterName]
    exact ⟨fun h hv hs => h hs hv, fun h hs hv => h hv hs⟩
  rw [enumKeyword, mem_ends_wordUnless, mem_ends_literal]
  constructor
  · rintro ⟨-, ⟨-, rfl⟩, hb, hn⟩
    exact ⟨rfl, (atBoundary_behind_enum v).mp hb, hname.mp hn⟩
  · rintro ⟨rfl, hb, hn⟩
    exact ⟨hfirst, ⟨hstands, rfl⟩, (atBoundary_behind_enum v).mpr hb, hname.mpr hn⟩

/-- The word that opens a specifier, before anything that has no zero-width tests. -/
theorem fullMatch_enumKeyword_append {p : Pattern} (hp : p.toRegex.plain = true) :
    (enumKeyword ++ p).toRegex.fullMatch w.toArray = true ↔
      ∃ v, w = "enum".toList ++ v ∧ WordEnds v ∧ p.Spells v := by
  rw [Regex.fullMatch_iff, toRegex_append, Regex.mem_ends_seq]
  constructor
  · rintro ⟨m, hm, hend⟩
    have hstands := (mem_ends_literal.mp (mem_ends_wordUnless.mp hm).2.1).1
    obtain ⟨v, rfl⟩ := (Regex.stands_behind (u := [])).mp hstands
    obtain ⟨rfl, hv⟩ := mem_ends_enumKeyword.mp hm
    obtain ⟨x, hx, hs, hlen⟩ := (Regex.mem_ends_iff_behind hp (by simp)).mp hend
    have hxv : x <+: v := Regex.stands_behind.mp hs
    rw [List.size_toArray, List.length_append] at hlen
    have hxlen : x.length = v.length := (Nat.add_left_cancel hlen).symm
    exact ⟨v, rfl, hv, hxv.eq_of_length hxlen ▸ hx⟩
  · rintro ⟨v, rfl, hv, hx⟩
    refine ⟨4, mem_ends_enumKeyword.mpr ⟨rfl, hv⟩, ?_⟩
    refine (Regex.mem_ends_iff_behind hp (by simp)).mpr ⟨v, hx, ?_, ?_⟩
    · exact Regex.stands_behind.mpr (List.prefix_refl v)
    · rw [List.size_toArray, List.length_append]
      rfl

theorem fullMatch_enumerationConstant :
    enumerationConstant.toRegex.fullMatch w.toArray = true ↔ Enumeration w := by
  have hsplit : enumerationConstant.toRegex.fullMatch w.toArray = true ↔
      (enumKeyword ++ (whitespace ++ (optional (identifier ++ whitespace) ++
        enumBody))).toRegex.fullMatch w.toArray = true ∨
      (enumKeyword ++ (plus .blank ++ identifier)).toRegex.fullMatch w.toArray = true := by
    simp only [Regex.fullMatch_iff, enumerationConstant, toRegex_orElse, toRegex_append,
      Regex.mem_ends_alt, (Regex.Agrees.seq_assoc _ _ _).ends]
  rw [hsplit, fullMatch_enumKeyword_append (by decide), fullMatch_enumKeyword_append (by decide)]
  simp only [spells_append, spells_optional, spells_whitespace, spells_plus_blank,
    spells_identifier, spells_enumBody]
  constructor
  · rintro (⟨_, rfl, hends, b, _, rfl, hb, o, body, rfl, ho, hbody⟩ |
      ⟨_, rfl, -, b, tag, rfl, ⟨hne, hb⟩, htag⟩)
    · rcases ho with rfl | ⟨tag, b', rfl, htag, hb'⟩
      · rw [List.nil_append, ← List.append_assoc]
        exact .anonymous hb hbody
      · have hne : b ≠ [] := by
          rintro rfl
          rw [List.nil_append, List.append_assoc] at hends
          exact not_wordEnds_of_identifier htag _ hends
        have htagged := Enumeration.tagged hne hb htag hb' hbody
        simpa only [List.append_assoc] using htagged
    · rw [← List.append_assoc]
      exact .bare hne hb htag
  · rintro (⟨hb, hbody⟩ | ⟨hne, hb, htag, hb', hbody⟩ | ⟨hne, hb, htag⟩)
    · refine .inl ⟨_, List.append_assoc _ _ _, ?_, _, _, rfl, hb, [], _, rfl, .inl rfl, hbody⟩
      rename_i b body
      by_cases hne : b = []
      · rw [hne]
        exact wordEnds_enumBody hbody
      · exact wordEnds_blanks hb hne _
    · exact .inl ⟨_, by simp only [List.append_assoc], wordEnds_blanks hb hne _, _, _, rfl, hb, _,
        _, (List.append_assoc _ _ _).symm, .inr ⟨_, _, rfl, htag, hb'⟩, hbody⟩
    · exact .inr ⟨_, List.append_assoc _ _ _, wordEnds_blanks hb hne _, _, _, rfl, ⟨hne, hb⟩, htag⟩

/-! ### Keywords and punctuators -/

/-- A word of a list stands at the start of a text and goes to its end when it is the text. -/
theorem exists_word_stands_iff {words : List String} {text : String} :
    (∃ k ∈ words, Regex.Stands text.toList.toArray 0 k.toList ∧
      text.toList.toArray.size = 0 + k.length) ↔ text ∈ words := by
  constructor
  · rintro ⟨k, hk, hs, hlen⟩
    have hlen : text.toList.length = k.toList.length := by
      rwa [List.size_toArray, Nat.zero_add, ← String.length_toList] at hlen
    rwa [← String.toList_inj.mp (Regex.stands_whole.mp ⟨hs, hlen⟩)]
  · intro h
    obtain ⟨hs, -⟩ := Regex.stands_whole.mpr (Eq.refl text.toList)
    exact ⟨text, h, hs, by rw [List.size_toArray, Nat.zero_add, String.length_toList]⟩

theorem fullMatch_punctuator_iff {text : String} :
    (regex .punctuator).fullMatch text.toList.toArray = true ↔ text ∈ punctuators := by
  rw [regex_eq, Regex.fullMatch_iff]
  exact mem_ends_punctuator.trans exists_word_stands_iff

/-- A keyword is a whole word by itself. -/
theorem fullMatch_keyword_iff {text : String} :
    (regex .keyword).fullMatch text.toList.toArray = true ↔ text ∈ keywords := by
  rw [regex_eq, Regex.fullMatch_iff]
  refine Iff.trans mem_ends_keyword (Iff.trans ?_ (mem_ends_keywords.trans exists_word_stands_iff))
  refine ⟨fun h => h.2.1, fun h => ?_⟩
  have hlt := Regex.lt_of_mem_ends (by decide +kernel) h
  have hword : ∀ p, p < text.toList.toArray.size → Regex.wordAt text.toList.toArray p = true :=
    fun p hp => wordAt_of_at (at_word_of_keywords h (Nat.zero_le p) hp)
  have hbehind : Regex.wordAt text.toList.toArray text.toList.toArray.size = false := by
    simp [Regex.wordAt]
  refine ⟨?_, h, ?_, ?_⟩
  · simp [Regex.atBoundary, hword 0 hlt]
  · rw [Regex.atBoundary, hbehind, hword _ (Nat.sub_lt hlt Nat.one_pos),
      bne_iff_ne.mpr (Nat.ne_of_gt hlt)]
    rfl
  · rw [List.eq_nil_iff_forall_not_mem]
    intro e he
    have hsize := (Regex.mem_ends_bounds (Nat.le_refl _) he).2
    have := Regex.lt_of_mem_ends (by decide) he
    omega

/-! ### All categories -/

/-- The words of the patterns are those of the language. -/
theorem keywords_eq : keywords = Lexical.keywords := rfl

theorem punctuators_eq : punctuators = Lexical.punctuators := rfl

/-- A category matches a text exactly when the grammar derives the text for it. -/
theorem fullMatch_iff_derives (c : Category) (text : String) :
    (regex c).fullMatch text.toList.toArray = true ↔ Derives c text.toList := by
  cases c with
  | keyword =>
    rw [fullMatch_keyword_iff, keywords_eq]
    refine ⟨.keyword, fun h => ?_⟩
    generalize hw : text.toList = w at h
    cases h with
    | keyword hk => exact String.toList_inj.mp hw ▸ hk
  | identifier =>
    rw [regex_eq, Regex.fullMatch_iff_mem_language (by decide)]
    exact spells_identifier.trans ⟨.identifier, fun | .identifier hw => hw⟩
  | integer =>
    rw [regex_eq, Regex.fullMatch_iff_mem_language (by decide)]
    exact spells_integerConstant.trans ⟨.integer, fun | .integer hw => hw⟩
  | floating =>
    rw [regex_eq, Regex.fullMatch_iff_mem_language (by decide)]
    exact spells_floatingConstant.trans ⟨.floating, fun | .floating hw => hw⟩
  | enumeration =>
    rw [regex_eq]
    exact fullMatch_enumerationConstant.trans ⟨.enumeration, fun | .enumeration hw => hw⟩
  | character =>
    rw [regex_eq, Regex.fullMatch_iff_mem_language (by decide)]
    exact spells_characterConstant.trans ⟨.character, fun | .character hw => hw⟩
  | string =>
    rw [regex_eq, Regex.fullMatch_iff_mem_language (by decide)]
    exact spells_stringLiteral.trans ⟨.string, fun | .string hw => hw⟩
  | punctuator =>
    rw [fullMatch_punctuator_iff, punctuators_eq]
    refine ⟨.punctuator, fun h => ?_⟩
    generalize hw : text.toList = w at h
    cases h with
    | punctuator hp => exact String.toList_inj.mp hw ▸ hp

end Grammar

end Lexeme
