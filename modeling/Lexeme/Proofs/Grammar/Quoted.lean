import Lexeme.Proofs.Grammar.Words

/-! String literals and character constants. Escapes can be read in more than one way, but whichever
way is taken, the same quotation mark closes the quoted text. Main statements: a string literal has
one end, and so has a character constant. -/

namespace Lexeme.Grammar

open Pattern Regex

variable {t : Array Char} {quote : Char} {i j p q : Nat}

/-! ### Walks between quotation marks -/

/-- From `p` to `q`, a backslash taken with the character behind it and no quotation mark taken by
itself. -/
inductive Walk (t : Array Char) (quote : Char) : Nat → Nat → Prop where
  | stay (p : Nat) : Walk t quote p p
  | plain {p q : Nat} {c : Char} (hc : t[p]? = some c) (hq : c ≠ quote) (hb : c ≠ '\\')
      (h : Walk t quote (p + 1) q) : Walk t quote p q
  | escape {p q : Nat} (hb : t[p]? = some '\\') (h : Walk t quote (p + 2) q) : Walk t quote p q

/-- A quotation mark is no backslash, no letter and no digit. -/
def IsQuote (quote : Char) : Prop := quote ≠ '\\' ∧ wordClass.test quote = false

instance (quote : Char) : Decidable (IsQuote quote) := inferInstanceAs (Decidable (_ ∧ _))

theorem Walk.trans {m : Nat} (h : Walk t quote p m) (h' : Walk t quote m q) :
    Walk t quote p q := by
  induction h with
  | stay p => exact h'
  | plain hc hq hb _ ih => exact .plain hc hq hb (ih h')
  | escape hb _ ih => exact .escape hb (ih h')

/-- A walk meets only one quotation mark. -/
theorem Walk.end_unique {x y : Nat} (h : Walk t quote p x) (hquote : IsQuote quote)
    (h' : Walk t quote p y) (hx : t[x]? = some quote) (hy : t[y]? = some quote) : x = y := by
  induction h with
  | stay p =>
    cases h' with
    | stay => rfl
    | plain hc hq => exact absurd (Option.some.inj (hc.symm.trans hx)) hq
    | escape hb => exact absurd (Option.some.inj (hx.symm.trans hb)) hquote.1
  | plain hc hq hb _ ih =>
    cases h' with
    | stay => exact absurd (Option.some.inj (hc.symm.trans hy)) hq
    | plain _ _ _ h' => exact ih h' hx
    | escape hb' => exact absurd (Option.some.inj (hc.symm.trans hb')) hb
  | escape hb _ ih =>
    cases h' with
    | stay => exact absurd (Option.some.inj (hy.symm.trans hb)) hquote.1
    | plain hc _ hb' => exact absurd (Option.some.inj (hc.symm.trans hb)) hb'
    | escape _ h' => exact ih h' hx

/-- Letters and digits are walked over one by one. -/
theorem walk_word (hquote : IsQuote quote) (hpq : p ≤ q)
    (h : ∀ x, p ≤ x → x < q → At t wordClass x) : Walk t quote p q := by
  induction hn : q - p generalizing p with
  | zero =>
    obtain rfl : p = q := by omega
    exact .stay p
  | succ n ih =>
    obtain ⟨c, hc, hk⟩ := h p (Nat.le_refl p) (by omega)
    have hrest := ih (by omega) (fun x hx => h x (by omega)) (by omega : q - (p + 1) = n)
    refine .plain hc ?_ ?_ hrest
    · rintro rfl
      exact absurd hk (by simp [hquote.2])
    · rintro rfl
      exact absurd hk (by decide)

/-! ### Quoted characters -/

/-- A backslash and what stands behind it, and then letters and digits. -/
theorem walk_of_escape (hquote : IsQuote quote) (hb : t[p]? = some '\\') (hpq : p + 2 ≤ q)
    (h : ∀ x, p + 2 ≤ x → x < q → At t wordClass x) : Walk t quote p q :=
  .escape hb (walk_word hquote hpq h)

/-- An escape that begins with one of the given texts and goes on with letters and digits. -/
theorem walk_of_literal {b : Regex} {text : String} (hquote : IsQuote quote)
    (h0 : text.toList[0]? = some '\\') (h1 : 1 ≤ text.length) (h2 : text.length ≤ 2)
    (hn : b.nullable = false) (hw : ∀ k ∈ b.classes, k.within wordClass = true)
    (h : q ∈ ends t (.seq (Pattern.literal text).toRegex b) p) : Walk t quote p q := by
  obtain ⟨m, hm, hq⟩ := mem_ends_seq.mp h
  obtain ⟨hs, rfl⟩ := mem_ends_literal.mp hm
  have hlt := lt_of_mem_ends hn hq
  have hb : t[p]? = some '\\' := by
    have := hs 0 (by rw [String.length_toList]; omega)
    rwa [h0] at this
  refine walk_of_escape hquote hb (by omega) fun x hx hxq => ?_
  obtain ⟨k, hk, hkx⟩ := (shaped_of_mem_ends hq).inside x (by omega) hxq
  exact hkx.within (hw k hk)

theorem walk_of_universalCharacterName (hquote : IsQuote quote)
    (h : q ∈ ends t universalCharacterName.toRegex p) : Walk t quote p q := by
  rcases mem_ends_alt.mp h with h | h
  · exact walk_of_literal hquote (by decide) (by decide) (by decide) (by decide) (by decide) h
  · obtain ⟨n, hn, hq⟩ := mem_ends_seq.mp h
    have hfirst := walk_of_literal hquote (by decide) (by decide) (by decide) (by decide)
      (by decide) hn
    refine hfirst.trans (walk_word hquote (le_of_mem_ends hq) fun x hx hxq => ?_)
    obtain ⟨k, hk, hkx⟩ := (shaped_of_mem_ends hq).inside x hx hxq
    have hall : ∀ k ∈ hexQuad.toRegex.classes, k.within wordClass = true := by decide
    exact hkx.within (hall k hk)

theorem walk_of_escapeSequence (hquote : IsQuote quote)
    (h : q ∈ ends t escapeSequence.toRegex p) : Walk t quote p q := by
  rcases mem_ends_alt.mp h with h | h
  · obtain ⟨m, hm, hq⟩ := mem_ends_seq.mp h
    obtain ⟨hs, rfl⟩ := mem_ends_literal.mp hm
    obtain ⟨-, rfl⟩ := mem_ends_set.mp hq
    exact .escape (hs 0 (by decide)) (.stay _)
  rcases mem_ends_alt.mp h with h | h
  · exact walk_of_literal hquote (by decide) (by decide) (by decide) (by decide) (by decide) h
  rcases mem_ends_alt.mp h with h | h
  · exact walk_of_literal hquote (by decide) (by decide) (by decide) (by decide) (by decide) h
  · exact walk_of_universalCharacterName hquote h

/-- A character of a class without the quotation mark and the backslash, or an escape. -/
def quotedUnit (body : String) : Pattern := .set body <|> escapeSequence

theorem walk_of_quotedUnit {body : String} (hquote : IsQuote quote)
    (hq : (CharClass.ofBody body).test quote = false)
    (hb : (CharClass.ofBody body).test '\\' = false)
    (h : q ∈ ends t (quotedUnit body).toRegex p) : Walk t quote p q := by
  rcases mem_ends_alt.mp h with h | h
  · obtain ⟨⟨c, hc, hk⟩, rfl⟩ := mem_ends_set.mp h
    refine .plain hc ?_ ?_ (.stay _)
    · rintro rfl
      exact absurd hk (by simp [hq])
    · rintro rfl
      exact absurd hk (by simp [hb])
  · exact walk_of_escapeSequence hquote h

theorem walk_of_rounds {body : String} {n : Nat} (hquote : IsQuote quote)
    (hq : (CharClass.ofBody body).test quote = false)
    (hb : (CharClass.ofBody body).test '\\' = false)
    (h : Rounds (ends t (quotedUnit body).toRegex) n p q) : Walk t quote p q := by
  induction h with
  | done p => exact .stay p
  | more hm _ ih => exact (walk_of_quotedUnit hquote hq hb hm).trans ih

/-- Behind an opening, quoted characters up to the closing quotation mark. -/
def quoted (opening : Regex) (body : String) (low : Nat) (quote : Char) : Regex :=
  .seq (.seq opening (.rep (quotedUnit body).toRegex low none)) (.chars [quote])

theorem exists_of_mem_quoted {opening : Regex} {body : String} {low : Nat} (hquote : IsQuote quote)
    (hq : (CharClass.ofBody body).test quote = false)
    (hb : (CharClass.ofBody body).test '\\' = false)
    (h : j ∈ ends t (quoted opening body low quote) i) :
    ∃ m q, m ∈ ends t opening i ∧ Walk t quote m q ∧ t[q]? = some quote ∧ j = q + 1 := by
  obtain ⟨q, hq', hj⟩ := mem_ends_seq.mp h
  obtain ⟨m, hm, hr⟩ := mem_ends_seq.mp hq'
  obtain ⟨n, -, -, hn⟩ := rounds_of_mem_rep hr
  obtain ⟨hs, hj⟩ := mem_ends_chars.mp hj
  exact ⟨m, q, hm, walk_of_rounds hquote hq hb hn, hs 0 Nat.zero_lt_one, hj⟩

/-- What is opened in one way is closed in one place. -/
theorem quoted_end_unique {opening : Regex} {body : String} {low x y : Nat}
    (hopening : LongestFirst t opening []) (hquote : IsQuote quote)
    (hq : (CharClass.ofBody body).test quote = false)
    (hb : (CharClass.ofBody body).test '\\' = false)
    (hx : x ∈ ends t (quoted opening body low quote) i)
    (hy : y ∈ ends t (quoted opening body low quote) i) : x = y := by
  obtain ⟨m, q, hm, hwalk, hclose, rfl⟩ := exists_of_mem_quoted hquote hq hb hx
  obtain ⟨m', q', hm', hwalk', hclose', rfl⟩ := exists_of_mem_quoted hquote hq hb hy
  obtain rfl := hopening.end_unique hm hm' (by simp [AtAny]) (by simp [AtAny])
  rw [hwalk.end_unique hquote hwalk' hclose hclose']

/-! ### The ends of a string literal -/

theorem longestFirst_encodingMark : LongestFirst t encodingMark.toRegex [.single '8'] := by
  refine (longestFirst_literal "u8").alt (longestFirst_set "uUL") (List.nil_subset _)
    (List.nil_subset _) ?_
  intro i x hx y hy
  obtain ⟨hs, rfl⟩ := mem_ends_literal.mp hx
  obtain ⟨-, rfl⟩ := mem_ends_set.mp hy
  exact ⟨Nat.lt_succ_self _, _, List.mem_singleton_self _, at_single_iff.mpr (hs 1 (by decide))⟩

/-- The mark of the encoding, if there is one, and the opening quotation mark. -/
def opening : Pattern := .optional encodingMark ++ .literal "\""

theorem longestFirst_opening : LongestFirst t opening.toRegex [] :=
  ((longestFirst_encodingMark.optional (by decide)).seq (longestFirst_literal "\"")
    (by decide)).mono (by decide)

/-- Before the opening quotation mark there are only the letters of the encoding. -/
theorem quote_of_opening (h : j ∈ ends t opening.toRegex i) :
    ∃ q, i ≤ q ∧ j = q + 1 ∧ t[q]? = some '"' ∧ ∀ x, i ≤ x → x < q → At t wordClass x := by
  obtain ⟨q, hq, hj⟩ := mem_ends_seq.mp h
  obtain ⟨hs, rfl⟩ := mem_ends_literal.mp hj
  refine ⟨q, le_of_mem_ends hq, rfl, hs 0 (by decide), fun x hx hxq => ?_⟩
  obtain ⟨k, hk, hkx⟩ := (shaped_of_mem_ends hq).inside x hx hxq
  have hall : ∀ k ∈ (Pattern.optional encodingMark).toRegex.classes,
      k.within wordClass = true := by decide
  exact hkx.within (hall k hk)

theorem exists_of_mem_stringLiteral (h : j ∈ ends t stringLiteral.toRegex i) :
    ∃ m q, m ∈ ends t opening.toRegex i ∧ Walk t '"' m q ∧ t[q]? = some '"' ∧ j = q + 1 :=
  exists_of_mem_quoted (by decide) (by decide) (by decide) h

/-- A string literal has one end. -/
theorem stringLiteral_end_unique {x y : Nat} (hx : x ∈ ends t stringLiteral.toRegex i)
    (hy : y ∈ ends t stringLiteral.toRegex i) : x = y :=
  quoted_end_unique longestFirst_opening (by decide) (by decide) (by decide) hx hy

/-! ### The ends of a character constant -/

/-- The letter of the encoding, if there is one, and the opening apostrophe. -/
def apostrophe : Pattern := .optional (.set "LuU") ++ .literal "'"

theorem longestFirst_apostrophe : LongestFirst t apostrophe.toRegex [] :=
  (((longestFirst_set "LuU").optional (by decide)).seq (longestFirst_literal "'")
    (by decide)).mono (by decide)

/-- A character constant has one end. -/
theorem characterConstant_end_unique {x y : Nat} (hx : x ∈ ends t characterConstant.toRegex i)
    (hy : y ∈ ends t characterConstant.toRegex i) : x = y :=
  quoted_end_unique longestFirst_apostrophe (by decide) (by decide) (by decide) hx hy

end Lexeme.Grammar
