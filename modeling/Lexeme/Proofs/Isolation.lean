import Lexeme.Proofs.Grammar.Acceptance
import Lexeme.Proofs.Markup

/-! Matches cut out of their text. A keyword and the word that opens an enumeration look at what
stands around them, so another text may refuse what was matched here; their own characters alone
never do. Main statement: every token is a lexeme of its category by itself. -/

namespace Lexeme

namespace Regex

variable {t : Array Char} {r : Regex} {v w : List Char} {i : Nat}

/-- A plain match is one of its own characters. -/
theorem fullMatch_of_stands (hr : r.plain = true) (h : i + w.length ∈ ends t r i)
    (hs : Stands t i w) (hi : i ≤ t.size) : r.fullMatch w.toArray = true := by
  obtain ⟨v, hv, hsv, hlen⟩ := (mem_ends_iff_behind hr hi).mp h
  have hvw : v = w := hsv.eq_of_length hs (Nat.add_left_cancel hlen).symm
  exact (fullMatch_iff_mem_language hr).mpr (hvw ▸ hv)

end Regex

namespace Grammar

open Pattern Regex

variable {t : Array Char} {v w : List Char} {i m : Nat}

/-! ### Keywords -/

theorem fullMatch_keyword_of_stands {text : String}
    (h : i + text.length ∈ ends t keyword.toRegex i) (hs : Stands t i text.toList) :
    (regex .keyword).fullMatch text.toList.toArray = true := by
  obtain ⟨k, hk, hsk, hlen⟩ := mem_ends_keywords.mp (mem_ends_keyword.mp h).2.1
  have hlength : text.toList.length = k.toList.length := by
    rw [String.length_toList, String.length_toList]
    exact Nat.add_left_cancel hlen
  have htext : text = k := String.toList_inj.mp (hs.eq_of_length hsk hlength)
  exact fullMatch_keyword_iff.mpr (htext ▸ hk)

/-! ### Enumerations -/

/-- The word that opens an enumeration ends before whatever stands behind it. -/
theorem wordEnds_of_enumKeyword (h : m ∈ ends t enumKeyword.toRegex i) (hs : Stands t m v)
    (hi : i ≤ t.size) : m = i + 4 ∧ Stands t i "enum".toList ∧ WordEnds v := by
  obtain ⟨-, hword, hb, hname⟩ := mem_ends_wordUnless.mp h
  obtain ⟨henum, rfl⟩ := mem_ends_literal.mp hword
  refine ⟨rfl, henum, fun c hc => ?_, fun u hu huniv => ?_⟩
  · have hlast : wordAt t (i + 3) = true := by
      rw [wordAt, henum 3 (by decide)]
      decide
    have hnext : t[i + 4]? = some c := by
      have hfirst := hs 0 (List.length_pos_of_mem (List.mem_of_mem_head? hc))
      rw [← List.head?_eq_getElem?] at hfirst
      exact hfirst.trans hc
    have hboundary : atBoundary t (i + 4) = true := hb
    rw [atBoundary, show i + 4 - 1 = i + 3 from rfl, hlast, wordAt, hnext] at hboundary
    simpa using hboundary
  · -- a universal character name there would stand in the text as well
    obtain ⟨rest, rfl⟩ := hu
    have hsu := (stands_append_iff.mp hs).1
    have hmem : i + 4 + u.length ∈ ends t universalCharacterName.toRegex (i + 4) :=
      (mem_ends_iff_behind (by decide) (henum.le_size hi)).mpr
        ⟨u, spells_universalCharacterName.mpr huniv, hsu, rfl⟩
    have hnone : ends t universalCharacterName.toRegex (i + 4) = [] := hname
    rw [hnone] at hmem
    cases hmem

/-- The same word before anything that has no zero-width tests. -/
theorem fullMatch_enumKeyword_of_stands {p : Pattern} (hp : p.toRegex.plain = true)
    (h : i + w.length ∈ ends t (enumKeyword ++ p).toRegex i) (hs : Stands t i w)
    (hi : i ≤ t.size) : (enumKeyword ++ p).toRegex.fullMatch w.toArray = true := by
  obtain ⟨m, hm, hrest⟩ := mem_ends_seq.mp h
  obtain ⟨hmi, henum, -⟩ := wordEnds_of_enumKeyword hm (stands_nil t m) hi
  have hsize : m ≤ t.size := hmi ▸ henum.le_size hi
  obtain ⟨v, hv, hsv, hlen⟩ := (mem_ends_iff_behind hp hsize).mp hrest
  obtain ⟨-, -, hends⟩ := wordEnds_of_enumKeyword hm hsv hi
  have hboth : Stands t i ("enum".toList ++ v) := stands_append_iff.mpr ⟨henum, hmi ▸ hsv⟩
  have hw : w = "enum".toList ++ v := by
    refine hs.eq_of_length hboth ?_
    rw [List.length_append, show "enum".toList.length = 4 from rfl]
    omega
  exact (fullMatch_enumKeyword_append hp).mpr ⟨v, hw, hends, hv⟩

/-- An enumeration is its opening word before one of two patterns. -/
theorem mem_ends_enumerationConstant {j : Nat} : j ∈ ends t enumerationConstant.toRegex i ↔
    j ∈ ends t (enumKeyword ++ (whitespace ++ (optional (identifier ++ whitespace) ++
        enumBody))).toRegex i ∨
      j ∈ ends t (enumKeyword ++ (plus .blank ++ identifier)).toRegex i := by
  simp only [enumerationConstant, toRegex_orElse, toRegex_append, mem_ends_alt,
    (Agrees.seq_assoc _ _ _).ends]

theorem fullMatch_enumeration_of_stands (h : i + w.length ∈ ends t enumerationConstant.toRegex i)
    (hs : Stands t i w) (hi : i ≤ t.size) :
    enumerationConstant.toRegex.fullMatch w.toArray = true := by
  rw [fullMatch_iff, mem_ends_enumerationConstant, ← fullMatch_iff, ← fullMatch_iff]
  rcases mem_ends_enumerationConstant.mp h with h | h
  · exact .inl (fullMatch_enumKeyword_of_stands (by decide) h hs hi)
  · exact .inr (fullMatch_enumKeyword_of_stands (by decide) h hs hi)

/-! ### All categories -/

/-- Whatever a category reaches from some place of a text, it matches all of it alone. -/
theorem fullMatch_of_mem_ends {c : Category} {text : String}
    (h : i + text.length ∈ ends t (regex c) i) (hs : Stands t i text.toList) (hi : i ≤ t.size) :
    (regex c).fullMatch text.toList.toArray = true := by
  have hlen : i + text.toList.length ∈ ends t (pattern c).toRegex i := by
    rw [← regex_eq, String.length_toList]
    exact h
  cases c with
  | keyword => exact fullMatch_keyword_of_stands h hs
  | enumeration =>
    rw [regex_eq]
    exact fullMatch_enumeration_of_stands hlen hs hi
  | identifier | integer | floating | character | string | punctuator =>
    rw [regex_eq]
    exact fullMatch_of_stands (by decide) hlen hs hi

end Grammar

/-! ### Tokens -/

namespace Lexer

/-- The text that a match covers is matched by itself. -/
theorem fullMatch_text {source : String} {c : Category} {i j : Nat}
    (hm : Matching.Matched source.toList.toArray c i j) :
    (⟨c, i, j⟩ : Span).text source.toList.toArray =
        String.ofList ((source.toList.drop i).take (j - i)) ∧
      (Grammar.regex c).fullMatch
        ((⟨c, i, j⟩ : Span).text source.toList.toArray).toList.toArray = true := by
  have hij := Nat.le_of_lt hm.lt
  obtain ⟨hs, hlen⟩ := Matching.stands_text (c := c) hij hm.le_size
  have hmem := hm.mem_ends
  have hsize := hm.le_size
  refine ⟨?_, Grammar.fullMatch_of_mem_ends (hlen ▸ hmem) hs (Nat.le_trans hij hsize)⟩
  rw [Span.text_eq_take_drop (Int.natCast_nonneg i) (Int.ofNat_le.mpr hij)
    (Int.ofNat_le.mpr hsize), Int.toNat_natCast, Int.toNat_sub]

/-- The value of a token is what stands in the source from its start to its stop, and it is a lexeme
of the token's category by itself, under all settings. -/
theorem tokenize_value (config : Config) (source : String) (sourceFile : Option String) :
    ∀ token ∈ tokenize config source sourceFile,
      0 ≤ token.start ∧ token.start < token.stop ∧ token.stop ≤ source.length ∧
        token.value =
          String.ofList
            ((source.toList.drop token.start.toNat).take (token.stop - token.start).toNat) ∧
        (Grammar.regex token.category).fullMatch token.value.toList.toArray = true := by
  intro token htoken
  obtain ⟨s, hs, rfl⟩ := List.mem_map.mp htoken
  have hrange := Markup.lexed_range hs
  have hproper := (Markup.lexed_tidy config source).proper s hs
  obtain ⟨-, hmem⟩ := Matching.mem_spansOfAll.mp ((Markup.lexed_sublist config source).mem hs)
  obtain ⟨i, j, hspan, hm⟩ := Matching.matched_of_mem hmem
  obtain ⟨htext, hfull⟩ := fullMatch_text hm
  generalize s.category = c at hspan htext hfull
  subst hspan
  have hlength : ((j : Int) - i).toNat = j - i := by omega
  refine ⟨hrange.1, hproper, hrange.2, ?_, hfull⟩
  change _ = String.ofList ((source.toList.drop i).take ((j : Int) - i).toNat)
  rw [hlength]
  exact htext

/-- In the text the tag of the enumeration is followed by a bracket, and by itself by nothing. -/
theorem tokenize_value_enumeration :
    (⟨.enumeration, "enum e", 1, 7, 1, 2, some 1, some 8, none⟩ : Token) ∈
        tokenize .standard "(enum e)" none ∧
      (Grammar.regex .enumeration).fullMatch "enum e".toList.toArray = true := by
  have hmem : (⟨.enumeration, "enum e", 1, 7, 1, 2, some 1, some 8, none⟩ : Token) ∈
      tokenize .standard "(enum e)" none := by decide
  exact ⟨hmem, (tokenize_value .standard "(enum e)" none _ hmem).2.2.2.2⟩

end Lexer

end Lexeme
