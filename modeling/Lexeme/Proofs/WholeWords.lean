import Lexeme.Proofs.Grammar.Acceptance
import Lexeme.Proofs.MaximalMunch
import Lexeme.Proofs.Nesting

/-! Keywords as whole words. Identifiers are made of ASCII characters and universal character names,
while the word of a keyword ends where no letter or digit of any script follows. Main statement: the
matches of keywords are the words of the text that are reserved, each is a match of identifiers too,
and no token that is an identifier shares a character with one. -/

namespace Lexeme

open Grammar Regex

variable {t : Array Char} {i j p : Nat}

/-! ### Words of a text -/

namespace Regex

/-- A run of word characters with no word character on either side. -/
structure WordRun (t : Array Char) (i j : Nat) : Prop where
  lt : i < j
  inside : ∀ p, i ≤ p → p < j → wordAt t p = true
  before : 0 < i → wordAt t (i - 1) = false
  behind : wordAt t j = false

theorem lt_size_of_wordAt (h : wordAt t p = true) : p < t.size := by
  refine Nat.lt_of_not_le fun hp => ?_
  rw [wordAt, Array.getElem?_eq_none hp] at h
  cases h

theorem WordRun.le_size (h : WordRun t i j) : j ≤ t.size := by
  have hlt := h.lt
  have := lt_size_of_wordAt (h.inside (j - 1) (by omega) (by omega))
  omega

theorem WordRun.atBoundary (h : WordRun t i j) :
    Regex.atBoundary t i = true ∧ Regex.atBoundary t j = true := by
  have hlt := h.lt
  have hfirst := h.inside i (Nat.le_refl i) hlt
  have hlast := h.inside (j - 1) (by omega) (by omega)
  constructor
  · rw [Regex.atBoundary, hfirst]
    rcases Nat.eq_zero_or_pos i with rfl | hi
    · rfl
    · simp [h.before hi]
  · have hj : (j != 0) = true := by simp only [bne_iff_ne]; omega
    rw [Regex.atBoundary, hlast, h.behind, hj]
    rfl

/-- A universal character name begins at the place. -/
def UniversalNameAt (t : Array Char) (p : Nat) : Prop :=
  ∃ w, Lexical.UniversalName w ∧ Stands t p w

theorem ends_universalCharacterName_eq_nil_iff (hp : p ≤ t.size) :
    ends t universalCharacterName.toRegex p = [] ↔ ¬ UniversalNameAt t p := by
  rw [ends_eq_nil_iff (by decide) hp]
  constructor
  · rintro h ⟨w, hw, hs⟩
    exact h w (spells_universalCharacterName.mpr hw) hs
  · exact fun h w hw hs => h ⟨w, spells_universalCharacterName.mp hw, hs⟩

end Regex

/-! ### Keywords -/

namespace Grammar

theorem wordRun_of_keyword (h : j ∈ ends t keyword.toRegex i) : WordRun t i j := by
  obtain ⟨hbefore, hbehind⟩ := not_wordAt_of_keyword h
  exact ⟨lt_of_mem_ends (by decide) h, fun _ => wordAt_of_keyword h, hbefore, hbehind⟩

/-- A keyword is a reserved word that no universal character name continues. -/
theorem mem_ends_keyword_iff : j ∈ ends t keyword.toRegex i ↔
    WordRun t i j ∧ (⟨.keyword, i, j⟩ : Span).text t ∈ keywords ∧ ¬ UniversalNameAt t j := by
  constructor
  · intro h
    obtain ⟨-, hword, -, hname⟩ := mem_ends_keyword.mp h
    obtain ⟨w, hw, hs, rfl⟩ := mem_ends_keywords.mp hword
    have hrun := wordRun_of_keyword h
    refine ⟨hrun, ?_, (ends_universalCharacterName_eq_nil_iff hrun.le_size).mp hname⟩
    rw [Matching.text_of_stands hs hrun.le_size]
    exact hw
  · rintro ⟨hrun, htext, hname⟩
    obtain ⟨hs, hlen⟩ := Matching.stands_text (c := .keyword) (Nat.le_of_lt hrun.lt) hrun.le_size
    exact mem_ends_keyword.mpr ⟨hrun.atBoundary.1, mem_ends_keywords.mpr ⟨_, htext, hs, hlen⟩,
      hrun.atBoundary.2, (ends_universalCharacterName_eq_nil_iff hrun.le_size).mpr hname⟩

end Grammar

/-! ### Matches of keywords -/

namespace Matching

variable {k s : Span}

theorem matched_keyword_iff : Matched t .keyword i j ↔ j ∈ ends t keyword.toRegex i := by
  rw [Matched, regex_eq]
  constructor
  · exact mem_ends_of_matchAt
  · intro h
    obtain ⟨e, he⟩ := matchAt_isSome h
    exact he.trans (congrArg some (keyword_end_unique (mem_ends_of_matchAt he) h))

/-- No keyword is passed over: a match that covers its start would be a word with the same start. -/
theorem mem_spansOf_keyword_iff : s ∈ spansOf t .keyword ↔
    ∃ i j : Nat, s = ⟨.keyword, i, j⟩ ∧ j ∈ ends t keyword.toRegex i := by
  constructor
  · intro h
    obtain ⟨i, j, rfl, hm⟩ := matched_of_mem h
    exact ⟨i, j, rfl, matched_keyword_iff.mp hm⟩
  · rintro ⟨i, j, rfl, h⟩
    refine mem_spansOf_of_matched (matched_keyword_iff.mpr h) fun x y hxy hx hy => ?_
    have hbefore := (not_wordAt_of_keyword h).1 (by omega)
    rw [wordAt_of_keyword (matched_keyword_iff.mp hxy) (by omega) (by omega)] at hbefore
    cases hbefore

theorem identifier_mem_of_keyword_mem (h : k ∈ spansOf t .keyword) :
    (⟨.identifier, k.start, k.stop⟩ : Span) ∈ spansOf t .identifier := by
  obtain ⟨i, j, rfl, hk⟩ := mem_spansOf_keyword_iff.mp h
  refine mem_spansOf_of_matched ?_ fun x y hxy hx hy => ?_
  · rw [Matched, regex_eq]
    exact identifier_matchAt_of_keyword hk
  · have hmem := hxy.mem_ends
    rw [regex_eq] at hmem
    exact Nat.not_le_of_lt hx (keyword_start_le hmem hk hy)

/-- The first rule of the standard table takes away every identifier that is a keyword. -/
theorem not_overlaps_of_identifier (hk : k ∈ spansOf t .keyword) (hs : s ∈ Nesting.survivors t)
    (hc : s.category = .identifier) : ¬ s.Overlaps k := by
  intro ho
  have hkc : k.category = .keyword := by
    obtain ⟨i, j, rfl, -⟩ := mem_spansOf_keyword_iff.mp hk
    rfl
  have hsame : s = ⟨.identifier, k.start, k.stop⟩ :=
    (Nesting.matched_tidy t).eq_of_overlaps (Nesting.mem_matched_of_mem_survivors hs)
      (Nesting.mem_matched.mpr (identifier_mem_of_keyword_mem hk)) hc ho
  have hcontains : k.Contains s := by
    rw [hsame]
    exact ⟨Int.le_refl _, Int.le_refl _⟩
  have hkm : k ∈ Nesting.matched t := Nesting.mem_matched.mpr (hkc ▸ hk)
  refine Nesting.not_contains_of_absorbs (n := 0) rfl ?_ hkm hs hcontains
  rw [hkc, hc]
  decide

/-- The matches of keywords are exactly the words of a text that are reserved and that no universal
character name continues. Identifiers have a match of the same extent, so that no identifier among
the tokens shares a character with a keyword. -/
theorem keywords_are_words (source : String) :
    (∀ s, s ∈ matchCategory source .keyword ↔
      ∃ i j : Nat, s = ⟨.keyword, i, j⟩ ∧ WordRun source.toList.toArray i j ∧
        s.text source.toList.toArray ∈ keywords ∧ ¬ UniversalNameAt source.toList.toArray j) ∧
    (∀ k ∈ matchCategory source .keyword,
      (⟨.identifier, k.start, k.stop⟩ : Span) ∈ matchCategory source .identifier) ∧
    ∀ k ∈ matchCategory source .keyword, ∀ s ∈ Lexer.spans .standard source,
      s.category = .identifier → ¬ s.Overlaps k := by
  refine ⟨fun s => ?_, fun k hk => identifier_mem_of_keyword_mem hk, fun k hk s hs hc => ?_⟩
  · rw [matchCategory, mem_spansOf_keyword_iff]
    constructor
    · rintro ⟨i, j, rfl, h⟩
      exact ⟨i, j, rfl, mem_ends_keyword_iff.mp h⟩
    · rintro ⟨i, j, rfl, h⟩
      exact ⟨i, j, rfl, mem_ends_keyword_iff.mpr h⟩
  · exact not_overlaps_of_identifier hk (Nesting.mem_survivors_of_mem_spans hs) hc

/-- A letter of another script and a universal character name continue a word, a space does not. -/
theorem keywords_are_words_continued :
    matchCategory "elseé do\\u00e9 if" .keyword = [⟨.keyword, 15, 17⟩] ∧
      (⟨.identifier, 15, 17⟩ : Span) ∈ matchCategory "elseé do\\u00e9 if" .identifier ∧
      ∀ s ∈ Lexer.spans .standard "elseé do\\u00e9 if", s.category = .identifier →
        ¬ s.Overlaps ⟨.keyword, 15, 17⟩ := by
  have hkeywords : matchCategory "elseé do\\u00e9 if" .keyword = [⟨.keyword, 15, 17⟩] := by
    decide +kernel
  have hmem : (⟨.keyword, 15, 17⟩ : Span) ∈ matchCategory "elseé do\\u00e9 if" .keyword := by
    simp [hkeywords]
  obtain ⟨-, hidentifier, hapart⟩ := keywords_are_words "elseé do\\u00e9 if"
  exact ⟨hkeywords, hidentifier _ hmem, hapart _ hmem⟩

end Matching

end Lexeme
