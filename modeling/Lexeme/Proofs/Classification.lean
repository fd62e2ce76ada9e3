import Lexeme.Proofs.Grammar.Acceptance
import Lexeme.Proofs.Layout.Tokens
import Lexeme.Proofs.MaximalMunch

/-! Texts that are one lexeme. Whatever else is matched lies within the lexeme, and no rule that
could remove it has a match around it. Main statement: such a text has one token, the whole of it,
under its own category or as a keyword. -/

namespace Lexeme.Classification

open Grammar Layout Matching Nesting Resolution

variable {t : Array Char} {c : Category} {text : String}

/-- The span of a category over a whole text. -/
def whole (t : Array Char) (c : Category) : Span := ⟨c, (0 : Nat), t.size⟩

/-! ### The lexeme is matched -/

theorem matched_of_fullMatch (h : (regex c).fullMatch t = true) : Matched t c 0 t.size := by
  rw [Regex.fullMatch_iff] at h
  obtain ⟨j, hj⟩ := Regex.matchAt_isSome h
  have hle := findsLongest t c 0 j hj _ h
  have hsize := (Regex.matchAt_bounds (Nat.zero_le _) hj).2
  obtain rfl : j = t.size := Nat.le_antisymm hsize hle
  exact hj

theorem fullMatch_of_matched (h : Matched t c 0 t.size) : (regex c).fullMatch t = true :=
  (Regex.fullMatch_iff _ _).mpr h.mem_ends

theorem whole_mem_matched (h : (regex c).fullMatch t = true) : whole t c ∈ matched t :=
  mem_matched.mpr (mem_spansOf_of_matched (matched_of_fullMatch h)
    fun x _ _ hx => absurd hx (Nat.not_lt_zero x))

/-- Every match lies within the text. -/
theorem whole_contains {s : Span} (hs : s ∈ matched t) (c : Category) : (whole t c).Contains s := by
  obtain ⟨i, j, hsi, hm⟩ := exists_matched hs
  rw [hsi]
  exact ⟨Int.ofNat_le.mpr (Nat.zero_le i), Int.ofNat_le.mpr hm.le_size⟩

/-- A match around the text is one of the text. -/
theorem fullMatch_of_contains_whole {o : Span} (ho : o ∈ matched t)
    (h : o.Contains (whole t c)) : (regex o.category).fullMatch t = true := by
  obtain ⟨i, j, hoi, hm⟩ := exists_matched ho
  rw [hoi] at h
  obtain ⟨hstart, hstop⟩ := h
  obtain rfl : i = 0 := Nat.le_zero.mp (Int.ofNat_le.mp hstart)
  obtain rfl : j = t.size := Nat.le_antisymm hm.le_size (Int.ofNat_le.mp hstop)
  exact fullMatch_of_matched hm

/-! ### The lexeme is left, and nothing else -/

/-- No rule has another category for the text to remove it for. -/
theorem not_fullMatch_outer {r : Rule} {d : Category} (hc : c ≠ .character)
    (hword : c = .identifier → text ∉ keywords)
    (h : (regex c).fullMatch text.toList.toArray = true) (hr : r ∈ Rule.standard)
    (hinner : c ∈ r.inner) (houter : d ∈ r.outer) :
    (regex d).fullMatch text.toList.toArray ≠ true := by
  intro hd
  have hmc := matched_of_fullMatch h
  have hmd := matched_of_fullMatch hd
  rcases unlike_of_rule r hr c hinner d houter with hun | ⟨rfl, rfl⟩ | ⟨rfl, rfl⟩ | rfl
  · exact hun.not_matched hmc hmd
  · exact hword rfl (fullMatch_keyword_iff.mp hd)
  · exact not_matched_floating_of_integer hmc hmd
  · exact hc rfl

theorem whole_mem_survivors (hc : c ≠ .character) (hword : c = .identifier → text ∉ keywords)
    (h : (regex c).fullMatch text.toList.toArray = true) :
    whole text.toList.toArray c ∈ survivors text.toList.toArray := by
  refine Classical.byContradiction fun hn => ?_
  obtain ⟨r, hr, hinner, o, ho, houter, hcont⟩ :=
    exists_outer_of_not_mem_left (matched_tidy _).proper (whole_mem_matched h) hn
  exact not_fullMatch_outer hc hword h hr hinner houter (fullMatch_of_contains_whole ho hcont)

theorem survivors_eq (hc : c ≠ .character) (hword : c = .identifier → text ∉ keywords)
    (h : (regex c).fullMatch text.toList.toArray = true) :
    survivors text.toList.toArray = [whole text.toList.toArray c] := by
  have hmem := whole_mem_survivors hc hword h
  have hall : ∀ s ∈ survivors text.toList.toArray, s = whole text.toList.toArray c := by
    intro s hs
    refine Classical.byContradiction fun hne => hc ?_
    -- what is left within a lexeme is within a character constant
    exact category_of_contains hmem hs (Ne.symm hne)
      (whole_contains (mem_matched_of_mem_survivors hs) c)
  have hperm : (survivors text.toList.toArray).Perm [whole text.toList.toArray c] := by
    refine (List.perm_ext_iff_of_nodup (survivors_tidy _).nodup (List.nodup_singleton _)).mpr ?_
    intro s
    rw [List.mem_singleton]
    exact ⟨hall s, fun hs => hs ▸ hmem⟩
  exact List.perm_singleton.mp hperm

theorem spans_eq (hc : c ≠ .character) (hword : c = .identifier → text ∉ keywords)
    (h : (regex c).fullMatch text.toList.toArray = true) :
    Lexer.spans .standard text = [whole text.toList.toArray c] := by
  rw [spans_standard, survivors_eq hc hword h, Repair.run,
    Span.sort_eq_self (List.pairwise_singleton _ _)]
  rfl

/-! ### The token -/

theorem whole_text (text : String) (c : Category) :
    (whole text.toList.toArray c).text text.toList.toArray = text := by
  have hsize : text.toList.toArray.size = 0 + text.length := by
    rw [List.size_toArray, String.length_toList, Nat.zero_add]
  have hs := (Regex.stands_whole.mpr (Eq.refl text.toList)).1
  rw [whole, hsize]
  exact text_of_stands hs (Nat.le_of_eq hsize.symm)

/-- The token of a span over the whole text. -/
theorem exists_token (sourceFile : Option String)
    (h : Lexer.spans .standard text = [whole text.toList.toArray c]) :
    ∃ token, Lexer.tokenize .standard text sourceFile = [token] ∧ token.category = c ∧
      token.start = 0 ∧ token.stop = text.length ∧ token.value = text := by
  have hsize : (whole text.toList.toArray c).stop = text.length := by
    rw [whole, List.size_toArray, String.length_toList]
  refine ⟨Token.ofSpan text.toList.toArray (LineIndex.ofText text.toList) sourceFile
    (whole text.toList.toArray c), ?_, rfl, rfl, hsize, whole_text text c⟩
  rw [Lexer.tokenize, h]
  rfl

/-- A text that is a lexeme of a category, character constants apart, has exactly one token. The
token covers the text and is of the category, but a keyword is not an identifier. -/
theorem tokenize_lexeme (text : String) (sourceFile : Option String) (c : Category)
    (hc : c ≠ .character) (h : (regex c).fullMatch text.toList.toArray = true) :
    ∃ token, Lexer.tokenize .standard text sourceFile = [token] ∧
      token.category = (if c = .identifier ∧ text ∈ keywords then .keyword else c) ∧
      token.start = 0 ∧ token.stop = text.length ∧ token.value = text := by
  apply exists_token
  by_cases hword : c = .identifier ∧ text ∈ keywords
  · rw [if_pos hword]
    exact spans_eq (by decide) nofun (fullMatch_keyword_iff.mpr hword.2)
  · rw [if_neg hword]
    exact spans_eq hc (fun hid hmem => hword ⟨hid, hmem⟩) h

/-- A string literal holds apostrophes, an escaped quote and an enumeration. -/
theorem tokenize_busy_string :
    ∃ token, Lexer.tokenize .standard "u8\"'a' \\\" enum e\"" none = [token] ∧
      token.category = .string ∧ token.start = 0 ∧ token.stop = 17 ∧
      token.value = "u8\"'a' \\\" enum e\"" :=
  tokenize_lexeme "u8\"'a' \\\" enum e\"" none .string (by decide) (by decide)

end Lexeme.Classification
