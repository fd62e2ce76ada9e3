import Lexeme.Proofs.Layout.Tokens
import Lexeme.Proofs.Regex.Plain

/-! Printing lexemes with white space between them. Main statement: the tokens of the printed text
are the lexemes that were printed, with their categories and their texts. -/

namespace Lexeme.Printing

open Grammar Layout Regex

/-- The text is a lexeme of the category. The keyword `enum`, which may open an enumeration, and
texts that could open a character constant are left out. -/
def Spelled (text : String) : Category → Prop
  | .keyword => text ∈ keywords ∧ text ≠ "enum"
  | .identifier =>
    (regex .identifier).fullMatch text.toList.toArray = true ∧ text ∉ keywords
  | .integer => (regex .integer).fullMatch text.toList.toArray = true
  | .floating => (regex .floating).fullMatch text.toList.toArray = true
  | .punctuator => (regex .punctuator).fullMatch text.toList.toArray = true
  | .string => (regex .string).fullMatch text.toList.toArray = true ∧ '\'' ∉ text.toList
  | .enumeration => False
  | .character => False

instance (text : String) : (c : Category) → Decidable (Spelled text c)
  | .keyword => inferInstanceAs (Decidable (_ ∧ _))
  | .identifier => inferInstanceAs (Decidable (_ ∧ _))
  | .integer => inferInstanceAs (Decidable (_ = true))
  | .floating => inferInstanceAs (Decidable (_ = true))
  | .punctuator => inferInstanceAs (Decidable (_ = true))
  | .string => inferInstanceAs (Decidable (_ ∧ _))
  | .enumeration => inferInstanceAs (Decidable False)
  | .character => inferInstanceAs (Decidable False)

/-- A lexeme to be printed. -/
structure Word where
  category : Category
  text : String
  spelled : Spelled text category

/-- White space to be printed, at least one character of it. -/
structure Gap where
  text : String
  ne_empty : text ≠ ""
  blank : ∀ c ∈ text.toList, c = ' ' ∨ c = '\t' ∨ c = '\n'

/-- The words, each behind the next gap. -/
def printAfter : (Nat → Gap) → List Word → List Char
  | _, [] => []
  | gaps, w :: words =>
    (gaps 0).text.toList ++ w.text.toList ++ printAfter (fun n => gaps (n + 1)) words

/-- The words with a gap between any two of them. -/
def print (gaps : Nat → Gap) : List Word → String
  | [] => ""
  | w :: words => String.ofList (w.text.toList ++ printAfter gaps words)

variable {t : Array Char} {i j : Nat}

/-! ### Words in a text -/

theorem stands_append (a b c : List Char) : Stands (a ++ b ++ c).toArray a.length b := by
  intro q hq
  rw [List.getElem?_toArray, List.append_assoc, List.getElem?_append_right (by omega),
    Nat.add_sub_cancel_left, List.getElem?_append_left hq]

/-- Texts of one length that stand at one place are the same. -/
theorem eq_of_stands {v w : String} (hv : Stands t i v.toList) (hw : Stands t i w.toList)
    (h : v.length = w.length) : v = w := by
  rw [← String.toList_inj]
  apply List.ext_getElem?
  intro q
  have hlv := String.length_toList (s := v)
  have hlw := String.length_toList (s := w)
  rcases Nat.lt_or_ge q v.length with hq | hq
  · rw [← hv q (by omega), hw q (by omega)]
  · rw [List.getElem?_eq_none (by omega), List.getElem?_eq_none (by omega)]

theorem plain_of_ne : ∀ c ∈ Category.all, c ≠ .keyword → c ≠ .enumeration →
    (pattern c).toRegex.plain = true := by
  decide

/-- A text that is a lexeme by itself is one where it stands. -/
theorem mem_ends_of_stands {text : String} {c : Category}
    (h : (regex c).fullMatch text.toList.toArray = true) (hk : c ≠ .keyword)
    (he : c ≠ .enumeration) (hs : Stands t i text.toList) (hi : i + text.length ≤ t.size) :
    i + text.length ∈ ends t (spelling c).toRegex i := by
  rw [regex_eq] at h
  rw [spelling_eq_pattern hk, ← String.length_toList]
  exact mem_ends_of_fullMatch (plain_of_ne c (Category.mem_all c) hk he) h hs
    (by rwa [String.length_toList])

/-- A word is a lexeme of the text where it stands. -/
theorem Word.spells (w : Word) (hs : Stands t i w.text.toList) (hi : i + w.text.length ≤ t.size) :
    i + w.text.length ∈ ends t (spelling w.category).toRegex i ∧
      Allowed t i (i + w.text.length) w.category := by
  obtain ⟨c, text, h⟩ := w
  simp only at hs hi ⊢
  cases c with
  | keyword =>
    refine ⟨mem_ends_keywords.mpr ⟨text, h.1, hs, rfl⟩, fun henum => h.2 ?_⟩
    exact eq_of_stands hs henum.1 (by omega)
  | identifier =>
    refine ⟨mem_ends_of_stands h.1 (by decide) (by decide) hs hi, fun v hv hstands => h.2 ?_⟩
    rwa [eq_of_stands hs hstands.1 (by omega)]
  | integer => exact ⟨mem_ends_of_stands h (by decide) (by decide) hs hi, trivial⟩
  | floating => exact ⟨mem_ends_of_stands h (by decide) (by decide) hs hi, trivial⟩
  | enumeration => exact h.elim
  | character => exact h.elim
  | string =>
    refine ⟨mem_ends_of_stands h.1 (by decide) (by decide) hs hi, fun p hip hp hat => h.2 ?_⟩
    have hlen := String.length_toList (s := text)
    rw [at_single_iff, show p = i + (p - i) by omega, hs (p - i) (by omega)] at hat
    exact List.mem_of_getElem? hat
  | punctuator => exact ⟨mem_ends_of_stands h (by decide) (by decide) hs hi, trivial⟩

theorem Gap.at_gap (g : Gap) {q : Nat} (hs : Stands t i g.text.toList) (hq : q < g.text.length) :
    At t gap (i + q) := by
  have hlen := String.length_toList (s := g.text)
  have hlt : q < g.text.toList.length := by omega
  refine ⟨g.text.toList[q], by rw [hs q hlt, List.getElem?_eq_getElem hlt], ?_⟩
  rcases g.blank _ (List.getElem_mem hlt) with h | h | h <;> rw [h] <;> decide

/-! ### The printed text -/

/-- The places of the words that are printed from position `n` on. -/
def placesAfter : (Nat → Gap) → Nat → List Word → List Span
  | _, _, [] => []
  | gaps, n, w :: words =>
    let i := n + (gaps 0).text.length
    ⟨w.category, i, (i + w.text.length : Nat)⟩ ::
      placesAfter (fun n => gaps (n + 1)) (i + w.text.length) words

section Behind

variable (gaps : Nat → Gap) (w : Word) (words : List Word) (pre : List Char)

/-- What stands before the second word is what stood there, the gap and the first word. -/
theorem append_printAfter : pre ++ printAfter gaps (w :: words) =
    pre ++ (gaps 0).text.toList ++ w.text.toList ++ printAfter (fun n => gaps (n + 1)) words := by
  simp only [printAfter, List.append_assoc]

theorem stands_gap : Stands (pre ++ printAfter gaps (w :: words)).toArray pre.length
    (gaps 0).text.toList := by
  rw [append_printAfter, List.append_assoc _ w.text.toList]
  exact stands_append pre _ _

theorem stands_word : Stands (pre ++ printAfter gaps (w :: words)).toArray
    (pre.length + (gaps 0).text.length) w.text.toList := by
  have h := stands_append (pre ++ (gaps 0).text.toList) w.text.toList
    (printAfter (fun n => gaps (n + 1)) words)
  rwa [← append_printAfter, List.length_append, String.length_toList] at h

theorem word_le_size : pre.length + (gaps 0).text.length + w.text.length ≤
    (pre ++ printAfter gaps (w :: words)).toArray.size := by
  simp only [append_printAfter, List.size_toArray, List.length_append, String.length_toList]
  omega

end Behind

theorem Gap.length_pos (g : Gap) : 0 < g.text.length :=
  Nat.pos_of_ne_zero fun h => g.ne_empty (String.length_eq_zero_iff.mp h)

/-- Behind any text that is not empty, the words are laid out at their places. -/
theorem laid_printAfter (gaps : Nat → Gap) (words : List Word) (pre : List Char)
    (hpre : 0 < pre.length) :
    Laid (pre ++ printAfter gaps words).toArray pre.length (placesAfter gaps pre.length words) := by
  induction words generalizing gaps pre with
  | nil =>
    refine .done fun p hp hsize => ?_
    simp only [printAfter, List.append_nil, List.size_toArray] at hsize
    omega
  | cons w words ih =>
    have hrest := ih (fun n => gaps (n + 1)) (pre ++ (gaps 0).text.toList ++ w.text.toList)
      (by simp only [List.length_append]; omega)
    have hpos := (gaps 0).length_pos
    obtain ⟨hspells, hallowed⟩ := w.spells (stands_word gaps w words pre)
      (word_le_size gaps w words pre)
    refine .word (by omega) (by omega) (fun p hp hpi => ?_) hspells hallowed ?_
    · have := (gaps 0).at_gap (q := p - pre.length) (stands_gap gaps w words pre) (by omega)
      rwa [Nat.add_sub_cancel' hp] at this
    · simpa only [← append_printAfter, List.length_append, String.length_toList] using hrest

/-- The texts at these places are the words. -/
theorem texts_placesAfter (gaps : Nat → Gap) (words : List Word) (pre : List Char) :
    (placesAfter gaps pre.length words).map
        (fun s => (s.category, s.text (pre ++ printAfter gaps words).toArray)) =
      words.map fun w => (w.category, w.text) := by
  induction words generalizing gaps pre with
  | nil => rfl
  | cons w words ih =>
    have hrest := ih (fun n => gaps (n + 1)) (pre ++ (gaps 0).text.toList ++ w.text.toList)
    simp only [← append_printAfter, List.length_append, String.length_toList] at hrest
    have htext := Matching.text_of_stands (c := w.category) (stands_word gaps w words pre)
      (word_le_size gaps w words pre)
    simp only [placesAfter, List.map_cons, hrest, htext]

/-- The places of the words in the printed text. -/
def places (gaps : Nat → Gap) : List Word → List Span
  | [] => []
  | w :: words => ⟨w.category, (0 : Nat), (w.text.length : Nat)⟩ ::
      placesAfter gaps w.text.length words

theorem stands_first (gaps : Nat → Gap) (w : Word) (words : List Word) :
    Stands (w.text.toList ++ printAfter gaps words).toArray 0 w.text.toList := by
  simpa using stands_append [] w.text.toList (printAfter gaps words)

theorem first_le_size (gaps : Nat → Gap) (w : Word) (words : List Word) :
    0 + w.text.length ≤ (w.text.toList ++ printAfter gaps words).toArray.size := by
  rw [List.size_toArray, List.length_append, String.length_toList]
  omega

theorem laid_print (gaps : Nat → Gap) (words : List Word) :
    Laid (print gaps words).toList.toArray 0 (places gaps words) := by
  cases words with
  | nil => exact .done fun p _ hp => absurd hp (Nat.not_lt_zero p)
  | cons w words =>
    obtain ⟨hspells, hallowed⟩ := w.spells (stands_first gaps w words) (first_le_size gaps w words)
    have hlt := lt_of_mem_ends (spelling_not_nullable w.category) hspells
    have hrest := laid_printAfter gaps words w.text.toList (by rw [String.length_toList]; omega)
    rw [Nat.zero_add] at hspells hallowed
    rw [String.length_toList] at hrest
    rw [print, String.toList_ofList]
    exact .word (Nat.le_refl 0) (fun h => h) (fun p _ hp => absurd hp (Nat.not_lt_zero p)) hspells
      hallowed hrest

theorem texts_places (gaps : Nat → Gap) (words : List Word) :
    (places gaps words).map
        (fun s => (s.category, s.text (print gaps words).toList.toArray)) =
      words.map fun w => (w.category, w.text) := by
  cases words with
  | nil => rfl
  | cons w words =>
    have hrest := texts_placesAfter gaps words w.text.toList
    have htext := Matching.text_of_stands (c := w.category) (stands_first gaps w words)
      (first_le_size gaps w words)
    rw [String.length_toList] at hrest
    rw [Nat.zero_add] at htext
    rw [print, String.toList_ofList]
    simp only [places, List.map_cons, hrest, htext]

/-- Printed lexemes are read back as they were. -/
theorem tokenize_print (gaps : Nat → Gap) (words : List Word) (sourceFile : Option String) :
    (Lexer.tokenize .standard (print gaps words) sourceFile).map
        (fun token => (token.category, token.value)) =
      words.map fun w => (w.category, w.text) := by
  rw [Lexer.tokenize, (laid_print gaps words).spans_eq, Lexer.tokensOf, List.map_map]
  exact texts_places gaps words

/-- A declaration is printed with a space and a line break by turns, and read back. -/
theorem tokenize_print_declaration :
    ∃ (gaps : Nat → Gap) (words : List Word),
      words.map (fun w => (w.category, w.text)) =
        [(.keyword, "char"), (.identifier, "\\u00e9_1"), (.punctuator, "["),
          (.integer, "0x1Fu"), (.punctuator, "]"), (.punctuator, "="),
          (.string, "u8\"enum \\\" 0x1e5\""), (.punctuator, ","), (.floating, "0x1.p3")] ∧
      print gaps words =
        "char \\u00e9_1\n\t[ 0x1Fu\n\t] =\n\tu8\"enum \\\" 0x1e5\" ,\n\t0x1.p3" ∧
      (Lexer.tokenize .standard (print gaps words) none).map
          (fun token => (token.category, token.value)) =
        words.map fun w => (w.category, w.text) := by
  let space : Gap := ⟨" ", by decide, by simp⟩
  let indent : Gap := ⟨"\n\t", by decide, by simp⟩
  let words : List Word :=
    [⟨.keyword, "char", by decide⟩, ⟨.identifier, "\\u00e9_1", by decide⟩,
      ⟨.punctuator, "[", by decide⟩, ⟨.integer, "0x1Fu", by decide⟩,
      ⟨.punctuator, "]", by decide⟩, ⟨.punctuator, "=", by decide⟩,
      ⟨.string, "u8\"enum \\\" 0x1e5\"", by decide⟩, ⟨.punctuator, ",", by decide⟩,
      ⟨.floating, "0x1.p3", by decide⟩]
  exact ⟨fun n => if n % 2 = 0 then space else indent, words, rfl, by decide,
    tokenize_print _ words none⟩

end Lexeme.Printing
