import Lexeme.Proofs.Json.Values
import Lexeme.Proofs.Json.Written
import Lexeme.Proofs.Markup
import Lexeme.Token.Stored
import Mathlib

/-! Stored tokens are read back. Main statement: a list of tokens survives being written and read
exactly when the indentation is a word of 64 bits and no number of a token is longer than the
longest integer that is written, and it is not written otherwise; the tokens of a source are among
those that survive. -/

namespace Lexeme

namespace Json

variable {indent : Indent} {depth : Nat}

theorem digitCount_le_iff (n : Int) :
    digitCount n ≤ maxIntegerDigits ↔ n.natAbs < 10 ^ maxIntegerDigits :=
  Nat.length_toDigits_le_iff (by decide) (by decide)

theorem not_digitCount_pow_le {k : Nat} (hk : maxIntegerDigits ≤ k) :
    ¬ digitCount (10 ^ k) ≤ maxIntegerDigits := by
  rw [digitCount_le_iff, Int.natAbs_pow, Nat.not_lt]
  exact Nat.pow_le_pow_right (by decide) hk

theorem hasLongItem_eq_any (items : List Json) : hasLongItem items = items.any hasLongInteger := by
  induction items with
  | nil => rfl
  | cons v items ih => rw [hasLongItem, ih, List.any_cons]

theorem writeItems_eq_map (items : List Json) :
    writeItems indent depth items = items.map (write indent depth) := by
  induction items with
  | nil => rfl
  | cons v items ih => rw [writeItems, ih, List.map_cons]

theorem render?_eq_ok_iff {v : Json} {text : String} :
    render? indent v = .ok text ↔
      indent.fits = true ∧ v.hasLongInteger = false ∧ text = render indent v := by
  cases hfits : indent.fits <;> cases hlong : v.hasLongInteger <;>
    simp [render?, hfits, hlong, eq_comm]

/-- Keys without surrogates are looked up as strings. -/
theorem field?_strings (fields : List (String × Json)) (key : String) :
    field? (fields.map fun p => (Text.ofString p.1, p.2)) key = fields.lookup key := by
  induction fields with
  | nil => rfl
  | cons p fields ih =>
    rw [field?] at ih ⊢
    rw [List.map_cons, List.lookup, List.lookup, Text.ofString_beq, ih]

end Json

/-- The integers of a token. -/
def Token.numbers (t : Token) : List Int :=
  [t.start, t.stop, t.line, t.column] ++ t.endLine.toList ++ t.endColumn.toList

namespace StoredToken

open Json (Indent Spells digitCount maxIntegerDigits)

variable {indent : Indent} {limit depth level : Nat} {tokens : List Token}

/-! ### One token -/

/-- The fields of a token by their keys. -/
def sortedFields (t : StoredToken) : List (String × Json) :=
  [("category", .text t.category.name), ("col", t.column), ("end", t.stop),
   ("end_col", t.endColumn), ("end_lineno", t.endLine), ("lineno", t.line),
   ("source_file", t.sourceFile), ("start", t.start), ("value", t.value)]

/-- The object as it comes back from a text. -/
def sorted (t : StoredToken) : Json :=
  .object (t.sortedFields.map fun p => (Text.ofString p.1, p.2))

theorem write_toJson (indent : Indent) (depth : Nat) (t : StoredToken) :
    Json.write indent depth t.toJson =
      Json.enclose indent depth '\x7b' '\x7d'
        ((t.sortedFields.map (Json.Field.ofValue indent (depth + 1))).map Json.Field.written) := by
  simp [toJson, Json.write, Json.writeFields, Json.sortFields, Sorting.sort, Sorting.sortWithin,
    Sorting.merge, Sorting.place, Text.le, Text.ofString, CodePoint.value, List.lex, sortedFields,
    Json.Field.ofValue, Json.Field.written]

theorem ofJson_sorted (t : StoredToken) : ofJson t.sorted = .ok t := by
  simp only [sorted, ofJson, finds, ofFields, Json.field?_strings]
  simp [required, sortedFields, List.lookup, readCategory, Except.map]

theorem spells_int? {n : Option Int} (hn : ∀ m ∈ n.toList, digitCount m ≤ limit) :
    Spells limit depth (Json.write indent level (ofInt? n)) (ofInt? n) := by
  cases n with
  | none => exact Json.spells_null
  | some n => exact Json.spells_int (hn n (by simp))

theorem spells_text? (s : Option String) :
    Spells limit depth (Json.write indent level (ofText? s)) (ofText? s) := by
  cases s with
  | none => exact Json.spells_null
  | some s => exact Json.spells_text s

theorem spells_field {t : Token} (ht : ∀ n ∈ t.numbers, digitCount n ≤ limit)
    {p : String × Json} (hp : p ∈ (ofToken t).sortedFields) :
    Spells limit depth (Json.write indent level p.2) p.2 := by
  have hint : ∀ n ∈ t.numbers, Spells limit depth (Json.write indent level (.int n)) (.int n) :=
    fun n hn => Json.spells_int (ht n hn)
  simp only [Token.numbers, List.mem_append] at ht
  simp only [sortedFields, List.mem_cons, List.not_mem_nil, or_false] at hp
  rcases hp with rfl | rfl | rfl | rfl | rfl | rfl | rfl | rfl | rfl
  · exact Json.spells_text _
  · exact hint t.column (by simp [Token.numbers])
  · exact hint t.stop (by simp [Token.numbers])
  · exact spells_int? fun n hn => ht n (Or.inr hn)
  · exact spells_int? fun n hn => ht n (Or.inl (Or.inr hn))
  · exact hint t.line (by simp [Token.numbers])
  · exact spells_text? t.sourceFile
  · exact hint t.start (by simp [Token.numbers])
  · exact Json.spells_text t.value

theorem spells_token (indent : Indent) (level : Nat) {t : Token}
    (ht : ∀ n ∈ t.numbers, digitCount n ≤ limit) :
    Spells limit (depth + 1) (Json.write indent level (ofToken t).toJson) (ofToken t).sorted := by
  have hspells : ∀ f ∈ (ofToken t).sortedFields.map (Json.Field.ofValue indent (level + 1)),
      Spells limit depth f.text f.value := by
    intro f hf
    obtain ⟨p, hp, rfl⟩ := List.mem_map.mp hf
    exact spells_field ht hp
  have hpairs : ((ofToken t).sortedFields.map (Json.Field.ofValue indent (level + 1))).map
      Json.Field.pair = (ofToken t).sortedFields.map fun p => (Text.ofString p.1, p.2) :=
    List.map_map
  have hkeys : (((ofToken t).sortedFields.map fun p => (Text.ofString p.1, p.2)).map
      Prod.fst).Nodup := by
    simp [sortedFields, Text.ofString_inj]
  rw [write_toJson, sorted, ← hpairs]
  exact Json.spells_object hspells (hpairs ▸ hkeys) indent level

/-! ### Lists of tokens -/

theorem ofItems_sorted (tokens : List StoredToken) : ofItems (tokens.map sorted) = .ok tokens := by
  induction tokens with
  | nil => rfl
  | cons t tokens ih =>
    rw [List.map_cons, ofItems, ofJson_sorted, ih]
    rfl

/-- The written form of a token in a list, and what it is read as. -/
def listed (indent : Indent) (t : Token) : List Char × Json :=
  (Json.write indent 1 (ofToken t).toJson, (ofToken t).sorted)

/-- The text of tokens is an array of objects, so that it is read where there is room for two. -/
theorem read_render (hdepth : 2 ≤ depth) (indent : Indent)
    (htokens : ∀ t ∈ tokens, ∀ n ∈ t.numbers, digitCount n ≤ maxIntegerDigits) :
    read depth (Json.render indent (.array ((tokens.map ofToken).map toJson))) =
      .ok (tokens.map ofToken) := by
  obtain ⟨depth, rfl⟩ := Nat.exists_eq_add_of_le' hdepth
  have hspells : ∀ p ∈ tokens.map (listed indent),
      Spells maxIntegerDigits (depth + 1) p.1 p.2 := by
    intro p hp
    obtain ⟨t, ht, rfl⟩ := List.mem_map.mp hp
    exact spells_token indent 1 (htokens t ht)
  have hparse := (Json.spells_array hspells indent 0).parse_eq
  have htext : Json.render indent (.array ((tokens.map ofToken).map toJson)) =
      String.ofList
        (Json.enclose indent 0 '[' ']' ((tokens.map (listed indent)).map Prod.fst)) := by
    rw [Json.render, Json.write, Json.writeItems_eq_map, List.map_map, List.map_map, List.map_map]
    rfl
  have hvalues : (tokens.map (listed indent)).map Prod.snd = (tokens.map ofToken).map sorted := by
    rw [List.map_map, List.map_map]
    rfl
  rw [read, htext, hparse, hvalues]
  exact ofItems_sorted (tokens.map ofToken)

theorem hasLongInteger_toJson (t : Token) :
    (ofToken t).toJson.hasLongInteger = t.numbers.any fun n => maxIntegerDigits < digitCount n := by
  obtain ⟨_, _, _, _, _, _, endLine, endColumn, sourceFile⟩ := t
  cases endLine <;> cases endColumn <;> cases sourceFile <;>
    simp [toJson, ofToken, ofInt?, ofText?, Json.hasLongInteger, Json.hasLongField, Token.numbers]

theorem write_eq_ok_iff {text : String} :
    write indent (tokens.map ofToken) = .ok text ↔
      indent.fits = true ∧ (∀ t ∈ tokens, ∀ n ∈ t.numbers, digitCount n ≤ maxIntegerDigits) ∧
        text = Json.render indent (.array ((tokens.map ofToken).map toJson)) := by
  rw [write, Json.render?_eq_ok_iff, Json.hasLongInteger, Json.hasLongItem_eq_any]
  simp [hasLongInteger_toJson]

/-! ### Round trips -/

theorem ofToken_inj {s t : Token} (h : ofToken s = ofToken t) : s = t := by
  have hint : ∀ {m n : Option Int}, ofInt? m = ofInt? n → m = n := by
    intro m n hmn
    cases m <;> cases n <;> simp_all [ofInt?]
  have htext : ∀ {a b : Option String}, ofText? a = ofText? b → a = b := by
    intro a b hab
    cases a <;> cases b <;> simp_all [ofText?, Text.ofString_inj]
  cases s
  cases t
  simp only [ofToken, StoredToken.mk.injEq, Json.text.injEq, Json.int.injEq,
    Text.ofString_inj] at h
  obtain ⟨rfl, rfl, rfl, rfl, rfl, rfl, hendLine, hendColumn, hfile⟩ := h
  rw [hint hendLine, hint hendColumn, htext hfile]

/-- The tokens are written, and they are the only ones whose stored form is read from the text. -/
def Restored (depth : Nat) (indent : Indent) (tokens : List Token) : Prop :=
  ∃ text, write indent (tokens.map ofToken) = .ok text ∧
    ∀ back : List Token, read depth text = .ok (back.map ofToken) ↔ back = tokens

theorem Restored.bounds (h : Restored depth indent tokens) :
    indent.fits = true ∧ ∀ t ∈ tokens, ∀ n ∈ t.numbers, digitCount n ≤ maxIntegerDigits := by
  obtain ⟨text, hwrite, -⟩ := h
  exact ⟨(write_eq_ok_iff.mp hwrite).1, (write_eq_ok_iff.mp hwrite).2.1⟩

theorem restored_iff (hdepth : 2 ≤ depth) (indent : Indent) (tokens : List Token) :
    Restored depth indent tokens ↔
      indent.fits = true ∧ ∀ t ∈ tokens, ∀ n ∈ t.numbers, digitCount n ≤ maxIntegerDigits := by
  refine ⟨Restored.bounds, fun ⟨hindent, htokens⟩ => ?_⟩
  refine ⟨_, write_eq_ok_iff.mpr ⟨hindent, htokens, rfl⟩, fun back => ?_⟩
  rw [read_render hdepth indent htokens, Except.ok.injEq, eq_comm]
  exact List.map_inj_right fun _ _ => ofToken_inj

theorem write_of_not_fits (h : indent.fits = false) (tokens : List StoredToken) :
    write indent tokens = .error .wideIndent := by
  rw [write, Json.render?, h]
  rfl

theorem write_of_long (hindent : indent.fits = true)
    (h : ∃ t ∈ tokens, ∃ n ∈ t.numbers, maxIntegerDigits < digitCount n) :
    write indent (tokens.map ofToken) = .error .longInteger := by
  have hlong : (Json.array ((tokens.map ofToken).map toJson)).hasLongInteger = true := by
    rw [Json.hasLongInteger, Json.hasLongItem_eq_any]
    simpa [hasLongInteger_toJson] using h
  rw [write, Json.render?, hindent, hlong]
  rfl

theorem numbers_tokenize {config : Config} {source : String} {sourceFile : Option String}
    {t : Token} (ht : t ∈ Lexer.tokenize config source sourceFile) :
    ∀ n ∈ t.numbers, 0 ≤ n ∧ n ≤ source.length + 1 := by
  obtain ⟨s, hs, rfl⟩ := List.mem_map.mp ht
  have hrange := Markup.lexed_range hs
  have hproper := (Markup.lexed_tidy config source).proper s hs
  have hstart := LineIndex.position_ofText_le source.toList s.start
  have hstop := LineIndex.position_ofText_le source.toList s.stop
  rw [String.length_toList] at hstart hstop
  intro n hn
  simp only [Token.numbers, Token.ofSpan, Option.toList_some, List.cons_append, List.nil_append,
    List.mem_cons, List.not_mem_nil, or_false] at hn
  omega

/-- Where there is room for two levels, tokens are written and read back exactly when the
indentation is a word and no number of theirs is too long; those of a source are, unless its length
is. Beyond these bounds they are not written: the indentation is refused first, whatever the tokens
are, and then an integer that is too long. -/
theorem read_write (hdepth : 2 ≤ depth) (indent : Indent) :
    (∀ tokens : List Token,
      (Restored depth indent tokens ↔
        indent.fits = true ∧ ∀ t ∈ tokens, ∀ n ∈ t.numbers, digitCount n ≤ maxIntegerDigits) ∧
      (indent.fits = false → write indent (tokens.map ofToken) = .error .wideIndent) ∧
      (indent.fits = true → (∃ t ∈ tokens, ∃ n ∈ t.numbers, maxIntegerDigits < digitCount n) →
        write indent (tokens.map ofToken) = .error .longInteger)) ∧
    ∀ (config : Config) (source : String) (sourceFile : Option String),
      indent.fits = true → digitCount (source.length + 1) ≤ maxIntegerDigits →
        Restored depth indent (Lexer.tokenize config source sourceFile) := by
  refine ⟨fun tokens => ?_, fun config source sourceFile hindent hsource => ?_⟩
  · exact ⟨restored_iff hdepth indent tokens, fun h => write_of_not_fits h _, write_of_long⟩
  · refine (restored_iff hdepth indent _).mpr ⟨hindent, fun t ht n hn => ?_⟩
    have hrange := numbers_tokenize ht n hn
    rw [Json.digitCount_le_iff] at hsource ⊢
    omega

theorem read_write_quoted :
    Restored 2 (some 2) (Lexer.tokenize .standard "char *s = \"\\t\";\n" (some "a.c")) :=
  (read_write (Nat.le_refl 2) (some 2)).2 .standard _ _ (by decide) (by decide)

/-- An indentation beyond a word is refused even for no tokens, and so is an integer that is too
long, however deep the reader goes. -/
theorem not_restored :
    (∀ depth, ¬ Restored depth (some (10 ^ 30)) []) ∧
      ∀ depth, ¬ Restored depth none
        [⟨.keyword, "int", 10 ^ 4300, 3, 1, 1, some 1, some 4, none⟩] := by
  constructor
  · intro depth h
    exact absurd h.bounds.1 (by decide)
  · intro depth h
    have hlong := h.bounds.2 _ List.mem_cons_self (10 ^ 4300) List.mem_cons_self
    exact Json.not_digitCount_pow_le (k := 4300) (Nat.le_refl _) hlong

end StoredToken

end Lexeme
