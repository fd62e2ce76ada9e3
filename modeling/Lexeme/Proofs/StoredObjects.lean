import Lexeme.Proofs.Json.Soundness
import Lexeme.Proofs.Storage
import Mathlib.Data.List.Forall2

/-! Which values are stored tokens. Nothing is asked of the fields of an object but that the
required ones are there and that the category is the name of one; a text or an array can pass for
an object only until a field is taken from it. Main statement: a text is read as tokens exactly if
it is a document of such objects within the bounds of the reader, each token has the fields of its
object, and otherwise the first item that is none decides the fault. -/

namespace Lexeme.StoredToken

open Json (Spells Document)

variable {v : Json} {t : StoredToken} {items : List Json} {tokens : List StoredToken} {f : Fault}
  {fields : List (Text × Json)} {text : String} {depth : Nat}

/-! ### One value -/

/-- The fields of a stored token in the order in which they are written. -/
def known : List String := required ++ ["end_lineno", "end_col", "source_file"]

/-- The fields of an object under the given names; one that is absent is null. -/
def restrict (names : List String) (fields : List (Text × Json)) : List (Text × Json) :=
  names.map fun name => (Text.ofString name, (Json.field? fields name).getD .null)

/-- An object with the required fields whose category is the name of one. -/
def IsStored (v : Json) : Prop :=
  ∃ fields, v = .object fields ∧
    (∀ name ∈ required, (Json.field? fields (.ofString name)).isSome = true) ∧
    ∃ c : Category, Json.field? fields "category" = some (.text c.name)

/-- A value with the required fields whose fields are those of the token. -/
def Stores (v : Json) (t : StoredToken) : Prop :=
  ∃ fields, v = .object fields ∧
    (∀ name ∈ required, (Json.field? fields (.ofString name)).isSome = true) ∧
    t.toJson = .object (restrict known fields)

theorem ofName?_eq_some_iff {s : String} {c : Category} :
    Category.ofName? s = some c ↔ s = c.name := by
  constructor
  · intro h
    have hname := List.find?_some h
    exact (beq_iff_eq.mp hname).symm
  · rintro rfl
    exact Category.ofName?_name c

theorem readCategory_eq_ok_iff {c : Category} :
    readCategory v = .ok c ↔ v = .text c.name := by
  cases v with
  | text s =>
    rw [readCategory]
    cases hs : s.string?.bind Category.ofName? with
    | none =>
      simp only [reduceCtorEq, false_iff, Json.text.injEq]
      rintro rfl
      simp at hs
    | some d =>
      obtain ⟨name, hname, hd⟩ := Option.bind_eq_some_iff.mp hs
      rw [Text.string?_eq_some_iff] at hname
      rw [ofName?_eq_some_iff] at hd
      simp only [Except.ok.injEq, Json.text.injEq, hname, Text.ofString_inj, hd]
      refine ⟨fun h => h ▸ rfl, fun h => ?_⟩
      have hback := congrArg Category.ofName? h
      simpa using hback
  | _ => simp [readCategory]

theorem ofFields_eq_ok_iff :
    ofFields fields = .ok t ↔ t.toJson = .object (restrict known fields) := by
  obtain ⟨c, value, start, stop, line, column, endLine, endColumn, sourceFile⟩ := t
  have hcategory := readCategory_eq_ok_iff (c := c)
    (v := (Json.field? fields "category").getD .null)
  simp only [toJson, restrict, known, required, List.cons_append, List.nil_append, List.map_cons,
    List.map_nil, Json.object.injEq, List.cons.injEq, Prod.mk.injEq, true_and, and_true]
  rw [ofFields, eq_comm (a := Json.text _), ← hcategory]
  cases readCategory ((Json.field? fields "category").getD .null) with
  | error f => simp [Except.map]
  | ok d => simp [Except.map, eq_comm]

/-- A value that is no object is no token, whatever is found in it. -/
theorem ofJson_eq_ok_iff : ofJson v = .ok t ↔ Stores v t := by
  unfold Stores
  cases v with
  | object fields =>
    have habsent :
        (required.filter fun name => !(Json.field? fields (.ofString name)).isSome).isEmpty = true ↔
          ∀ name ∈ required, (Json.field? fields (.ofString name)).isSome = true := by
      rw [List.isEmpty_iff, List.filter_eq_nil_iff]
      simp only [Bool.not_eq_true', Bool.not_eq_false]
    simp only [ofJson, finds, Json.object.injEq, exists_eq_left', ← ofFields_eq_ok_iff]
    rw [← habsent]
    split
    · exact ⟨fun h => ⟨‹_›, h⟩, And.right⟩
    · rename_i hmissing
      simp only [reduceCtorEq, false_iff, not_and]
      exact fun h => absurd h hmissing
  | text s =>
    simp only [ofJson, finds]
    split <;> simp
  | array items =>
    simp only [ofJson, finds]
    split <;> simp
  | _ => simp [ofJson, finds]

theorem isStored_iff : IsStored v ↔ ∃ t, Stores v t := by
  constructor
  · rintro ⟨fields, rfl, hrequired, c, hc⟩
    have hread : readCategory ((Json.field? fields "category").getD .null) = .ok c := by
      rw [hc, readCategory_eq_ok_iff]
      rfl
    have hok : ∃ t, ofFields fields = .ok t := by
      rw [ofFields]
      dsimp only
      rw [hread]
      exact ⟨_, rfl⟩
    obtain ⟨t, ht⟩ := hok
    exact ⟨t, fields, rfl, hrequired, ofFields_eq_ok_iff.mp ht⟩
  · rintro ⟨t, fields, rfl, hrequired, ht⟩
    refine ⟨fields, rfl, hrequired, t.category, ?_⟩
    have hsome := hrequired "category" (by decide)
    simp only [toJson, restrict, known, required, List.cons_append, List.map_cons,
      Json.object.injEq, List.cons.injEq, Prod.mk.injEq] at ht
    obtain ⟨w, hw⟩ := Option.isSome_iff_exists.mp hsome
    have hcategory : Json.text t.category.name = w := by
      rw [ht.1.2, hw]
      rfl
    rw [hcategory]
    exact hw

/-! ### Lists of values -/

theorem ofItems_cons_eq_ok_iff : ofItems (v :: items) = .ok tokens ↔
    ∃ t rest, ofJson v = .ok t ∧ ofItems items = .ok rest ∧ tokens = t :: rest := by
  rw [ofItems]
  cases ofJson v <;> cases ofItems items <;> simp [Except.map, eq_comm]

theorem ofItems_cons_eq_error_iff : ofItems (v :: items) = .error f ↔
    ofJson v = .error f ∨ (∃ t, ofJson v = .ok t) ∧ ofItems items = .error f := by
  rw [ofItems]
  cases ofJson v <;> cases ofItems items <;> simp [Except.map]

theorem ofItems_eq_ok_iff : ofItems items = .ok tokens ↔ List.Forall₂ Stores items tokens := by
  induction items generalizing tokens with
  | nil => cases tokens <;> simp [ofItems]
  | cons v items ih =>
    rw [ofItems_cons_eq_ok_iff, List.forall₂_cons_left_iff]
    simp only [ofJson_eq_ok_iff, ih]

/-- The first value that is no token decides the fault. -/
theorem ofItems_eq_error_iff : ofItems items = .error f ↔
    ∃ before v after, items = before ++ v :: after ∧ (∀ u ∈ before, IsStored u) ∧
      ofJson v = .error f := by
  induction items with
  | nil => simp [ofItems]
  | cons w items ih =>
    have hstored : (∃ t, ofJson w = .ok t) ↔ IsStored w := by
      simp only [ofJson_eq_ok_iff, isStored_iff]
    rw [ofItems_cons_eq_error_iff, ih, hstored]
    constructor
    · rintro (hw | ⟨hw, before, v, after, rfl, hbefore, hv⟩)
      · exact ⟨[], w, items, rfl, List.forall_mem_nil _, hw⟩
      · exact ⟨w :: before, v, after, rfl, List.forall_mem_cons.mpr ⟨hw, hbefore⟩, hv⟩
    · rintro ⟨_ | ⟨u, before⟩, v, after, heq, hbefore, hv⟩
      · obtain ⟨rfl, -⟩ := List.cons.inj heq
        exact .inl hv
      · obtain ⟨rfl, rfl⟩ := List.cons.inj heq
        obtain ⟨hw, hbefore⟩ := List.forall_mem_cons.mp hbefore
        exact .inr ⟨hw, before, v, after, rfl, hbefore, hv⟩

/-- All values are stored tokens, or there are no tokens. -/
theorem exists_forall₂_stores_iff :
    (∃ tokens, List.Forall₂ Stores items tokens) ↔ ∀ v ∈ items, IsStored v := by
  induction items with
  | nil => simp
  | cons v items ih =>
    rw [List.forall_mem_cons, ← ih, isStored_iff]
    constructor
    · rintro ⟨tokens, h⟩
      obtain ⟨t, rest, hv, hrest, rfl⟩ := List.forall₂_cons_left_iff.mp h
      exact ⟨⟨t, hv⟩, rest, hrest⟩
    · rintro ⟨⟨t, hv⟩, rest, hrest⟩
      exact ⟨t :: rest, .cons hv hrest⟩

/-! ### Texts -/

theorem read_eq_ok_iff : read depth text = .ok tokens ↔
    ∃ items, Json.parse depth text = .ok (.array items) ∧ ofItems items = .ok tokens := by
  rw [read]
  split <;> simp_all

theorem read_eq_of_parse (h : Json.parse depth text = .ok (.array items)) :
    read depth text = ofItems items := by
  rw [read, h]

/-- A text is read as tokens exactly if it is a document of stored tokens, within the bounds of the
reader, and the tokens have the fields of their objects. In a document of other values the first one
that is no stored token decides the fault. -/
theorem read_document (depth : Nat) (text : String) :
    (∀ tokens, read depth text = .ok tokens ↔
      ∃ items, Document Json.maxIntegerDigits depth text (.array items) ∧
        List.Forall₂ Stores items tokens) ∧
    ((∃ tokens, read depth text = .ok tokens) ↔
      ∃ items, Document Json.maxIntegerDigits depth text (.array items) ∧
        ∀ v ∈ items, IsStored v) ∧
    ∀ items, Document Json.maxIntegerDigits depth text (.array items) →
      ∀ f, read depth text = .error f ↔
        ∃ before v after, items = before ++ v :: after ∧ (∀ u ∈ before, IsStored u) ∧
          ofJson v = .error f := by
  have hread : ∀ tokens, read depth text = .ok tokens ↔
      ∃ items, Document Json.maxIntegerDigits depth text (.array items) ∧
        List.Forall₂ Stores items tokens := by
    intro tokens
    simp only [read_eq_ok_iff, Json.parse_eq_ok_iff, ofItems_eq_ok_iff]
  refine ⟨hread, ?_, fun items hitems f => ?_⟩
  · simp only [hread, ← exists_forall₂_stores_iff]
    rw [exists_comm]
    simp only [exists_and_left]
  · rw [read_eq_of_parse (Json.parse_eq_ok_iff.mpr hitems), ofItems_eq_error_iff]

/-- A number behind a token: the token is one, and the number decides. -/
theorem read_document_number :
    let text := "[\x7b\"category\":\"KEYWORD\",\"value\":\"int\",\"start\":0,\"end\":3," ++
      "\"lineno\":1,\"col\":1\x7d,7]"
    let fields : List (Text × Json) := [("category", .text "KEYWORD"), ("value", .text "int"),
      ("start", .int 0), ("end", .int 3), ("lineno", .int 1), ("col", .int 1)]
    Document Json.maxIntegerDigits 2 text (.array [.object fields, .int 7]) ∧
      read 2 text = .error .wrongType := by
  intro text fields
  have hdocument : Document Json.maxIntegerDigits 2 text (.array [.object fields, .int 7]) :=
    Json.document_of_parse (by decide +kernel)
  refine ⟨hdocument,
    ((read_document 2 text).2.2 _ hdocument _).mpr ⟨[_], .int 7, [], rfl, ?_, rfl⟩⟩
  exact List.forall_mem_singleton.mpr ⟨_, rfl, by decide, .keyword, rfl⟩

/-! ### Beyond the bounds -/

def annotatedToken : StoredToken := ofToken ⟨.keyword, "int", 0, 3, 1, 1, none, none, none⟩

/-- The fields of a token, with a note before them. -/
def annotatedFields (note : List Char) (v : Json) : List Json.Field :=
  ⟨"note", note, v⟩ ::
    annotatedToken.sortedFields.map (Json.Field.ofValue none 2)

/-- The text of a list of one token whose object has a note as well. -/
def annotated (note : List Char) : String :=
  String.ofList (Json.enclose none 0 '[' ']'
    [Json.enclose none 1 '\x7b' '\x7d' ((annotatedFields note .null).map Json.Field.written)])

/-- Arrays inside each other. -/
def nested (depth : Nat) : List Char := List.replicate depth '[' ++ List.replicate depth ']'

theorem nested_succ (depth : Nat) : nested (depth + 1) = '[' :: (nested depth ++ [']']) := by
  rw [nested, nested, List.replicate_succ, List.replicate_succ' (a := ']')]
  simp

theorem whole_ones (n : Nat) : Json.Whole (List.replicate (n + 1) '1') := by
  refine ⟨⟨by simp, fun d hd => ?_⟩, by simp [List.replicate_succ]⟩
  rw [List.eq_of_mem_replicate hd]
  rfl

theorem exists_spells_ones (depth n : Nat) :
    ∃ v, Spells (n + 1) depth (List.replicate (n + 1) '1') v := by
  have hnumber : Json.Magnitude (n + 1) false (List.replicate (n + 1) '1') _ :=
    .int (whole_ones n) (by simp)
  exact ⟨_, .number false hnumber⟩

theorem exists_spells_nested (limit depth : Nat) :
    ∃ v, Spells limit (depth + 1) (nested (depth + 1)) v := by
  induction depth with
  | zero => exact ⟨_, .emptyArray Json.blank_nil⟩
  | succ depth ih =>
    obtain ⟨v, h⟩ := ih
    let e : Json.Element := ⟨[], nested (depth + 1), [], v, Json.blank_nil⟩
    have harray := @Spells.array limit (depth + 1) e [] (List.forall_mem_singleton.mpr h)
    exact ⟨.array [v], by simpa [nested_succ (depth + 1), e, Json.Element.written] using harray⟩

theorem exists_document_annotated {limit depth : Nat} {note : List Char} {v : Json}
    (hlimit : 1 ≤ limit) (h : Spells limit depth note v) :
    ∃ items, Document limit (depth + 2) (annotated note) (.array items) ∧
      ∀ u ∈ items, IsStored u := by
  have hfields : ∀ f ∈ annotatedFields note v, Spells limit depth f.text f.value := by
    refine List.forall_mem_cons.mpr ⟨h, fun f hf => ?_⟩
    obtain ⟨p, hp, rfl⟩ := List.mem_map.mp hf
    refine spells_field (fun n hn => le_trans ?_ hlimit) hp
    have hdigits : ∀ n ∈ [(0 : Int), 3, 1, 1], Json.digitCount n ≤ 1 := by decide
    exact hdigits n hn
  have hkeys : (((annotatedFields note v).map Json.Field.pair).map Prod.fst).Nodup := by
    simp [annotatedFields, Json.Field.pair, Json.Field.ofValue, sortedFields, Text.ofString_inj]
  have hobject := Json.spells_object hfields hkeys none 1
  have hitem : ∀ p ∈ [(_, _)], Spells limit (depth + 1) p.1 p.2 :=
    List.forall_mem_singleton.mpr hobject
  have harray := Json.spells_array hitem none 0
  refine ⟨_, ⟨⟨[], _, [], _, Json.blank_nil⟩, ?_, rfl, harray⟩, ?_⟩
  · rw [annotated, String.toList_ofList]
    exact (List.append_nil _).symm
  · have hlookup : ∀ key : String,
        Json.field? ((annotatedFields note v).map Json.Field.pair) (Text.ofString key) =
          (("note", v) :: annotatedToken.sortedFields).lookup key :=
      Json.field?_strings (("note", v) :: annotatedToken.sortedFields)
    refine List.forall_mem_singleton.mpr ⟨_, rfl, fun name hname => ?_, .keyword, ?_⟩
    · simp only [required, List.mem_cons, List.not_mem_nil, or_false] at hname
      rw [hlookup]
      rcases hname with rfl | rfl | rfl | rfl | rfl | rfl <;> rfl
    · exact hlookup "category"

theorem exists_enclose (level : Nat) (opening closing : Char) (p q : List Char)
    (parts : List (List Char)) : ∃ tail,
      Json.enclose none level opening closing (p :: q :: parts) =
        opening :: (p ++ ',' :: tail) := by
  refine ⟨' ' :: ((Json.separator none (level + 1)).intercalate (q :: parts) ++ [closing]), ?_⟩
  simp [Json.enclose, Json.lineBreak, Json.separator, List.intercalate]

/-- What stands before the note. -/
def beforeNote : List Char := ['[', '\x7b', '"', 'n', 'o', 't', 'e', '"', ':', ' ']

theorem exists_annotated (note : List Char) :
    ∃ tail, (annotated note).toList = beforeNote ++ (note ++ ',' :: tail) := by
  have hkey : Json.writeText "note" = ['"', 'n', 'o', 't', 'e', '"'] := by decide +kernel
  obtain ⟨q, parts, hparts⟩ : ∃ q parts,
      (annotatedToken.sortedFields.map (Json.Field.ofValue none 2)).map Json.Field.written =
        q :: parts := ⟨_, _, rfl⟩
  have hfields : (annotatedFields note .null).map Json.Field.written =
      (Json.writeText "note" ++ [':', ' '] ++ note) :: q :: parts := by
    rw [annotatedFields, List.map_cons, hparts]
    rfl
  obtain ⟨tail, htail⟩ := exists_enclose 1 '\x7b' '\x7d'
    (Json.writeText "note" ++ [':', ' '] ++ note) q parts
  refine ⟨tail ++ [']'], ?_⟩
  rw [annotated, String.toList_ofList, hfields, htail, hkey]
  simp [Json.enclose, Json.lineBreak, List.intercalate, beforeNote]

/-- A fault of the value behind the key is a fault of the object. -/
theorem readFields_beforeNote {fuel : Nat} {cs : List Char} {e : Json.Fault}
    (hcs : ∀ c ∈ cs.head?, Json.isBlank c = false)
    (h : ∀ offset, Json.readValue (fuel + 1) depth ⟨offset, cs⟩ = .error e) (offset : Nat) :
    Json.readFields (fuel + 2) depth [] ⟨offset, beforeNote.drop 2 ++ cs⟩ = .error e := by
  have hkey : Json.readText offset ('n' :: 'o' :: 't' :: 'e' :: '"' :: ':' :: ' ' :: cs) =
      .ok ("note", ⟨offset + 6, ':' :: ' ' :: cs⟩) := by
    simp [Json.readText, Json.readPoints, Json.consPoint, Except.map]
    rfl
  have hcolon : Json.Cursor.skip ⟨offset + 6, ':' :: ' ' :: cs⟩ =
      ⟨offset + 6, ':' :: ' ' :: cs⟩ := rfl
  have hblank : Json.Blank [' '] := by simp [Json.Blank, Json.isBlank]
  have hspace : Json.skipBlank (offset + 6 + 1) (' ' :: cs) = ⟨offset + 6 + 1 + 1, cs⟩ :=
    hblank.skipBlank_append hcs
  rw [beforeNote, Json.readFields]
  simp only [List.drop, List.cons_append, List.nil_append, hkey, hcolon, hspace, h]

/-- A fault of the note is a fault of the list, where there is room to reach the note. -/
theorem readValue_beforeNote {fuel : Nat} {cs : List Char} {e : Json.Fault}
    (hcs : ∀ c ∈ cs.head?, Json.isBlank c = false)
    (h : ∀ offset, Json.readValue (fuel + 1) depth ⟨offset, cs⟩ = .error e) :
    Json.readValue (fuel + 5) (depth + 2) ⟨0, beforeNote ++ cs⟩ = .error e := by
  have hobject (offset : Nat) :
      Json.readValue (fuel + 3) (depth + 1) ⟨offset, beforeNote.drop 1 ++ cs⟩ = .error e :=
    (Json.readValue_object Json.blank_nil).trans
      (congrArg (Except.map _) (readFields_beforeNote hcs h _))
  have hhead : ∀ d ∈ (beforeNote.drop 1 ++ cs).head?, Json.isBlank d = false ∧ d ≠ ']' := by
    simp [beforeNote, Json.isBlank]
  refine (Json.readValue_array Json.blank_nil hhead).trans ?_
  rw [Json.readItems, hobject]
  rfl

theorem parse_annotated {note : List Char} {e : Json.Fault}
    (hnote : ∀ rest, ∀ c ∈ (note ++ ',' :: rest).head?, Json.isBlank c = false)
    (h : ∀ fuel offset rest, 2 * note.length ≤ fuel →
      Json.readValue (fuel + 1) depth ⟨offset, note ++ ',' :: rest⟩ = .error e) :
    Json.parse (depth + 2) (annotated note) = .error e := by
  obtain ⟨tail, htext⟩ := exists_annotated note
  have hlength : (annotated note).toList.length = 10 + note.length + (tail.length + 1) := by
    simp only [htext, beforeNote, List.length_append, List.length_cons, List.length_nil]
    omega
  obtain ⟨fuel, hfuel⟩ : ∃ fuel, 2 * (annotated note).toList.length + 2 = fuel + 5 :=
    Nat.exists_eq_add_of_le' (by omega)
  have hread : Json.readValue (fuel + 5) (depth + 2) ⟨0, beforeNote ++ (note ++ ',' :: tail)⟩ =
      .error e :=
    readValue_beforeNote (hnote tail) fun offset => h fuel offset tail (by omega)
  have hstart : Json.skipBlank 0 (beforeNote ++ (note ++ ',' :: tail)) =
      ⟨0, beforeNote ++ (note ++ ',' :: tail)⟩ := rfl
  rw [Json.parse]
  split
  · next hmark =>
    rw [htext] at hmark
    cases hmark
  · rw [hfuel, htext, hstart, hread]

theorem readValue_nested (depth : Nat) {fuel : Nat} (hfuel : 2 * depth ≤ fuel) (offset : Nat)
    (rest : List Char) :
    Json.readValue (fuel + 1) depth ⟨offset, nested (depth + 1) ++ rest⟩ = .error .tooDeep := by
  induction depth generalizing fuel offset rest with
  | zero => rfl
  | succ depth ih =>
    obtain ⟨fuel, rfl⟩ : ∃ n, fuel = n + 2 := Nat.exists_eq_add_of_le' (by omega)
    have hnested : nested (depth + 2) ++ rest =
        '[' :: ([] ++ (nested (depth + 1) ++ ']' :: rest)) := by
      rw [nested_succ]
      simp
    have hhead : ∀ c ∈ (nested (depth + 1) ++ ']' :: rest).head?,
        Json.isBlank c = false ∧ c ≠ ']' := by
      simp [nested, List.replicate_succ, Json.isBlank]
    rw [hnested, Json.readValue_array Json.blank_nil hhead, Json.readItems, ih (by omega)]
    rfl

theorem readValue_ones {n : Nat} (hn : Json.maxIntegerDigits ≤ n) (fuel offset : Nat)
    (rest : List Char) :
    Json.readValue (fuel + 1) depth ⟨offset, List.replicate (n + 1) '1' ++ ',' :: rest⟩ =
      .error (.longInteger (n + 1)) := by
  have hdelimited : Json.Delimited (',' :: rest) := Json.delimited_cons (by decide) rest
  have hlong : Json.maxIntegerDigits < (List.replicate (n + 1) '1').length := by
    simpa using Nat.lt_succ_of_le hn
  have hscalar := (whole_ones n).readScalar_long hlong hdelimited offset
  rw [List.length_replicate, List.replicate_succ, List.cons_append] at hscalar
  rw [← hscalar, List.replicate_succ, List.cons_append, Json.readValue_scalar (by decide)]

theorem parse_annotated_ones {n : Nat} (hn : Json.maxIntegerDigits ≤ n) :
    Json.parse (depth + 2) (annotated (List.replicate (n + 1) '1')) =
      .error (.longInteger (n + 1)) :=
  parse_annotated (by simp [List.replicate_succ, Json.isBlank]) fun fuel offset rest _ =>
    readValue_ones hn fuel offset rest

theorem parse_annotated_nested (depth : Nat) :
    Json.parse (depth + 2) (annotated (nested (depth + 1))) = .error .tooDeep := by
  refine parse_annotated (by simp [nested_succ, Json.isBlank]) fun fuel offset rest hfuel => ?_
  have hlength : (nested (depth + 1)).length = 2 * (depth + 1) := by
    rw [nested, List.length_append, List.length_replicate, List.length_replicate]
    omega
  exact readValue_nested depth (by omega) offset _

/-- A document of stored tokens, within some bounds, that is not read as tokens. -/
def Refused (depth : Nat) (text : String) : Prop :=
  (∃ limit room items, Document limit room text (.array items) ∧ ∀ v ∈ items, IsStored v) ∧
    ∀ tokens, read depth text ≠ .ok tokens

/-- What is not read with more room is not read. -/
theorem refused_of_parse {limit room : Nat} {note : List Char} {v : Json} {e : Json.Fault}
    (hlimit : 1 ≤ limit) (hnote : Spells limit room note v)
    (h : Json.parse (depth + 2) (annotated note) = .error e) : Refused depth (annotated note) := by
  obtain ⟨items, hitems⟩ := exists_document_annotated hlimit hnote
  refine ⟨⟨_, _, items, hitems⟩, fun tokens hread => ?_⟩
  obtain ⟨items, hparse, -⟩ := read_eq_ok_iff.mp hread
  have hmore := Json.parse_mono hparse (Nat.le_add_right depth 2)
  rw [h] at hmore
  cases hmore

/-- The bounds of the reader exclude documents of stored tokens: one with an integer that is too
long, and for each depth one with arrays that are deeper. -/
theorem refused_annotated :
    (∀ depth, Refused depth (annotated (List.replicate 4301 '1'))) ∧
      ∀ depth, Refused depth (annotated (nested (depth + 1))) := by
  constructor
  · intro depth
    obtain ⟨v, hv⟩ := exists_spells_ones 0 4300
    exact refused_of_parse (by decide) hv (parse_annotated_ones (Nat.le_refl _))
  · intro depth
    obtain ⟨v, hv⟩ := exists_spells_nested 1 depth
    exact refused_of_parse (by decide) hv (parse_annotated_nested depth)

end Lexeme.StoredToken
