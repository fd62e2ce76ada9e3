import Lexeme.Json.Writer
import Lexeme.Proofs.Json.Grammar

/-! What is written is spelled by the grammar: texts with their escapes, integers, and arrays and
objects laid out on one line or on several. -/

namespace Lexeme

namespace Digits

theorem hex_succ {width : Nat} (hwidth : 0 < width) (n : Nat) :
    hex (width + 1) n = hex width (n / 16) ++ [Nat.digitChar (n % 16)] := by
  rcases Nat.lt_or_ge n 16 with hn | hn
  · have hzeros : List.replicate width '0' = List.replicate (width - 1) '0' ++ ['0'] := by
      rw [← List.replicate_succ', Nat.sub_add_cancel hwidth]
    simp only [hex, Nat.div_eq_of_lt hn, Nat.mod_eq_of_lt hn, Nat.toDigits_of_lt_base hn,
      Nat.toDigits_zero, List.length_singleton, Nat.add_sub_cancel, hzeros]
  · simp only [hex, Nat.toDigits_of_base_le (b := 16) (by decide) hn, List.length_append,
      List.length_singleton, Nat.add_sub_add_right, List.append_assoc]

theorem hex_one {n : Nat} (hn : n < 16) : hex 1 n = [Nat.digitChar n] := by
  simp [hex, Nat.toDigits_of_lt_base hn]

theorem hex_four {n : Nat} (hn : n < 0x10000) :
    hex 4 n = [Nat.digitChar (n / 16 / 16 / 16), Nat.digitChar (n / 16 / 16 % 16),
      Nat.digitChar (n / 16 % 16), Nat.digitChar (n % 16)] := by
  rw [hex_succ (by decide), hex_succ (by decide), hex_succ (by decide), hex_one (by omega)]
  rfl

theorem hexValue?_digitChar {k : Nat} (hk : k < 16) : hexValue? (Nat.digitChar k) = some k := by
  have hall : ∀ k < 16, hexValue? (Nat.digitChar k) = some k := by decide
  exact hall k hk

end Digits

namespace Json

variable {limit depth : Nat} {indent : Indent} {cs : List Char} {ps : List CodePoint}

/-! ### Texts -/

theorem unitValue?_hex {n : Nat} (hn : n < 0x10000) :
    unitValue? (Nat.digitChar (n / 16 / 16 / 16)) (Nat.digitChar (n / 16 / 16 % 16))
      (Nat.digitChar (n / 16 % 16)) (Nat.digitChar (n % 16)) = some n := by
  have hvalue :
      ((n / 16 / 16 / 16 * 16 + n / 16 / 16 % 16) * 16 + n / 16 % 16) * 16 + n % 16 = n := by
    omega
  simp only [unitValue?, Digits.hexValue?_digitChar (show n / 16 / 16 / 16 < 16 by omega),
    Digits.hexValue?_digitChar (Nat.mod_lt _ (show 0 < 16 by decide)), Option.bind_eq_bind,
    Option.bind_some, Option.pure_def, hvalue]

/-- An escape of one unit that cannot be the first of a pair. -/
theorem Body.unitEscape {n : Nat} (hn : n < 0x10000) (hhigh : isHighUnit n = false)
    (h : Body cs ps) : Body (unitEscape n ++ cs) (.ofNat n :: ps) := by
  rw [Json.unitEscape, Digits.hex_four hn]
  exact .unit (unitValue?_hex hn) (by simp [hhigh]) h

/-- Two escapes whose units make up a pair. -/
theorem Body.unitEscapes {n m : Nat} (hn : isHighUnit n = true) (hm : isLowUnit m = true)
    (h : Body cs ps) :
    Body (Json.unitEscape n ++ (Json.unitEscape m ++ cs)) (.char (joinUnits n m) :: ps) := by
  have hnumbers := And.intro hn hm
  simp only [isHighUnit, isLowUnit, Bool.and_eq_true, decide_eq_true_eq] at hnumbers
  rw [Json.unitEscape, Json.unitEscape, Digits.hex_four (by omega), Digits.hex_four (by omega)]
  exact .pair (unitValue?_hex (by omega)) hn (unitValue?_hex (by omega)) hm h

/-- A character is no surrogate. -/
theorem ofNat_toNat (c : Char) : CodePoint.ofNat c.toNat = .char c := by
  have hvalid : c.toNat < 0xD800 ∨ 0xDFFF < c.toNat ∧ c.toNat < 0x110000 := c.valid
  rw [CodePoint.ofNat, dif_neg (by unfold CodePoint.surrogateBase; omega), Char.ofNat_toNat]

/-- The written form of a character stands for it. -/
theorem Body.escapeChar (c : Char) (h : Body cs ps) :
    Body (escapeChar c ++ cs) (.char c :: ps) := by
  have hvalid : c.toNat < 0xD800 ∨ 0xDFFF < c.toNat ∧ c.toNat < 0x110000 := c.valid
  unfold Json.escapeChar
  split
  iterate 7 exact .simple rfl h
  rename_i hquote hslash _ _ _ _ _
  by_cases hplain : 0x20 ≤ c.toNat ∧ c.toNat < 0x7F
  · rw [if_pos hplain]
    exact .plain hquote hslash hplain.1 h
  · rw [if_neg hplain]
    by_cases hunit : c.toNat < 0x10000
    · have hhigh : isHighUnit c.toNat = false := by
        simp only [isHighUnit, Bool.and_eq_false_iff, decide_eq_false_iff_not]
        omega
      rw [if_pos hunit, ← ofNat_toNat]
      exact h.unitEscape hunit hhigh
    · -- beyond the basic plane the two units are those of the character
      have hhigh : isHighUnit (0xD800 + (c.toNat - 0x10000) / 0x400) = true := by
        simp only [isHighUnit, Bool.and_eq_true, decide_eq_true_eq]
        omega
      have hlow : isLowUnit (0xDC00 + (c.toNat - 0x10000) % 0x400) = true := by
        simp only [isLowUnit, Bool.and_eq_true, decide_eq_true_eq]
        omega
      have hjoin : joinUnits (0xD800 + (c.toNat - 0x10000) / 0x400)
          (0xDC00 + (c.toNat - 0x10000) % 0x400) = c := by
        have hnumber : 0x10000 + (0xD800 + (c.toNat - 0x10000) / 0x400 - 0xD800) * 0x400 +
            (0xDC00 + (c.toNat - 0x10000) % 0x400 - 0xDC00) = c.toNat := by omega
        rw [joinUnits, hnumber, Char.ofNat_toNat]
      have hpair := h.unitEscapes hhigh hlow
      rw [if_neg hunit, List.append_assoc]
      rwa [hjoin] at hpair

theorem body_chars (cs : List Char) : Body (cs.flatMap escapeChar) (cs.map .char) := by
  induction cs with
  | nil => exact .nil
  | cons c cs ih => exact ih.escapeChar c

theorem writeText_eq (s : String) : writeText s = quote (s.toList.flatMap escapeChar) := by
  simp [writeText, quote, Text.ofString, List.flatMap_map, escapePoint]

theorem spells_text (s : String) : Spells limit depth (writeText s) (.text s) := by
  rw [writeText_eq]
  exact .text (body_chars s.toList)

/-! ### Numbers and words -/

theorem whole_toDigits (n : Nat) : Whole (Nat.toDigits 10 n) := by
  obtain ⟨d, ds, hds, -, hzero⟩ := Digits.exists_toDigits_cons n
  refine ⟨⟨by simp [hds], fun d hd => Nat.isDigit_of_mem_toDigits (by decide) (by decide) hd⟩,
    fun hhead => ?_⟩
  rw [hds, List.head?_cons, Option.some.injEq] at hhead
  rcases Nat.eq_zero_or_pos n with rfl | hn
  · rfl
  · exact absurd hhead (hzero hn)

theorem toList_toString (n : Int) :
    (toString n).toList = minus (decide (n < 0)) ++ Nat.toDigits 10 n.natAbs := by
  cases n with
  | ofNat m =>
    simp only [toString, Int.repr, Nat.repr_eq_ofList_toDigits, String.toList_ofList, minus]
    simp
  | negSucc m =>
    simp only [toString, Int.repr, Nat.repr_eq_ofList_toDigits, String.toList_ofList,
      String.toList_append, minus]
    simp

theorem spells_int {n : Int} (hn : digitCount n ≤ limit) :
    Spells limit depth (toString n).toList (.int n) := by
  have hnumber : Magnitude limit (decide (n < 0)) (Nat.toDigits 10 n.natAbs) _ :=
    .int (whole_toDigits n.natAbs) hn
  have hvalue : (if n < 0 then -(n.natAbs : Int) else n.natAbs) = n := by omega
  simp only [decide_eq_true_eq, Digits.value_toDigits, hvalue] at hnumber
  rw [toList_toString]
  exact .number _ hnumber

theorem spells_null : Spells limit depth "null".toList .null := .word List.mem_cons_self

/-! ### Layouts -/

theorem blank_lineBreak (indent : Indent) (depth : Nat) : Blank (lineBreak indent depth) := by
  intro b hb
  cases indent with
  | none => cases hb
  | some n =>
    rcases List.mem_cons.mp hb with rfl | hb
    · rfl
    · rw [(List.mem_replicate.mp hb).2]
      rfl

theorem separator_eq (indent : Indent) (depth : Nat) :
    ∃ bs, separator indent depth = ',' :: bs ∧ Blank bs := by
  cases indent with
  | none => exact ⟨[' '], rfl, by simp [Blank, isBlank]⟩
  | some n => exact ⟨_, rfl, blank_lineBreak (some n) depth⟩

section Enclose

variable {α β γ : Type} (text : α → List Char) (key : α → γ) (written : β → List Char)
  (content : β → γ)

/-- Parts that can take white space around them are listed as they are laid out. -/
theorem exists_listed_eq_intercalate
    (hpad : ∀ a before after, Blank before → Blank after →
      ∃ b, written b = before ++ (text a ++ after) ∧ content b = key a)
    {sep before after : List Char} (hsep : Blank sep) (hbefore : Blank before)
    (hafter : Blank after) (a : α) (as : List α) :
    ∃ b bs, before ++ ((',' :: sep).intercalate ((a :: as).map text) ++ after) =
        written b ++ listed (bs.map written) ∧
      (b :: bs).map content = (a :: as).map key := by
  induction as generalizing a before with
  | nil =>
    obtain ⟨b, hb, hcontent⟩ := hpad a before after hbefore hafter
    exact ⟨b, [], by simp [hb], by simp [hcontent]⟩
  | cons a' as ih =>
    obtain ⟨b, hb, hcontent⟩ := hpad a before [] hbefore blank_nil
    obtain ⟨b', bs, htail, hcontents⟩ := ih hsep a'
    have hstep : (',' :: sep).intercalate ((a :: a' :: as).map text) =
        text a ++ (',' :: sep) ++ (',' :: sep).intercalate ((a' :: as).map text) :=
      List.intercalate_cons_cons
    refine ⟨b, b' :: bs, ?_, ?_⟩
    · change _ = written b ++ ',' :: (written b' ++ listed (bs.map written))
      rw [hstep, ← htail, hb]
      simp
    · rw [List.map_cons, hcontents, hcontent, ← List.map_cons]

theorem exists_listed_eq_enclose
    (hpad : ∀ a before after, Blank before → Blank after →
      ∃ b, written b = before ++ (text a ++ after) ∧ content b = key a)
    (indent : Indent) (level : Nat) (opening closing : Char) (a : α) (as : List α) :
    ∃ b bs, enclose indent level opening closing ((a :: as).map text) =
        opening :: (written b ++ (listed (bs.map written) ++ [closing])) ∧
      (b :: bs).map content = (a :: as).map key := by
  obtain ⟨sep, hsep, hblank⟩ := separator_eq indent (level + 1)
  obtain ⟨b, bs, htext, hcontents⟩ := exists_listed_eq_intercalate text key written content hpad
    hblank (blank_lineBreak indent (level + 1)) (blank_lineBreak indent level) a as
  refine ⟨b, bs, ?_, hcontents⟩
  rw [← List.append_assoc, ← htext, enclose, hsep]
  simp

end Enclose

/-- Texts that spell values, laid out between brackets. -/
theorem spells_array {items : List (List Char × Json)}
    (hitems : ∀ p ∈ items, Spells limit depth p.1 p.2) (indent : Indent) (level : Nat) :
    Spells limit (depth + 1) (enclose indent level '[' ']' (items.map Prod.fst))
      (.array (items.map Prod.snd)) := by
  cases items with
  | nil => exact .emptyArray blank_nil
  | cons p items =>
    obtain ⟨e, es, htext, hcontents⟩ := exists_listed_eq_enclose Prod.fst id
      Element.written (fun e => (e.text, e.value))
      (fun p before after hbefore hafter =>
        ⟨⟨before, p.1, after, p.2, List.forall_mem_append.mpr ⟨hbefore, hafter⟩⟩, rfl, rfl⟩)
      indent level '[' ']' p items
    rw [List.map_id] at hcontents
    rw [htext, ← hcontents, List.map_map]
    refine .array fun f hf => hitems (f.text, f.value) ?_
    rw [← hcontents]
    exact List.mem_map_of_mem hf

/-- A field of an object, with the text that its value is read from. -/
structure Field where
  key : String
  text : List Char
  value : Json

namespace Field

def written (f : Field) : List Char := writeText f.key ++ [':', ' '] ++ f.text

def pair (f : Field) : Text × Json := (f.key, f.value)

/-- The field of a key whose value is laid out at a depth. -/
def ofValue (indent : Indent) (depth : Nat) (p : String × Json) : Field :=
  ⟨p.1, write indent depth p.2, p.2⟩

end Field

theorem Member.collect_eq_foldl (fields : List (Text × Json)) (ms : List Member) :
    collect fields ms = (ms.map fun m => (m.key, m.value)).foldl
      (fun fields p => Tally.set p.1 p.2 fields) fields := by
  rw [List.foldl_map]
  rfl

/-- Fields with new keys are added in their order. -/
theorem foldl_set_of_nodup (known pairs : List (Text × Json))
    (hkeys : ((known ++ pairs).map Prod.fst).Nodup) :
    pairs.foldl (fun fields p => Tally.set p.1 p.2 fields) known = known ++ pairs := by
  induction pairs generalizing known with
  | nil => simp
  | cons p pairs ih =>
    have hset : Tally.set p.1 p.2 known = known ++ [p] := by
      refine Tally.set_of_new p.2 fun hmem => ?_
      rw [List.map_append] at hkeys
      exact (List.nodup_append.mp hkeys).2.2 _ hmem _ List.mem_cons_self rfl
    rw [List.foldl_cons, hset, ih _ (by simpa using hkeys), List.append_assoc,
      List.singleton_append]

/-- Fields with different keys, laid out between braces. -/
theorem spells_object {fields : List Field}
    (hfields : ∀ f ∈ fields, Spells limit depth f.text f.value)
    (hkeys : ((fields.map Field.pair).map Prod.fst).Nodup) (indent : Indent) (level : Nat) :
    Spells limit (depth + 1) (enclose indent level '\x7b' '\x7d' (fields.map Field.written))
      (.object (fields.map Field.pair)) := by
  cases fields with
  | nil => exact .emptyObject blank_nil
  | cons f fields =>
    obtain ⟨m, ms, htext, hcontents⟩ := exists_listed_eq_enclose Field.written
      (fun f => (Text.ofString f.key, f.text, f.value)) Member.written
      (fun m => (m.key, m.text, m.value))
      (fun f before after hbefore hafter =>
        ⟨⟨⟨[' '], f.text, after, f.value, List.forall_mem_append.mpr ⟨by simp [isBlank], hafter⟩⟩,
          before, _, f.key, [], List.forall_mem_append.mpr ⟨hbefore, blank_nil⟩,
          body_chars f.key.toList⟩,
          by simp [Member.written, Element.written, Field.written, writeText_eq], rfl⟩)
      indent level '\x7b' '\x7d' f fields
    have hspells : ∀ g ∈ m :: ms, Spells limit depth g.text g.value := by
      intro g hg
      have hmem := List.mem_map_of_mem (f := fun m : Member => (m.key, m.text, m.value)) hg
      rw [hcontents] at hmem
      obtain ⟨f', hf', heq⟩ := List.mem_map.mp hmem
      simp only [Prod.mk.injEq] at heq
      rw [← heq.2.1, ← heq.2.2]
      exact hfields f' hf'
    have hpairs : (m :: ms).map (fun m => (m.key, m.value)) = (f :: fields).map Field.pair := by
      have hmap := congrArg (List.map fun t : Text × List Char × Json => (t.1, t.2.2)) hcontents
      rwa [List.map_map, List.map_map] at hmap
    have hcollect : Member.collect [] (m :: ms) = (f :: fields).map Field.pair := by
      rw [Member.collect_eq_foldl, hpairs]
      exact foldl_set_of_nodup [] _ hkeys
    rw [htext, ← hcollect]
    exact .object hspells

end Json

end Lexeme
