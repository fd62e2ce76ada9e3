import Lexeme.Proofs.Json.Scalars

/-! Arrays and objects of the grammar are read as what they spell. Main statement: a document within
the bounds of the reader is read as its value. -/

namespace Lexeme.Json

variable {fuel room offset : Nat} {c : Char} {cs bs rest after : List Char} {v : Json}

/-! ### White space -/

theorem Blank.append_iff {as bs : List Char} : Blank (as ++ bs) ↔ Blank as ∧ Blank bs :=
  List.forall_mem_append

theorem Blank.skipBlank_append (hbs : Blank bs) (hrest : ∀ c ∈ rest.head?, isBlank c = false) :
    skipBlank offset (bs ++ rest) = ⟨offset + bs.length, rest⟩ := by
  induction bs generalizing offset with
  | nil =>
    cases rest with
    | nil => rfl
    | cons c rest => simp [skipBlank, hrest c rfl]
  | cons b bs ih =>
    rw [List.cons_append, skipBlank, if_pos (hbs b List.mem_cons_self),
      ih fun b hb => hbs b (List.mem_cons_of_mem _ hb), List.length_cons, Nat.add_assoc,
      Nat.add_comm 1]

/-- White space up to a character that is none. -/
theorem Blank.skipBlank_cons (hbs : Blank bs) (hc : isBlank c = false) :
    skipBlank offset (bs ++ c :: rest) = ⟨offset + bs.length, c :: rest⟩ := by
  refine hbs.skipBlank_append ?_
  rintro _ ⟨⟩
  exact hc

theorem delimited_cons (hc : c.isDigit = false ∧ c ∉ ['.', 'e', 'E']) (rest : List Char) :
    Delimited (c :: rest) := by
  rintro _ ⟨⟩
  exact hc

theorem Blank.delimited (hbs : Blank bs) (hrest : Delimited rest) : Delimited (bs ++ rest) := by
  cases bs with
  | nil => exact hrest
  | cons b bs =>
    have hb := hbs b List.mem_cons_self
    simp only [isBlank, Bool.or_eq_true, beq_iff_eq] at hb
    refine delimited_cons ?_ _
    rcases hb with ((rfl | rfl) | rfl) | rfl <;> decide

theorem Element.blank_before (e : Element) : Blank e.before := (Blank.append_iff.mp e.blank).1

theorem Element.blank_after (e : Element) : Blank e.after := (Blank.append_iff.mp e.blank).2

/-! ### Texts that read as a value -/

/-- The text reads as the value wherever it stands, if it is not deeper than `room`. -/
structure Reads (room : Nat) (cs : List Char) (v : Json) : Prop where
  starts : ∃ c tail, cs = c :: tail ∧ isBlank c = false ∧ c ∉ [']', '\ufeff']
  reads : ∀ fuel offset rest, 2 * cs.length ≤ fuel + 1 → Delimited rest →
    readValue (fuel + 1) room ⟨offset, cs ++ rest⟩ = .ok (v, ⟨offset + cs.length, rest⟩)

theorem Reads.head (h : Reads room cs v) (rest : List Char) :
    ∀ c ∈ (cs ++ rest).head?, isBlank c = false ∧ c ≠ ']' := by
  obtain ⟨c, tail, rfl, hc, hne⟩ := h.starts
  rintro _ ⟨⟩
  exact ⟨hc, fun h => hne (h ▸ List.mem_cons_self)⟩

theorem Reads.readValue_eq (h : Reads room cs v) (hfuel : 2 * cs.length ≤ fuel)
    (hrest : Delimited rest) (offset : Nat) :
    readValue fuel room ⟨offset, cs ++ rest⟩ = .ok (v, ⟨offset + cs.length, rest⟩) := by
  have hpos : 0 < cs.length := by
    obtain ⟨c, tail, rfl, -⟩ := h.starts
    exact Nat.succ_pos _
  obtain ⟨fuel, rfl⟩ := Nat.exists_eq_succ_of_ne_zero (n := fuel) (by omega)
  exact h.reads fuel offset rest hfuel hrest

/-! ### Scalars -/

theorem quote_append (body rest : List Char) :
    quote body ++ rest = '"' :: (body ++ '"' :: rest) := by
  simp [quote]

theorem Body.readText_eq {body : List Char} {s : Text} (h : Body body s.points) :
    readText offset (body ++ '"' :: rest) = .ok (s, ⟨offset + (quote body).length, rest⟩) := by
  rw [readText, h.readPoints_eq]
  simp only [Except.map, quote, List.length_cons, List.length_append, List.length_nil]
  congr 3
  omega

theorem reads_quote {body : List Char} {s : Text} (h : Body body s.points) :
    Reads room (quote body) (.text s) where
  starts := ⟨'"', _, rfl, by decide, by decide⟩
  reads := by
    intro fuel offset rest _ _
    rw [quote_append, readValue.eq_def]
    simp only [h.readText_eq]
    rfl

/-- What is neither a text nor in brackets is read as a word or a number. -/
theorem readValue_scalar (hc : c ∉ ['"', '[', '\x7b']) :
    readValue (fuel + 1) room ⟨offset, c :: rest⟩ = readScalar ⟨offset, c :: rest⟩ := by
  simp only [List.mem_cons, not_or] at hc
  rw [readValue.eq_def]
  grind

theorem reads_word {w : List Char} (hw : (w, v) ∈ words) : Reads room w v := by
  have hstarts : ∀ p ∈ words, ∃ c tail, p.1 = c :: tail ∧ isBlank c = false ∧
      c ∉ [']', '\ufeff'] ∧ c ∉ ['"', '[', '\x7b'] := by
    simp [words, isBlank]
  obtain ⟨c, tail, rfl, hblank, hne, hscalar⟩ := hstarts (w, v) hw
  refine ⟨⟨c, tail, rfl, hblank, hne⟩, fun fuel offset rest _ _ => ?_⟩
  have hread := readScalar_word hw offset rest
  rw [List.cons_append] at hread ⊢
  rw [readValue_scalar hscalar, hread]

theorem reads_number {negative : Bool} (h : Magnitude maxIntegerDigits negative cs v) :
    Reads room (minus negative ++ cs) v := by
  obtain ⟨c, tail, htext, hc⟩ : ∃ c tail, minus negative ++ cs = c :: tail ∧
      (c = '-' ∨ c.isDigit = true) := by
    obtain ⟨d, ds, rfl, hd⟩ := h.exists_cons
    cases negative
    · exact ⟨d, ds, rfl, .inr hd⟩
    · exact ⟨'-', d :: ds, rfl, .inl rfl⟩
  have hne : ∀ x : Char, x.isDigit = false → x ≠ '-' → c ≠ x := by
    rintro x hx hminus rfl
    rcases hc with hc | hc
    · exact hminus hc
    · exact ne_of_isDigit hc hx rfl
  refine ⟨⟨c, tail, htext, ?_, ?_⟩, ?_⟩
  · simp [isBlank, hne]
  · simp [hne]
  · intro fuel offset rest _ hrest
    have hread := h.readScalar_append hrest offset
    rw [← List.append_assoc, htext, List.cons_append] at hread
    rw [htext, List.cons_append, readValue_scalar (by simp [hne]), hread]

/-! ### Arrays -/

theorem readItems_last (h : Reads room cs v) (hfuel : 2 * cs.length ≤ fuel) (hbs : Blank bs) :
    readItems (fuel + 1) room ⟨offset, cs ++ (bs ++ ']' :: rest)⟩ =
      .ok ([v], ⟨offset + (cs ++ bs).length + 1, rest⟩) := by
  rw [readItems, h.readValue_eq hfuel (hbs.delimited (delimited_cons (by decide) rest))]
  simp only [Cursor.skip, hbs.skipBlank_cons (c := ']') rfl, List.length_append, Nat.add_assoc]

theorem readItems_next (h : Reads room cs v) (hfuel : 2 * cs.length ≤ fuel) (hbs : Blank bs)
    (hafter : Blank after) (hrest : ∀ c ∈ rest.head?, isBlank c = false) :
    readItems (fuel + 1) room ⟨offset, cs ++ (bs ++ ',' :: (after ++ rest))⟩ =
      (readItems fuel room ⟨offset + (cs ++ bs).length + 1 + after.length, rest⟩).map
        fun (vs, c) => (v :: vs, c) := by
  rw [readItems, h.readValue_eq hfuel (hbs.delimited (delimited_cons (by decide) _))]
  simp only [Cursor.skip, hbs.skipBlank_cons (c := ',') rfl, hafter.skipBlank_append hrest,
    List.length_append, Nat.add_assoc]

theorem readItems_elements {e : Element} {es : List Element}
    (hreads : ∀ f ∈ e :: es, Reads room f.text f.value)
    (hfuel : 2 * (e.text ++ (e.after ++ listed (es.map Element.written))).length < fuel) :
    readItems fuel room
        ⟨offset, e.text ++ (e.after ++ (listed (es.map Element.written) ++ ']' :: rest))⟩ =
      .ok ((e :: es).map Element.value,
        ⟨offset + (e.text ++ (e.after ++ listed (es.map Element.written))).length + 1, rest⟩) := by
  obtain ⟨fuel, rfl⟩ := Nat.exists_eq_succ_of_ne_zero (n := fuel) (by omega)
  have he := hreads e List.mem_cons_self
  induction es generalizing e fuel offset with
  | nil =>
    simp only [List.map_nil, listed_nil, List.append_nil] at hfuel ⊢
    rw [List.length_append] at hfuel
    rw [List.nil_append, readItems_last he (by omega) e.blank_after]
    rfl
  | cons f es ih =>
    have htail : ∀ g ∈ f :: es, Reads room g.text g.value := fun g hg =>
      hreads g (List.mem_cons_of_mem _ hg)
    have hf := htail f List.mem_cons_self
    simp only [List.map_cons, listed_cons, Element.written, List.length_append, List.length_cons]
      at hfuel
    -- the comma pays for the step that goes on to the next item
    obtain ⟨fuel, rfl⟩ := Nat.exists_eq_succ_of_ne_zero (n := fuel) (by omega)
    simp only [List.map_cons, listed_cons, Element.written, List.cons_append, List.append_assoc]
    rw [readItems_next he (by omega) e.blank_after f.blank_before fun c hc => (hf.head _ c hc).1]
    rw [ih htail _ (by simp only [List.length_append]; omega) hf]
    simp only [Except.map, List.map_cons, List.length_append, List.length_cons]
    congr 3
    omega

theorem readValue_array (hbs : Blank bs) (hrest : ∀ c ∈ rest.head?, isBlank c = false ∧ c ≠ ']') :
    readValue (fuel + 1) (room + 1) ⟨offset, '[' :: (bs ++ rest)⟩ =
      (readItems fuel room ⟨offset + 1 + bs.length, rest⟩).map fun (vs, c) => (.array vs, c) := by
  rw [readValue.eq_def]
  simp only [hbs.skipBlank_append fun c hc => (hrest c hc).1]
  split
  · exact absurd rfl (hrest ']' rfl).2
  · rfl

theorem reads_emptyArray (hbs : Blank bs) :
    Reads (room + 1) ('[' :: (bs ++ [']'])) (.array []) where
  starts := ⟨'[', _, rfl, by decide, by decide⟩
  reads := by
    intro fuel offset rest _ _
    rw [List.cons_append, List.append_assoc, readValue.eq_def]
    simp only [List.singleton_append, hbs.skipBlank_cons (c := ']') rfl, List.length_cons,
      List.length_append, List.length_nil]
    congr 3
    omega

theorem reads_array {e : Element} {es : List Element}
    (hreads : ∀ f ∈ e :: es, Reads room f.text f.value) :
    Reads (room + 1) ('[' :: (e.written ++ (listed (es.map Element.written) ++ [']'])))
      (.array ((e :: es).map Element.value)) where
  starts := ⟨'[', _, rfl, by decide, by decide⟩
  reads := by
    intro fuel offset rest hfuel _
    have he := hreads e List.mem_cons_self
    simp only [Element.written, List.length_cons, List.length_append, List.length_nil] at hfuel
    simp only [Element.written, List.cons_append, List.append_assoc, List.nil_append]
    rw [readValue_array e.blank_before (he.head _)]
    rw [readItems_elements hreads (by simp only [List.length_append]; omega)]
    simp only [Except.map, List.length_cons, List.length_append, List.length_nil]
    congr 3
    omega

/-! ### Objects -/

theorem Member.blank_leading (m : Member) : Blank m.leading := (Blank.append_iff.mp m.keyBlank).1

theorem Member.blank_gap (m : Member) : Blank m.gap := (Blank.append_iff.mp m.keyBlank).2

/-- A field without the white space before it. -/
def Member.inner (m : Member) : List Char := quote m.body ++ (m.gap ++ ':' :: m.toElement.written)

theorem Member.length_text_le (m : Member) : m.text.length ≤ m.inner.length := by
  simp only [inner, Element.written, List.length_append, List.length_cons]
  omega

variable {m : Member} {known : List (Text × Json)}

/-- A field is read, and what stands behind its value decides how it goes on. -/
theorem readFields_member (h : Reads room m.text m.value) (hfuel : 2 * m.text.length ≤ fuel)
    (hc : isBlank c = false ∧ c.isDigit = false ∧ c ∉ ['.', 'e', 'E']) :
    readFields (fuel + 1) room known ⟨offset, m.inner ++ c :: rest⟩ =
      match c :: rest with
      | '\x7d' :: after =>
        .ok (Tally.set m.key m.value known, ⟨offset + m.inner.length + 1, after⟩)
      | ',' :: after =>
        readFields fuel room (Tally.set m.key m.value known)
          (skipBlank (offset + m.inner.length + 1) after)
      | _ => .error (.malformed .comma (offset + m.inner.length)) := by
  have hvalue := h.readValue_eq hfuel (m.blank_after.delimited (delimited_cons hc.2 rest))
    (offset + (quote m.body).length + m.gap.length + 1 + m.before.length)
  have hlength : offset + (quote m.body).length + m.gap.length + 1 + m.before.length +
      m.text.length + m.after.length = offset + m.inner.length := by
    simp only [Member.inner, Element.written, List.length_append, List.length_cons]
    omega
  have htext : m.inner ++ c :: rest = '"' :: (m.body ++ '"' :: (m.gap ++ ':' ::
      (m.before ++ (m.text ++ (m.after ++ c :: rest))))) := by
    simp only [Member.inner, Element.written, List.append_assoc, List.cons_append, quote_append]
  have hstep := readFields.eq_def (fuel + 1) room known ⟨offset, m.inner ++ c :: rest⟩
  simp only [htext, m.keyBody.readText_eq, Cursor.skip, m.blank_gap.skipBlank_cons (c := ':') rfl,
    m.blank_before.skipBlank_append fun c hc => (h.head _ c hc).1, hvalue,
    m.blank_after.skipBlank_cons hc.1, hlength] at hstep
  rw [htext]
  exact hstep

theorem readFields_members {ms : List Member}
    (hreads : ∀ f ∈ m :: ms, Reads room f.text f.value)
    (hfuel : 2 * (m.inner ++ listed (ms.map Member.written)).length < fuel) :
    readFields fuel room known
        ⟨offset, m.inner ++ (listed (ms.map Member.written) ++ '\x7d' :: rest)⟩ =
      .ok (Member.collect known (m :: ms),
        ⟨offset + (m.inner ++ listed (ms.map Member.written)).length + 1, rest⟩) := by
  obtain ⟨fuel, rfl⟩ := Nat.exists_eq_succ_of_ne_zero (n := fuel) (by omega)
  have hm := hreads m List.mem_cons_self
  have htext := m.length_text_le
  simp only [List.length_append] at hfuel
  induction ms generalizing m fuel offset known with
  | nil =>
    rw [List.map_nil, listed_nil, List.nil_append, List.append_nil,
      readFields_member hm (by omega) (by decide)]
    rfl
  | cons f ms ih =>
    have htail : ∀ g ∈ f :: ms, Reads room g.text g.value := fun g hg =>
      hreads g (List.mem_cons_of_mem _ hg)
    have hquote (tail : List Char) : ∀ c ∈ (f.inner ++ tail).head?, isBlank c = false := by
      rw [Member.inner, List.append_assoc, quote_append]
      rintro _ ⟨⟩
      rfl
    have hwritten : f.written = f.leading ++ f.inner := rfl
    simp only [List.map_cons, listed_cons, hwritten, List.length_append, List.length_cons] at hfuel
    obtain ⟨fuel, rfl⟩ := Nat.exists_eq_succ_of_ne_zero (n := fuel) (by omega)
    simp only [List.map_cons, listed_cons, hwritten, List.cons_append, List.append_assoc]
    rw [readFields_member hm (by omega) (by decide)]
    simp only [f.blank_leading.skipBlank_append (hquote _)]
    rw [ih htail _ (htail f List.mem_cons_self) f.length_text_le (by omega)]
    simp only [Member.collect, List.foldl_cons, List.length_append, List.length_cons]
    congr 3
    omega

theorem readValue_object (hbs : Blank bs) :
    readValue (fuel + 1) (room + 1) ⟨offset, '\x7b' :: (bs ++ '"' :: rest)⟩ =
      (readFields fuel room [] ⟨offset + 1 + bs.length, '"' :: rest⟩).map
        fun (fs, c) => (.object fs, c) := by
  rw [readValue.eq_def]
  simp only [hbs.skipBlank_cons (c := '"') rfl]
  rfl

theorem reads_emptyObject (hbs : Blank bs) :
    Reads (room + 1) ('\x7b' :: (bs ++ ['\x7d'])) (.object []) where
  starts := ⟨'\x7b', _, rfl, by decide, by decide⟩
  reads := by
    intro fuel offset rest _ _
    rw [List.cons_append, List.append_assoc, readValue.eq_def]
    simp only [List.singleton_append, hbs.skipBlank_cons (c := '\x7d') rfl, List.length_cons,
      List.length_append, List.length_nil]
    congr 3
    omega

theorem reads_object {ms : List Member} (hreads : ∀ f ∈ m :: ms, Reads room f.text f.value) :
    Reads (room + 1) ('\x7b' :: (m.written ++ (listed (ms.map Member.written) ++ ['\x7d'])))
      (.object (Member.collect [] (m :: ms))) where
  starts := ⟨'\x7b', _, rfl, by decide, by decide⟩
  reads := by
    intro fuel offset rest hfuel _
    have hwritten : m.written = m.leading ++ m.inner := rfl
    have hinner : ∃ tail, m.inner = '"' :: tail := ⟨_, rfl⟩
    obtain ⟨tail, htail⟩ := hinner
    simp only [hwritten, List.length_cons, List.length_append, List.length_nil] at hfuel
    simp only [hwritten, List.cons_append, List.append_assoc, List.nil_append]
    rw [htail, List.cons_append, readValue_object m.blank_leading, ← List.cons_append, ← htail,
      readFields_members hreads (by simp only [List.length_append]; omega)]
    simp only [Except.map, List.length_cons, List.length_append, List.length_nil]
    congr 3
    omega

/-! ### Documents -/

theorem Spells.reads {cs : List Char} (h : Spells maxIntegerDigits room cs v) :
    Reads room cs v := by
  induction h with
  | text hbody => exact reads_quote hbody
  | word hw => exact reads_word hw
  | number _ hnumber => exact reads_number hnumber
  | emptyArray hbs => exact reads_emptyArray hbs
  | array _ ih => exact reads_array ih
  | emptyObject hbs => exact reads_emptyObject hbs
  | object _ ih => exact reads_object ih

theorem Reads.written_ne {e : Element} (h : Reads room e.text e.value) (rest : List Char) :
    e.written ≠ '\ufeff' :: rest := by
  have hblank := e.blank_before
  obtain ⟨c, tail, htext, -, hc⟩ := h.starts
  rw [Element.written, htext]
  intro heq
  cases hbefore : e.before with
  | nil =>
    rw [hbefore] at heq
    obtain ⟨rfl, -⟩ := List.cons.inj heq
    exact hc (by decide)
  | cons b bs =>
    rw [hbefore] at heq hblank
    obtain ⟨rfl, -⟩ := List.cons.inj heq
    exact absurd (hblank _ List.mem_cons_self) (by decide)

/-- A document within the bounds of the reader is read as its value. -/
theorem Document.parse_eq {text : String} (h : Document maxIntegerDigits room text v) :
    parse room text = .ok v := by
  obtain ⟨e, htext, rfl, hspells⟩ := h
  have hreads := hspells.reads
  have hlength : e.text.length ≤ text.toList.length := by
    simp only [htext, Element.written, List.length_append]
    omega
  have hfuel : 2 * e.text.length ≤ 2 * text.toList.length + 2 := by omega
  have hend : Delimited [] := by rintro _ ⟨⟩
  have hread := hreads.readValue_eq hfuel (e.blank_after.delimited hend) (0 + e.before.length)
  have hstart : skipBlank 0 text.toList = ⟨0 + e.before.length, e.text ++ e.after⟩ := by
    rw [htext, Element.written, e.blank_before.skipBlank_append fun c hc => (hreads.head _ c hc).1]
  have hstop (i : Nat) : skipBlank i e.after = ⟨i + e.after.length, []⟩ := by
    have hskip : skipBlank i (e.after ++ []) = ⟨i + e.after.length, []⟩ :=
      e.blank_after.skipBlank_append (by rintro _ ⟨⟩)
    rwa [List.append_nil] at hskip
  rw [List.append_nil] at hread
  rw [parse]
  split
  · -- a byte order mark is no white space, and no value starts with one
    rename_i rest hmark
    rw [htext] at hmark
    exact absurd hmark (hreads.written_ne rest)
  · rw [hstart, hread]
    simp only [Cursor.skip, hstop]
    rfl

/-- A text that spells a value stands alone as well. -/
theorem Spells.parse_eq {cs : List Char} (h : Spells maxIntegerDigits room cs v) :
    parse room (String.ofList cs) = .ok v := by
  refine Document.parse_eq ⟨⟨[], cs, [], v, blank_nil⟩, ?_, rfl, h⟩
  simp [Element.written]

end Lexeme.Json
