import Lexeme.Proofs.Stripping

/-! Markers at their places. The offset of a marker is its place in the text less the markers before
it, and in an annotated text each marker of the stream stands behind as much of the source as its
offset says. Main statement: the stream of any spans within a source, in any order and of any shape,
is read back from the annotated text. -/

namespace Lexeme.Markup

open Marker (Precedes isSign signOf stream)

variable {cs : List Char} {ms : List Marker} {spans : List Span} {source : String} {x : Sighting}
  {i k : Nat}

/-! ### The markers of any text -/

theorem sightingsFrom_plain {c : Char} (h : Marker.read? c = none) (i : Nat) (cs : List Char) :
    sightingsFrom i (c :: cs) = sightingsFrom (i + 1) cs := by
  rw [sightingsFrom, h]

theorem sightingsFrom_sign (c : Category) (r : Role) (i : Nat) (cs : List Char) :
    sightingsFrom i (signOf c r :: cs) = ⟨c, r, i⟩ :: sightingsFrom i cs := by
  rw [sightingsFrom, Marker.read?_signOf]

theorem sightingsFrom_append (i : Nat) (cs ds : List Char) : sightingsFrom i (cs ++ ds) =
    sightingsFrom i cs ++ sightingsFrom (i + (unmarked cs).length) ds := by
  induction cs using marked_rec generalizing i with
  | nil => rfl
  | plain c cs hc ih =>
    rw [List.cons_append, sightingsFrom_plain hc, sightingsFrom_plain hc, unmarked_plain hc, ih,
      List.length_cons, Nat.add_right_comm, Nat.add_assoc]
  | sign c r cs ih =>
    rw [List.cons_append, sightingsFrom_sign, sightingsFrom_sign, unmarked_sign, ih,
      List.cons_append]

theorem length_sightingsFrom (i : Nat) (cs : List Char) :
    (sightingsFrom i cs).length = cs.countP isSign := by
  induction cs using marked_rec generalizing i with
  | nil => rfl
  | plain c cs hc ih =>
    rw [sightingsFrom_plain hc, ih, List.countP_cons_of_neg (by simp [isSign, hc])]
  | sign c r cs ih =>
    rw [sightingsFrom_sign, List.length_cons, ih, List.countP_cons_of_pos (by simp)]

/-- A text with more than `k` markers has one behind `k` others. -/
theorem exists_split_of_lt (h : k < cs.countP isSign) :
    ∃ before c r after, cs = before ++ signOf c r :: after ∧ before.countP isSign = k := by
  induction cs using marked_rec generalizing k with
  | nil => simp at h
  | plain x cs hx ih =>
    have hplain : ¬ isSign x = true := by simp [isSign, hx]
    rw [List.countP_cons_of_neg hplain] at h
    obtain ⟨before, c, r, after, rfl, hcount⟩ := ih h
    refine ⟨x :: before, c, r, after, rfl, ?_⟩
    rw [List.countP_cons_of_neg hplain, hcount]
  | sign c r cs ih =>
    cases k with
    | zero => exact ⟨[], c, r, cs, rfl, rfl⟩
    | succ k =>
      obtain ⟨before, d, q, after, rfl, hcount⟩ := ih (by simpa using h)
      refine ⟨signOf c r :: before, d, q, after, rfl, ?_⟩
      rw [List.countP_cons_of_pos (by simp), hcount]

theorem getElem?_sightingsFrom (i : Nat) (before : List Char) (c : Category) (r : Role)
    (after : List Char) :
    (sightingsFrom i (before ++ signOf c r :: after))[before.countP isSign]? =
      some ⟨c, r, i + (unmarked before).length⟩ := by
  rw [sightingsFrom_append, sightingsFrom_sign, ← length_sightingsFrom i before,
    List.getElem?_append_right (Nat.le_refl _), Nat.sub_self, List.getElem?_cons_zero]

/-- The marker with number `k` stands behind `k` markers, and its offset counts the other characters
before it. -/
theorem getElem?_sightingsFrom_iff : (sightingsFrom i cs)[k]? = some x ↔
    ∃ before after, cs = before ++ signOf x.category x.role :: after ∧
      before.countP isSign = k ∧ x.offset = i + (unmarked before).length := by
  constructor
  · intro h
    have hk : k < cs.countP isSign :=
      length_sightingsFrom i cs ▸ (List.getElem?_eq_some_iff.mp h).1
    obtain ⟨before, c, r, after, rfl, rfl⟩ := exists_split_of_lt hk
    rw [getElem?_sightingsFrom] at h
    cases h
    exact ⟨before, after, rfl, rfl, rfl⟩
  · rintro ⟨before, after, rfl, rfl, hoffset⟩
    rw [getElem?_sightingsFrom, ← hoffset]

/-! ### The markers of a stream -/

/-- What a marker shows of itself in a text. -/
def sight (m : Marker) : Sighting := ⟨m.span.category, m.role, m.offset.toNat⟩

theorem sightingsFrom_of_free (h : ∀ c ∈ cs, isSign c = false) (i : Nat) :
    sightingsFrom i cs = [] := by
  rw [← List.length_eq_zero_iff, length_sightingsFrom, List.countP_eq_zero]
  exact fun c hc => by simp [h c hc]

/-- The markers that are laid into a text without markers are the ones that are seen in it. -/
theorem sightingsFrom_weave (pos : Nat) (hfree : ∀ c ∈ cs, isSign c = false)
    (hsorted : ms.Pairwise fun a b => a.offset ≤ b.offset)
    (hrange : ∀ m ∈ ms, pos ≤ m.offset ∧ m.offset ≤ pos + cs.length) :
    sightingsFrom pos (weave pos cs ms) = ms.map sight := by
  -- one `pos` for both: the writer has laid the text before it, and the reader has counted it
  induction ms generalizing pos cs with
  | nil => exact sightingsFrom_of_free hfree pos
  | cons m ms ih =>
    obtain ⟨hlow, hhigh⟩ := hrange m List.mem_cons_self
    obtain ⟨hm, hsorted⟩ := List.pairwise_cons.mp hsorted
    have hnext : max (pos : Int) m.offset = (m.offset.toNat : Nat) := by omega
    have htake : ∀ c ∈ cs.take (m.offset - pos).toNat, isSign c = false :=
      fun c hc => hfree c (List.mem_of_mem_take hc)
    have hpos : pos + (unmarked (cs.take (m.offset - pos).toNat)).length = m.offset.toNat := by
      rw [unmarked, filter_eq_self_of_free htake, List.length_take]
      omega
    rw [weave, sightingsFrom_append, sightingsFrom_of_free htake, hpos, Marker.sign,
      sightingsFrom_sign, hnext, List.map_cons, List.nil_append]
    congr 1
    refine ih m.offset.toNat (fun c hc => hfree c (List.mem_of_mem_drop hc)) hsorted ?_
    intro m' hm'
    have h1 := hm m' hm'
    have h2 := (hrange m' (List.mem_cons_of_mem m hm')).2
    rw [List.length_drop]
    omega

theorem offset_le_of_precedes {m m' : Marker} (h : Precedes [] m m') : m.offset ≤ m'.offset := by
  obtain ⟨a, role⟩ := m
  obtain ⟨b, role'⟩ := m'
  cases role <;> cases role'
  · rw [Marker.precedes_opening_opening] at h
    simp only [Marker.offset]
    omega
  · rw [Marker.precedes_opening_closing] at h
    exact Int.le_of_lt h
  · rw [Marker.precedes_closing_opening] at h
    exact h
  · rw [Marker.precedes_closing_closing] at h
    simp only [Marker.offset]
    omega

/-! ### Annotated texts -/

section Annotated

variable (hfree : ∀ c ∈ source.toList, isSign c = false)
  (hwithin : ∀ m ∈ stream [] spans, 0 ≤ m.offset ∧ m.offset ≤ source.length)

include hfree

/-- Before each character of an annotated text stands the beginning of its source. -/
theorem unmarked_before {before after : List Char} {s : Char}
    (h : (annotate source spans).toList = before ++ s :: after) :
    unmarked before = source.toList.take (unmarked before).length := by
  have hsource := congrArg String.toList (strip_annotate_of_free hfree spans)
  rw [toList_strip, h, unmarked_append] at hsource
  rw [← hsource, List.take_left]

include hwithin

/-- The markers that are seen in an annotated text are those of its stream, if all of them lie
within the source. -/
theorem sightings_eq_map_sight :
    sightings (annotate source spans) = (stream [] spans).map sight := by
  have hsorted := (Marker.stream_precedes [] spans).imp offset_le_of_precedes
  rw [sightings, annotate, String.toList_ofList]
  refine sightingsFrom_weave 0 hfree hsorted fun m hm => ?_
  have := hwithin m hm
  rw [String.length_toList]
  omega

/-- The marker with number `k` stands `k` places behind its offset. -/
theorem exists_split_of_stream {m : Marker} (hm : (stream [] spans)[k]? = some m) :
    ∃ before after, (annotate source spans).toList = before ++ m.sign :: after ∧
      (before.length : Int) = m.offset + k ∧
      unmarked before = source.toList.take m.offset.toNat := by
  have hk : (sightings (annotate source spans))[k]? = some (sight m) := by
    rw [sightings_eq_map_sight hfree hwithin, List.getElem?_map, hm, Option.map_some]
  obtain ⟨before, after, htext, hcount, hoffset⟩ := getElem?_sightingsFrom_iff.mp hk
  have hlength : (unmarked before).length = m.offset.toNat := by
    rw [← Nat.zero_add (unmarked before).length, ← hoffset, sight]
  refine ⟨before, after, htext, ?_, hlength ▸ unmarked_before hfree htext⟩
  have hnonneg := (hwithin m (List.mem_of_getElem? hm)).1
  rw [length_eq_countP_add, hcount, hlength]
  omega

end Annotated

/-- The stream of spans that begin and end within a source without markers is read back from the
annotated text: the same categories, roles and offsets in the same order. The marker with number `k`
stands `k` places behind its offset, with as much of the source before it as the offset says. -/
theorem sightings_annotate (source : String) (spans : List Span)
    (hfree : ∀ c ∈ source.toList, isSign c = false)
    (hrange : ∀ s ∈ spans, (0 ≤ s.start ∧ s.start ≤ source.length) ∧
      0 ≤ s.stop ∧ s.stop ≤ source.length) :
    (sightings (annotate source spans)).map (fun x => (x.category, x.role, (x.offset : Int))) =
        (stream [] spans).map (fun m => (m.span.category, m.role, m.offset)) ∧
      ∀ (k : Nat) (m : Marker), (stream [] spans)[k]? = some m → ∃ before after,
        (annotate source spans).toList = before ++ m.sign :: after ∧
          (before.length : Int) = m.offset + k ∧
          unmarked before = source.toList.take m.offset.toNat := by
  have hwithin : ∀ m ∈ stream [] spans, 0 ≤ m.offset ∧ m.offset ≤ source.length := by
    rintro ⟨s, role⟩ hm
    obtain ⟨hstart, hstop⟩ := hrange s (Marker.mem_stream.mp hm)
    cases role with
    | opening => exact hstart
    | closing => exact hstop
  refine ⟨?_, fun k m hm => exists_split_of_stream hfree hwithin hm⟩
  rw [sightings_eq_map_sight hfree hwithin, List.map_map]
  refine List.map_congr_left fun m hm => ?_
  simp only [Function.comp_apply, sight, Int.toNat_of_nonneg (hwithin m hm).1]

/-- Crossing, doubled, empty and inverted spans, with several markers at both edges of the text. -/
theorem sightings_annotate_inverted :
    (∀ c ∈ "ab".toList, isSign c = false) ∧
      (sightings (annotate "ab" [⟨.string, 2, 0⟩, ⟨.keyword, 0, 1⟩, ⟨.identifier, 0, 2⟩,
        ⟨.keyword, 0, 1⟩, ⟨.integer, 2, 2⟩])).map
          (fun x => (x.category, x.role, (x.offset : Int))) =
        [(.string, .closing, 0), (.identifier, .opening, 0), (.keyword, .opening, 0),
          (.keyword, .opening, 0), (.keyword, .closing, 1), (.keyword, .closing, 1),
          (.integer, .closing, 2), (.identifier, .closing, 2), (.integer, .opening, 2),
          (.string, .opening, 2)] := by
  have hfree : ∀ c ∈ "ab".toList, isSign c = false := by
    simp [isSign, Marker.read?, Category.all]
  exact ⟨hfree, (sightings_annotate "ab" _ hfree (by decide)).1.trans (by decide)⟩

end Lexeme.Markup
