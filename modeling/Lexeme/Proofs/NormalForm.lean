import Lexeme.Proofs.Markup
import Lexeme.Proofs.Stripping

/-! Annotated texts written anew. Markers of a foreign text may stand in any order, cross or enclose
nothing; all that is read from them are spans within the text, those of one category apart. Main
statement: a text that can be read has a normal form with the same source and the same spans, and
the normal form is its own. -/

namespace Lexeme.Markup

open Marker (isSign)

variable {text : String} {spans : List Span} {opened : List (Category × Nat)}
  {seen : List Sighting} {p n : Nat}

/-- An annotated text written anew from its source and its spans. -/
def normalize (text : String) : Except Fault String := (decode text).map (annotate (strip text))

/-! ### The markers of any text -/

theorem sightingsFrom_range {x : Sighting} {cs : List Char} (hx : x ∈ sightingsFrom n cs) :
    n ≤ x.offset ∧ x.offset ≤ n + (unmarked cs).length := by
  obtain ⟨k, hk⟩ := List.getElem?_of_mem hx
  obtain ⟨before, after, rfl, -, hoffset⟩ := getElem?_sightingsFrom_iff.mp hk
  rw [unmarked_append, List.length_append]
  omega

theorem sightingsFrom_sorted (n : Nat) (cs : List Char) :
    (sightingsFrom n cs).Pairwise fun a b => a.offset ≤ b.offset := by
  induction cs using marked_rec generalizing n with
  | nil => exact .nil
  | plain c cs hc ih =>
    rw [sightingsFrom_plain hc]
    exact ih (n + 1)
  | sign c r cs ih =>
    rw [sightingsFrom_sign]
    exact List.pairwise_cons.mpr ⟨fun x hx => (sightingsFrom_range hx).1, ih n⟩

/-! ### What pairing up gives -/

/-- Spans read from markers at offsets from `p` to `n`: those of one category are apart, and a span
begins there or was open before. -/
structure ReadFrom (opened : List (Category × Nat)) (p n : Nat) (spans : List Span) : Prop where
  tidy : Span.Tidy spans
  range : ∀ s ∈ spans, 0 ≤ s.start ∧ s.stop ≤ n
  begun : ∀ s ∈ spans, p ≤ s.start ∨ ∃ i : Nat, (s.category, i) ∈ opened ∧ s.start = i

theorem ReadFrom.opening {c : Category} {i : Nat} (h : ReadFrom (opened ++ [(c, i)]) i n spans)
    (hi : p ≤ i) : ReadFrom opened p n spans := by
  refine ⟨h.tidy, h.range, fun s hs => ?_⟩
  rcases h.begun s hs with hle | ⟨j, hj, hstart⟩
  · exact .inl (by omega)
  · rcases List.mem_append.mp hj with hj | hj
    · exact .inr ⟨j, hj, hstart⟩
    · simp only [List.mem_singleton, Prod.mk.injEq] at hj
      exact .inl (by omega)

theorem ReadFrom.closing {c : Category} {i : Nat}
    (h : ReadFrom (opened.filter (·.1 ≠ c)) i n spans) (hi : p ≤ i) :
    ReadFrom opened p n spans := by
  refine ⟨h.tidy, h.range, fun s hs => ?_⟩
  rcases h.begun s hs with hle | ⟨j, hj, hstart⟩
  · exact .inl (by omega)
  · exact .inr ⟨j, (List.mem_filter.mp hj).1, hstart⟩

/-- A category is free again where its span ends, so that its next span begins behind it. -/
theorem ReadFrom.closed {c : Category} {start i : Nat}
    (h : ReadFrom (opened.filter (·.1 ≠ c)) i n spans) (hi : p ≤ i) (hn : i ≤ n)
    (hopen : (c, start) ∈ opened) (hlt : start < i) :
    ReadFrom opened p n (⟨c, start, i⟩ :: spans) := by
  have hrest := h.closing hi
  refine ⟨⟨?_, List.pairwise_cons.mpr ⟨?_, h.tidy.apart⟩⟩, ?_, ?_⟩
  · exact List.forall_mem_cons.mpr ⟨Int.ofNat_lt.mpr hlt, h.tidy.proper⟩
  · -- `c` is not open behind `i`, so a later span of it begins there
    rintro s hs hc ⟨-, hover⟩
    rcases h.begun s hs with hle | ⟨j, hj, -⟩
    · dsimp only at hover
      omega
    · simp [← hc] at hj
  · exact List.forall_mem_cons.mpr
      ⟨⟨Int.natCast_nonneg start, Int.ofNat_le.mpr hn⟩, hrest.range⟩
  · exact List.forall_mem_cons.mpr ⟨.inr ⟨start, hopen, rfl⟩, hrest.begun⟩

/-! ### Pairing that succeeds -/

theorem eq_nil_of_pairUp (h : pairUp opened [] = .ok spans) : spans = [] := by
  rw [pairUp] at h
  cases hfirst : earliest? opened with
  | none =>
    rw [hfirst] at h
    cases h
    rfl
  | some o =>
    rw [hfirst] at h
    cases h

theorem pairUp_of_opening {c : Category} {i : Nat}
    (h : pairUp opened (⟨c, .opening, i⟩ :: seen) = .ok spans) :
    pairUp (opened ++ [(c, i)]) seen = .ok spans := by
  rw [pairUp] at h
  split at h
  · cases h
  · exact h

theorem exists_pairUp_of_closing {c : Category} {i : Nat}
    (h : pairUp opened (⟨c, .closing, i⟩ :: seen) = .ok spans) :
    ∃ start rest, (c, start) ∈ opened ∧ pairUp (opened.filter (·.1 ≠ c)) seen = .ok rest ∧
      spans = if start < i then ⟨c, start, i⟩ :: rest else rest := by
  rw [pairUp] at h
  cases hopen : opened.lookup c with
  | none =>
    rw [hopen] at h
    cases h
  | some start =>
    rw [hopen] at h
    obtain ⟨l, l', hl, -⟩ := List.lookup_eq_some_iff.mp hopen
    cases hpairs : pairUp (opened.filter (·.1 ≠ c)) seen with
    | error f =>
      rw [hpairs] at h
      cases h
    | ok rest =>
      rw [hpairs] at h
      cases h
      exact ⟨start, rest, by simp [hl], rfl, rfl⟩

/-- Markers that pair up, at offsets that do not decrease, give spans in their range. -/
theorem readFrom_of_pairUp (h : pairUp opened seen = .ok spans)
    (hsorted : seen.Pairwise fun a b => a.offset ≤ b.offset)
    (hrange : ∀ x ∈ seen, p ≤ x.offset ∧ x.offset ≤ n) : ReadFrom opened p n spans := by
  induction seen generalizing opened spans p with
  | nil =>
    obtain rfl := eq_nil_of_pairUp h
    exact ⟨⟨List.forall_mem_nil _, .nil⟩, List.forall_mem_nil _, List.forall_mem_nil _⟩
  | cons x seen ih =>
    obtain ⟨c, role, i⟩ := x
    obtain ⟨hx, htail⟩ := List.pairwise_cons.mp hsorted
    obtain ⟨hlow, hhigh⟩ := hrange _ List.mem_cons_self
    have hrest : ∀ y ∈ seen, i ≤ y.offset ∧ y.offset ≤ n :=
      fun y hy => ⟨hx y hy, (hrange y (List.mem_cons_of_mem _ hy)).2⟩
    cases role with
    | opening => exact (ih (pairUp_of_opening h) htail hrest).opening hlow
    | closing =>
      obtain ⟨start, rest, hopen, hpairs, rfl⟩ := exists_pairUp_of_closing h
      have hread := ih hpairs htail hrest
      by_cases hlt : start < i
      · rw [if_pos hlt]
        exact hread.closed hlow hhigh hopen hlt
      · rw [if_neg hlt]
        exact hread.closing hlow

/-- The spans of any annotated text lie within its source, those of one category apart. -/
theorem readFrom_of_decode (h : decode text = .ok spans) :
    ReadFrom [] 0 (strip text).length spans ∧ Span.sort spans = spans := by
  cases hpairs : pairUp [] (sightings text) with
  | error f =>
    rw [decode, hpairs] at h
    cases h
  | ok found =>
    rw [decode, hpairs] at h
    cases h
    have hread : ReadFrom [] 0 (strip text).length found := by
      refine readFrom_of_pairUp hpairs (sightingsFrom_sorted 0 text.toList) fun x hx => ?_
      have hle := (sightingsFrom_range hx).2
      rw [← String.length_toList, toList_strip]
      omega
    refine ⟨⟨hread.tidy.sort, ?_, ?_⟩, Span.sort_sort found⟩
    · exact fun s hs => hread.range s (Span.mem_sort.mp hs)
    · exact fun s hs => hread.begun s (Span.mem_sort.mp hs)

/-! ### Normal forms -/

theorem isSign_of_mem_strip {c : Char} (h : c ∈ (strip text).toList) : isSign c = false := by
  rw [toList_strip] at h
  simpa using (List.mem_filter.mp h).2

/-- A text that can be read has a normal form with the same source and the same spans, and the
normal form of that is itself. -/
theorem normalize_normalized (text : String) (spans : List Span) (h : decode text = .ok spans) :
    ∃ normal, normal = annotate (strip text) spans ∧ normalize text = .ok normal ∧
      strip normal = strip text ∧ decode normal = .ok spans ∧ normalize normal = .ok normal := by
  obtain ⟨hread, hsort⟩ := readFrom_of_decode h
  have hfree : ∀ c ∈ (strip text).toList, isSign c = false := fun c => isSign_of_mem_strip
  have hstrip := strip_annotate_of_free hfree spans
  have hdecode := decode_annotate_of_tidy hfree hread.tidy hread.range
  rw [hsort] at hdecode
  refine ⟨_, rfl, ?_, hstrip, hdecode, ?_⟩
  · rw [normalize, h]
    rfl
  · rw [normalize, hdecode, hstrip]
    rfl

/-- A keyword crosses an identifier, and a pair of markers encloses nothing. -/
theorem normalize_normalized_crossing :
    decode "\x01a\x00b\x81c\x80\x06\x86" = .ok [⟨.identifier, 0, 2⟩, ⟨.keyword, 1, 3⟩] ∧
      ∃ normal, normal = annotate "abc" [⟨.identifier, 0, 2⟩, ⟨.keyword, 1, 3⟩] ∧
        normalize "\x01a\x00b\x81c\x80\x06\x86" = .ok normal ∧ strip normal = "abc" ∧
        decode normal = .ok [⟨.identifier, 0, 2⟩, ⟨.keyword, 1, 3⟩] ∧
        normalize normal = .ok normal := by
  have hdecode : decode "\x01a\x00b\x81c\x80\x06\x86" =
      .ok [⟨.identifier, 0, 2⟩, ⟨.keyword, 1, 3⟩] := by decide
  have hstrip : strip "\x01a\x00b\x81c\x80\x06\x86" = "abc" := by decide
  have hnormal := normalize_normalized "\x01a\x00b\x81c\x80\x06\x86" _ hdecode
  rw [hstrip] at hnormal
  exact ⟨hdecode, hnormal⟩

end Lexeme.Markup
