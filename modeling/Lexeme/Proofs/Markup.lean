import Lexeme.Lexer
import Lexeme.Proofs.Matching
import Lexeme.Proofs.Repair
import Lexeme.Proofs.Resolution
import Lexeme.Proofs.Sightings
import Mathlib.Data.List.Pairwise

/-! Annotated texts are read back. The markers of a text are those that were laid into it, with
their offsets, and pairing them up gives the spans that they came from. Main statement: the spans of
an annotated text are the spans it was annotated with, in document order. -/

namespace Lexeme.Markup

open Marker (Precedes stream)

variable {spans opened : List Span} {ms : List Marker} {s : Span}

/-! ### Pairing the markers up -/

/-- What is known when the markers `ms` are still to be read and the spans `opened` are open. -/
structure Pending (opened : List Span) (ms : List Marker) : Prop where
  closes : ∀ o ∈ opened, ⟨o, .closing⟩ ∈ ms
  begun : ∀ o ∈ opened, ⟨o, .opening⟩ ∉ ms
  paired : ∀ s, ⟨s, .closing⟩ ∈ ms → s ∈ opened ∨ ⟨s, .opening⟩ ∈ ms
  ahead : ∀ s, ⟨s, .opening⟩ ∈ ms → ⟨s, .closing⟩ ∈ ms
  before : ∀ o ∈ opened, ∀ m ∈ ms, o.start ≤ m.offset
  distinct : opened.Pairwise fun a b => a.category ≠ b.category

/-- A stream of markers in order, each once, of spans of which those of one category are apart. -/
structure Orderly (spans : List Span) (ms : List Marker) : Prop where
  tidy : Span.Tidy spans
  known : ∀ m ∈ ms, m.span ∈ spans
  nodup : ms.Nodup
  sorted : ms.Pairwise (Precedes [])

theorem Orderly.tail {m : Marker} (h : Orderly spans (m :: ms)) : Orderly spans ms :=
  ⟨h.tidy, fun m' hm' => h.known m' (List.mem_cons_of_mem m hm'), (List.nodup_cons.mp h.nodup).2,
    (List.pairwise_cons.mp h.sorted).2⟩

theorem Orderly.precedes {m m' : Marker} (h : Orderly spans (m :: ms)) (hm : m' ∈ ms) :
    Precedes [] m m' := (List.pairwise_cons.mp h.sorted).1 m' hm

/-- A span opens while none of its category is open. -/
theorem Pending.fresh (h : Pending opened (⟨s, .opening⟩ :: ms))
    (ho : Orderly spans (⟨s, .opening⟩ :: ms)) {o : Span} (hmem : o ∈ opened) :
    o.category ≠ s.category := by
  intro hc
  have hclose : (⟨o, .closing⟩ : Marker) ∈ ms := by simpa using h.closes o hmem
  have hs : s ∈ spans := ho.known _ List.mem_cons_self
  have ho' : o ∈ spans := ho.known _ (List.mem_cons_of_mem _ hclose)
  have hlt := Marker.precedes_opening_closing.mp (ho.precedes hclose)
  have hle : o.start ≤ s.start := h.before o hmem _ List.mem_cons_self
  have hproper := ho.tidy.proper s hs
  have heq := ho.tidy.eq_of_overlaps ho' hs hc ⟨by omega, hlt⟩
  exact h.begun o hmem (by rw [heq]; exact List.mem_cons_self)

theorem Pending.opening (h : Pending opened (⟨s, .opening⟩ :: ms))
    (ho : Orderly spans (⟨s, .opening⟩ :: ms)) : Pending (opened ++ [s]) ms := by
  have hnot : (⟨s, .opening⟩ : Marker) ∉ ms := (List.nodup_cons.mp ho.nodup).1
  refine ⟨?_, ?_, ?_, ?_, ?_, ?_⟩
  · intro o hmem
    rcases List.mem_append.mp hmem with hmem | hmem
    · simpa using h.closes o hmem
    · rw [List.mem_singleton] at hmem
      subst hmem
      simpa using h.ahead o List.mem_cons_self
  · intro o hmem
    rcases List.mem_append.mp hmem with hmem | hmem
    · exact fun hin => h.begun o hmem (List.mem_cons_of_mem _ hin)
    · rw [List.mem_singleton] at hmem
      exact hmem ▸ hnot
  · intro u hu
    rcases h.paired u (List.mem_cons_of_mem _ hu) with hmem | hmem
    · exact .inl (List.mem_append_left _ hmem)
    · rcases List.mem_cons.mp hmem with heq | hmem
      · cases heq
        exact .inl (by simp)
      · exact .inr hmem
  · intro u hu
    simpa using h.ahead u (List.mem_cons_of_mem _ hu)
  · intro o hmem m hm
    rcases List.mem_append.mp hmem with hmem | hmem
    · exact h.before o hmem m (List.mem_cons_of_mem _ hm)
    · rw [List.mem_singleton] at hmem
      subst hmem
      exact offset_le_of_precedes (ho.precedes hm)
  · rw [List.pairwise_append]
    refine ⟨h.distinct, List.pairwise_singleton _ _, fun o hmem u hu => ?_⟩
    rw [List.mem_singleton] at hu
    exact hu ▸ h.fresh ho hmem

/-- What closes is open. -/
theorem Pending.mem_of_closing (h : Pending opened (⟨s, .closing⟩ :: ms))
    (ho : Orderly spans (⟨s, .closing⟩ :: ms)) : s ∈ opened := by
  rcases h.paired s List.mem_cons_self with hmem | hmem
  · exact hmem
  · have hopen : (⟨s, .opening⟩ : Marker) ∈ ms := by simpa using hmem
    have hle := Marker.precedes_closing_opening.mp (ho.precedes hopen)
    have hproper := ho.tidy.proper s (ho.known _ List.mem_cons_self)
    omega

theorem Pending.closing (h : Pending opened (⟨s, .closing⟩ :: ms))
    (ho : Orderly spans (⟨s, .closing⟩ :: ms)) :
    Pending (opened.filter (·.category ≠ s.category)) ms := by
  have hs := h.mem_of_closing ho
  have hnot : (⟨s, .closing⟩ : Marker) ∉ ms := (List.nodup_cons.mp ho.nodup).1
  have hopen : ∀ {u : Span}, (⟨u, .opening⟩ : Marker) ∈ ⟨s, .closing⟩ :: ms →
      (⟨u, .opening⟩ : Marker) ∈ ms := fun hu => by simpa using hu
  have hdistinct : ∀ {u : Span}, u ∈ opened → u ≠ s → u.category ≠ s.category := by
    intro u hu hne
    have : Std.Symm fun a b : Span => a.category ≠ b.category := ⟨fun _ _ hab => hab.symm⟩
    exact h.distinct.forall hu hs hne
  refine ⟨?_, ?_, ?_, ?_, ?_, h.distinct.filter _⟩
  · intro o hmem
    obtain ⟨hmem, hc⟩ := List.mem_filter.mp hmem
    rcases List.mem_cons.mp (h.closes o hmem) with heq | hin
    · cases heq
      simp at hc
    · exact hin
  · exact fun o hmem hin => h.begun o (List.mem_filter.mp hmem).1 (List.mem_cons_of_mem _ hin)
  · intro u hu
    rcases h.paired u (List.mem_cons_of_mem _ hu) with hmem | hmem
    · refine .inl (List.mem_filter.mpr ⟨hmem, ?_⟩)
      have hne : u ≠ s := by
        rintro rfl
        exact hnot hu
      simpa using hdistinct hmem hne
    · exact .inr (hopen hmem)
  · intro u hu
    rcases List.mem_cons.mp (h.ahead u (List.mem_cons_of_mem _ hu)) with heq | hin
    · cases heq
      exact absurd (List.mem_cons_of_mem _ hu) (h.begun s hs)
    · exact hin
  · intro o hmem m hm
    exact h.before o (List.mem_filter.mp hmem).1 m (List.mem_cons_of_mem _ hm)

/-- The spans as `pairUp` holds them while they are open. -/
def held (opened : List Span) : List (Category × Nat) :=
  opened.map fun s => (s.category, s.start.toNat)

/-- The spans that the markers close, in the order of their ends. -/
def closed (ms : List Marker) : List Span :=
  ms.filterMap fun m => if m.role = .closing then some m.span else none

theorem lookup_held_of_fresh (h : ∀ o ∈ opened, o.category ≠ s.category) :
    (held opened).lookup s.category = none := by
  rw [List.lookup_eq_none_iff]
  intro p hp
  obtain ⟨o, ho, rfl⟩ := List.mem_map.mp hp
  simpa using (h o ho).symm

theorem lookup_held_of_mem (h : opened.Pairwise fun a b => a.category ≠ b.category)
    (hs : s ∈ opened) : (held opened).lookup s.category = some s.start.toNat := by
  induction opened with
  | nil => cases hs
  | cons o opened ih =>
    obtain ⟨ho, h⟩ := List.pairwise_cons.mp h
    rw [held, List.map_cons, List.lookup_cons]
    rcases List.mem_cons.mp hs with rfl | hs
    · simp
    · have hne : (s.category == o.category) = false := by simpa using (ho s hs).symm
      rw [hne]
      exact ih h hs

theorem held_filter (opened : List Span) (c : Category) :
    (held opened).filter (·.1 ≠ c) = held (opened.filter (·.category ≠ c)) := by
  rw [held, List.filter_map]
  rfl

/-- From any point on, the markers pair up to the spans that they close. -/
theorem pairUp_sights (h : Pending opened ms) (ho : Orderly spans ms)
    (hpos : ∀ s ∈ spans, 0 ≤ s.start) :
    pairUp (held opened) (ms.map sight) = .ok (closed ms) := by
  induction ms generalizing opened with
  | nil =>
    have hnil : opened = [] :=
      List.eq_nil_iff_forall_not_mem.mpr fun o hmem => List.not_mem_nil (h.closes o hmem)
    rw [hnil]
    rfl
  | cons m ms ih =>
    obtain ⟨s, role⟩ := m
    have hs : s ∈ spans := ho.known _ List.mem_cons_self
    rw [List.map_cons]
    cases role with
    | opening =>
      have hrest := ih (h.opening ho) ho.tail
      rw [held, List.map_append] at hrest
      have hlook := lookup_held_of_fresh fun o hmem => h.fresh ho hmem
      rw [sight, pairUp, hlook]
      exact hrest
    | closing =>
      have hrest := ih (h.closing ho) ho.tail
      have hlook := lookup_held_of_mem h.distinct (h.mem_of_closing ho)
      have hlt : s.start.toNat < s.stop.toNat := by
        have := ho.tidy.proper s hs
        have := hpos s hs
        omega
      have hspan : (⟨s.category, s.start.toNat, s.stop.toNat⟩ : Span) = s := by
        have h1 := hpos s hs
        have h2 := ho.tidy.proper s hs
        rw [Int.toNat_of_nonneg h1, Int.toNat_of_nonneg (by omega)]
      rw [show sight ⟨s, .closing⟩ = ⟨s.category, .closing, s.stop.toNat⟩ from rfl, pairUp, hlook]
      simp only [held_filter, hrest, Except.map, if_pos hlt, hspan]
      rfl

/-! ### Annotated texts -/

theorem closed_pairs (spans : List Span) : closed (Marker.pairs spans) = spans := by
  induction spans with
  | nil => rfl
  | cons s spans ih => exact congrArg (s :: ·) ih

theorem closed_stream_perm (outer : List Category) (spans : List Span) :
    (closed (stream outer spans)).Perm spans := by
  have h := (Marker.stream_perm outer spans).filterMap fun m =>
    if m.role = .closing then some m.span else none
  rwa [← closed, ← closed, closed_pairs] at h

theorem stream_orderly (h : Span.Tidy spans) : Orderly spans (stream [] spans) :=
  ⟨h, fun _ hm => Marker.mem_stream.mp hm, Marker.stream_nodup h.nodup,
    Marker.stream_precedes [] spans⟩

theorem stream_pending (spans : List Span) : Pending [] (stream [] spans) := by
  refine ⟨by simp, by simp, ?_, ?_, by simp, .nil⟩
  · intro s hs
    rw [Marker.mem_stream] at hs ⊢
    exact .inr hs
  · intro s hs
    rw [Marker.mem_stream] at hs ⊢
    exact hs

/-- The spans of an annotated text are those it was annotated with, in document order. -/
theorem decode_annotate_of_tidy {source : String}
    (hfree : ∀ c ∈ source.toList, Marker.isSign c = false)
    (htidy : Span.Tidy spans) (hrange : ∀ s ∈ spans, 0 ≤ s.start ∧ s.stop ≤ source.length) :
    decode (annotate source spans) = .ok (Span.sort spans) := by
  have horderly := stream_orderly htidy
  have hsights : sightings (annotate source spans) = (stream [] spans).map sight := by
    refine sightings_eq_map_sight hfree fun m hm => ?_
    obtain ⟨s, role⟩ := m
    have hs : s ∈ spans := Marker.mem_stream.mp hm
    have hproper := htidy.proper s hs
    have := hrange s hs
    cases role <;> simp only [Marker.offset] <;> omega
  have hpairs := pairUp_sights (stream_pending spans) horderly fun s hs => (hrange s hs).1
  rw [decode, hsights]
  rw [held, List.map_nil] at hpairs
  rw [hpairs]
  exact congrArg Except.ok (Span.sort_eq_of_perm (closed_stream_perm [] spans))

/-! ### Lexed texts -/

/-- The spans of a run are some of the matches, in their order. -/
theorem lexed_sublist (config : Config) (source : String) :
    (Lexer.spans config source).Sublist
      (Matching.spansOfAll source.toList.toArray config.categories) := by
  have hsorted : (Matching.spansOfAll source.toList.toArray config.categories).Pairwise
      Span.Precedes := Span.sort_precedes _
  have hkept := Resolution.resolve_spans_sublist config.rules config.repairs hsorted
  rw [Lexer.spans, Run.spans, Lexer.run, Span.sort_eq_self (hsorted.sublist hkept)]
  exact hkept

theorem lexed_tidy (config : Config) (source : String) : Span.Tidy (Lexer.spans config source) :=
  (Matching.spansOfAll_tidy _ _).sublist (lexed_sublist config source)

theorem lexed_range {config : Config} {source : String} (hs : s ∈ Lexer.spans config source) :
    0 ≤ s.start ∧ s.stop ≤ source.length := by
  obtain ⟨-, hs⟩ := Matching.mem_spansOfAll.mp ((lexed_sublist config source).mem hs)
  obtain ⟨i, j, heq, hm⟩ := Matching.matched_of_mem hs
  have hle : j ≤ source.length := String.length_toList ▸ hm.le_size
  rw [heq]
  exact ⟨Int.natCast_nonneg i, Int.ofNat_le.mpr hle⟩

theorem map_span_tokenize (config : Config) (source : String) (sourceFile : Option String) :
    (Lexer.tokenize config source sourceFile).map Token.span = Lexer.spans config source := by
  rw [Lexer.tokenize, Lexer.tokensOf, List.map_map]
  exact List.map_id _

/-- A text without markers can be annotated and read back: what was lexed gives the spans of its
tokens, and any spans within the text, those of one category apart, come back in document order. -/
theorem decode_annotate (source : String)
    (hfree : ∀ c ∈ source.toList, Marker.isSign c = false) :
    (∀ (config : Config) (sourceFile : Option String),
      decode (Lexer.lex config source) = .ok (Lexer.spans config source) ∧
        (Lexer.tokenize config source sourceFile).map Token.span = Lexer.spans config source) ∧
      ∀ spans : List Span,
        (∀ s ∈ spans, 0 ≤ s.start ∧ s.start < s.stop ∧ s.stop ≤ source.length) →
        (spans.Pairwise fun a b => a.category = b.category → ¬ a.Overlaps b) →
        decode (annotate source spans) = .ok (Span.sort spans) := by
  refine ⟨fun config sourceFile => ⟨?_, map_span_tokenize config source sourceFile⟩, ?_⟩
  · rw [Lexer.lex, decode_annotate_of_tidy hfree (lexed_tidy config source) fun s => lexed_range]
    exact congrArg Except.ok (Span.sort_sort _)
  · intro spans hrange hapart
    refine decode_annotate_of_tidy hfree ⟨fun s hs => (hrange s hs).2.1, hapart⟩ ?_
    exact fun s hs => ⟨(hrange s hs).1, (hrange s hs).2.2⟩

/-- Spans that touch, cross, nest and coincide, given out of order. -/
theorem decode_annotate_crossing :
    (∀ c ∈ "abcd".toList, Marker.isSign c = false) ∧
      decode (annotate "abcd" [⟨.identifier, 2, 4⟩, ⟨.keyword, 1, 3⟩, ⟨.string, 0, 4⟩,
        ⟨.identifier, 0, 2⟩, ⟨.character, 0, 4⟩]) =
      .ok (Span.sort [⟨.identifier, 2, 4⟩, ⟨.keyword, 1, 3⟩, ⟨.string, 0, 4⟩,
        ⟨.identifier, 0, 2⟩, ⟨.character, 0, 4⟩]) := by
  have hfree : ∀ c ∈ "abcd".toList, Marker.isSign c = false := by
    simp [Marker.isSign, Marker.read?, Category.all]
  exact ⟨hfree, (decode_annotate "abcd" hfree).2 _ (by decide) (by decide)⟩

end Lexeme.Markup
