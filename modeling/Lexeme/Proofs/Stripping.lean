import Lexeme.Lexer
import Lexeme.Proofs.Stream

/-! Markers are laid into a text and nothing else happens to it. The text stays whole and in its
order whatever the spans are, and each span brings its two markers. Main statement: a text without
its markers is the same before and after it was annotated. -/

namespace Lexeme.Markup

open Marker (isSign sign signOf signOf_inj pairs)
open scoped List

variable {ms ms' : List Marker} {cs ds : List Char}

/-! ### What is left without the markers -/

/-- The characters of a text that are no markers. -/
def unmarked (cs : List Char) : List Char := cs.filter fun x => !isSign x

theorem unmarked_append (cs ds : List Char) : unmarked (cs ++ ds) = unmarked cs ++ unmarked ds :=
  List.filter_append cs ds

theorem unmarked_plain {x : Char} (h : Marker.read? x = none) (cs : List Char) :
    unmarked (x :: cs) = x :: unmarked cs := by
  simp [unmarked, isSign, h]

theorem unmarked_sign (c : Category) (r : Role) (cs : List Char) :
    unmarked (signOf c r :: cs) = unmarked cs := by
  simp [unmarked]

theorem length_eq_countP_add (cs : List Char) :
    cs.length = cs.countP isSign + (unmarked cs).length := by
  rw [unmarked, ← List.countP_eq_length_filter]
  simpa using List.length_eq_countP_add_countP isSign (l := cs)

theorem toList_strip (text : String) : (strip text).toList = unmarked text.toList :=
  String.toList_ofList

/-- Induction over a text by its first character, which is a marker or none. -/
@[elab_as_elim] theorem marked_rec {motive : List Char → Prop} (nil : motive [])
    (plain : ∀ x cs, Marker.read? x = none → motive cs → motive (x :: cs))
    (sign : ∀ c r cs, motive cs → motive (signOf c r :: cs)) (cs : List Char) : motive cs := by
  induction cs with
  | nil => exact nil
  | cons x cs ih =>
    cases hx : Marker.read? x with
    | none => exact plain x cs hx ih
    | some m =>
      rw [Marker.eq_signOf hx]
      exact sign m.1 m.2 cs ih

/-! ### One text woven with markers -/

theorem filter_eq_self_of_free (h : ∀ c ∈ cs, isSign c = false) :
    (cs.filter fun c => !isSign c) = cs :=
  List.filter_eq_self.mpr fun c hc => by simp [h c hc]

theorem filter_weave (pos : Int) (cs : List Char) (ms : List Marker) :
    (weave pos cs ms).filter (fun c => !isSign c) = cs.filter fun c => !isSign c := by
  induction ms generalizing pos cs with
  | nil => rfl
  | cons m ms ih =>
    simp only [weave, sign, List.filter_append, List.filter_cons, Marker.isSign_signOf, ih]
    simp [← List.filter_append]

/-- A woven text has the characters of the text and one sign for every marker. -/
theorem weave_perm (pos : Int) (cs : List Char) (ms : List Marker) :
    weave pos cs ms ~ cs ++ ms.map sign := by
  induction ms generalizing pos cs with
  | nil => simp [weave]
  | cons m ms ih =>
    rw [weave, List.map_cons]
    generalize (m.offset - pos).toNat = n
    calc cs.take n ++ m.sign :: weave (max pos m.offset) (cs.drop n) ms
      _ ~ cs.take n ++ m.sign :: (cs.drop n ++ ms.map sign) := ((ih _ _).cons _).append_left _
      _ ~ m.sign :: (cs.take n ++ (cs.drop n ++ ms.map sign)) := List.perm_middle
      _ = m.sign :: (cs ++ ms.map sign) := by rw [← List.append_assoc, List.take_append_drop]
      _ ~ cs ++ m.sign :: ms.map sign := List.perm_middle.symm

theorem weave_of_behind (pos : Int) (h : ∀ m ∈ ms, pos + cs.length ≤ m.offset) :
    weave pos (cs ++ ds) ms = cs ++ weave (pos + cs.length) ds ms := by
  cases ms with
  | nil => rfl
  | cons m ms =>
    have hm := h m List.mem_cons_self
    have hn : (m.offset - pos).toNat = cs.length + (m.offset - (pos + cs.length)).toNat := by omega
    rw [weave, weave, hn, List.take_append, List.drop_append,
      List.take_of_length_le (Nat.le_add_right _ _), List.drop_of_length_le (Nat.le_add_right _ _),
      Nat.add_sub_cancel_left, List.nil_append, List.append_assoc,
      show max pos m.offset = max (pos + cs.length) m.offset by omega]

/-- Markers of the first part of a text are laid into that part. -/
theorem weave_append (pos : Int) (h : ∀ m ∈ ms, m.offset ≤ pos + cs.length)
    (h' : ∀ m ∈ ms', pos + cs.length ≤ m.offset) :
    weave pos (cs ++ ds) (ms ++ ms') = weave pos cs ms ++ weave (pos + cs.length) ds ms' := by
  induction ms generalizing pos cs with
  | nil => exact weave_of_behind pos h'
  | cons m ms ih =>
    have hm := h m List.mem_cons_self
    have hn : (m.offset - pos).toNat ≤ cs.length := by omega
    have hpos : max pos m.offset + (cs.drop (m.offset - pos).toNat).length = pos + cs.length := by
      rw [List.length_drop]
      omega
    have hleft : ∀ x ∈ ms,
        x.offset ≤ max pos m.offset + (cs.drop (m.offset - pos).toNat).length := by
      intro x hx
      rw [hpos]
      exact h x (List.mem_cons_of_mem m hx)
    have hright : ∀ x ∈ ms',
        max pos m.offset + (cs.drop (m.offset - pos).toNat).length ≤ x.offset := by
      intro x hx
      rw [hpos]
      exact h' x hx
    have hrest := ih _ hleft hright
    rw [hpos] at hrest
    rw [List.cons_append, weave, weave, List.take_append_of_le_length hn,
      List.drop_append_of_le_length hn, hrest, List.append_assoc, List.cons_append]

/-! ### The signs of a list of spans -/

theorem length_pairs (spans : List Span) : (pairs spans).length = 2 * spans.length := by
  induction spans with
  | nil => rfl
  | cons s spans ih =>
    change (pairs spans).length + 2 = _
    rw [ih, List.length_cons]
    omega

/-- Each span has one marker of either role, with the sign of its category. -/
theorem count_sign_pairs (spans : List Span) (c : Category) (r : Role) :
    ((pairs spans).map sign).count (signOf c r) = spans.countP (·.category = c) := by
  induction spans with
  | nil => rfl
  | cons s spans ih =>
    change (signOf s.category .opening :: signOf s.category .closing ::
      (pairs spans).map sign).count (signOf c r) = _
    rw [List.count_cons, List.count_cons, ih, List.countP_cons]
    by_cases hc : s.category = c <;> cases r <;> simp [signOf_inj, hc]

theorem annotate_perm (source : String) (spans : List Span) :
    (annotate source spans).toList ~ source.toList ++ (pairs spans).map sign := by
  rw [annotate, String.toList_ofList]
  exact (weave_perm 0 source.toList _).trans
    (((Marker.stream_perm [] spans).map sign).append_left source.toList)

theorem strip_eq_self {source : String} (h : ∀ c ∈ source.toList, isSign c = false) :
    strip source = source := by
  rw [strip, filter_eq_self_of_free h, String.ofList_toList]

theorem strip_annotate_of_free {source : String} (h : ∀ c ∈ source.toList, isSign c = false)
    (spans : List Span) : strip (annotate source spans) = source := by
  rw [strip, annotate, String.toList_ofList, filter_weave]
  exact strip_eq_self h

/-! ### Annotated texts -/

/-- An annotated text is its source with two markers for every span, one of either role, whatever
the spans are; so a lexed text without its markers is the source, if that had none. -/
theorem strip_annotate (source : String) :
    (∀ spans : List Span,
      strip (annotate source spans) = strip source ∧
        (annotate source spans).toList.countP isSign =
          source.toList.countP isSign + 2 * spans.length ∧
        ∀ c r, (annotate source spans).toList.count (signOf c r) =
          source.toList.count (signOf c r) + spans.countP (·.category = c)) ∧
      ((∀ c ∈ source.toList, isSign c = false) →
        ∀ config : Config, strip (Lexer.lex config source) = source) := by
  have hstrip : ∀ spans, strip (annotate source spans) = strip source := by
    intro spans
    rw [strip, annotate, String.toList_ofList, filter_weave, strip]
  refine ⟨fun spans => ⟨hstrip spans, ?_, fun c r => ?_⟩, fun hfree config => ?_⟩
  · have hsigns : ((pairs spans).map sign).countP isSign = (pairs spans).length := by
      rw [List.countP_map, List.countP_eq_length]
      exact fun m _ => Marker.isSign_signOf _ _
    rw [(annotate_perm source spans).countP_eq, List.countP_append, hsigns, length_pairs]
  · rw [(annotate_perm source spans).count_eq, List.count_append, count_sign_pairs]
  · rw [Lexer.lex, hstrip, strip_eq_self hfree]

/-- A span that ends before the text, begins behind it and is there twice. -/
theorem strip_annotate_inverted :
    (∀ c ∈ "x=1".toList, isSign c = false) ∧
      strip (annotate "x=1" [⟨.string, 9, -2⟩, ⟨.string, 9, -2⟩]) = strip "x=1" ∧
      strip (Lexer.lex .standard "x=1") = "x=1" := by
  have hfree : ∀ c ∈ "x=1".toList, isSign c = false := by
    simp [isSign, Marker.read?, Category.all]
  exact ⟨hfree, ((strip_annotate "x=1").1 _).1, (strip_annotate "x=1").2 hfree .standard⟩

end Lexeme.Markup
