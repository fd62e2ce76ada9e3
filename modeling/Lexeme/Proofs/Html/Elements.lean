import Lexeme.Proofs.Html.Reading
import Lexeme.Proofs.Laminar
import Lexeme.Proofs.Nested

/-! The elements of a rendered source are its tokens. Spans of which each is over or encloses the
later ones nest like brackets: the markers of those inside a span stand between its own two. Main
statement: the tags of a rendered source match, and in the order of their opening tags the elements
have the classes and the values of the tokens. -/

namespace Lexeme

/-! ### Elements -/

namespace Html

/-- An element by its class as it is written and by its decoded text. -/
structure Element where
  className : String
  text : String
deriving DecidableEq, Repr

/-- The pieces up to the closing tag that matches, where `depth` inner elements are open. -/
def bodyFrom : Nat → List Piece → Option (List Piece)
  | _, [] => none
  | 0, .closing :: _ => some []
  | depth + 1, .closing :: ps => (bodyFrom depth ps).map (.closing :: ·)
  | depth, .opening name :: ps => (bodyFrom (depth + 1) ps).map (.opening name :: ·)
  | depth, .char c :: ps => (bodyFrom depth ps).map (.char c :: ·)

/-- The element that has the given class and body. -/
def Element.ofBody (name : List Char) (body : List Piece) : Element :=
  ⟨String.ofList name, String.ofList (unescape (Html.text body))⟩

/-- The elements in the order of their opening tags, where `depth` elements are open. A closing tag
needs an open element, and in the end none may be left. -/
def elementsFrom : Nat → List Piece → Option (List Element)
  | 0, [] => some []
  | _ + 1, [] => none
  | 0, .closing :: _ => none
  | depth + 1, .closing :: ps => elementsFrom depth ps
  | depth, .opening name :: ps =>
    (bodyFrom 0 ps).bind fun body =>
      (elementsFrom (depth + 1) ps).map (.ofBody name body :: ·)
  | depth, .char _ :: ps => elementsFrom depth ps

/-- The elements of a text whose tags match as brackets. -/
def elements? (html : String) : Option (List Element) :=
  (piecesFrom none html.toList).bind (elementsFrom 0)

example : elements? "<span class=\"a\">x<span class=\"b\">&lt;</span></span>" =
    some [⟨"a", "x<"⟩, ⟨"b", "<"⟩] := by decide

example : elements? "<span class=\"a\">x</span></span>" = none := by decide

/-- Pieces whose tags match as brackets, with their elements in the order of the opening tags. -/
inductive Forest : List Piece → List Element → Prop
  | nil : Forest [] []
  | char {ps : List Piece} {es : List Element} (c : Char) :
      Forest ps es → Forest (.char c :: ps) es
  | element {body ps : List Piece} {inside es : List Element} (name : List Char) :
      Forest body inside → Forest ps es →
        Forest (.opening name :: (body ++ .closing :: ps)) (.ofBody name body :: (inside ++ es))

variable {ps : List Piece} {es : List Element}

theorem Forest.chars (h : Forest ps es) (cs : List Char) : Forest (cs.map .char ++ ps) es := by
  induction cs with
  | nil => exact h
  | cons c cs ih => exact .char c ih

/-- A closing tag behind matching tags is not theirs. -/
theorem Forest.bodyFrom_append (h : Forest ps es) (depth : Nat) (rest : List Piece) :
    bodyFrom depth (ps ++ rest) = (bodyFrom depth rest).map (ps ++ ·) := by
  induction h generalizing depth rest with
  | nil => simp
  | char c _ ih =>
    rw [List.cons_append, bodyFrom, ih, Option.map_map]
    rfl
  | element name _ _ ihbody ih =>
    rw [List.cons_append, List.append_assoc, List.cons_append, bodyFrom, ihbody, bodyFrom, ih]
    simp [Option.map_map, Function.comp_def]

theorem Forest.elementsFrom_append (h : Forest ps es) (depth : Nat) (rest : List Piece) :
    elementsFrom depth (ps ++ rest) = (elementsFrom depth rest).map (es ++ ·) := by
  induction h generalizing depth rest with
  | nil => simp
  | char c _ ih => rw [List.cons_append, elementsFrom, ih]
  | element name hbody _ ihbody ih =>
    rw [List.cons_append, List.append_assoc, List.cons_append, elementsFrom,
      hbody.bodyFrom_append, bodyFrom, ihbody, elementsFrom, ih]
    simp [Option.map_map, Function.comp_def]

/-- Matching tags are read as the elements that they are. -/
theorem Forest.elementsFrom_eq (h : Forest ps es) : elementsFrom 0 ps = some es := by
  have hread := h.elementsFrom_append 0 []
  simpa [elementsFrom] using hread

/-! ### Nested spans as elements -/

open Markup (between weave)
open Marker (isSign signOf stream)

variable {st : Style} {cs : List Char} {spans : List Span} {lo hi : Int}

@[simp] theorem pieces_opening (st : Style) (k : Category) :
    st.pieces (signOf k .opening) = [.opening (escape (st.className k)).toList] := by
  simp [Style.pieces]

@[simp] theorem pieces_closing (st : Style) (k : Category) :
    st.pieces (signOf k .closing) = [.closing] := by
  simp [Style.pieces]

/-- A text without markers has no tags. -/
theorem Forest.plain (h : Forest ps es) (hfree : ∀ c ∈ cs, isSign c = false) :
    Forest (cs.flatMap st.pieces ++ ps) es := by
  induction cs with
  | nil => exact h
  | cons c cs ih =>
    have hread : Marker.read? c = none := Marker.read?_eq_none (hfree c List.mem_cons_self)
    have hpieces : st.pieces c = (escapeChar c).map .char := by rw [Style.pieces, hread]
    rw [List.flatMap_cons, hpieces, List.append_assoc]
    exact (ih fun d hd => hfree d (List.mem_cons_of_mem c hd)).chars _

/-- The element of a span of a text. -/
def elementOf (st : Style) (cs : List Char) (s : Span) : Element :=
  ⟨escape (st.className s.category), String.ofList (between cs s.start s.stop)⟩

/-- An element holds the text that its tags are woven into. -/
theorem ofBody_weave (hfree : ∀ c ∈ cs, isSign c = false) (name : String) (pos : Int)
    (ms : List Marker) :
    Element.ofBody name.toList ((weave pos cs ms).flatMap st.pieces) =
      ⟨name, String.ofList cs⟩ := by
  rw [Element.ofBody, text_pieces, Markup.filter_weave, Markup.filter_eq_self_of_free hfree,
    unescape_escape, String.ofList_toList]

/-- A text woven with nested spans has an element for each of them. -/
theorem forest_weave (st : Style) (h : Span.Nested lo hi spans) (hlo : 0 ≤ lo)
    (hhi : hi ≤ cs.length) (hfree : ∀ c ∈ cs, isSign c = false) :
    Forest ((weave lo (between cs lo hi) (stream [] spans)).flatMap st.pieces)
      (spans.map (elementOf st cs)) := by
  have hpart : ∀ i j, ∀ c ∈ between cs i j, isSign c = false :=
    fun i j c hc => hfree c (Markup.mem_of_mem_between hc)
  induction h with
  | @nil lo hi hle =>
    have hforest : Forest ((between cs lo hi).flatMap st.pieces ++ []) [] :=
      .plain .nil (hpart lo hi)
    rwa [List.append_nil] at hforest
  | @cons lo hi s inside behind hs hlt hsame hin hbehind ihin ih =>
    have hle := hbehind.le
    have helement : elementOf st cs s = Element.ofBody (escape (st.className s.category)).toList
        ((weave s.start (between cs s.start s.stop) (stream [] inside)).flatMap st.pieces) :=
      (ofBody_weave (hpart _ _) _ _ _).symm
    rw [Markup.weave_nested hlo hhi hs hlt hsame hin hbehind]
    simp only [List.flatMap_append, List.flatMap_cons, pieces_opening, pieces_closing,
      List.singleton_append, List.map_cons, List.map_append, helement]
    refine Forest.plain (.element _ ?_ ?_) (hpart _ _)
    · exact ihin (by omega) (by omega)
    · exact ih (by omega) hhi

end Html

/-! ### Tokens as elements -/

namespace Lexer

theorem text_eq_between {source : String} {s : Span} (h0 : 0 ≤ s.start) (hle : s.start ≤ s.stop)
    (hstop : s.stop ≤ source.length) :
    s.text source.toList.toArray =
      String.ofList (Markup.between source.toList s.start s.stop) := by
  refine Span.text_eq_take_drop h0 hle ?_
  rwa [List.size_toArray, String.length_toList]

/-- The spans of a run with repair nest within the source. -/
theorem lexed_nested {config : Config} (h : config.repairs = true) (source : String) :
    Span.Nested 0 source.length (spans config source) := by
  refine Span.nested_of_endsOrEncloses (Span.sort_precedes _) (lexed_endsOrEncloses h source)
    (Int.natCast_nonneg _) fun s hs => ?_
  have hrange := Markup.lexed_range hs
  exact ⟨hrange.1, (Markup.lexed_tidy config source).proper s hs, hrange.2⟩

/-- The tags of a rendered source without markers match as brackets. There is one element for every
token, in the order of the tokens, with the escaped class of its category and with its value as the
text. -/
theorem elements_render (config : Config) (hrepair : config.repairs = true) (source : String)
    (hfree : ∀ c ∈ source.toList, Marker.isSign c = false) (classes : List (Category × String))
    (sourceFile : Option String) :
    Html.elements? (render config classes source) =
      some ((tokenize config source sourceFile).map fun t =>
        ⟨Html.escape ((classes.lookup t.category).getD t.category.styleClass), t.value⟩) := by
  have hlen : source.toList.length = source.length := String.length_toList
  have hwhole : Markup.between source.toList 0 source.length = source.toList := by
    simp [Markup.between, ← hlen]
  have hforest := Html.forest_weave { Html.Style.standard with classes }
    (lexed_nested hrepair source) (Int.le_refl 0) (Int.ofNat_le.mpr hlen.ge) hfree
  rw [hwhole] at hforest
  rw [render, Html.elements?, Html.piecesFrom_render rfl rfl, Option.bind_some, lex,
    Markup.annotate, String.toList_ofList, hforest.elementsFrom_eq, tokenize, tokensOf,
    List.map_map]
  congr 1
  refine List.map_congr_left fun s hs => ?_
  have hrange := Markup.lexed_range hs
  have hproper := (Markup.lexed_tidy config source).proper s hs
  have htext := text_eq_between hrange.1 (Int.le_of_lt hproper) hrange.2
  exact congrArg (Html.Element.mk _) htext.symm

/-- A string literal within a character constant, under a class that tries to close its tag. -/
theorem elements_render_quoted :
    Config.standard.repairs = true ∧ (∀ c ∈ "'\"<\"'".toList, Marker.isSign c = false) ∧
      Html.elements? (render .standard [(.string, "x\"></span>")] "'\"<\"'") =
        some [⟨"CONSTANTS_CHARACTER", "'\"<\"'"⟩, ⟨"x&quot;&gt;&lt;/span&gt;", "\"<\""⟩] := by
  have hfree : ∀ c ∈ "'\"<\"'".toList, Marker.isSign c = false := by
    simp [Marker.isSign, Marker.read?, Category.all]
  refine ⟨by decide, hfree, ?_⟩
  rw [elements_render .standard (by decide) _ hfree _ none]
  decide

end Lexer

end Lexeme
