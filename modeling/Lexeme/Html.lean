import Lexeme.Marker

/-! Annotated texts as HTML: every marker becomes a tag, and the text between them is escaped. Main
statement: going from marker to marker amounts to a translation character by character. -/

namespace Lexeme.Html

/-- Replaces the characters that could open a tag, an entity or an attribute. -/
def escapeChar : Char → List Char
  | '&' => "&amp;".toList
  | '<' => "&lt;".toList
  | '>' => "&gt;".toList
  | '"' => "&quot;".toList
  | c => [c]

def escape (text : String) : String := String.ofList (text.toList.flatMap escapeChar)

/-- How tokens are tagged: class names that differ from the usual ones, whether text is escaped, and
the name of the element. -/
structure Style where
  classes : List (Category × String)
  escapes : Bool
  tag : String
deriving DecidableEq, Repr

namespace Style

def standard : Style := ⟨[], true, "span"⟩

def className (st : Style) (c : Category) : String :=
  (st.classes.lookup c).getD c.styleClass

def openTag (st : Style) (c : Category) : List Char :=
  '<' :: st.tag.toList ++ " class=\"".toList ++ (escape (st.className c)).toList ++ ['"', '>']

def closeTag (st : Style) : List Char := '<' :: '/' :: st.tag.toList ++ ['>']

/-- What a marker becomes; no other character is a tag. -/
def tagOf (st : Style) (c : Char) : List Char :=
  match Marker.read? c with
  | some (k, .opening) => st.openTag k
  | some (_, .closing) => st.closeTag
  | none => []

/-- Text that stands between markers. -/
def copied (st : Style) (cs : List Char) : List Char :=
  if st.escapes then cs.flatMap escapeChar else cs

/-- The markers of a text with their positions, where the first character stands at `i`. -/
def signsFrom : Nat → List Char → List (Nat × Char)
  | _, [] => []
  | i, c :: cs => if Marker.isSign c then (i, c) :: signsFrom (i + 1) cs else signsFrom (i + 1) cs

/-- Goes from marker to marker. The text before a marker begins at `pos`, behind the last one. -/
def renderFrom (st : Style) (cs : List Char) : Nat → List (Nat × Char) → List Char
  | pos, [] => if pos < cs.length then st.copied (cs.drop pos) else []
  | pos, (i, c) :: signs =>
    (if pos < i then st.copied ((cs.take i).drop pos) else []) ++
      (st.tagOf c ++ renderFrom st cs (i + 1) signs)

/-- An annotated text as HTML. -/
def render (st : Style) (annotated : String) : String :=
  String.ofList (st.renderFrom annotated.toList 0 (signsFrom 0 annotated.toList))

/-! ### Character by character -/

/-- What one character of an annotated text becomes. -/
def renderChar (st : Style) (c : Char) : List Char :=
  match Marker.read? c with
  | some (k, .opening) => st.openTag k
  | some (_, .closing) => st.closeTag
  | none => if st.escapes then escapeChar c else [c]

variable {st : Style}

theorem renderChar_of_isSign {c : Char} (h : Marker.isSign c = true) :
    st.renderChar c = st.tagOf c := by
  obtain ⟨⟨k, role⟩, hc⟩ := Option.isSome_iff_exists.mp h
  cases role <;> simp [renderChar, tagOf, hc]

theorem copied_eq_flatMap {cs : List Char} (h : ∀ c ∈ cs, Marker.isSign c = false) :
    st.copied cs = cs.flatMap st.renderChar := by
  induction cs with
  | nil => simp [copied]
  | cons c cs ih =>
    obtain ⟨hc, hcs⟩ := List.forall_mem_cons.mp h
    rw [List.flatMap_cons, ← ih hcs, renderChar, Marker.read?_eq_none hc]
    cases hesc : st.escapes <;> simp [copied, hesc]

/-- Whether a passage is left out when it is empty makes no difference. -/
theorem ite_copied {P : Prop} [Decidable P] {cs : List Char} (h : ¬ P → cs = []) :
    (if P then st.copied cs else []) = st.copied cs := by
  split
  · rfl
  · next hP => simp [h hP, copied]

/-- From the end of a marker on, where `plain` has been passed since. -/
theorem renderFrom_eq_flatMap (past plain cs : List Char)
    (hplain : ∀ c ∈ plain, Marker.isSign c = false) :
    st.renderFrom (past ++ plain ++ cs) past.length
        (signsFrom (past.length + plain.length) cs) = (plain ++ cs).flatMap st.renderChar := by
  induction cs generalizing past plain with
  | nil =>
    rw [signsFrom, renderFrom, List.append_nil, List.append_nil, List.drop_left, ite_copied,
      copied_eq_flatMap hplain]
    intro hlen
    simpa using hlen
  | cons c cs ih =>
    rw [signsFrom]
    split
    · next hc =>
      have htake :
          (past ++ plain ++ c :: cs).take (past.length + plain.length) = past ++ plain := by
        rw [← List.length_append, List.take_left]
      have hrest := ih (past ++ plain ++ [c]) [] (List.forall_mem_nil _)
      rw [List.append_nil, ← List.append_cons, List.length_append, List.length_append] at hrest
      rw [renderFrom, htake, List.drop_left, ite_copied, copied_eq_flatMap hplain,
        List.flatMap_append, List.flatMap_cons, renderChar_of_isSign hc]
      · exact congrArg (fun w => _ ++ (_ ++ w)) hrest
      · intro hlen
        exact List.eq_nil_of_length_eq_zero (by omega)
    · next hc =>
      have hmore : ∀ d ∈ plain ++ [c], Marker.isSign d = false := by
        simpa [or_imp, forall_and] using And.intro hplain hc
      have hrest := ih past (plain ++ [c]) hmore
      rwa [List.length_append, ← List.append_assoc, ← List.append_cons, ← List.append_cons] at hrest

theorem render_eq_flatMap (st : Style) (annotated : String) :
    st.render annotated = String.ofList (annotated.toList.flatMap st.renderChar) :=
  congrArg String.ofList (renderFrom_eq_flatMap [] [] annotated.toList (List.forall_mem_nil _))

end Style

end Lexeme.Html
