import Lexeme.Proofs.Html.Reading
import Lexeme.Proofs.Stripping

/-! The text of rendered HTML. A tag goes from an angle bracket to the next closing one, whatever is
written in between; neither an escaped text nor an escaped class holds either bracket. Main
statement: without its tags a rendered source is the escaped source, from which the source can be
read. -/

namespace Lexeme.Html

variable {st : Style} {cs : List Char}

/-- The text without its tags, where `tag` has been read of a tag that is not over. A tag that has
no end is none. -/
def untagFrom : Option (List Char) → List Char → List Char
  | none, [] => []
  | some tag, [] => '<' :: tag
  | none, c :: cs => if c = '<' then untagFrom (some []) cs else c :: untagFrom none cs
  | some tag, c :: cs => if c = '>' then untagFrom none cs else untagFrom (some (tag ++ [c])) cs

/-- A text with every tag deleted. -/
def untag (html : String) : String := String.ofList (untagFrom none html.toList)

example : untag "a<b c=\"<\">d</b>&lt;<e" = "ad&lt;<e" := by decide

/-! ### Tags and characters -/

theorem untagFrom_chars (h : '<' ∉ cs) (rest : List Char) :
    untagFrom none (cs ++ rest) = cs ++ untagFrom none rest := by
  induction cs with
  | nil => rfl
  | cons c cs ih =>
    simp only [List.mem_cons, not_or] at h
    rw [List.cons_append, untagFrom, if_neg (Ne.symm h.1), ih h.2, List.cons_append]

/-- Nothing is left of what stands before the end of a tag. -/
theorem untagFrom_tag (h : '>' ∉ cs) (tag rest : List Char) :
    untagFrom (some tag) (cs ++ '>' :: rest) = untagFrom none rest := by
  induction cs generalizing tag with
  | nil => rw [List.nil_append, untagFrom, if_pos rfl]
  | cons c cs ih =>
    simp only [List.mem_cons, not_or] at h
    rw [List.cons_append, untagFrom, if_neg (Ne.symm h.1), ih h.2]

theorem untagFrom_openTag (htag : '>' ∉ st.tag.toList) (k : Category) (rest : List Char) :
    untagFrom none (st.openTag k ++ rest) = untagFrom none rest := by
  have hinside : '>' ∉ st.tag.toList ++ " class=\"".toList ++
      (escape (st.className k)).toList ++ ['"'] := by
    simp only [List.mem_append, not_or]
    exact ⟨⟨⟨htag, by decide⟩, fun hmem => by simpa using escape_safe hmem⟩, by decide⟩
  have htext : st.openTag k ++ rest = '<' :: ((st.tag.toList ++ " class=\"".toList ++
      (escape (st.className k)).toList ++ ['"']) ++ '>' :: rest) := by
    simp only [Style.openTag, List.cons_append, List.append_assoc, List.nil_append]
  rw [htext, untagFrom, if_pos rfl, untagFrom_tag hinside]

theorem untagFrom_closeTag (htag : '>' ∉ st.tag.toList) (rest : List Char) :
    untagFrom none (st.closeTag ++ rest) = untagFrom none rest := by
  have hinside : '>' ∉ '/' :: st.tag.toList := by
    simpa using htag
  have htext : st.closeTag ++ rest = '<' :: (('/' :: st.tag.toList) ++ '>' :: rest) := by
    simp only [Style.closeTag, List.cons_append, List.append_assoc, List.nil_append]
  rw [htext, untagFrom, if_pos rfl, untagFrom_tag hinside]

/-! ### What is rendered -/

/-- Of one character of an annotated text its escaped form is left, and of a marker nothing. -/
theorem untagFrom_renderChar (htag : '>' ∉ st.tag.toList) (hesc : st.escapes = true) (c : Char)
    (rest : List Char) :
    untagFrom none (st.renderChar c ++ rest) =
      (if Marker.isSign c then [] else escapeChar c) ++ untagFrom none rest := by
  unfold Style.renderChar Marker.isSign
  cases Marker.read? c with
  | none =>
    dsimp only
    rw [if_pos hesc]
    exact untagFrom_chars (fun hmem => by simpa using escapeChar_safe hmem) rest
  | some m =>
    obtain ⟨k, role⟩ := m
    cases role with
    | opening => exact untagFrom_openTag htag k rest
    | closing => exact untagFrom_closeTag htag rest

/-- Without its tags a rendered text is the text without its markers, escaped. -/
theorem untag_render (st : Style) (htag : '>' ∉ st.tag.toList) (hesc : st.escapes = true)
    (annotated : String) : untag (st.render annotated) = escape (Markup.strip annotated) := by
  rw [untag, Style.render_eq_flatMap, escape, Markup.strip, String.toList_ofList,
    String.toList_ofList]
  congr 1
  induction annotated.toList with
  | nil => rfl
  | cons c cs ih =>
    rw [List.flatMap_cons, untagFrom_renderChar htag hesc, ih]
    cases hc : Marker.isSign c <;> simp [hc]

/-! ### Escaped texts -/

/-- Every `a` of a text replaced by `w`. -/
def replaceAll (a : Char) (w : String) (cs : List Char) : List Char :=
  cs.flatMap fun c => if c = a then w.toList else [c]

/-- One replacement after another, each throughout what the last one left. -/
def replaceEach (es : List (Char × String)) (cs : List Char) : List Char :=
  es.foldl (fun cs e => replaceAll e.1 e.2 cs) cs

/-- The characters that are escaped. The ampersand comes first, since the others bring new ones. -/
def entities : List (Char × String) :=
  [('&', "&amp;"), ('<', "&lt;"), ('>', "&gt;"), ('"', "&quot;")]

theorem replaceEach_append (es : List (Char × String)) (cs ds : List Char) :
    replaceEach es (cs ++ ds) = replaceEach es cs ++ replaceEach es ds := by
  induction es generalizing cs ds with
  | nil => rfl
  | cons e es ih =>
    have hfirst : replaceAll e.1 e.2 (cs ++ ds) = replaceAll e.1 e.2 cs ++ replaceAll e.1 e.2 ds :=
      List.flatMap_append
    simp only [replaceEach, List.foldl_cons, hfirst]
    exact ih _ _

theorem replaceEach_singleton {es : List (Char × String)} {c : Char} (h : ∀ e ∈ es, c ≠ e.1) :
    replaceEach es [c] = [c] := by
  induction es with
  | nil => rfl
  | cons e es ih =>
    have hfirst : replaceAll e.1 e.2 [c] = [c] := by
      simp [replaceAll, h e List.mem_cons_self]
    rw [replaceEach, List.foldl_cons, hfirst]
    exact ih fun e he => h e (List.mem_cons_of_mem _ he)

theorem replaceEach_entities (c : Char) : replaceEach entities [c] = escapeChar c := by
  rcases escapeChar_cases c with hc | ⟨hc, he⟩
  · simp only [List.mem_cons, List.not_mem_nil, or_false] at hc
    rcases hc with rfl | rfl | rfl | rfl <;> decide
  · rw [he]
    refine replaceEach_singleton fun e hmem heq => hc ?_
    rw [heq]
    exact List.mem_map_of_mem (f := Prod.fst) hmem

/-- A text is escaped by one replacement after another throughout the text. -/
theorem escape_eq_replaceEach (text : String) :
    escape text = String.ofList (replaceEach entities text.toList) := by
  rw [escape]
  congr 1
  induction text.toList with
  | nil => rfl
  | cons c cs ih =>
    rw [List.flatMap_cons, ih, ← replaceEach_entities, ← replaceEach_append]
    rfl

theorem escape_injective : Function.Injective escape := by
  intro a b h
  have hchars := congrArg (fun s => unescape s.toList) h
  simp only [escape, String.toList_ofList, unescape_escape] at hchars
  exact String.toList_inj.mp hchars

/-- A rendered source without markers is the escaped source with tags in it, under all settings and
for all class names. A text is escaped by replacing one special character after another; then it
can hold no tag and no attribute, and what it decodes to is the text. -/
theorem untag_render_source :
    (∀ (config : Config) (classes : List (Category × String)) (source : String),
      (∀ c ∈ source.toList, Marker.isSign c = false) →
        untag (Lexer.render config classes source) = escape source) ∧
      (∀ source : String,
        escape source = String.ofList (replaceEach entities source.toList) ∧
          (∀ d ∈ (escape source).toList, d ∉ ['<', '>', '"']) ∧
          String.ofList (unescape (escape source).toList) = source) ∧
      Function.Injective escape := by
  refine ⟨fun config classes source hfree => ?_,
    fun source => ⟨escape_eq_replaceEach source, fun d => escape_safe, ?_⟩, escape_injective⟩
  · have hstrip : Markup.strip (Lexer.lex config source) = source := by
      rw [Markup.strip, Lexer.lex, Markup.annotate, String.toList_ofList, Markup.filter_weave,
        Markup.filter_eq_self_of_free hfree, String.ofList_toList]
    have htag : '>' ∉ Style.standard.tag.toList := by decide
    have hrender : untag (Lexer.render config classes source) =
        escape (Markup.strip (Lexer.lex config source)) :=
      untag_render { Style.standard with classes } htag rfl _
    rw [hrender, hstrip]
  · rw [escape, String.toList_ofList, unescape_escape, String.ofList_toList]

/-- A string literal and a character constant cross, the class of one tries to close its tag, and
the source has an entity in it. -/
theorem untag_render_source_crossing :
    (∀ c ∈ "\"<'\"&lt;'".toList, Marker.isSign c = false) ∧
      (Lexer.spans ⟨Category.all, [], .bool false⟩ "\"<'\"&lt;'").contains ⟨.string, 0, 4⟩ ∧
      (Lexer.spans ⟨Category.all, [], .bool false⟩ "\"<'\"&lt;'").contains ⟨.character, 2, 9⟩ ∧
      untag (Lexer.render ⟨Category.all, [], .bool false⟩ [(.string, "x\"></span>")]
        "\"<'\"&lt;'") = "&quot;&lt;'&quot;&amp;lt;'" := by
  have hfree : ∀ c ∈ "\"<'\"&lt;'".toList, Marker.isSign c = false := by
    simp [Marker.isSign, Marker.read?, Category.all]
  refine ⟨hfree, by decide, by decide, ?_⟩
  rw [untag_render_source.1 _ _ _ hfree]
  decide

end Lexeme.Html
