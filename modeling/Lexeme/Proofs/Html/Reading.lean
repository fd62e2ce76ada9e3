import Lexeme.Html

/-! HTML read back. A text is cut into tags and characters, entities are decoded, and the tags are
matched as brackets, whatever wrote the text. Main statements: an escaped text is decoded to itself,
and what is rendered is cut where the markers stood. -/

namespace Lexeme.Html

/-! ### Entities -/

/-- The four entities that escaping writes are decoded; all else stands for itself. -/
def unescape : List Char → List Char
  | '&' :: 'a' :: 'm' :: 'p' :: ';' :: cs => '&' :: unescape cs
  | '&' :: 'l' :: 't' :: ';' :: cs => '<' :: unescape cs
  | '&' :: 'g' :: 't' :: ';' :: cs => '>' :: unescape cs
  | '&' :: 'q' :: 'u' :: 'o' :: 't' :: ';' :: cs => '"' :: unescape cs
  | c :: cs => c :: unescape cs
  | [] => []

theorem unescape_cons {c : Char} (h : c ≠ '&') (cs : List Char) :
    unescape (c :: cs) = c :: unescape cs := by
  rw [unescape] <;> simp [h]

/-- A character is one of the four that are written as entities, or written as it is. -/
theorem escapeChar_cases (c : Char) :
    c ∈ ['&', '<', '>', '"'] ∨ c ∉ ['&', '<', '>', '"'] ∧ escapeChar c = [c] := by
  unfold escapeChar
  split <;> simp_all

theorem unescape_escapeChar (c : Char) (cs : List Char) :
    unescape (escapeChar c ++ cs) = c :: unescape cs := by
  rcases escapeChar_cases c with h | ⟨h, he⟩
  · simp only [List.mem_cons, List.not_mem_nil, or_false] at h
    rcases h with rfl | rfl | rfl | rfl <;> rfl
  · rw [he]
    exact unescape_cons (fun hc => h (by simp [hc])) cs

theorem unescape_escape (cs : List Char) : unescape (cs.flatMap escapeChar) = cs := by
  induction cs with
  | nil => rfl
  | cons c cs ih => rw [List.flatMap_cons, unescape_escapeChar, ih]

theorem escapeChar_safe {c d : Char} (h : d ∈ escapeChar c) : d ∉ ['<', '>', '"'] := by
  have hall : (escapeChar c).all (fun d => d ∉ ['<', '>', '"']) = true := by
    rcases escapeChar_cases c with hc | ⟨hc, he⟩
    · simp only [List.mem_cons, List.not_mem_nil, or_false] at hc
      rcases hc with rfl | rfl | rfl | rfl <;> decide
    · rw [he]
      simp_all
  exact of_decide_eq_true (List.all_eq_true.mp hall d h)

theorem escape_safe {text : String} {d : Char} (h : d ∈ (escape text).toList) :
    d ∉ ['<', '>', '"'] := by
  rw [escape, String.toList_ofList] at h
  obtain ⟨c, -, hd⟩ := List.mem_flatMap.mp h
  exact escapeChar_safe hd

/-! ### Pieces -/

/-- A tag of an element with its class as it is written, or a character of the text. -/
inductive Piece where
  | opening (className : List Char)
  | closing
  | char (c : Char)
deriving DecidableEq, Repr

/-- What stands before the class in an opening tag. -/
def tagStart : List Char := "span".toList ++ " class=\"".toList

/-- The piece of what stands between angle brackets. The class goes up to the next quote, and
nothing may follow that. -/
def Piece.ofTag? (tag : List Char) : Option Piece :=
  let rest := tag.drop tagStart.length
  if tag = "/span".toList then some .closing
  else if tagStart.isPrefixOf tag ∧ rest.dropWhile (· ≠ '"') = ['"'] then
    some (.opening (rest.takeWhile (· ≠ '"')))
  else none

/-- The pieces of a text, where `tag` has been read of a tag that is not over. -/
def piecesFrom : Option (List Char) → List Char → Option (List Piece)
  | none, [] => some []
  | some _, [] => none
  | none, c :: cs =>
    if c = '<' then piecesFrom (some []) cs else (piecesFrom none cs).map (.char c :: ·)
  | some tag, c :: cs =>
    if c = '>' then (Piece.ofTag? tag).bind fun p => (piecesFrom none cs).map (p :: ·)
    else piecesFrom (some (tag ++ [c])) cs

/-- The characters between the tags. -/
def text (ps : List Piece) : List Char :=
  ps.filterMap fun
    | .char c => some c
    | _ => none

theorem piecesFrom_chars {cs : List Char} (h : '<' ∉ cs) (rest : List Char) :
    piecesFrom none (cs ++ rest) = (piecesFrom none rest).map (cs.map .char ++ ·) := by
  induction cs with
  | nil => simp
  | cons c cs ih =>
    simp only [List.mem_cons, not_or] at h
    rw [List.cons_append, piecesFrom, if_neg (Ne.symm h.1), ih h.2, Option.map_map]
    rfl

theorem piecesFrom_tag {cs : List Char} (h : '>' ∉ cs) (tag rest : List Char) :
    piecesFrom (some tag) (cs ++ '>' :: rest) =
      (Piece.ofTag? (tag ++ cs)).bind fun p => (piecesFrom none rest).map (p :: ·) := by
  induction cs generalizing tag with
  | nil => rw [List.nil_append, List.append_nil, piecesFrom, if_pos rfl]
  | cons c cs ih =>
    simp only [List.mem_cons, not_or] at h
    rw [List.cons_append, piecesFrom, if_neg (Ne.symm h.1), ih h.2, List.append_assoc]
    rfl

/-- A class without quotes is read as it was written. -/
theorem ofTag?_opening {name : List Char} (h : '"' ∉ name) :
    Piece.ofTag? (tagStart ++ (name ++ ['"'])) = some (.opening name) := by
  have hname : ∀ c ∈ name, decide (c ≠ '"') = true := by
    intro c hc
    exact decide_eq_true fun he => h (he ▸ hc)
  have hne : tagStart ++ (name ++ ['"']) ≠ "/span".toList := by
    intro he
    have hhead : some 's' = some '/' := congrArg List.head? he
    exact absurd hhead (by decide)
  rw [Piece.ofTag?, if_neg hne, List.drop_left, List.dropWhile_append_of_pos hname,
    List.takeWhile_append_of_pos hname, if_pos ⟨by simp, rfl⟩]
  simp

/-! ### What is rendered -/

/-- The pieces of one character of an annotated text. -/
def Style.pieces (st : Style) (c : Char) : List Piece :=
  match Marker.read? c with
  | some (k, .opening) => [.opening (escape (st.className k)).toList]
  | some (_, .closing) => [.closing]
  | none => (escapeChar c).map .char

variable {st : Style}

theorem piecesFrom_openTag (htag : st.tag = "span") (k : Category) (rest : List Char) :
    piecesFrom none (st.openTag k ++ rest) =
      (piecesFrom none rest).map (.opening (escape (st.className k)).toList :: ·) := by
  have hclose : '>' ∉ tagStart ++ ((escape (st.className k)).toList ++ ['"']) := by
    simp only [List.mem_append, not_or]
    exact ⟨by decide, fun hmem => by simpa using escape_safe hmem, by decide⟩
  have hquote : '"' ∉ (escape (st.className k)).toList :=
    fun hmem => by simpa using escape_safe hmem
  have htext : st.openTag k ++ rest =
      '<' :: ((tagStart ++ ((escape (st.className k)).toList ++ ['"'])) ++ '>' :: rest) := by
    rw [Style.openTag, htag, tagStart]
    simp only [List.cons_append, List.append_assoc, List.nil_append]
  rw [htext, piecesFrom, if_pos rfl, piecesFrom_tag hclose, List.nil_append,
    ofTag?_opening hquote]
  rfl

theorem piecesFrom_closeTag (htag : st.tag = "span") (rest : List Char) :
    piecesFrom none (st.closeTag ++ rest) = (piecesFrom none rest).map (.closing :: ·) := by
  have htext : st.closeTag ++ rest = '<' :: ("/span".toList ++ '>' :: rest) := by
    rw [Style.closeTag, htag]
    rfl
  rw [htext, piecesFrom, if_pos rfl, piecesFrom_tag (by decide), List.nil_append]
  rfl

theorem piecesFrom_renderChar (htag : st.tag = "span") (hesc : st.escapes = true) (c : Char)
    (rest : List Char) :
    piecesFrom none (st.renderChar c ++ rest) =
      (piecesFrom none rest).map (st.pieces c ++ ·) := by
  unfold Style.renderChar Style.pieces
  cases Marker.read? c with
  | none =>
    dsimp only
    rw [if_pos hesc]
    exact piecesFrom_chars (fun hmem => by simpa using escapeChar_safe hmem) rest
  | some m =>
    obtain ⟨k, role⟩ := m
    cases role with
    | opening => exact piecesFrom_openTag htag k rest
    | closing => exact piecesFrom_closeTag htag rest

/-- The pieces of a rendered text are those of its characters. -/
theorem piecesFrom_render (htag : st.tag = "span") (hesc : st.escapes = true)
    (annotated : String) :
    piecesFrom none (st.render annotated).toList = some (annotated.toList.flatMap st.pieces) := by
  rw [Style.render_eq_flatMap, String.toList_ofList]
  induction annotated.toList with
  | nil => rfl
  | cons c cs ih =>
    rw [List.flatMap_cons, piecesFrom_renderChar htag hesc, ih, List.flatMap_cons]
    rfl

/-- Between the tags stands the text without its markers, escaped. -/
theorem text_pieces (cs : List Char) :
    text (cs.flatMap st.pieces) = (cs.filter fun c => !Marker.isSign c).flatMap escapeChar := by
  induction cs with
  | nil => rfl
  | cons c cs ih =>
    rw [List.flatMap_cons, text, List.filterMap_append, ← text, ← text, ih, List.filter_cons]
    cases hc : Marker.read? c with
    | none =>
      have hplain : Marker.isSign c = false := by simp [Marker.isSign, hc]
      have htext : text (st.pieces c) = escapeChar c := by
        rw [Style.pieces, hc, text, List.filterMap_map]
        exact List.filterMap_some
      simp [hplain, htext]
    | some m =>
      have hsign : Marker.isSign c = true := by simp [Marker.isSign, hc]
      have htext : text (st.pieces c) = [] := by
        obtain ⟨k, role⟩ := m
        cases role <;> simp [Style.pieces, hc, text]
      simp [hsign, htext]

end Lexeme.Html
