/-! Lines and columns. A line index turns an offset into a line and a column, both counted from
one; a location names the place of a token in a file. -/

namespace Lexeme

/-! ### Line index -/

/-- The offsets at which the lines of a text start, in increasing order, and its length. -/
structure LineIndex where
  starts : List Nat
  length : Nat
deriving DecidableEq, Repr

namespace LineIndex

/-- The offsets just behind the newlines of a text whose first character has offset `i`. -/
def startsFrom (i : Nat) : List Char → List Nat
  | [] => []
  | c :: cs => if c = '\n' then (i + 1) :: startsFrom (i + 1) cs else startsFrom (i + 1) cs

def ofText (cs : List Char) : LineIndex := ⟨0 :: startsFrom 0 cs, cs.length⟩

def lineCount (ix : LineIndex) : Nat := ix.starts.length

/-- An offset moved to the nearest one inside the text. -/
def clamp (ix : LineIndex) (offset : Int) : Nat := min offset.toNat ix.length

/-- Looks between `low` and `high` for the number of entries of an increasing list that are at most
`x`, and halves the range until it is empty or the given number of rounds is over. -/
def bisect (xs : List Nat) (x : Nat) : Nat → Nat → Nat → Nat
  | 0, low, _ => low
  | rounds + 1, low, high =>
    if low < high then
      let middle := (low + high) / 2
      if x < xs.getD middle 0 then bisect xs x rounds low middle
      else bisect xs x rounds (middle + 1) high
    else low

/-- Line and column of an offset: the last line that starts no later. -/
def position (ix : LineIndex) (offset : Int) : Nat × Nat :=
  let o := ix.clamp offset
  let line := bisect ix.starts o ix.starts.length 0 ix.starts.length
  (line, o - ix.starts.getD (line - 1) 0 + 1)

theorem bisect_le (xs : List Nat) (x : Nat) {rounds low high : Nat} (h : low ≤ high) :
    bisect xs x rounds low high ≤ high := by
  induction rounds generalizing low high with
  | zero => exact h
  | succ rounds ih =>
    rw [bisect]
    split
    · have hleft : bisect xs x rounds low ((low + high) / 2) ≤ (low + high) / 2 := ih (by omega)
      have hright : bisect xs x rounds ((low + high) / 2 + 1) high ≤ high := ih (by omega)
      dsimp only
      split <;> omega
    · exact h

theorem length_startsFrom_le (i : Nat) (cs : List Char) : (startsFrom i cs).length ≤ cs.length := by
  induction cs generalizing i with
  | nil => exact Nat.le_refl 0
  | cons c cs ih =>
    have htail := ih (i + 1)
    rw [startsFrom]
    split <;> simp only [List.length_cons] <;> omega

/-- A text has no more lines, and no line more columns, than it has characters, but for one. -/
theorem position_ofText_le (cs : List Char) (offset : Int) :
    ((ofText cs).position offset).1 ≤ cs.length + 1 ∧
      ((ofText cs).position offset).2 ≤ cs.length + 1 := by
  have hlines := length_startsFrom_le 0 cs
  have hline : ((ofText cs).position offset).1 ≤ (ofText cs).starts.length :=
    bisect_le _ _ (Nat.zero_le _)
  have hclamp : (ofText cs).clamp offset ≤ cs.length := Nat.min_le_right _ _
  refine ⟨Nat.le_trans hline (Nat.succ_le_succ hlines), Nat.succ_le_succ ?_⟩
  exact Nat.le_trans (Nat.sub_le _ _) hclamp

end LineIndex

/-! ### Locations -/

/-- A place in a source file, with its end where that is known. -/
structure Location where
  line : Int
  column : Int
  offset : Int
  endOffset : Int
  endLine : Option Int
  endColumn : Option Int
  sourceFile : Option String
deriving DecidableEq, Repr

namespace Location

/-- The place of something that has none. -/
def unknown : Location := ⟨0, 0, 0, 0, none, none, none⟩

/-- File, line and column with colons between them; an empty file name is left out. -/
def text (l : Location) : String :=
  let place := toString l.line ++ ":" ++ toString l.column
  match l.sourceFile with
  | some file => if file.isEmpty then place else file ++ ":" ++ place
  | none => place

/-- An end that is missing or zero gives way to the start. -/
def endOr (e : Option Int) (start : Int) : Int :=
  match e with
  | some n => if n = 0 then start else n
  | none => start

/-- The region from the start of one location to the end of another. -/
def spanTo (l e : Location) : Location :=
  { l with
    endOffset := endOr (some e.endOffset) e.offset
    endLine := some (endOr e.endLine e.line)
    endColumn := some (endOr e.endColumn e.column) }

end Location

/-- The location of the region between two offsets. -/
def LineIndex.location (ix : LineIndex) (start stop : Int) (sourceFile : Option String) :
    Location :=
  let (line, column) := ix.position start
  let (endLine, endColumn) := ix.position stop
  ⟨line, column, start, stop, some endLine, some endColumn, sourceFile⟩

end Lexeme
