import Lexeme.Proofs.Laminar
import Lexeme.Proofs.Position
import Mathlib

/-! Coordinates of places and tokens. A place is counted off by the text before it, and every
further character moves the count on, to the next column or to the next line. Main statement: the
line index of a source answers what is counted, later places have later coordinates, and tokens
carry those of their two ends. -/

namespace Lexeme.LineIndex

variable {cs : List Char} {i j : Nat}

/-- The text before an offset, which is moved to the nearest one inside of the text. -/
def textBefore (source : String) (offset : Int) : List Char :=
  source.toList.take (max 0 (min offset source.length)).toNat

/-- Line and column behind a text: its newlines are counted, and the characters behind the last. -/
def counted (before : List Char) : Nat × Nat :=
  (1 + before.count '\n', 1 + (before.rtakeWhile (· ≠ '\n')).length)

theorem position_eq_counted (source : String) (offset : Int) :
    (ofText source.toList).position offset = counted (textBefore source offset) := by
  have hclamp : (ofText source.toList).clamp offset =
      (max 0 (min offset source.length)).toNat := by
    change min offset.toNat source.toList.length = _
    rw [String.length_toList]
    omega
  rw [position_ofText, hclamp, counted, textBefore, Nat.add_comm 1, Nat.add_comm 1]

/-! ### Later places -/

/-- One more character leads to the next column, or to the next line if it is a newline. -/
theorem counted_concat_lt (cs : List Char) (c : Char) :
    toLex (counted cs) < toLex (counted (cs ++ [c])) := by
  rw [Prod.Lex.toLex_lt_toLex, counted, counted, List.count_append, List.count_singleton]
  by_cases hc : c = '\n'
  · left
    simp [hc]
  · right
    rw [List.rtakeWhile_concat_pos _ _ _ (by simpa using hc), List.length_append]
    simp [hc]

theorem counted_take_lt (hij : i < j) (hj : j ≤ cs.length) :
    toLex (counted (cs.take i)) < toLex (counted (cs.take j)) := by
  induction j, hij using Nat.le_induction with
  | base =>
    rw [List.take_succ_eq_append_getElem hj]
    exact counted_concat_lt _ _
  | succ j hij ih =>
    rw [List.take_succ_eq_append_getElem hj]
    exact (ih (Nat.le_of_succ_le hj)).trans (counted_concat_lt _ _)

theorem position_strictMonoOn (source : String) :
    StrictMonoOn (fun o : Int => toLex ((ofText source.toList).position o))
      (Set.Icc 0 source.length) := by
  rintro o ⟨ho, ho'⟩ p ⟨hp, hp'⟩ hop
  dsimp only
  rw [position_eq_counted, position_eq_counted]
  refine counted_take_lt (by omega) ?_
  rw [String.length_toList]
  omega

theorem position_injOn (source : String) :
    Set.InjOn (ofText source.toList).position (Set.Icc 0 source.length) :=
  fun _ ho _ hp h => (position_strictMonoOn source).injOn ho hp (congrArg toLex h)

/-! ### Tokens -/

theorem coordinates_of_mem_tokenize {config : Config} {source : String}
    {sourceFile : Option String} {k : Token} (hk : k ∈ Lexer.tokenize config source sourceFile) :
    k.line = (counted (textBefore source k.start)).1 ∧
      k.column = (counted (textBefore source k.start)).2 ∧
      k.endLine = some ((counted (textBefore source k.stop)).1 : Int) ∧
      k.endColumn = some ((counted (textBefore source k.stop)).2 : Int) := by
  obtain ⟨s, -, rfl⟩ := List.mem_map.mp hk
  simp only [Token.ofSpan, position_eq_counted, and_self]

/-- Tokens begin one after another, so that their coordinates do not fall back. -/
theorem tokenize_coordinates_pairwise (config : Config) (source : String)
    (sourceFile : Option String) :
    (Lexer.tokenize config source sourceFile).Pairwise fun a b =>
      toLex (a.line, a.column) ≤ toLex (b.line, b.column) := by
  rw [Lexer.tokenize, Lexer.tokensOf, List.pairwise_map]
  refine (Lexer.lexed_increasing config source).imp_of_mem fun {a b} ha hb hab => ?_
  have hstart : a.start ≤ b.start := by
    have hprecedes := Span.precedes_iff.mp (Span.sortKey_lt_iff.mp hab).1
    omega
  have hrange : ∀ s ∈ Lexer.spans config source, s.start ∈ Set.Icc (0 : Int) source.length := by
    intro s hs
    have hproper := (Markup.lexed_tidy config source).proper s hs
    exact ⟨(Markup.lexed_range hs).1, by have := (Markup.lexed_range hs).2; omega⟩
  have hle := (position_strictMonoOn source).monotoneOn (hrange a ha) (hrange b hb) hstart
  rw [Prod.Lex.toLex_le_toLex] at hle ⊢
  rcases hle with hline | ⟨hline, hcolumn⟩
  · exact .inl (Int.ofNat_lt.mpr hline)
  · exact .inr ⟨congrArg Nat.cast hline, Int.ofNat_le.mpr hcolumn⟩

/-- The line index answers the line and the column that are counted, for offsets inside and outside
of the source. No two places of a source have the same coordinates, and later ones have later ones.
Under all settings a token carries the coordinates of its start and its stop, and those of the
starts never fall back along the tokens. -/
theorem coordinates_exact (source : String) :
    (∀ offset, (ofText source.toList).position offset = counted (textBefore source offset)) ∧
      (ofText source.toList).lineCount = 1 + source.toList.count '\n' ∧
      StrictMonoOn (fun o : Int => toLex ((ofText source.toList).position o))
        (Set.Icc 0 source.length) ∧
      Set.InjOn (ofText source.toList).position (Set.Icc 0 source.length) ∧
      ∀ config sourceFile,
        (∀ k ∈ Lexer.tokenize config source sourceFile,
          k.line = (counted (textBefore source k.start)).1 ∧
            k.column = (counted (textBefore source k.start)).2 ∧
            k.endLine = some ((counted (textBefore source k.stop)).1 : Int) ∧
            k.endColumn = some ((counted (textBefore source k.stop)).2 : Int)) ∧
        (Lexer.tokenize config source sourceFile).Pairwise fun a b =>
          toLex (a.line, a.column) ≤ toLex (b.line, b.column) := by
  refine ⟨position_eq_counted source, ?_, position_strictMonoOn source, position_injOn source,
    fun config sourceFile => ⟨fun k hk => coordinates_of_mem_tokenize hk,
      tokenize_coordinates_pairwise config source sourceFile⟩⟩
  rw [lineCount, ofText, List.length_cons, length_startsFrom, Nat.add_comm]

/-- The end of a line, the place behind it and offsets outside of the source. -/
theorem coordinates_exact_empty_line :
    [-1, 0, 1, 2, 3, 9].map (ofText "a\n\nb".toList).position =
        [(1, 1), (1, 1), (1, 2), (2, 1), (3, 1), (3, 2)] ∧
      [-1, 0, 1, 2, 3, 9].map (ofText "a\n\nb".toList).position =
        [-1, 0, 1, 2, 3, 9].map fun o => counted (textBefore "a\n\nb" o) :=
  ⟨by decide, List.map_congr_left fun o _ => (coordinates_exact "a\n\nb").1 o⟩

end Lexeme.LineIndex
