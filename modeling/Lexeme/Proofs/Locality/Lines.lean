import Lexeme.Proofs.Locality.Resolution
import Lexeme.Proofs.Markup
import Lexeme.Proofs.Regex.Parts
import Lexeme.Proofs.Stripping
import Mathlib.Data.List.Perm.Basic

/-! Lines are lexed by themselves. Only an enumeration specifier can go over the end of a line;
where none does, matches, tokens and markers of the lines before and behind the newline stand side
by side. Main statement: lexing two such lines gives the two lexed lines. -/

namespace Lexeme

open Lexeme.Span (Divided shift)

/-! ### Matches -/

namespace Matching

open Regex (Head Tail)

variable {t u v : Array Char} {c : Category}

theorem regex_cuttable (c : Category) : (Grammar.regex c).cuttable '\n' = true := by
  cases c <;> decide

/-- Only white space has a newline, and it occurs in enumeration specifiers alone. -/
theorem classes_without_newline (h : c ≠ .enumeration) :
    ((Grammar.regex c).classes.all fun k => !k.test '\n') = true := by
  revert h
  cases c <;> decide +kernel

/-- No match of the category covers the place. -/
def Uncovered (t : Array Char) (c : Category) (p : Nat) : Prop :=
  ∀ s ∈ spansOf t c, ¬ (s.start ≤ p ∧ p < s.stop)

theorem uncovered_of_ne (hhead : Head t u '\n') (h : c ≠ .enumeration) :
    Uncovered t c u.size := by
  rintro s hs ⟨hstart, hstop⟩
  obtain ⟨i, j, rfl, hm⟩ := matched_of_mem hs
  have hle := hhead.le_of_classes (classes_without_newline h) (Int.ofNat_le.mp hstart) hm.mem_ends
  have hlt := Int.ofNat_lt.mp hstop
  omega

theorem spansOf_parts (hhead : Head t u '\n') (htail : Tail t (u.size + 1) v)
    (h : Uncovered t c u.size) :
    spansOf t c = spansOf u c ++ (spansOf v c).map (shift (u.size + 1 : Nat)) := by
  have hcover : ∀ x ∈ (Grammar.regex c).allMatches t, ¬ (x.1 ≤ u.size ∧ u.size < x.2) := by
    rintro ⟨i, j⟩ hx ⟨hi, hj⟩
    exact h ⟨c, i, j⟩ (mem_spansOf.mpr ⟨i, j, rfl, hx⟩) ⟨Int.ofNat_le.mpr hi, Int.ofNat_lt.mpr hj⟩
  unfold spansOf
  rw [Regex.allMatches_parts (regex_cuttable c) (regex_not_nullable c) hhead htail hcover,
    List.filter_append, List.map_append, List.filter_map, List.map_map, List.map_map]
  congr 1
  have hfilter : ∀ x : Nat × Nat, ((fun p : Nat × Nat => decide (p.1 < p.2)) ∘
      fun x => (u.size + 1 + x.1, u.size + 1 + x.2)) x = decide (x.1 < x.2) := by
    intro x
    simp
  rw [List.filter_congr fun x _ => hfilter x]
  apply List.map_congr_left
  intro x _
  simp [shift]
  omega

theorem stop_le_size {s : Span} {cs : List Category} (hs : s ∈ spansOfAll t cs) :
    0 ≤ s.start ∧ s.start < s.stop ∧ s.stop ≤ t.size := by
  obtain ⟨-, hs⟩ := mem_spansOfAll.mp hs
  obtain ⟨i, j, heq, hm⟩ := matched_of_mem hs
  rw [heq]
  exact ⟨Int.natCast_nonneg i, Int.ofNat_lt.mpr hm.lt, Int.ofNat_le.mpr hm.le_size⟩

/-- The matches of one part, and those of the other moved behind it, have the place of the newline
between them. -/
theorem parts_divided (u v : Array Char) (cs : List Category) :
    Divided u.size (spansOfAll u cs) ((spansOfAll v cs).map (shift (u.size + 1 : Nat))) := by
  constructor
  · intro s hs
    exact (stop_le_size hs).2
  · intro s hs
    obtain ⟨o, ho, rfl⟩ := List.mem_map.mp hs
    have hbounds := stop_le_size ho
    simp only [Span.shift_start, Span.shift_stop]
    omega

theorem spansOfAll_parts (hhead : Head t u '\n') (htail : Tail t (u.size + 1) v)
    (h : Uncovered t .enumeration u.size) (cs : List Category) :
    spansOfAll t cs = spansOfAll u cs ++ (spansOfAll v cs).map (shift (u.size + 1 : Nat)) := by
  have hparts : ∀ c, spansOf t c = spansOf u c ++ (spansOf v c).map (shift (u.size + 1 : Nat)) := by
    intro c
    apply spansOf_parts hhead htail
    by_cases hc : c = .enumeration
    · exact hc ▸ h
    · exact uncovered_of_ne hhead hc
  have hperm : ((Category.normalize cs).flatMap (spansOf t)).Perm
      (spansOfAll u cs ++ (spansOfAll v cs).map (shift (u.size + 1 : Nat))) := by
    rw [show spansOf t = _ from funext hparts]
    refine (List.flatMap_append_perm _ _ _).symm.trans ?_
    refine (Span.sort_perm _).symm.append ?_
    rw [← List.map_flatMap]
    exact (Span.sort_perm _).symm.map _
  rw [spansOfAll, Span.sort_eq_of_perm hperm, (parts_divided u v cs).sort_append, Span.sort_shift]
  simp only [spansOfAll, Span.sort_sort]

end Matching

/-! ### Markers -/

namespace Markup

theorem weave_shift (k pos : Int) (cs : List Char) (ms : List Marker) :
    weave (pos + k) cs (ms.map (Marker.relabel (shift k))) = weave pos cs ms := by
  induction ms generalizing pos cs with
  | nil => rfl
  | cons m ms ih =>
    obtain ⟨s, role⟩ := m
    have hoffset :
        (Marker.relabel (shift k) ⟨s, role⟩).offset = (⟨s, role⟩ : Marker).offset + k := by
      cases role <;> rfl
    have hmax : max (pos + k) ((⟨s, role⟩ : Marker).offset + k) =
        max pos (⟨s, role⟩ : Marker).offset + k := by omega
    rw [List.map_cons, weave, weave, hoffset, hmax, ih,
      show (⟨s, role⟩ : Marker).offset + k - (pos + k) = (⟨s, role⟩ : Marker).offset - pos by omega]
    rfl

end Markup

/-! ### Lines -/

namespace Lexer

variable {a b : String}

theorem head_line (a b : String) :
    Regex.Head (a ++ "\n" ++ b).toList.toArray a.toList.toArray '\n' where
  same i hi := by
    rw [List.size_toArray] at hi
    simp [String.toList_append, List.getElem?_append, hi]
  next := by simp [String.toList_append]
  edge := by decide

theorem tail_line (a b : String) :
    Regex.Tail (a ++ "\n" ++ b).toList.toArray (a.toList.toArray.size + 1) b.toList.toArray where
  size := by
    simp [String.toList_append]
    omega
  same i := by
    have hsplit : (a ++ "\n" ++ b).toList = (a.toList ++ ['\n']) ++ b.toList := by
      simp [String.toList_append]
    have hlen : a.toList.toArray.size + 1 = (a.toList ++ ['\n']).length := by simp
    rw [List.getElem?_toArray, List.getElem?_toArray, hsplit, hlen,
      List.getElem?_append_right (Nat.le_add_right _ _), Nat.add_sub_cancel_left]
  edge i hi := by
    obtain rfl : i = a.toList.length := by simpa using hi
    simp [Regex.wordAt, String.toList_append]
    decide

/-- The spans of two lines are those of the first and, behind the newline, those of the second. -/
theorem spans_lines (config : Config)
    (h : Matching.Uncovered (a ++ "\n" ++ b).toList.toArray .enumeration a.toList.toArray.size) :
    spans config (a ++ "\n" ++ b) =
      spans config a ++ (spans config b).map (shift (a.toList.toArray.size + 1 : Nat)) := by
  have hdiv := Matching.parts_divided a.toList.toArray b.toList.toArray config.categories
  have hmatched := Matching.spansOfAll_parts (head_line a b) (tail_line a b) h config.categories
  have hresolved := Resolution.resolve_append config.rules config.repairs hdiv
  rw [Resolution.resolve_shift] at hresolved
  unfold spans Run.spans run
  dsimp only
  have hkept := hdiv.mono (Resolution.resolve_subset config.rules config.repairs _)
    (List.map_subset _ (Resolution.resolve_subset config.rules config.repairs _))
  rw [hmatched, hresolved, hkept.sort_append, Span.sort_shift]

theorem spans_divided (config : Config) (a b : String) :
    Divided a.length (spans config a) ((spans config b).map (shift (a.length + 1 : Nat))) := by
  constructor
  · intro s hs
    exact ⟨(Markup.lexed_tidy config a).proper s hs, (Markup.lexed_range hs).2⟩
  · intro s hs
    obtain ⟨o, ho, rfl⟩ := List.mem_map.mp hs
    have hproper := (Markup.lexed_tidy config b).proper o ho
    have hrange := Markup.lexed_range ho
    simp only [Span.shift_start, Span.shift_stop]
    omega

/-- The markers of two lists of spans, the second moved behind the newline, are laid into the lines
that the spans belong to. -/
theorem weave_lines {xs ys : List Span}
    (h : Divided a.length xs (ys.map (shift (a.length + 1 : Nat))))
    (hy : ∀ s ∈ ys, 0 ≤ s.start ∧ s.start < s.stop) :
    Markup.annotate (a ++ "\n" ++ b) (xs ++ ys.map (shift (a.length + 1 : Nat))) =
      Markup.annotate a xs ++ "\n" ++ Markup.annotate b ys := by
  have hlen : a.toList.length = a.length := String.length_toList
  have hleft : ∀ m ∈ Marker.stream [] xs, m.offset ≤ 0 + (a.toList.length : Int) := by
    rintro ⟨s, role⟩ hm
    have hs := h.left s (Marker.mem_stream.mp hm)
    cases role <;> simp only [Marker.offset] <;> omega
  have hright : ∀ m ∈ (Marker.stream [] ys).map (Marker.relabel (shift (a.length + 1 : Nat))),
      0 + (a.toList.length : Int) + ['\n'].length ≤ m.offset := by
    intro m hm
    obtain ⟨⟨s, role⟩, hs, rfl⟩ := List.mem_map.mp hm
    have hbounds := hy s (Marker.mem_stream.mp hs)
    cases role <;> simp [Marker.relabel, Marker.offset] <;> omega
  have hbehind : ∀ m ∈ (Marker.stream [] ys).map (Marker.relabel (shift (a.length + 1 : Nat))),
      0 + (a.toList.length : Int) ≤ m.offset := fun m hm =>
    Int.le_trans (Int.le_add_of_nonneg_right (by simp)) (hright m hm)
  have hpos : 0 + (a.toList.length : Int) + (['\n'].length : Nat) = 0 + (a.length + 1 : Nat) := by
    simp [hlen]
  have htext : (a ++ "\n" ++ b).toList = a.toList ++ (['\n'] ++ b.toList) := by
    simp [String.toList_append]
  unfold Markup.annotate
  rw [Marker.stream_append [] h, Marker.stream_shift, htext, Markup.weave_append 0 hleft hbehind,
    Markup.weave_of_behind _ hright, hpos, Markup.weave_shift, String.ofList_append,
    String.ofList_append, String.append_assoc]

/-- Two lines are lexed by themselves, if no enumeration specifier goes over the newline. -/
theorem lex_lines (config : Config) (a b : String)
    (h : ∀ s ∈ Matching.matchCategory (a ++ "\n" ++ b) .enumeration,
      ¬ (s.start ≤ a.length ∧ a.length < s.stop)) :
    lex config (a ++ "\n" ++ b) = lex config a ++ "\n" ++ lex config b := by
  have hsize : a.toList.toArray.size = a.length := String.length_toList
  have hspans := spans_lines config (a := a) (b := b) (by rw [hsize]; exact h)
  rw [hsize] at hspans
  rw [lex, lex, lex, hspans]
  apply weave_lines (spans_divided config a b)
  exact fun s hs => ⟨(Markup.lexed_range hs).1, (Markup.lexed_tidy config b).proper s hs⟩

/-- An enumeration specifier that ends before the newline, and a quote that is never closed. -/
theorem lex_lines_unclosed :
    (∀ s ∈ Matching.matchCategory ("enum e" ++ "\n" ++ "\"x") .enumeration,
      ¬ (s.start ≤ "enum e".length ∧ "enum e".length < s.stop)) ∧
      lex .standard ("enum e" ++ "\n" ++ "\"x") =
        lex .standard "enum e" ++ "\n" ++ lex .standard "\"x" := by
  have hover : ∀ s ∈ Matching.matchCategory ("enum e" ++ "\n" ++ "\"x") .enumeration,
      ¬ (s.start ≤ "enum e".length ∧ "enum e".length < s.stop) := by decide +kernel
  exact ⟨hover, lex_lines .standard "enum e" "\"x" hover⟩

end Lexer

end Lexeme
