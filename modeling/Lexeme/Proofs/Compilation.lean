import Lexeme.Grammar.Basic
import Lexeme.Pattern.Printer
import Lexeme.Proofs.Pattern
import Lexeme.Proofs.Regex.Reader

/-! The source text of a pattern means what the pattern means. Main statements: for every pattern
made by the checked constructors, the expression read from its source reaches the ends that the
expression tree reaches, in the same order; and every production of the grammar is such a pattern.
-/

namespace Lexeme

open Regex

theorem Fragment.toList_group (source : String) :
    (group source).toList = ['(', '?', ':'] ++ (source.toList ++ [')']) := by
  simp [group]

namespace Pattern

section

variable [CharNames] {p a b c : Pattern}

/-! ### What the kind of a pattern promises -/

/-- The source of the pattern reads as the pattern, where its kind says that it can stand. An atom
is also no anchor, so that it can be quantified. -/
def Readable (p : Pattern) : Prop :=
  match p.print.kind with
  | .atom =>
    AtomText p.source.toList p.toRegex ∧ ∀ rest, atAnchor (p.source.toList ++ rest) = false
  | .sequence => SequenceText p.source.toList p.toRegex
  | .alternation => AlternativesText p.source.toList p.toRegex

theorem Readable.alternatives (h : p.Readable) : AlternativesText p.source.toList p.toRegex := by
  unfold Readable at h
  split at h
  · exact h.1.sequence.alternatives
  · exact h.alternatives
  · exact h

theorem Readable.operand (h : p.Readable) : SequenceText p.print.operand.toList p.toRegex := by
  have hgroup := h.alternatives.group.sequence
  unfold Readable at h
  unfold Fragment.operand
  split at h
  · next hk => simpa [hk, source] using h.1.sequence
  · next hk => simpa [hk, source] using h
  · next hk => simpa [hk, source, Fragment.toList_group] using hgroup

theorem Readable.atom (h : p.Readable) : AtomText p.print.atom.toList p.toRegex ∧
    ∀ rest, atAnchor (p.print.atom.toList ++ rest) = false := by
  have hgroup := h.alternatives.group
  unfold Readable at h
  unfold Fragment.atom
  split at h
  · next hk => simpa [hk, source] using h
  · next hk => simpa [hk, source, Fragment.toList_group, atAnchor] using hgroup
  · next hk => simpa [hk, source, Fragment.toList_group, atAnchor] using hgroup

/-! ### Leaves -/

theorem readEscape_special {c : Char} (hc : isSpecial c = true) (rest : List Char) :
    readEscape (c :: rest) = some (.one (.single c), rest) := by
  obtain ⟨hletter, hdigit, hset, hplain⟩ : c ∉ ['b', 'x', 'u', 'U', 'N'] ∧ c.isDigit = false ∧
      CharClass.setEscape? c = none ∧ CharClass.plainEscape c = some c :=
    of_decide_eq_true (List.all_eq_true (p := fun d => decide (d ∉ ['b', 'x', 'u', 'U', 'N'] ∧
        d.isDigit = false ∧ CharClass.setEscape? d = none ∧ CharClass.plainEscape d = some d)) |>.mp
      (by decide) c (List.contains_iff_mem.mp hc))
  simp only [List.mem_cons, List.not_mem_nil, or_false, not_or] at hletter
  simp [readEscape, CharClass.readEscape, hletter, hdigit, hset, hplain]
  rfl

theorem readAtom_ordinary {c : Char} (hc : isSpecial c = false) (n : Nat) (rest : List Char) :
    readAtom (n + 1) (c :: rest) = some (.one (.single c), rest) := by
  simp [isSpecial] at hc
  simp [readAtom, hc]

/-- The text of one character, escaped where it is special. -/
def escapeChar (c : Char) : List Char := if isSpecial c then ['\\', c] else [c]

omit [CharNames] in
theorem toList_escape (text : String) : (escape text).toList = text.toList.flatMap escapeChar := by
  rw [escape, String.toList_ofList]
  rfl

theorem atomText_char (c : Char) : AtomText (escapeChar c) (.one (.single c)) := by
  refine ⟨.one (.single c), .refl _, fun rest => ?_⟩
  unfold escapeChar
  split
  · next hc => exact reads_of_succ (by simp) fun n _ => readEscape_special hc rest
  · next hc =>
    exact reads_of_succ (by simp) fun n _ => readAtom_ordinary (Bool.eq_false_iff.mpr hc) n rest

omit [CharNames] in
theorem escapeChar_not_anchor (c : Char) (rest : List Char) :
    atAnchor (escapeChar c ++ rest) = false := by
  unfold escapeChar
  split
  · next hc =>
    have hb : c ≠ 'b' := by
      rintro rfl
      exact absurd hc (by decide)
    simp [atAnchor, hb]
  · next hc =>
    have hb : c ≠ '\\' := by
      rintro rfl
      exact absurd (by decide) hc
    simp [atAnchor, hb]

theorem sequenceText_chars (c : Char) (cs : List Char) :
    SequenceText ((c :: cs).flatMap escapeChar) (.chars (c :: cs)) := by
  induction cs generalizing c with
  | nil => simpa [chars] using (atomText_char c).sequence.congr (Agrees.seq_empty _).symm
  | cons d ds ih => exact (atomText_char c).sequence.append (ih d)

theorem readable_literal {text : String} (h : text ≠ "") : (literal text).Readable := by
  obtain ⟨c, cs, htext⟩ := List.exists_cons_of_ne_nil (mt String.toList_eq_nil_iff.mp h)
  simp only [Readable, source, print, toRegex, toList_escape, htext, ← String.length_toList]
  cases cs with
  | nil =>
    refine ⟨?_, ?_⟩
    · simpa [chars] using (atomText_char c).congr (Agrees.seq_empty _).symm
    · simpa using escapeChar_not_anchor c
  | cons d ds => simpa using sequenceText_chars c (d :: ds)

theorem readable_set {body : String} (h : (CharClass.ofBody? body).isSome) :
    (set body).Readable := by
  obtain ⟨k, hk⟩ := Option.isSome_iff_exists.mp h
  have hread : CharClass.read (body.toList ++ [']']) = some (k, []) := by
    unfold CharClass.ofBody? at hk
    split at hk
    · next hread => cases hk; exact hread
    · cases hk
  simp only [Readable, source, print, toRegex, hk]
  refine ⟨⟨.one k, .refl _, fun rest => reads_of_succ (by simp) fun n _ => ?_⟩, fun rest => ?_⟩
  · have htext : ("[" ++ body ++ "]").toList ++ rest = '[' :: (body.toList ++ [']'] ++ rest) := by
      simp
    rw [htext, readAtom, CharClass.read_append hread rest]
    rfl
  · simp [atAnchor]

theorem readable_blank : blank.Readable := by
  simp only [Readable, source, print, toRegex]
  refine ⟨⟨_, .refl _, fun rest => reads_of_succ (by simp) fun n _ => ?_⟩, fun rest => ?_⟩
  · rfl
  · simp [atAnchor]

/-! ### Quantifiers -/

omit [CharNames] in
theorem readQuantifier_bounds (low : Nat) (high : Option Nat) (rest : List Char) :
    readQuantifier ((bounds low high).toList ++ rest) =
      some ((low, some (high.getD low)), rest) := by
  have hclose (n : Nat) := Digits.split_toDigits n ('\x7d' :: rest) (by simp)
  cases high with
  | none =>
    have htext : (bounds low none).toList ++ rest =
        '\x7b' :: (Nat.toDigits 10 low ++ '\x7d' :: rest) := by
      simp [bounds]
    rw [htext, readQuantifier, readBounds, hclose]
    simp [Digits.value_toDigits, Nat.toDigits_ne_nil]
  | some high =>
    have htext : (bounds low (some high)).toList ++ rest =
        '\x7b' :: (Nat.toDigits 10 low ++ ',' :: (Nat.toDigits 10 high ++ '\x7d' :: rest)) := by
      simp [bounds]
    rw [htext, readQuantifier, readBounds, Digits.split_toDigits low _ (by simp)]
    simp [hclose, Digits.value_toDigits, Nat.toDigits_ne_nil]

/-- A quantifier after the atom of a pattern repeats the whole pattern. -/
theorem Readable.quantified (h : p.Readable) {low : Nat} {high : Option Nat} {mark : String}
    (hbounds : high.any (· < low) = false)
    (hmark : ∀ rest, readQuantifier (mark.toList ++ rest) = some ((low, high), rest)) :
    SequenceText (p.print.atom ++ mark).toList (.rep p.toRegex low high) := by
  rw [String.toList_append]
  exact h.atom.1.quantified h.atom.2 hbounds hmark

theorem Readable.optional (h : p.Readable) : p.optional.Readable :=
  h.quantified (by simp) fun _ => by rfl

theorem Readable.star (h : p.Readable) : p.star.Readable :=
  h.quantified (by simp) fun _ => by rfl

theorem Readable.plus (h : p.Readable) : p.plus.Readable :=
  h.quantified (by simp) fun _ => by rfl

theorem Readable.rep (h : p.Readable) {low : Nat} {high : Option Nat}
    (hbounds : low ≤ high.getD low) : (p.rep low high).Readable :=
  h.quantified (by simpa using hbounds) (readQuantifier_bounds low high)

/-! ### Sequences, alternatives and words -/

theorem Readable.seq (ha : a.Readable) (hb : b.Readable) : (a.seq b).Readable := by
  have h := ha.operand.append hb.operand
  rwa [← String.toList_append] at h

theorem Readable.alt (ha : a.Readable) (hb : b.Readable) : (a.alt b).Readable := by
  have h := ha.alternatives.bar hb.alternatives
  have hsource : (a.alt b).source.toList = a.source.toList ++ '|' :: b.source.toList := by
    simp [source, print]
  rwa [← hsource] at h

theorem sequenceText_anchor : SequenceText ['\\', 'b'] .boundary :=
  AtomText.sequence ⟨.boundary, .refl _, fun _ => reads_of_succ (by simp) fun _ _ => rfl⟩

theorem Readable.word (h : p.Readable) : p.word.Readable := by
  have h := sequenceText_anchor.append (h.atom.1.sequence.append sequenceText_anchor)
  have hsource : p.word.source.toList =
      ['\\', 'b'] ++ (p.print.atom.toList ++ ['\\', 'b']) := by
    simp [source, print]
  rwa [← hsource] at h

theorem Readable.wordUnless (h : p.Readable) (hc : c.Readable) : (p.wordUnless c).Readable := by
  have h := sequenceText_anchor.append (h.atom.1.sequence.append
    (sequenceText_anchor.append hc.alternatives.notAhead.sequence))
  have hsource : (p.wordUnless c).source.toList = ['\\', 'b'] ++ (p.print.atom.toList ++
      (['\\', 'b'] ++ (['(', '?', '!'] ++ (c.source.toList ++ [')'])))) := by
    simp [source, print]
  rwa [← hsource] at h

/-! ### Checked construction -/

/-- Patterns made by the checked constructors, from class bodies that are well formed. -/
inductive Built : Pattern → Prop where
  | literal {text : String} {p : Pattern} (h : literal? text = .ok p) : Built p
  | set {body : String} (h : (CharClass.ofBody? body).isSome) : Built (.set body)
  | blank : Built .blank
  | sequence {ps : List Pattern} {p : Pattern} (hps : ∀ q ∈ ps, Built q)
      (h : sequence? ps = .ok p) : Built p
  | alternation {ps : List Pattern} {p : Pattern} (hps : ∀ q ∈ ps, Built q)
      (h : alternation? ps = .ok p) : Built p
  | optional {p : Pattern} (hp : Built p) : Built (.optional p)
  | star {p : Pattern} (hp : Built p) : Built (.star p)
  | plus {p : Pattern} (hp : Built p) : Built (.plus p)
  | rep {p q : Pattern} {low : Int} {high : Option Int} (hp : Built p)
      (h : repeat? p low high = .ok q) : Built q
  | word {p : Pattern} (hp : Built p) : Built (.word p)
  | wordUnless {p c : Pattern} (hp : Built p) (hc : Built c) : Built (.wordUnless p c)
  | oneOf {words : List String} {p : Pattern} (h : oneOf? words = .ok p) : Built p

theorem Built.append (ha : Built a) (hb : Built b) : Built (a ++ b) :=
  .sequence (show ∀ q ∈ [a, b], Built q by simp [ha, hb]) rfl

theorem Built.orElse (ha : Built a) (hb : Built b) : Built (a <|> b) :=
  .alternation (show ∀ q ∈ [a, b], Built q by simp [ha, hb]) rfl

theorem readable_of_literal? {text : String} (h : literal? text = .ok p) : p.Readable := by
  unfold literal? at h
  split at h
  · cases h
  · next htext =>
    cases h
    exact readable_literal (by simpa using htext)

theorem readable_foldl {op : Pattern → Pattern → Pattern}
    (hop : ∀ {a b : Pattern}, a.Readable → b.Readable → (op a b).Readable) {ps : List Pattern}
    (hps : ∀ q ∈ p :: ps, q.Readable) : (ps.foldl op p).Readable :=
  List.foldlRecOn ps op (hps p List.mem_cons_self)
    fun _ hq r hr => hop hq (hps r (List.mem_cons_of_mem p hr))

theorem readable_of_sequence? {ps : List Pattern} (hps : ∀ q ∈ ps, q.Readable)
    (h : sequence? ps = .ok p) : p.Readable := by
  cases ps with
  | nil => cases h
  | cons q qs =>
    cases h
    exact readable_foldl Readable.seq hps

theorem readable_of_alternation? {ps : List Pattern} (hps : ∀ q ∈ ps, q.Readable)
    (h : alternation? ps = .ok p) : p.Readable := by
  cases ps with
  | nil => cases h
  | cons q qs =>
    cases h
    exact readable_foldl Readable.alt hps

theorem readable_of_repeat? {q : Pattern} {low : Int} {high : Option Int} (hp : p.Readable)
    (h : repeat? p low high = .ok q) : q.Readable := by
  unfold repeat? at h
  split at h
  · cases h
  · next hbounds =>
    cases h
    apply hp.rep
    cases high with
    | none => exact Nat.le_refl _
    | some high =>
      have hhigh : low ≤ high := by simpa using (not_or.mp hbounds).2
      exact Int.toNat_le_toNat hhigh

theorem readable_of_oneOf? {words : List String} (h : oneOf? words = .ok p) : p.Readable := by
  unfold oneOf? at h
  split at h
  · cases h
  · split at h
    · cases h
    · next hwords hempty =>
      cases h
      have hword : ∀ q ∈ (longestFirst words).map Pattern.literal, q.Readable := by
        intro q hq
        obtain ⟨w, hw, rfl⟩ := List.mem_map.mp hq
        apply readable_literal
        rintro rfl
        exact hempty (List.any_eq_true.mpr ⟨"", mem_longestFirst.mp hw, by decide⟩)
      obtain ⟨w, ws, hlist, hw⟩ := oneOf_eq_foldl (by simpa using hwords : words ≠ [])
      rw [hlist] at hword
      rw [hw, ← List.foldl_map]
      exact readable_foldl Readable.alt hword

theorem Built.readable (h : Built p) : p.Readable := by
  induction h with
  | literal h => exact readable_of_literal? h
  | set h => exact readable_set h
  | blank => exact readable_blank
  | sequence _ h ih => exact readable_of_sequence? ih h
  | alternation _ h ih => exact readable_of_alternation? ih h
  | optional _ ih => exact ih.optional
  | star _ ih => exact ih.star
  | plus _ ih => exact ih.plus
  | rep _ h ih => exact readable_of_repeat? ih h
  | word _ ih => exact ih.word
  | wordUnless _ _ ihp ihc => exact ihp.wordUnless ihc
  | oneOf h => exact readable_of_oneOf? h

/-- Literals are not empty, class bodies are well formed, bounds are in order, and no source is
written by hand. -/
def wellFormed : Pattern → Bool
  | .literal text => !text.isEmpty
  | .set body => (CharClass.ofBody? body).isSome
  | .raw _ _ => false
  | .blank => true
  | .seq a b | .alt a b | .wordUnless a b => a.wellFormed && b.wellFormed
  | .optional p | .star p | .plus p | .word p => p.wellFormed
  | .rep p low high => p.wellFormed && low ≤ high.getD low

theorem built_of_wellFormed (h : p.wellFormed = true) : Built p := by
  induction p with
  | literal text =>
    have htext : text.isEmpty = false := by simpa [wellFormed] using h
    have hliteral : literal? text = .ok (.literal text) := by rw [literal?, htext]; rfl
    exact .literal hliteral
  | set body => exact .set h
  | raw source kind => cases h
  | blank => exact .blank
  | seq a b iha ihb =>
    obtain ⟨ha, hb⟩ := Bool.and_eq_true_iff.mp h
    exact (iha ha).append (ihb hb)
  | alt a b iha ihb =>
    obtain ⟨ha, hb⟩ := Bool.and_eq_true_iff.mp h
    exact (iha ha).orElse (ihb hb)
  | optional p ih => exact (ih h).optional
  | star p ih => exact (ih h).star
  | plus p ih => exact (ih h).plus
  | rep p low high ih =>
    obtain ⟨hp, hbounds⟩ := Bool.and_eq_true_iff.mp h
    have hrepeat : repeat? p low (high.map Int.ofNat) = .ok (.rep p low high) := by
      rw [repeat?, if_neg]
      · cases high <;> rfl
      · cases high with
        | none => simp
        | some high => simpa using hbounds
    exact .rep (ih hp) hrepeat
  | word p ih => exact (ih h).word
  | wordUnless p c ihp ihc =>
    obtain ⟨hp, hc⟩ := Bool.and_eq_true_iff.mp h
    exact (ihp hp).wordUnless (ihc hc)

/-! ### Meaning of the expression tree -/

variable {t : Array Char}

/-- Every end that the pattern reaches from position `i`, in the order of backtracking: parts one
after another, alternatives in their order, more rounds of a repetition before fewer. -/
def reach (t : Array Char) : Pattern → Nat → List Nat
  | .literal text, i => if Stands t i text.toList then [i + text.length] else []
  | .set body, i =>
    if (CharClass.ofBody? body).any fun k => t[i]?.any k.test then [i + 1] else []
  | .raw source _, i => ((ofText? source).getD .never).ends t i
  | .blank, i => if t[i]?.any Blank.isBlank then [i + 1] else []
  | .seq a b, i => (a.reach t i).flatMap (b.reach t)
  | .alt a b, i => a.reach t i ++ b.reach t i
  | .optional p, i => p.reach t i ++ [i]
  | .star p, i => greedy (p.reach t) (t.size - i) i
  | .plus p, i => (p.reach t i).flatMap fun j => greedy (p.reach t) (t.size - j) j
  | .rep p low high, i =>
    (times (p.reach t) low i).flatMap (greedy (p.reach t) (high.getD low - low))
  | .word p, i => if atBoundary t i then (p.reach t i).filter (atBoundary t) else []
  | .wordUnless p c, i =>
    if atBoundary t i then
      (p.reach t i).filter fun j => atBoundary t j && (c.reach t j).isEmpty
    else []

/-- The tree reaches what the expression it denotes reaches. -/
theorem reach_eq_ends (p : Pattern) (i : Nat) : p.reach t i = p.toRegex.ends t i := by
  induction p generalizing i with
  | literal text => rw [toRegex, ends_chars, String.length_toList, reach]
  | set body =>
    rw [reach, toRegex]
    cases CharClass.ofBody? body <;> simp [ends]
  | raw source kind => rfl
  | blank =>
    have htest : CharClass.blank.test = Blank.isBlank := funext CharClass.test_blank
    rw [reach, toRegex, ends, htest]
  | seq a b iha ihb => simp only [reach, toRegex, ends, iha, funext ihb]
  | alt a b iha ihb => simp only [reach, toRegex, ends, iha, ihb]
  | optional p ih => rw [reach, toRegex, ends_optional, ih]
  | star p ih => simp [reach, toRegex, ends, times, spareRounds, funext ih]
  | plus p ih => simp [reach, toRegex, ends, times, spareRounds, funext ih]
  | rep p low high ih =>
    rw [reach, toRegex, ends, funext ih]
    rfl
  | word p ih =>
    rw [reach, toRegex, ends_boundary_seq, ends_seq_test fun _ => rfl, ih]
  | wordUnless p c ihp ihc =>
    have htest (j : Nat) : (Regex.seq .boundary (.notAhead c.toRegex)).ends t j =
        if atBoundary t j && (c.reach t j).isEmpty then [j] else [] := by
      rw [ends_boundary_seq, ends, ihc]
      by_cases hj : atBoundary t j <;> simp [hj]
    rw [reach, toRegex, ends_boundary_seq, ends_seq_test htest, ihp]

/-- The source of a built pattern is read as an expression with the ends of the pattern. -/
theorem Built.exists_read (h : Built p) : ∃ r, ofText? p.source = some r ∧
    p.compile = (if p.toRegex.isBounded then .ok r else .error .tooManyRounds) ∧
    ∀ t i, r.ends t i = p.toRegex.ends t i := by
  obtain ⟨r, hagrees, hread⟩ := h.readable.alternatives.ofText?
  refine ⟨r, hread, ?_, hagrees.ends⟩
  rw [compile, Regex.read, hread, ← hagrees.bounded]

theorem Built.compile_ends (h : Built p) (hbounded : p.toRegex.isBounded = true) :
    ∃ r, p.compile = .ok r ∧ ∀ t i, r.ends t i = p.toRegex.ends t i := by
  obtain ⟨r, -, hcompile, hends⟩ := h.exists_read
  exact ⟨r, by rw [hcompile, if_pos hbounded], hends⟩

/-- Printing a pattern and reading the source keeps its meaning: the expression that is read
reaches the ends of the tree in their order, and compiling fails for a bound over the limit only. -/
theorem compile_reaches (h : Built p) : ∃ r, ofText? p.source = some r ∧
    p.compile = (if p.toRegex.isBounded then .ok r else .error .tooManyRounds) ∧
    ∀ t i, r.ends t i = p.reach t i := by
  obtain ⟨r, hread, hcompile, hends⟩ := h.exists_read
  exact ⟨r, hread, hcompile, fun t i => (hends t i).trans (reach_eq_ends p i).symm⟩

end

theorem compile_reaches_grouped :
    ∃ r, ofText? "(?:a|b\\.)*[0-\\x39]+" = some r ∧
      (star (literal "a" <|> literal "b.") ++ plus (set "0-\\x39")).compile = .ok r ∧
      ∀ t i, r.ends t i =
        (star (literal "a" <|> literal "b.") ++ plus (set "0-\\x39")).reach t i := by
  have ha : Built (literal "a") := .literal (show literal? "a" = .ok (literal "a") from rfl)
  have hb : Built (literal "b.") := .literal (show literal? "b." = .ok (literal "b.") from rfl)
  have hdigits : Built (set "0-\\x39") := .set (by decide)
  have hsource : (star (literal "a" <|> literal "b.") ++ plus (set "0-\\x39")).source =
      "(?:a|b\\.)*[0-\\x39]+" := by decide
  obtain ⟨r, hread, hcompile, hends⟩ := compile_reaches ((ha.orElse hb).star.append hdigits.plus)
  exact ⟨r, hsource ▸ hread, hcompile, hends⟩

end Pattern

/-! ### The grammar -/

namespace Grammar

open Pattern

/-- Every production of the grammar compiles to an expression with the ends of the production. -/
theorem compile_production {name : String} {p : Pattern} (h : production? name = some p) :
    Built p ∧ ∃ r, p.compile = .ok r ∧ ∀ t i, r.ends t i = p.toRegex.ends t i := by
  have hall : productions.all (fun x => x.2.wellFormed && x.2.toRegex.isBounded) = true := by
    decide +kernel
  have hmem : (name, p) ∈ productions := by
    obtain ⟨before, after, heq, -⟩ := List.lookup_eq_some_iff.mp h
    simp [heq]
  obtain ⟨hwell, hbounded⟩ := Bool.and_eq_true_iff.mp (List.all_eq_true.mp hall _ hmem)
  exact ⟨built_of_wellFormed hwell, (built_of_wellFormed hwell).compile_ends hbounded⟩

/-- The expression of a category has the ends of the compiled source of its pattern. -/
theorem compile_pattern (c : Category) :
    ∃ r, (pattern c).compile = .ok r ∧ ∀ t i, r.ends t i = (regex c).ends t i := by
  have hname : ∃ name, production? name = some (pattern c) := by
    cases c with
    | keyword => exact ⟨"keyword", rfl⟩
    | identifier => exact ⟨"identifier", rfl⟩
    | integer => exact ⟨"integer_constant", rfl⟩
    | floating => exact ⟨"floating_constant", rfl⟩
    | enumeration => exact ⟨"enumeration_constant", rfl⟩
    | character => exact ⟨"character_constant", rfl⟩
    | string => exact ⟨"string_literal", rfl⟩
    | punctuator => exact ⟨"punctuator", rfl⟩
  obtain ⟨name, hname⟩ := hname
  rw [regex_eq]
  exact (compile_production hname).2

end Grammar

end Lexeme
