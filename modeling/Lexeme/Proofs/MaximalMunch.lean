import Lexeme.Proofs.Grammar.Numbers
import Lexeme.Proofs.Grammar.Quoted
import Lexeme.Proofs.Matching

/-! Maximal munch. Ordered alternatives need not find the longest match first; those of the lexical
grammar do. Main statement: wherever a category matches, the end that is found first is the farthest
of all that can be reached, and it lies behind the start. -/

namespace Lexeme

namespace Regex

variable {t : Array Char} {r a b : Regex} {ks : List CharClass} {i j : Nat}

/-- Of all ends that the expression reaches from a position the farthest is found first. -/
def FindsLongest (t : Array Char) (r : Regex) : Prop :=
  ∀ i j, r.matchAt t i = some j → ∀ e ∈ r.ends t i, e ≤ j

theorem LongestFirst.findsLongest (h : LongestFirst t r ks) : FindsLongest t r :=
  fun _ _ hj _ he => h.le_matchAt hj he

theorem findsLongest_of_unique (h : ∀ i, ∀ x ∈ r.ends t i, ∀ y ∈ r.ends t i, x = y) :
    FindsLongest t r :=
  fun i _ hj e he => Nat.le_of_eq (h i e he _ (mem_ends_of_matchAt hj))

/-- The second of two alternatives is tried only where the first one has no end. -/
theorem matchAt_alt (a b : Regex) (i : Nat) :
    (alt a b).matchAt t i = (a.matchAt t i).or (b.matchAt t i) := by
  simp only [matchAt_eq_head?, ends, List.head?_append]

theorem FindsLongest.alt (ha : FindsLongest t a) (hb : FindsLongest t b)
    (h : ∀ i, ∀ x ∈ a.ends t i, ∀ y ∈ b.ends t i, y ≤ x) : FindsLongest t (alt a b) := by
  intro i j hj e he
  rw [matchAt_alt] at hj
  cases hm : a.matchAt t i with
  | some x =>
    rw [hm] at hj
    cases hj
    rcases mem_ends_alt.mp he with he | he
    · exact ha i j hm e he
    · exact h i j (mem_ends_of_matchAt hm) e he
  | none =>
    rw [hm, Option.none_or] at hj
    rcases mem_ends_alt.mp he with he | he
    · obtain ⟨k, hk⟩ := matchAt_isSome he
      rw [hm] at hk
      cases hk
    · exact hb i j hj e he

/-- The first end is the greatest one. -/
theorem FindsLongest.matchAt_eq (h : FindsLongest t r) (i : Nat) :
    r.matchAt t i = (r.ends t i).max? := by
  cases hm : r.matchAt t i with
  | none =>
    rw [matchAt_eq_head?, List.head?_eq_none_iff] at hm
    rw [hm]
    rfl
  | some j => exact (List.max?_eq_some_iff.mpr ⟨mem_ends_of_matchAt hm, h i j hm⟩).symm

theorem longestFirst_boundary : LongestFirst t .boundary [] :=
  longestFirst_of_length_le_one fun i => by
    rw [ends]
    split <;> simp

theorem longestFirst_notAhead (r : Regex) : LongestFirst t (.notAhead r) [] :=
  longestFirst_of_length_le_one fun i => by
    rw [ends]
    split <;> simp

end Regex

namespace Grammar

open Pattern Regex

variable {t : Array Char} {i j x y : Nat}

/-! ### Keywords -/

/-- A keyword goes on to where the word ends. -/
theorem keyword_end_unique (hx : x ∈ ends t keyword.toRegex i) (hy : y ∈ ends t keyword.toRegex i) :
    x = y := by
  have hpassed : ∀ {m n}, m ∈ ends t keyword.toRegex i → n ∈ ends t keyword.toRegex i →
      ¬ m < n := by
    intro m n hm hn hlt
    have hend := (not_wordAt_of_keyword hm).2
    rw [wordAt_of_keyword hn (le_of_mem_ends hm) hlt] at hend
    cases hend
  exact Nat.le_antisymm (Nat.le_of_not_lt (hpassed hy hx)) (Nat.le_of_not_lt (hpassed hx hy))

/-! ### Enumeration specifiers -/

/-- The part of a specifier before its braces. -/
def enumHead : Pattern := enumKeyword ++ whitespace ++ .optional (identifier ++ whitespace)

/-- The part of the braces before the closing one. -/
def enumOpen : Pattern :=
  .literal "\x7b" ++ whitespace ++ enumeratorList ++ .optional (whitespace ++ .literal ",") ++
    whitespace

/-- The name of an enumeration without its braces. -/
def enumName : Pattern := enumKeyword ++ .plus .blank ++ identifier

/-- A specifier with braces has the opening one behind its head, and no closing one before its
end. -/
theorem braces_of_enumeration (h : j ∈ ends t (enumHead ++ enumBody).toRegex i) :
    (∃ m, i ≤ m ∧ m < j ∧ At t (.single '\x7b') m) ∧
      ∃ n, j = n + 1 ∧ i ≤ n ∧ At t (.single '\x7d') n ∧
        ∀ p, i ≤ p → p < n → ¬ At t (.single '\x7d') p := by
  obtain ⟨m, hm, hbody⟩ := mem_ends_seq.mp h
  obtain ⟨n, hn, hclose⟩ := (mem_ends_seq (a := enumOpen.toRegex)).mp hbody
  obtain ⟨hs, rfl⟩ := mem_ends_literal.mp hclose
  have him := le_of_mem_ends hm
  have hmn := lt_of_mem_ends (r := enumOpen.toRegex) (by decide) hn
  obtain ⟨k, hk, hkm⟩ := (shaped_of_mem_ends hn).first hmn
  have hfirsts : enumOpen.toRegex.firsts = [.single '\x7b'] := by decide
  rw [hfirsts, List.mem_singleton] at hk
  refine ⟨⟨m, him, by omega, hk ▸ hkm⟩, n, rfl, by omega, at_single_iff.mpr (hs 0 (by decide)), ?_⟩
  intro p hip hpn
  rcases Nat.lt_or_ge p m with hpm | hpm
  · exact not_at_of_apart (by decide) hm hip hpm
  · exact not_at_of_apart (by decide) hn hpm hpn

/-- The first closing brace ends a specifier. -/
theorem enumBraces_end_unique (hx : x ∈ ends t (enumHead ++ enumBody).toRegex i)
    (hy : y ∈ ends t (enumHead ++ enumBody).toRegex i) : x = y := by
  obtain ⟨-, m, rfl, him, hm, hbefore⟩ := braces_of_enumeration hx
  obtain ⟨-, n, rfl, hin, hn, hbefore'⟩ := braces_of_enumeration hy
  rcases Nat.lt_trichotomy m n with hlt | rfl | hgt
  · exact absurd hm (hbefore' m him hlt)
  · rfl
  · exact absurd hn (hbefore n hin hgt)

/-- A name alone ends before the opening brace. -/
theorem enumName_lt_enumBraces (hx : x ∈ ends t (enumHead ++ enumBody).toRegex i)
    (hy : y ∈ ends t enumName.toRegex i) : y < x := by
  obtain ⟨⟨m, him, hmx, hbrace⟩, -⟩ := braces_of_enumeration hx
  refine Nat.lt_of_not_le fun hxy => ?_
  exact not_at_of_apart (by decide) hy him (by omega) hbrace

theorem longestFirst_enumKeyword : LongestFirst t enumKeyword.toRegex [] :=
  longestFirst_boundary.seq_single ((longestFirst_literal "enum").seq_single
    (longestFirst_boundary.seq_single (longestFirst_notAhead _)))

theorem longestFirst_enumName :
    LongestFirst t enumName.toRegex identifierUnit.toRegex.firsts := by
  have hblanks : LongestFirst t (Pattern.plus .blank).toRegex [.blank] :=
    ((longestFirst_one .blank).rep rfl 1 none).mono (List.Subset.refl _)
  have hhead := longestFirst_enumKeyword.seq_single (t := t) hblanks
  exact (hhead.seq longestFirst_identifier (by decide)).mono (by decide)

theorem findsLongest_enumerationConstant : FindsLongest t enumerationConstant.toRegex :=
  FindsLongest.alt (a := (enumHead ++ enumBody).toRegex) (b := enumName.toRegex)
    (findsLongest_of_unique fun _ _ hx _ hy => enumBraces_end_unique hx hy)
    longestFirst_enumName.findsLongest
    fun _ _ hx _ hy => Nat.le_of_lt (enumName_lt_enumBraces hx hy)

/-! ### All categories -/

/-- Every category finds its longest match first. -/
theorem findsLongest (t : Array Char) (c : Category) : FindsLongest t (regex c) := by
  rw [regex_eq]
  cases c with
  | keyword => exact findsLongest_of_unique fun _ _ hx _ hy => keyword_end_unique hx hy
  | identifier => exact longestFirst_identifier.findsLongest
  | integer =>
    obtain ⟨ks, hl⟩ := longestFirst_integerConstant (t := t)
    exact hl.findsLongest
  | floating => exact longestFirst_floatingConstant.findsLongest
  | enumeration => exact findsLongest_enumerationConstant
  | character => exact findsLongest_of_unique fun _ _ hx _ hy => characterConstant_end_unique hx hy
  | string => exact findsLongest_of_unique fun _ _ hx _ hy => stringLiteral_end_unique hx hy
  | punctuator => exact fun _ _ hj _ he => le_matchAt_punctuator hj he

/-- At every place of every text the match of a category that is found first is the longest of all
that can be reached, and none is empty. The matches of a scan are such matches. -/
theorem matchAt_maximal (c : Category) (t : Array Char) (i : Nat) :
    (regex c).matchAt t i = ((regex c).ends t i).max? ∧ (∀ j ∈ (regex c).ends t i, i < j) ∧
      ∀ x ∈ (regex c).allMatches t, ((regex c).ends t x.1).max? = some x.2 := by
  have hnull := Matching.regex_not_nullable c
  refine ⟨(findsLongest t c).matchAt_eq i, fun j => lt_of_mem_ends hnull, fun x hx => ?_⟩
  rw [← (findsLongest t c).matchAt_eq]
  exact matchAt_of_mem_allMatches hnull hx

/-- The zero of a hexadecimal number is an integer too, but not the longest one. -/
theorem matchAt_hexadecimal :
    (regex .integer).ends "0x1F".toList.toArray 0 = [4, 3, 1] ∧
      (regex .integer).matchAt "0x1F".toList.toArray 0 = some 4 :=
  have hends : (regex .integer).ends "0x1F".toList.toArray 0 = [4, 3, 1] := by decide
  ⟨hends, by rw [(matchAt_maximal .integer "0x1F".toList.toArray 0).1, hends]; rfl⟩

end Grammar

end Lexeme
