import Lexeme.Proofs.Grammar.Quoted
import Lexeme.Proofs.Nesting

/-! Texts made of lexemes with white space between them. No match reaches over such a gap, except
that a string literal may hold white space itself. Main statement: the tokens of such a text are its
lexemes. -/

namespace Lexeme.Layout

open Grammar Matching Nesting Regex

variable {t : Array Char} {c : Category} {i j n p : Nat} {words : List Span}

/-! ### Gaps and lexemes -/

/-- Space, tab and newline. -/
def gap : CharClass := .ofBody " \\t\\n"

theorem not_wordAt_of_gap (h : At t gap p) : wordAt t p = false := by
  obtain ⟨d, hd, hk⟩ := h
  have hgap : gap = ⟨false, [⟨32, 32⟩, ⟨9, 9⟩, ⟨10, 10⟩]⟩ := by decide
  rw [hgap, CharClass.test, Bool.bne_false, CodeRange.anyContains_iff] at hk
  obtain ⟨r, hr, h1, h2⟩ := hk
  have hword : WordChar.isWord d = false := by
    simp only [List.mem_cons, List.not_mem_nil, or_false] at hr
    rcases hr with rfl | rfl | rfl
    · obtain rfl : d = ' ' := Char.toNat_inj.mp (Nat.le_antisymm h2 h1)
      decide
    · obtain rfl : d = '\t' := Char.toNat_inj.mp (Nat.le_antisymm h2 h1)
      decide
    · obtain rfl : d = '\n' := Char.toNat_inj.mp (Nat.le_antisymm h2 h1)
      decide
  simp [wordAt, hd, hword]

/-- The pattern of a category without tests of what stands around it. -/
def spelling : Category → Pattern
  | .keyword => .oneOf keywords
  | c => pattern c

theorem spelling_eq_pattern (hc : c ≠ .keyword) : spelling c = pattern c := by
  cases c <;> first | rfl | exact absurd rfl hc

/-- What a lexeme must not be besides: the keyword `enum`, an identifier that is a keyword, a string
literal with an apostrophe, or one of the two categories that quote others. -/
def Allowed (t : Array Char) (i j : Nat) : Category → Prop
  | .keyword => ¬ (Stands t i "enum".toList ∧ j = i + "enum".length)
  | .identifier => ∀ w ∈ keywords, ¬ (Stands t i w.toList ∧ j = i + w.length)
  | .string => ∀ p, i ≤ p → p < j → ¬ At t (.single '\'') p
  | .enumeration => False
  | .character => False
  | _ => True

/-- A lexeme from `i` to `j`, with white space or an end of the text on both sides. -/
structure Placed (t : Array Char) (c : Category) (i j : Nat) : Prop where
  spells : j ∈ ends t (spelling c).toRegex i
  allowed : Allowed t i j c
  before : 0 < i → At t gap (i - 1)
  behind : j < t.size → At t gap j

/-- From position `n` on the text has the given lexemes, with white space between and around. -/
inductive Laid (t : Array Char) : Nat → List Span → Prop where
  | done {n : Nat} (h : ∀ p, n ≤ p → p < t.size → At t gap p) : Laid t n []
  | word {n i j : Nat} {c : Category} {rest : List Span} (hni : n ≤ i) (hsep : 0 < n → n < i)
      (hgap : ∀ p, n ≤ p → p < i → At t gap p) (hspells : j ∈ ends t (spelling c).toRegex i)
      (hallowed : Allowed t i j c) (hrest : Laid t j rest) : Laid t n (⟨c, i, j⟩ :: rest)

theorem spelling_not_nullable (c : Category) : (spelling c).toRegex.nullable = false := by
  cases c <;> decide

theorem Placed.lt (h : Placed t c i j) : i < j := lt_of_mem_ends (spelling_not_nullable c) h.spells

theorem Placed.le_size (h : Placed t c i j) : j ≤ t.size := by
  obtain ⟨k, -, hk⟩ := (shaped_of_mem_ends h.spells).last h.lt
  have := hk.lt_size
  omega

theorem Placed.not_quoting (h : Placed t c i j) : c ≠ .enumeration ∧ c ≠ .character := by
  constructor <;> rintro rfl <;> exact h.allowed

theorem Laid.behind (h : Laid t n words) (hn : 0 < n) (hsize : n < t.size) : At t gap n := by
  cases h with
  | done h => exact h n (Nat.le_refl n) hsize
  | word hni hsep hgap => exact hgap n (Nat.le_refl n) (hsep hn)

theorem Laid.placed (h : Laid t n words) {s : Span} (hs : s ∈ words) :
    ∃ c i j, s = ⟨c, (i : Nat), (j : Nat)⟩ ∧ n ≤ i ∧ Placed t c i j := by
  induction h with
  | done => cases hs
  | @word n i j c rest hni hsep hgap hspells hallowed hrest ih =>
    have hij := lt_of_mem_ends (spelling_not_nullable c) hspells
    rcases List.mem_cons.mp hs with rfl | hs
    · refine ⟨c, i, j, rfl, hni, hspells, hallowed, fun hi => ?_, hrest.behind (by omega)⟩
      by_cases hn : 0 < n
      · have := hsep hn
        exact hgap (i - 1) (by omega) (by omega)
      · exact hgap (i - 1) (by omega) (by omega)
    · obtain ⟨c', i', j', rfl, hle, hp⟩ := ih hs
      exact ⟨c', i', j', rfl, by omega, hp⟩

theorem Laid.placed_of_mem (h : Laid t n words) (hs : (⟨c, i, j⟩ : Span) ∈ words) :
    Placed t c i j := by
  obtain ⟨c', i', j', heq, -, hp⟩ := h.placed hs
  simp only [Span.mk.injEq, Int.natCast_inj] at heq
  obtain ⟨rfl, rfl, rfl⟩ := heq
  exact hp

theorem Laid.pairwise (h : Laid t n words) : words.Pairwise fun a b => a.stop ≤ b.start := by
  induction h with
  | done => exact .nil
  | word _ _ _ _ _ hrest ih =>
    rw [List.pairwise_cons]
    refine ⟨fun s hs => ?_, ih⟩
    obtain ⟨c', i', j', rfl, hle, -⟩ := hrest.placed hs
    exact Int.ofNat_le.mpr hle

/-- Every place of the text belongs to a gap or to a lexeme. -/
theorem Laid.cover (h : Laid t n words) (hn : n ≤ p) (hp : p < t.size) :
    At t gap p ∨ ∃ c i j, (⟨c, (i : Nat), (j : Nat)⟩ : Span) ∈ words ∧ i ≤ p ∧ p < j := by
  induction h with
  | done h => exact .inl (h p hn hp)
  | @word n i j c rest _ _ hgap _ _ _ ih =>
    rcases Nat.lt_or_ge p i with hpi | hpi
    · exact .inl (hgap p hn hpi)
    rcases Nat.lt_or_ge p j with hpj | hpj
    · exact .inr ⟨c, i, j, List.mem_cons_self, hpi, hpj⟩
    · rcases ih hpj with hg | ⟨c', i', j', hm, hpi', hpj'⟩
      · exact .inl hg
      · exact .inr ⟨c', i', j', List.mem_cons_of_mem _ hm, hpi', hpj'⟩

/-- Lexemes that share a place are one. -/
theorem Laid.eq_of_overlaps (h : Laid t n words) {a b : Span} (ha : a ∈ words) (hb : b ∈ words)
    (ho : a.Overlaps b) : a = b := by
  have hpair : words.Pairwise fun x y => x.Overlaps y → x = y :=
    h.pairwise.imp fun hxy hov => by
      have := hov.2
      omega
  have hflip : words.Pairwise (flip fun x y => x.Overlaps y → x = y) :=
    h.pairwise.imp fun hxy hov => by
      have := hov.1
      omega
  exact hpair.forall_of_forall_of_flip (fun _ _ _ => rfl) hflip ha hb ho

/-! ### What a lexeme is made of -/

/-- Outside of string literals there is no white space, no quotation mark and no apostrophe. -/
theorem classes_apart : ∀ c ∈ Category.all, c ≠ .string → c ≠ .enumeration → c ≠ .character →
    (spelling c).toRegex.classes.all gap.apart = true ∧
      (spelling c).toRegex.classes.all (CharClass.single '"').apart = true ∧
      (spelling c).toRegex.classes.all (CharClass.single '\'').apart = true := by
  decide +kernel

theorem Placed.apart (h : Placed t c i j) (hc : c ≠ .string) :
    (spelling c).toRegex.classes.all gap.apart = true ∧
      (spelling c).toRegex.classes.all (CharClass.single '"').apart = true ∧
      (spelling c).toRegex.classes.all (CharClass.single '\'').apart = true :=
  classes_apart c (Category.mem_all c) hc h.not_quoting.1 h.not_quoting.2

theorem Placed.category_of_quote (h : Placed t c i j) (hi : i ≤ p) (hj : p < j)
    (hp : t[p]? = some '"') : c = .string := by
  refine Classical.byContradiction fun hc => ?_
  exact not_at_of_apart (h.apart hc).2.1 h.spells hi hj (at_single_iff.mpr hp)

theorem Placed.not_apostrophe (h : Placed t c i j) (hi : i ≤ p) (hj : p < j) :
    ¬ At t (.single '\'') p := by
  by_cases hc : c = .string
  · subst hc
    exact h.allowed p hi hj
  · exact not_at_of_apart (h.apart hc).2.2 h.spells hi hj

/-! ### Matches and gaps -/

/-- What has no white space lies within one lexeme. -/
theorem Laid.exists_word (h : Laid t 0 words) {a b : Nat} (hab : a < b) (hb : b ≤ t.size)
    (hno : ∀ p, a ≤ p → p < b → ¬ At t gap p) :
    ∃ c i j, (⟨c, (i : Nat), (j : Nat)⟩ : Span) ∈ words ∧ i ≤ a ∧ b ≤ j := by
  rcases h.cover (Nat.zero_le a) (by omega) with hg | ⟨c, i, j, hm, hia, haj⟩
  · exact absurd hg (hno a (Nat.le_refl a) hab)
  · refine ⟨c, i, j, hm, hia, Nat.le_of_not_lt fun hjb => ?_⟩
    exact hno j (by omega) hjb ((h.placed_of_mem hm).behind (by omega))

/-- There is no apostrophe anywhere, and so no character constant. -/
theorem Laid.not_character (h : Laid t 0 words) : ¬ Matched t .character i j := by
  intro hm
  obtain ⟨k, hk, hkj⟩ := hm.shaped.last hm.lt
  have hlasts : (regex .character).lasts = [.single '\''] := by decide
  rw [hlasts, List.mem_singleton] at hk
  subst hk
  rcases h.cover (Nat.zero_le (j - 1)) hkj.lt_size with hg | ⟨c, x, y, hw, hx, hy⟩
  · exact hg.not_apart (by decide) hkj
  · exact (h.placed_of_mem hw).not_apostrophe hx hy hkj

theorem not_gap_of_word (h : At t wordClass p) : ¬ At t gap p := h.not_apart (by decide)

/-- No other match holds white space. -/
theorem not_gap_inside (hm : Matched t c i j) (hs : c ≠ .string) (he : c ≠ .enumeration)
    (hc : c ≠ .character) (hi : i ≤ p) (hj : p < j) : ¬ At t gap p := by
  have hmem := hm.mem_ends
  rw [regex_eq] at hmem
  by_cases hk : c = .keyword
  · subst hk
    exact not_gap_of_word (at_word_of_keyword hmem hi hj)
  · have hapart := (classes_apart c (Category.mem_all c) hs he hc).1
    rw [spelling_eq_pattern hk] at hapart
    exact not_at_of_apart hapart hmem hi hj

/-- A string literal begins within a lexeme that is one. -/
theorem Laid.exists_string (h : Laid t 0 words) (hm : Matched t .string i j) :
    ∃ x y, (⟨.string, (x : Nat), (y : Nat)⟩ : Span) ∈ words ∧ x ≤ i ∧ i < y := by
  have hmem := hm.mem_ends
  rw [regex_eq] at hmem
  obtain ⟨m, q, hopen, -⟩ := exists_of_mem_stringLiteral hmem
  obtain ⟨o, hio, -, hquote, hletters⟩ := quote_of_opening hopen
  have hsize : o < t.size := (at_single_iff.mpr hquote).lt_size
  obtain ⟨c, x, y, hw, hx, hy⟩ := h.exists_word (a := i) (b := o + 1) (by omega) hsize (by
    intro p hip hpo
    rcases Nat.lt_or_eq_of_le (Nat.le_of_lt_succ hpo) with hlt | rfl
    · exact not_gap_of_word (hletters p hip hlt)
    · exact (at_single_iff.mpr hquote).not_apart (by decide))
  obtain rfl := (h.placed_of_mem hw).category_of_quote (p := o) (by omega) (by omega) hquote
  exact ⟨x, y, hw, hx, by omega⟩

/-- A keyword within a lexeme that is a keyword or an identifier is all of it. -/
theorem Placed.eq_of_keyword {a b : Nat} (h : Placed t c i j)
    (hc : c = .keyword ∨ c = .identifier) (hk : b ∈ ends t keyword.toRegex a) (hia : i ≤ a)
    (hbj : b ≤ j) : a = i ∧ b = j := by
  rcases hc with rfl | rfl
  · have hab := lt_of_mem_ends (r := keyword.toRegex) (by decide) hk
    obtain ⟨hbefore, hbehind⟩ := not_wordAt_of_keyword hk
    constructor
    · refine Classical.byContradiction fun hne => ?_
      have hw := wordAt_of_at (at_word_of_keywords h.spells (p := a - 1) (by omega) (by omega))
      rw [hbefore (by omega)] at hw
      cases hw
    · refine Classical.byContradiction fun hne => ?_
      have hw := wordAt_of_at (at_word_of_keywords h.spells (p := b) (by omega) (by omega))
      rw [hbehind] at hw
      cases hw
  · exact keyword_within_identifier h.spells hk hia hbj

/-- The word `enum` stands in string literals only. -/
theorem Placed.string_of_enum {a : Nat} (h : Placed t c i j)
    (hk : a + 4 ∈ ends t keyword.toRegex a) (hs : Stands t a "enum".toList) (hia : i ≤ a)
    (haj : a + 4 ≤ j) : c = .string := by
  have hletter : At t (.single 'n') (a + 1) := at_single_iff.mpr (hs 1 (by decide))
  have hnone : ∀ {r : Regex}, j ∈ ends t r i → r.classes.all (CharClass.single 'n').apart = true →
      False := fun hr ha => not_at_of_apart ha hr (by omega) (by omega) hletter
  cases c with
  | keyword =>
    obtain ⟨rfl, rfl⟩ := h.eq_of_keyword (.inl rfl) hk hia haj
    exact absurd ⟨hs, rfl⟩ h.allowed
  | identifier =>
    obtain ⟨rfl, rfl⟩ := h.eq_of_keyword (.inr rfl) hk hia haj
    exact absurd ⟨hs, rfl⟩ (h.allowed "enum" (by decide))
  | integer => exact (hnone h.spells (by decide)).elim
  | floating => exact (hnone h.spells (by decide)).elim
  | enumeration => exact h.allowed.elim
  | character => exact h.allowed.elim
  | string => rfl
  | punctuator => exact (hnone h.spells (by decide)).elim

/-- An enumeration lies within a string literal. -/
theorem Laid.enumeration_within (h : Laid t 0 words) (hm : Matched t .enumeration i j) :
    ∃ x y, (⟨.string, (x : Nat), (y : Nat)⟩ : Span) ∈ words ∧ x ≤ i ∧ j ≤ y := by
  have hmem := hm.mem_ends
  rw [regex_eq] at hmem
  obtain ⟨hk, hs⟩ := keyword_of_enumeration hmem
  have hword : ∀ p, i ≤ p → p < i + 4 → At t wordClass p := fun p => at_word_of_keyword hk
  obtain ⟨c, x, y, hw, hx, hy⟩ := h.exists_word (a := i) (b := i + 4) (by omega)
    (hword (i + 3) (by omega) (by omega)).lt_size
    (fun p hip hp => not_gap_of_word (hword p hip hp))
  have hplaced := h.placed_of_mem hw
  obtain rfl := hplaced.string_of_enum hk hs hx hy
  -- it ends before the closing quotation mark, which it cannot hold
  obtain ⟨m, q, -, -, hquote, rfl⟩ := exists_of_mem_stringLiteral hplaced.spells
  refine ⟨x, q + 1, hw, hx, Nat.le_of_not_lt fun hlt => ?_⟩
  exact not_at_of_apart (by decide) hmem (p := q) (by omega) (by omega) (at_single_iff.mpr hquote)

/-! ### Lexemes are matched -/

/-- An expression without white space does not reach over the end of a lexeme. -/
theorem Placed.le_of_mem_ends {r : Regex} {e : Nat} (h : Placed t c i j)
    (hr : r.classes.all gap.apart = true) (he : e ∈ ends t r i) : e ≤ j := by
  refine Nat.le_of_not_lt fun hlt => ?_
  have hij := h.lt
  have hbounds := mem_ends_bounds (by have := h.le_size; omega) he
  exact not_at_of_apart hr he (by omega) hlt (h.behind (by omega))

theorem Placed.matchAt_of_longestFirst {ks : List CharClass} (h : Placed t c i j)
    (hl : LongestFirst t (spelling c).toRegex ks) (hc : c ≠ .string) :
    (spelling c).toRegex.matchAt t i = some j :=
  hl.matchAt_eq h.spells fun _ he => h.le_of_mem_ends (h.apart hc).1 he

theorem matchAt_of_forall_eq {r : Regex} (hj : j ∈ ends t r i) (h : ∀ e ∈ ends t r i, e = j) :
    r.matchAt t i = some j := by
  obtain ⟨e, he⟩ := matchAt_isSome hj
  rw [he, h e (mem_ends_of_matchAt he)]

theorem Placed.mem_ends_keyword (h : Placed t .keyword i j) : j ∈ ends t keyword.toRegex i := by
  have hij := h.lt
  have hword : ∀ p, i ≤ p → p < j → wordAt t p = true := fun p hip hpj =>
    wordAt_of_at (at_word_of_keywords h.spells hip hpj)
  have hbehind : wordAt t j = false := by
    rcases Nat.lt_or_ge j t.size with hlt | hge
    · exact not_wordAt_of_gap (h.behind hlt)
    · simp [wordAt, Array.getElem?_eq_none hge]
  refine Grammar.mem_ends_keyword.mpr ⟨?_, h.spells, ?_, ?_⟩
  · rw [atBoundary, hword i (Nat.le_refl i) hij]
    by_cases hi : 0 < i
    · simp [not_wordAt_of_gap (h.before hi)]
    · simp [show i = 0 by omega]
  · have hj : (j != 0) = true := by simp only [bne_iff_ne]; omega
    simp [atBoundary, hbehind, hword (j - 1) (by omega) (by omega), hj]
  · rw [List.eq_nil_iff_forall_not_mem]
    intro e he
    have hlt := lt_of_mem_ends (r := universalCharacterName.toRegex) (by decide) he
    obtain ⟨k, hk, hkj⟩ := (shaped_of_mem_ends he).first hlt
    have hfirsts : ∀ k ∈ universalCharacterName.toRegex.firsts, gap.apart k = true := by decide
    exact (h.behind hkj.lt_size).not_apart (hfirsts k hk) hkj

/-- A lexeme is what its category matches there. -/
theorem Placed.matched (h : Placed t c i j) : Matched t c i j := by
  rw [Matched, regex_eq]
  cases c with
  | keyword =>
    refine matchAt_of_forall_eq h.mem_ends_keyword fun e he => ?_
    have hle := h.le_of_mem_ends (h.apart (by decide)).1 (Grammar.mem_ends_keyword.mp he).2.1
    exact (h.eq_of_keyword (.inl rfl) he (Nat.le_refl i) hle).2
  | identifier => exact h.matchAt_of_longestFirst longestFirst_identifier (by decide)
  | integer =>
    obtain ⟨ks, hl⟩ := longestFirst_integerConstant (t := t)
    exact h.matchAt_of_longestFirst hl (by decide)
  | floating => exact h.matchAt_of_longestFirst longestFirst_floatingConstant (by decide)
  | enumeration => exact h.allowed.elim
  | character => exact h.allowed.elim
  | string =>
    exact matchAt_of_forall_eq h.spells fun e he => stringLiteral_end_unique he h.spells
  | punctuator =>
    have hspells : j ∈ ends t punctuator.toRegex i := h.spells
    obtain ⟨e, he⟩ := matchAt_isSome hspells
    have h1 := h.le_of_mem_ends (h.apart (by decide)).1 (mem_ends_of_matchAt he)
    have h2 := le_matchAt_punctuator he hspells
    rw [show pattern .punctuator = punctuator from rfl, he, Nat.le_antisymm h1 h2]

end Lexeme.Layout
