import Lexeme.Lexer
import Lexeme.Proofs.Grammar.Numbers
import Lexeme.Proofs.Matching
import Lexeme.Proofs.Repair
import Lexeme.Proofs.Resolution
import Mathlib.Data.List.Pairwise

/-! What lies within what after the standard table has been applied. For each pair of categories
either a rule of the table absorbs the inner one or the grammars leave no room for it; two pairs
need a closer look. Main statement: only a character constant holds another token. -/

namespace Lexeme.Nesting

open Matching Resolution Suppression

variable {t : Array Char} {a b o u : Span}

/-- The matches of all categories. -/
def matched (t : Array Char) : List Span := spansOfAll t Category.all

/-- The matches that the standard table leaves. -/
def survivors (t : Array Char) : List Span := left Rule.standard (matched t)

theorem matched_tidy (t : Array Char) : Span.Tidy (matched t) := spansOfAll_tidy t Category.all

theorem mem_matched_of_mem_survivors (h : a ∈ survivors t) : a ∈ matched t :=
  (left_sublist _ _).mem h

theorem survivors_tidy (t : Array Char) : Span.Tidy (survivors t) :=
  (matched_tidy t).sublist (left_sublist _ _)

theorem mem_matched : a ∈ matched t ↔ a ∈ spansOf t a.category := by
  simp [matched, mem_spansOfAll]

/-- A match of the text, with its place. -/
theorem exists_matched (h : a ∈ matched t) :
    ∃ i j : Nat, a = ⟨a.category, i, j⟩ ∧ Matched t a.category i j :=
  matched_of_mem (mem_matched.mp h)

/-! ### What the grammars say -/

theorem not_contains_of_excludes (ha : a ∈ matched t) (hb : b ∈ matched t)
    (h : (Grammar.regex a.category).excludes (Grammar.regex b.category) = true) :
    ¬ a.Contains b := by
  obtain ⟨i, j, hai, hi⟩ := exists_matched ha
  obtain ⟨p, q, hbp, hp⟩ := exists_matched hb
  rw [hai, hbp]
  rintro ⟨h1, h2⟩
  exact Regex.not_within_of_excludes h hi.mem_ends hp.mem_ends
    ⟨Int.ofNat_le.mp h1, Int.ofNat_le.mp h2⟩

/-- No match of `y` has a character that a match of `x` can end with. -/
def lastsApart (x y : Regex) : Bool := x.lasts.all fun k => y.classes.all k.apart

theorem not_interrupts_of_lastsApart (hu : u ∈ matched t) (hb : b ∈ matched t)
    (h : lastsApart (Grammar.regex u.category) (Grammar.regex b.category) = true) :
    ¬ Interrupts u b := by
  obtain ⟨i, j, hui, hi⟩ := exists_matched hu
  obtain ⟨p, q, hbp, hp⟩ := exists_matched hb
  rw [hui, hbp]
  rintro ⟨-, h1, h2⟩
  have h1 := Int.ofNat_lt.mp h1
  have h2 := Int.ofNat_lt.mp h2
  obtain ⟨k, hk, hkj⟩ := hi.shaped.last hi.lt
  exact Regex.not_at_of_apart (List.all_eq_true.mp h k hk) hp.mem_ends (by omega) (by omega) hkj

/-! ### What a rule of the table absorbs -/

/-- The rule takes `d` out of `c`: it follows every `d`, and no span of another outer category can
end inside of one. -/
def Absorbs (c d : Category) (r : Rule) : Prop :=
  FollowsEach r ∧ c ∈ r.outer ∧ d ∈ r.inner ∧
    ∀ e ∈ r.outer, e = c ∨ lastsApart (Grammar.regex e) (Grammar.regex d) = true

instance (c d : Category) (r : Rule) : Decidable (Absorbs c d r) :=
  inferInstanceAs (Decidable (_ ∧ _ ∧ _ ∧ _))

theorem standard_split {n : Nat} {r : Rule} (hr : Rule.standard[n]? = some r) :
    Rule.standard = Rule.standard.take n ++ r :: Rule.standard.drop (n + 1) := by
  obtain ⟨hn, rfl⟩ := List.getElem?_eq_some_iff.mp hr
  rw [← List.drop_eq_getElem_cons hn, List.take_append_drop]

theorem mem_left_take (h : a ∈ survivors t) (n : Nat) :
    a ∈ left (Rule.standard.take n) (matched t) := by
  rw [survivors, ← List.take_append_drop n Rule.standard, left_append] at h
  exact (left_sublist _ _).mem h

/-- What is left in the end lies within nothing that its rule still found. -/
theorem not_contains_of_absorbs {n : Nat} {r : Rule} (hr : Rule.standard[n]? = some r)
    (h : Absorbs a.category b.category r) (ha : a ∈ left (Rule.standard.take n) (matched t))
    (hb : b ∈ survivors t) : ¬ a.Contains b := by
  obtain ⟨hfollows, hac, hbc, hother⟩ := h
  intro hab
  have hb' := mem_matched_of_mem_survivors hb
  rw [survivors, standard_split hr] at hb
  obtain ⟨u, hu, huc, hint⟩ :=
    exists_interrupts_of_contains (matched_tidy t) hfollows hb hbc ha hac hab
  have hu' := (left_sublist _ _).mem hu
  rcases hother u.category huc with heq | hlast
  · -- a second span of the same category would share characters with the first
    obtain ⟨h1, h2, h3⟩ := hint
    obtain ⟨h4, h5⟩ := hab
    have hua : u = a := (matched_tidy t).eq_of_overlaps hu' ((left_sublist _ _).mem ha) heq
      ⟨by omega, by omega⟩
    subst hua
    omega
  · exact not_interrupts_of_lastsApart hu' hb' hlast hint

theorem survivor_not_contains {r : Rule} (hr : r ∈ Rule.standard)
    (h : Absorbs a.category b.category r) (ha : a ∈ survivors t) (hb : b ∈ survivors t) :
    ¬ a.Contains b := by
  obtain ⟨n, hn⟩ := List.getElem?_of_mem hr
  exact not_contains_of_absorbs hn h (mem_left_take ha n) hb

/-- Every pair of categories is accounted for, but for two. -/
theorem absorbed_or_excluded : ∀ c ∈ Category.all, ∀ d ∈ Category.all, c ≠ .character → c ≠ d →
    (∃ r ∈ Rule.standard, Absorbs c d r) ∨
      (Grammar.regex c).excludes (Grammar.regex d) = true ∨
      (c = .identifier ∧ d = .keyword) ∨ (c = .integer ∧ d = .floating) := by
  decide +kernel

/-! ### Keywords within identifiers -/

theorem not_identifier_contains_keyword (ha : a ∈ survivors t) (hb : b ∈ survivors t)
    (hac : a.category = .identifier) (hbc : b.category = .keyword) : ¬ a.Contains b := by
  intro hab
  obtain ⟨i, j, hai, hi⟩ := exists_matched (mem_matched_of_mem_survivors ha)
  obtain ⟨p, q, hbp, hp⟩ := exists_matched (mem_matched_of_mem_survivors hb)
  rw [hac] at hi hai
  rw [hbc] at hp hbp
  have hi := hi.mem_ends
  have hp := hp.mem_ends
  rw [Grammar.regex_eq] at hi hp
  have hsame : p = i ∧ q = j := by
    rw [hai, hbp] at hab
    exact Grammar.keyword_within_identifier hi hp (Int.ofNat_le.mp hab.1) (Int.ofNat_le.mp hab.2)
  -- the keyword has the extent of the identifier, and the first rule of the table removes that
  have hba : b.Contains a := by
    rw [hai, hbp, hsame.1, hsame.2]
    exact ⟨Int.le_refl _, Int.le_refl _⟩
  refine survivor_not_contains (r := Rule.make [.keyword] [.identifier] false) (by decide) ?_
    hb ha hba
  rw [hac, hbc]
  decide

/-! ### Matches within string literals -/

/-- A match is there when its rule is applied, or a match around it took it before. -/
theorem mem_left_or_exists_outer (ho : o ∈ matched t) (rules : List Rule) :
    o ∈ left rules (matched t) ∨ ∃ r ∈ rules, o.category ∈ r.inner ∧
      ∃ u ∈ matched t, u.category ∈ r.outer ∧ u.Contains o := by
  by_cases h : o ∈ left rules (matched t)
  · exact .inl h
  · exact .inr (exists_outer_of_not_mem_left (matched_tidy t).proper ho h)

/-- No rule takes a string literal, and there is one for each category to clear it. -/
theorem not_string_contains (ho : o ∈ matched t) (hoc : o.category = .string)
    (hb : b ∈ survivors t) (hbc : b.category ≠ .string) : ¬ o.Contains b := by
  have habsorbs : ∀ d ∈ Category.all, d ≠ .string → ∃ r ∈ Rule.standard, Absorbs .string d r := by
    decide
  have hnone : ∀ r ∈ Rule.standard, Category.string ∉ r.inner := by decide
  obtain ⟨r, hr, h⟩ := habsorbs b.category (Category.mem_all _) hbc
  obtain ⟨n, hn⟩ := List.getElem?_of_mem hr
  refine not_contains_of_absorbs hn (hoc ▸ h) ?_ hb
  rcases mem_left_or_exists_outer ho (Rule.standard.take n) with hleft | ⟨r', hr', hin, -⟩
  · exact hleft
  · exact absurd (hoc ▸ hin) (hnone r' (List.mem_of_mem_take hr'))

/-! ### Floating constants within integer constants -/

theorem not_character_contains_floating (ho : o ∈ matched t) (hoc : o.category = .character)
    (hb : b ∈ survivors t) (hbc : b.category = .floating) : ¬ o.Contains b := by
  intro hob
  rcases mem_left_or_exists_outer ho (Rule.standard.take 15) with h | ⟨r, hr, hin, u, hu, huc, hc⟩
  · refine not_contains_of_absorbs (n := 15) rfl ?_ h hb hob
    rw [hoc, hbc]
    decide
  · have hstring : ∀ r ∈ Rule.standard.take 15, Category.character ∈ r.inner →
        ∀ c ∈ r.outer, c = .string := by decide
    have huc := hstring r hr (hoc ▸ hin) _ huc
    exact not_string_contains hu huc hb (by rw [hbc]; decide) (hc.trans hob)

theorem not_enumeration_contains_floating (ho : o ∈ matched t) (hoc : o.category = .enumeration)
    (hb : b ∈ survivors t) (hbc : b.category = .floating) : ¬ o.Contains b := by
  intro hob
  rcases mem_left_or_exists_outer ho (Rule.standard.take 16) with h | ⟨r, hr, hin, u, hu, huc, hc⟩
  · refine not_contains_of_absorbs (n := 16) rfl ?_ h hb hob
    rw [hoc, hbc]
    decide
  · have hquoted : ∀ r ∈ Rule.standard.take 16, Category.enumeration ∈ r.inner →
        ∀ c ∈ r.outer, c = .string ∨ c = .character := by decide
    rcases hquoted r hr (hoc ▸ hin) _ huc with huc | huc
    · exact not_string_contains hu huc hb (by rw [hbc]; decide) (hc.trans hob)
    · exact not_character_contains_floating hu huc hb hbc (hc.trans hob)

/-- Whatever takes an identifier away takes a floating constant within it as well. -/
theorem not_identifier_contains_floating (ho : o ∈ matched t) (hoc : o.category = .identifier)
    (hb : b ∈ survivors t) (hbc : b.category = .floating) : ¬ o.Contains b := by
  intro hob
  rcases mem_left_or_exists_outer ho (Rule.standard.take 11) with h | ⟨r, hr, hin, u, hu, huc, hc⟩
  · refine not_contains_of_absorbs (n := 11) rfl ?_ h hb hob
    rw [hoc, hbc]
    decide
  · have hother : ∀ r ∈ Rule.standard.take 11, Category.identifier ∈ r.inner →
        ∀ c ∈ r.outer, c = .keyword ∨ c = .string ∨ c = .character ∨ c = .enumeration := by decide
    have hub := hc.trans hob
    rcases hother r hr (hoc ▸ hin) _ huc with huc | huc | huc | huc
    · refine not_contains_of_excludes hu (mem_matched_of_mem_survivors hb) ?_ hub
      rw [huc, hbc]
      decide +kernel
    · exact not_string_contains hu huc hb (by rw [hbc]; decide) hub
    · exact not_character_contains_floating hu huc hb hbc hub
    · exact not_enumeration_contains_floating hu huc hb hbc hub

/-- The letter of the mark `0x` begins an identifier that goes on to the end of the integer. -/
theorem exists_identifier_around {i j p q : Nat} (hi : Matched t .integer i j)
    (hp : Matched t .floating p q) (hip : i ≤ p) (hqj : q ≤ j) :
    ∃ o ∈ matched t, o.category = .identifier ∧ o.Contains ⟨.floating, p, q⟩ := by
  have hint := hi.mem_ends
  have hflt := hp.mem_ends
  rw [Grammar.regex_eq] at hint hflt
  obtain ⟨hmark, hbehind⟩ := Grammar.floating_within_integer hint hflt hip hqj
  have hbegin := Grammar.mem_identifier_of_nondigit (hmark.within (by decide))
  obtain ⟨e, he⟩ := Regex.matchAt_isSome hbegin
  obtain ⟨x, y, hmem, hx, hy⟩ := exists_mem_covering (c := .identifier) (t := t) (p := i + 1)
    (by rw [Matched, Grammar.regex_eq]; exact he)
  have hjy : j ≤ y := by
    refine Nat.le_of_not_lt fun hyj => ?_
    have hxy := matched_of_mem_spansOf hmem
    rw [Matched, Grammar.regex_eq] at hxy
    obtain ⟨k, hk, hky⟩ := (Regex.shaped_of_mem_ends hint).inside y (by omega) hyj
    have hall : ∀ k ∈ Grammar.integerConstant.toRegex.classes,
        k.within Grammar.wordClass = true := by decide
    exact Grammar.not_at_of_identifier_matchAt hxy (hky.within (hall k hk))
  refine ⟨⟨.identifier, x, y⟩, mem_matched.mpr hmem, rfl, ?_⟩
  constructor
  · exact Int.ofNat_le.mpr (by omega)
  · exact Int.ofNat_le.mpr (by omega)

theorem not_integer_contains_floating (ha : a ∈ matched t) (hb : b ∈ survivors t)
    (hac : a.category = .integer) (hbc : b.category = .floating) : ¬ a.Contains b := by
  intro hab
  obtain ⟨i, j, hai, hi⟩ := exists_matched ha
  obtain ⟨p, q, hbp, hp⟩ := exists_matched (mem_matched_of_mem_survivors hb)
  rw [hac] at hi hai
  rw [hbc] at hp hbp
  rw [hai, hbp] at hab
  obtain ⟨o, ho, hoc, hob⟩ := exists_identifier_around hi hp (Int.ofNat_le.mp hab.1)
    (Int.ofNat_le.mp hab.2)
  rw [← hbp] at hob
  exact not_identifier_contains_floating ho hoc hb hbc hob

/-! ### Tokens within tokens -/

/-- Of what the table leaves only character constants hold anything. -/
theorem category_of_contains (ha : a ∈ survivors t) (hb : b ∈ survivors t) (hne : a ≠ b)
    (hab : a.Contains b) : a.category = .character := by
  refine Classical.byContradiction fun hc => ?_
  have hcd : a.category ≠ b.category := fun h =>
    hne ((survivors_tidy t).eq_of_contains ha hb h hab)
  have ha' := mem_matched_of_mem_survivors ha
  have hb' := mem_matched_of_mem_survivors hb
  rcases absorbed_or_excluded a.category (Category.mem_all _) b.category (Category.mem_all _) hc
    hcd with ⟨r, hr, habs⟩ | hex | ⟨hac, hbc⟩ | ⟨hac, hbc⟩
  · exact survivor_not_contains hr habs ha hb hab
  · exact not_contains_of_excludes ha' hb' hex hab
  · exact not_identifier_contains_keyword ha hb hac hbc hab
  · exact not_integer_contains_floating ha' hb hac hbc hab

/-- The tokens are what the repair keeps of the survivors. -/
theorem spans_standard (source : String) :
    Lexer.spans .standard source = (Repair.run (survivors source.toList.toArray)).kept := by
  have hrepair : Config.standard.repairs = true := by decide
  rw [Lexer.spans, Run.spans, Lexer.run, resolve_spans, hrepair, if_pos rfl]
  exact Span.sort_eq_self (Repair.run_kept_precedes _)

theorem mem_survivors_of_mem_spans {source : String} (h : a ∈ Lexer.spans .standard source) :
    a ∈ survivors source.toList.toArray := by
  rw [spans_standard] at h
  exact Repair.mem_of_mem_kept h

theorem not_crosses_of_mem_spans {source : String} (ha : a ∈ Lexer.spans .standard source)
    (hb : b ∈ Lexer.spans .standard source) (hne : a ≠ b) : ¬ a.Crosses b := by
  rw [spans_standard] at ha hb
  have hpair := Repair.run_kept_not_crosses (survivors source.toList.toArray)
  have : Std.Symm fun x y : Span => ¬ x.Crosses y :=
    ⟨fun x y h hc => h ⟨hc.1.symm, hc.2.2, hc.2.1⟩⟩
  exact hpair.forall ha hb hne

/-- Tokens share no character, unless one is a character constant and the other lies within it. A
token of any other category holds no token. -/
theorem nested_only_in_character (source : String) {a b : Span}
    (ha : a ∈ Lexer.spans .standard source) (hb : b ∈ Lexer.spans .standard source) (hne : a ≠ b) :
    (a.Contains b → a.category = .character) ∧
      (¬ a.Overlaps b ∨ (a.category = .character ∧ a.Contains b) ∨
        (b.category = .character ∧ b.Contains a)) := by
  have ha' := mem_survivors_of_mem_spans ha
  have hb' := mem_survivors_of_mem_spans hb
  have hab := category_of_contains ha' hb' hne
  have hba := category_of_contains hb' ha' hne.symm
  refine ⟨hab, ?_⟩
  by_cases ho : a.Overlaps b
  · have hcross := not_crosses_of_mem_spans ha hb hne
    by_cases h1 : a.Contains b
    · exact .inr (.inl ⟨hab h1, h1⟩)
    · by_cases h2 : b.Contains a
      · exact .inr (.inr ⟨hba h2, h2⟩)
      · exact absurd ⟨ho, h1, h2⟩ hcross
  · exact .inl ho

/-- A string literal between apostrophes is a token within a token. -/
theorem string_nested_in_character :
    (⟨.character, 0, 5⟩ : Span) ∈ Lexer.spans .standard "'\"a\"'" ∧
      (⟨.string, 1, 4⟩ : Span) ∈ Lexer.spans .standard "'\"a\"'" ∧
      ((⟨.character, 0, 5⟩ : Span).Contains ⟨.string, 1, 4⟩ → Category.character = .character) ∧
      (¬ (⟨.character, 0, 5⟩ : Span).Overlaps ⟨.string, 1, 4⟩ ∨
        (Category.character = .character ∧ (⟨.character, 0, 5⟩ : Span).Contains ⟨.string, 1, 4⟩) ∨
        (Category.string = .character ∧ (⟨.string, 1, 4⟩ : Span).Contains ⟨.character, 0, 5⟩)) := by
  have hspans : Lexer.spans .standard "'\"a\"'" = [⟨.character, 0, 5⟩, ⟨.string, 1, 4⟩] := by
    decide
  have hc : (⟨.character, 0, 5⟩ : Span) ∈ Lexer.spans .standard "'\"a\"'" := by simp [hspans]
  have hs : (⟨.string, 1, 4⟩ : Span) ∈ Lexer.spans .standard "'\"a\"'" := by simp [hspans]
  exact ⟨hc, hs, nested_only_in_character "'\"a\"'" hc hs (by decide)⟩

end Lexeme.Nesting
