import Lexeme.Proofs.Nesting

/-! What survives inside a character constant. Every rule that clears one out does so, except where
two of them meet: an ellipsis is forgotten when a floating constant that ends on its first point
closes. Main statement: besides string literals these ellipses are all that is left there. -/

namespace Lexeme.CharacterConstants

open Matching Nesting Resolution Suppression

variable {t : Array Char} {b c f : Span}

/-! ### Punctuators that a floating constant runs into -/

/-- Of the punctuators only the ellipsis has, before its end, a character that ends a number. -/
theorem eq_ellipsis_of_interrupts {i j p q : Nat} (hb : Matched t .punctuator i j)
    (hf : Matched t .floating p q) (hiq : i < q) (hqj : q < j) :
    Regex.Stands t i "...".toList ∧ j = i + "...".length := by
  have hmem := hb.mem_ends
  rw [Grammar.regex_eq] at hmem
  obtain ⟨w, hw, hs, hj⟩ := Grammar.mem_ends_punctuator.mp hmem
  obtain ⟨k, hk, hkq⟩ := hf.shaped.last hf.lt
  have hlen := String.length_toList (s := w)
  have hlast : w.toList[q - 1 - i]?.any k.test = true := by
    rw [← hs (q - 1 - i) (by omega), show i + (q - 1 - i) = q - 1 by omega]
    exact Regex.any_test_iff.mpr hkq
  have hother : ∀ w ∈ Grammar.punctuators, w ≠ "..." → ∀ n < w.length - 1,
      ∀ k ∈ (Grammar.regex .floating).lasts, ¬ w.toList[n]?.any k.test = true := by
    decide
  have hdots : w = "..." := Classical.byContradiction fun hne =>
    hother w hw hne (q - 1 - i) (by omega) k hk hlast
  subst hdots
  exact ⟨hs, hj⟩

theorem text_eq_ellipsis (hb : b ∈ matched t) (hbc : b.category = .punctuator) (hf : f ∈ matched t)
    (hfc : f.category = .floating) (h : Interrupts f b) : b.text t = "..." := by
  obtain ⟨i, j, hbi, hi⟩ := exists_matched hb
  obtain ⟨p, q, hfp, hp⟩ := exists_matched hf
  rw [hbc] at hi hbi
  rw [hfc] at hp hfp
  rw [hbi, hfp] at h
  obtain ⟨hs, hj⟩ := eq_ellipsis_of_interrupts hi hp (Int.ofNat_lt.mp h.2.1) (Int.ofNat_lt.mp h.2.2)
  have hsize := hi.le_size
  rw [hbi, hj]
  exact text_of_stands hs (hj ▸ hsize)

theorem not_enumeration_contains_of_interrupts {o : Span} (ho : o ∈ matched t)
    (hoc : o.category = .enumeration) (hb : b ∈ matched t) (hbc : b.category = .punctuator)
    (hf : f ∈ matched t) (hfc : f.category = .floating) (h : Interrupts f b) : ¬ o.Contains b := by
  obtain ⟨x, y, hox, hx⟩ := exists_matched ho
  obtain ⟨i, j, hbi, hi⟩ := exists_matched hb
  obtain ⟨p, q, hfp, hp⟩ := exists_matched hf
  rw [hoc] at hx hox
  rw [hbc] at hi hbi
  rw [hfc] at hp hfp
  rw [hbi, hfp] at h
  obtain ⟨hs, -⟩ := eq_ellipsis_of_interrupts hi hp (Int.ofNat_lt.mp h.2.1) (Int.ofNat_lt.mp h.2.2)
  have hpoint : Regex.At t (.single '.') i := Regex.at_single_iff.mpr (hs 0 (by decide))
  rw [hox, hbi]
  rintro ⟨h1, h2⟩
  have h1 := Int.ofNat_le.mp h1
  have h2 := Int.ofNat_le.mp h2
  have hij := hi.lt
  exact Regex.not_at_of_apart (by decide) hx.mem_ends h1 (by omega) hpoint

/-! ### What the table leaves in a character constant -/

/-- An ellipsis into which a floating constant runs, and which no string literal holds. -/
structure CutEllipsis (t : Array Char) (b : Span) : Prop where
  mem : b ∈ matched t
  punctuator : b.category = .punctuator
  text : b.text t = "..."
  cut : ∃ f ∈ matched t, f.category = .floating ∧ Interrupts f b
  unquoted : ∀ s ∈ matched t, s.category = .string → ¬ s.Contains b

theorem punctuator_of_within (hc : c ∈ survivors t) (hcc : c.category = .character)
    (hb : b ∈ survivors t) (hne : b ≠ c) (hcb : c.Contains b) (hbs : b.category ≠ .string) :
    b.category = .punctuator := by
  have hcd : b.category ≠ .character := fun h =>
    hne ((survivors_tidy t).eq_of_contains hc hb (hcc.trans h.symm) hcb).symm
  have habsorbs : ∀ d ∈ Category.all, d ≠ .string → d ≠ .character → d ≠ .punctuator →
      ∃ r ∈ Rule.standard, Absorbs .character d r := by decide
  refine Classical.byContradiction fun hbp => ?_
  obtain ⟨r, hr, h⟩ := habsorbs b.category (Category.mem_all _) hbs hcd hbp
  exact survivor_not_contains hr (hcc ▸ h) hc hb hcb

/-- Only the end of a floating constant keeps a punctuator from being taken out. -/
theorem exists_floating_interrupts (hc : c ∈ survivors t) (hcc : c.category = .character)
    (hb : b ∈ survivors t) (hbp : b.category = .punctuator) (hcb : c.Contains b) :
    ∃ f ∈ matched t, f.category = .floating ∧ Interrupts f b := by
  have hrule : Rule.standard[6]? = some (Rule.make [.floating, .character] [.punctuator] false) :=
    rfl
  have hb' := hb
  rw [survivors, standard_split hrule] at hb'
  obtain ⟨u, hu, huc, hint⟩ := exists_interrupts_of_contains (matched_tidy t) (by decide) hb'
    (by rw [hbp]; decide) (mem_left_take hc 6) (by rw [hcc]; decide) hcb
  have hu := (left_sublist _ _).mem hu
  have huc : u.category = .floating ∨ u.category = .character := by
    simpa [Rule.make] using huc
  rcases huc with huc | huc
  · exact ⟨u, hu, huc, hint⟩
  · refine absurd hint (not_interrupts_of_lastsApart hu (mem_matched_of_mem_survivors hb) ?_)
    rw [huc, hbp]
    decide

theorem cutEllipsis_of_within (hc : c ∈ survivors t) (hcc : c.category = .character)
    (hb : b ∈ survivors t) (hne : b ≠ c) (hcb : c.Contains b) (hbs : b.category ≠ .string) :
    CutEllipsis t b := by
  have hmem := mem_matched_of_mem_survivors hb
  have hbp := punctuator_of_within hc hcc hb hne hcb hbs
  obtain ⟨f, hf, hfc, hint⟩ := exists_floating_interrupts hc hcc hb hbp hcb
  exact ⟨hmem, hbp, text_eq_ellipsis hmem hbp hf hfc hint, ⟨f, hf, hfc, hint⟩,
    fun s hs hsc => not_string_contains hs hsc hb hbs⟩

/-- Floating constants are all there when the rules for punctuators are applied. -/
theorem rules_for_punctuators : ∀ (n : Nat) (hn : n < Rule.standard.length),
    Category.punctuator ∈ Rule.standard[n].inner →
      (∀ e ∈ Rule.standard[n].outer, e = .string) ∨
      (∀ e ∈ Rule.standard[n].outer, e = .enumeration) ∨
      (Category.floating ∈ Rule.standard[n].outer ∧
        ∀ r ∈ Rule.standard.take n, Category.floating ∉ r.inner) := by
  decide

/-- No rule of the table takes such an ellipsis. -/
theorem CutEllipsis.mem_survivors (h : CutEllipsis t b) : b ∈ survivors t := by
  refine Classical.byContradiction fun hn => ?_
  obtain ⟨f, hf, hfc, hint⟩ := h.cut
  obtain ⟨n, r, hr, hrem⟩ := exists_removed_of_not_mem_left h.mem hn
  have hfollows : ∀ r ∈ Rule.standard, FollowsEach r := by decide
  rw [mem_removed_iff ((matched_tidy t).sublist (left_sublist _ _))
    (hfollows r (List.mem_of_getElem? hr)), h.punctuator] at hrem
  obtain ⟨-, hinner, ⟨o, ho, hoc, hob⟩, hnone⟩ := hrem
  have ho := (left_sublist _ _).mem ho
  obtain ⟨hlt, rfl⟩ := List.getElem?_eq_some_iff.mp hr
  rcases rules_for_punctuators n hlt hinner with hall | hall | ⟨houter, hkeep⟩
  · exact h.unquoted o ho (hall _ hoc) hob
  · exact not_enumeration_contains_of_interrupts ho (hall _ hoc) h.mem h.punctuator hf hfc hint hob
  · rcases mem_left_or_exists_outer hf (Rule.standard.take n) with hleft | ⟨r', hr', hin, -⟩
    · exact hnone f hleft (hfc ▸ houter) hint
    · exact hkeep r' hr' (hfc ▸ hin)

/-! ### What the repair leaves -/

/-- A string literal neither begins nor ends inside of a punctuator. -/
theorem not_string_crosses_punctuator {s : Span} (hs : s ∈ matched t) (hsc : s.category = .string)
    (hb : b ∈ matched t) (hbp : b.category = .punctuator) : ¬ s.Crosses b := by
  rintro ⟨⟨h1, h2⟩, h3, h4⟩
  have hlast : ¬ Interrupts s b := not_interrupts_of_lastsApart hs hb (by
    rw [hsc, hbp]
    decide)
  obtain ⟨i, j, hsi, hi⟩ := exists_matched hs
  obtain ⟨p, q, hbp', hp⟩ := exists_matched hb
  rw [hsc] at hi hsi
  rw [hbp] at hp hbp'
  simp only [Interrupts, Span.Contains, hsi, hbp'] at h1 h2 h3 h4 hlast
  obtain ⟨k, hk, hki⟩ := hi.shaped.first hi.lt
  have hfirst : ∀ k ∈ (Grammar.regex .string).firsts,
      (Grammar.regex .punctuator).classes.all k.apart = true := by decide
  refine Regex.not_at_of_apart (hfirst k hk) hp.mem_ends (p := i) ?_ ?_ hki
  · omega
  · omega

theorem CutEllipsis.mem_spans {source : String} (h : CutEllipsis source.toList.toArray b)
    (hc : c ∈ Lexer.spans .standard source) (hcc : c.category = .character)
    (hcb : c.Contains b) : b ∈ Lexer.spans .standard source := by
  have hbs := h.mem_survivors
  have hcs := mem_survivors_of_mem_spans hc
  have hne : b ≠ c := by
    rintro rfl
    rw [h.punctuator] at hcc
    cases hcc
  refine Classical.byContradiction fun hn => ?_
  rw [spans_standard] at hn
  obtain ⟨k, hk, hx⟩ := Repair.exists_of_not_mem_kept hbs hn
  rw [← spans_standard] at hk
  have hks := mem_survivors_of_mem_spans hk
  -- what stands in the way of the ellipsis lies in the character constant as well
  have hkb : k.Overlaps b := by
    have hproper := (survivors_tidy _).proper b hbs
    rcases hx with hx | ⟨h1, h2⟩
    · exact hx.1
    · exact ⟨by omega, by omega⟩
  have hck : c.Contains k := by
    refine Classical.byContradiction fun hck => ?_
    have hkc : k ≠ c := by
      rintro rfl
      exact hck ⟨Int.le_refl _, Int.le_refl _⟩
    have hover : c.Overlaps k := ⟨Int.lt_of_le_of_lt hcb.1 hkb.2, Int.lt_of_lt_of_le hkb.1 hcb.2⟩
    have hkc' : k.Contains c := Classical.byContradiction fun hkc' =>
      not_crosses_of_mem_spans hc hk hkc.symm ⟨hover, hck, hkc'⟩
    have hchar := category_of_contains hks hcs hkc hkc'
    exact hkc ((survivors_tidy _).eq_of_contains hks hcs (hchar.trans hcc.symm) hkc')
  by_cases hkc : k = c
  · subst hkc
    rcases hx with hx | ⟨h1, h2⟩
    · exact hx.2.1 hcb
    · have hbk : b.Contains k := ⟨by omega, by omega⟩
      have := category_of_contains hbs hcs hne hbk
      rw [h.punctuator] at this
      cases this
  · by_cases hstring : k.category = .string
    · have hkm := mem_matched_of_mem_survivors hks
      rcases hx with hx | ⟨h1, h2⟩
      · exact not_string_crosses_punctuator hkm hstring h.mem h.punctuator hx
      · exact h.unquoted k hkm hstring ⟨by omega, by omega⟩
    · have hkp := punctuator_of_within hcs hcc hks hkc hck hstring
      have heq := (survivors_tidy _).eq_of_overlaps hks hbs (hkp.trans h.punctuator.symm) hkb
      rw [spans_standard, heq] at hk
      exact hn hk

/-- The tokens within a character constant that are no string literals are exactly the ellipses
that a floating constant runs into. -/
theorem mem_within_character_iff (source : String) {b c : Span}
    (hc : c ∈ Lexer.spans .standard source) (hcc : c.category = .character) :
    (b ∈ Lexer.spans .standard source ∧ b ≠ c ∧ c.Contains b ∧ b.category ≠ .string) ↔
      c.Contains b ∧ CutEllipsis source.toList.toArray b := by
  constructor
  · rintro ⟨hb, hne, hcb, hbs⟩
    exact ⟨hcb, cutEllipsis_of_within (mem_survivors_of_mem_spans hc) hcc
      (mem_survivors_of_mem_spans hb) hne hcb hbs⟩
  · rintro ⟨hcb, h⟩
    refine ⟨h.mem_spans hc hcc hcb, ?_, hcb, ?_⟩
    · rintro rfl
      rw [h.punctuator] at hcc
      cases hcc
    · rw [h.punctuator]
      decide

theorem spans_digit_ellipsis : Lexer.spans .standard "'1...'" =
    [⟨.character, 0, 6⟩, ⟨.punctuator, 2, 5⟩] := by
  decide

/-- In `'1...'` the floating constant `1.` runs into the ellipsis. -/
theorem digit_ellipsis_within_character :
    (⟨.character, 0, 6⟩ : Span) ∈ Lexer.spans .standard "'1...'" ∧
      (((⟨.punctuator, 2, 5⟩ : Span) ∈ Lexer.spans .standard "'1...'" ∧
          (⟨.punctuator, 2, 5⟩ : Span) ≠ ⟨.character, 0, 6⟩ ∧
          (⟨.character, 0, 6⟩ : Span).Contains ⟨.punctuator, 2, 5⟩ ∧
          Category.punctuator ≠ .string) ↔
        (⟨.character, 0, 6⟩ : Span).Contains ⟨.punctuator, 2, 5⟩ ∧
          CutEllipsis "'1...'".toList.toArray ⟨.punctuator, 2, 5⟩) := by
  have hc : (⟨.character, 0, 6⟩ : Span) ∈ Lexer.spans .standard "'1...'" := by
    simp [spans_digit_ellipsis]
  exact ⟨hc, mem_within_character_iff "'1...'" hc rfl⟩

/-- A character constant does not absorb every punctuator that it quotes. -/
theorem character_not_absorbing_punctuators :
    ¬ ∀ (source : String) (b c : Span), b ∈ Lexer.spans .standard source →
      c ∈ Lexer.spans .standard source → c.category = .character → c.Contains b →
      b.category ∉ ([.keyword, .identifier, .integer, .floating, .enumeration, .punctuator] :
        List Category) := by
  intro h
  have hb : (⟨.punctuator, 2, 5⟩ : Span) ∈ Lexer.spans .standard "'1...'" := by
    simp [spans_digit_ellipsis]
  have hc : (⟨.character, 0, 6⟩ : Span) ∈ Lexer.spans .standard "'1...'" := by
    simp [spans_digit_ellipsis]
  exact h "'1...'" _ _ hb hc rfl (by decide) (by decide)

end Lexeme.CharacterConstants
