import Lexeme.Proofs.Layout.Words

/-! The tokens of a text made of lexemes. Every lexeme is matched and no rule removes it; any other
match lies within a lexeme and is removed. Main statement: the tokens are the lexemes. -/

namespace Lexeme.Layout

open Grammar Matching Nesting Regex Resolution

variable {t : Array Char} {c : Category} {i j p : Nat} {words : List Span} {s : Span}

/-! ### Every lexeme is matched -/

/-- Lexemes that share a place have the same ends. -/
theorem Laid.ends_eq {c' : Category} {i' j' : Nat} (h : Laid t 0 words)
    (hw : (⟨c, i, j⟩ : Span) ∈ words) (hw' : (⟨c', i', j'⟩ : Span) ∈ words) (hi : i ≤ p)
    (hj : p < j) (hi' : i' ≤ p) (hj' : p < j') : c = c' ∧ i = i' ∧ j = j' := by
  have heq := h.eq_of_overlaps hw hw' ⟨Int.ofNat_lt.mpr (by omega), Int.ofNat_lt.mpr (by omega)⟩
  simpa only [Span.mk.injEq, Int.natCast_inj] using heq

/-- A span of the category that begins where a lexeme begins is the lexeme. -/
theorem Laid.mem_matched_of_start {y : Nat} (h : Laid t 0 words)
    (hw : (⟨c, i, j⟩ : Span) ∈ words) (hs : (⟨c, i, y⟩ : Span) ∈ spansOf t c) :
    (⟨c, i, j⟩ : Span) ∈ matched t := by
  have hm := matched_of_mem_spansOf hs
  have hj : y = j := Option.some.inj (hm.symm.trans (h.placed_of_mem hw).matched)
  subst hj
  exact mem_matched.mpr hs

theorem Laid.mem_matched_of_ne_string (h : Laid t 0 words) (hw : (⟨c, i, j⟩ : Span) ∈ words)
    (hc : c ≠ .string) : (⟨c, i, j⟩ : Span) ∈ matched t := by
  have hp := h.placed_of_mem hw
  have hij := hp.lt
  obtain ⟨x, y, hs, hx, hy⟩ := exists_mem_covering hp.matched
  have hm := matched_of_mem_spansOf hs
  obtain ⟨c', i', j', hw', hi', hj'⟩ := h.exists_word hm.lt hm.le_size
    fun p => not_gap_inside hm hc hp.not_quoting.1 hp.not_quoting.2
  obtain ⟨-, rfl, -⟩ := h.ends_eq hw hw' (Nat.le_refl i) hij (by omega) (by omega)
  obtain rfl : x = i := by omega
  exact h.mem_matched_of_start hw hs

/-- The scan for string literals meets those of the text one after another. -/
theorem Laid.string_mem_matched (h : Laid t 0 words) (hw : (⟨.string, i, j⟩ : Span) ∈ words) :
    (⟨.string, i, j⟩ : Span) ∈ matched t := by
  -- by induction on the start: the string literals before this one are matched already
  induction i using Nat.strongRecOn generalizing j with
  | ind i ih =>
    have hij := (h.placed_of_mem hw).lt
    obtain ⟨x, y, hs, hx, hy⟩ := exists_mem_covering (h.placed_of_mem hw).matched
    have hm := matched_of_mem_spansOf hs
    obtain ⟨i', j', hw', hi', hj'⟩ := h.exists_string hm
    rcases Nat.lt_or_ge i' i with hlt | hge
    · have heq := (matched_tidy t).eq_of_overlaps (ih i' hlt hw') (mem_matched.mpr hs) rfl
        ⟨Int.ofNat_lt.mpr (by omega), Int.ofNat_lt.mpr hj'⟩
      simp only [Span.mk.injEq, Int.natCast_inj, true_and] at heq
      obtain ⟨rfl, rfl⟩ := heq
      obtain ⟨-, rfl, -⟩ := h.ends_eq hw hw' (Nat.le_refl i) hij (by omega) hy
      omega
    · obtain rfl : x = i := by omega
      exact h.mem_matched_of_start hw hs

theorem Laid.mem_matched (h : Laid t 0 words) (hs : s ∈ words) : s ∈ matched t := by
  obtain ⟨c, i, j, rfl, -, -⟩ := h.placed hs
  by_cases hc : c = .string
  · subst hc
    exact h.string_mem_matched hs
  · exact h.mem_matched_of_ne_string hs hc

/-- Every match lies within a lexeme. -/
theorem Laid.exists_word_of_matched (h : Laid t 0 words) (hs : s ∈ matched t) :
    ∃ w ∈ words, w.Contains s := by
  obtain ⟨i, j, hsi, hm⟩ := exists_matched hs
  have hcontains : ∀ {c : Category} {x y : Nat}, x ≤ i → j ≤ y →
      (⟨c, x, y⟩ : Span).Contains s := by
    intro c x y hx hy
    rw [hsi]
    exact ⟨Int.ofNat_le.mpr hx, Int.ofNat_le.mpr hy⟩
  by_cases hstring : s.category = .string
  · rw [hstring] at hm
    obtain ⟨x, y, hw, hx, hy⟩ := h.exists_string hm
    have hij := hm.lt
    have heq := (matched_tidy t).eq_of_overlaps (h.mem_matched hw) hs hstring.symm (by
      rw [hsi]
      exact ⟨Int.ofNat_lt.mpr (by omega), Int.ofNat_lt.mpr hy⟩)
    exact ⟨s, heq ▸ hw, Int.le_refl _, Int.le_refl _⟩
  by_cases henum : s.category = .enumeration
  · rw [henum] at hm
    obtain ⟨x, y, hw, hx, hy⟩ := h.enumeration_within hm
    exact ⟨_, hw, hcontains hx hy⟩
  by_cases hchar : s.category = .character
  · rw [hchar] at hm
    exact absurd hm h.not_character
  · obtain ⟨c, x, y, hw, hx, hy⟩ := h.exists_word hm.lt hm.le_size
      fun p => not_gap_inside hm hstring henum hchar
    exact ⟨_, hw, hcontains hx hy⟩

/-! ### No lexeme is removed -/

/-- No match of `c` is one of `d` as well: it has no room for it or begins otherwise. -/
def Unlike (c d : Category) : Prop :=
  (regex c).excludes (regex d) = true ∨ classesApart (regex c).firsts (regex d).firsts = true

instance (c d : Category) : Decidable (Unlike c d) := inferInstanceAs (Decidable (_ ∨ _))

theorem Unlike.not_matched {d : Category} (h : Unlike c d) (hc : Matched t c i j) :
    ¬ Matched t d i j := by
  intro hd
  rcases h with hex | hfirst
  · exact not_within_of_excludes hex hc.mem_ends hd.mem_ends ⟨Nat.le_refl i, Nat.le_refl j⟩
  · exact not_atAny_of_apart hfirst (hc.shaped.first hc.lt) (hd.shaped.first hd.lt)

/-- What a rule removes is unlike what it is removed for, but for two pairs. -/
theorem unlike_of_rule : ∀ r ∈ Rule.standard, ∀ c ∈ r.inner, ∀ d ∈ r.outer,
    Unlike c d ∨ (c = .identifier ∧ d = .keyword) ∨ (c = .integer ∧ d = .floating) ∨
      c = .character := by
  decide +kernel

/-- An integer has no room for a floating constant of its extent. -/
theorem not_matched_floating_of_integer (hm : Matched t .integer i j) :
    ¬ Matched t .floating i j := by
  intro hd
  have hint := hm.mem_ends
  have hflt := hd.mem_ends
  rw [regex_eq] at hint hflt
  have := (floating_within_integer hint hflt (Nat.le_refl i) (Nat.le_refl j)).2
  omega

/-- No other category that could remove a lexeme matches all of it. -/
theorem Placed.not_matched {r : Rule} {d : Category} (h : Placed t c i j) (hr : r ∈ Rule.standard)
    (hc : c ∈ r.inner) (hd : d ∈ r.outer) : ¬ Matched t d i j := by
  intro hm
  have hmc := h.matched
  rcases unlike_of_rule r hr c hc d hd with hun | ⟨rfl, rfl⟩ | ⟨rfl, rfl⟩ | rfl
  · exact hun.not_matched hmc hm
  · have hmem := hm.mem_ends
    rw [regex_eq] at hmem
    obtain ⟨w, hw, hs⟩ := mem_ends_keywords.mp (Grammar.mem_ends_keyword.mp hmem).2.1
    exact h.allowed w hw hs
  · exact not_matched_floating_of_integer hmc hm
  · exact h.allowed

/-- A match around a lexeme has its extent. -/
theorem Laid.eq_extent_of_contains (h : Laid t 0 words) (hw : (⟨c, i, j⟩ : Span) ∈ words)
    {o : Span} (ho : o ∈ matched t) (hcont : o.Contains ⟨c, i, j⟩) : Matched t o.category i j := by
  have hij := (h.placed_of_mem hw).lt
  obtain ⟨w, hw', hwo⟩ := h.exists_word_of_matched ho
  obtain ⟨x, y, hox, hm⟩ := exists_matched ho
  have hwcont := hwo.trans hcont
  have heq := h.eq_of_overlaps hw hw' (Span.Overlaps.of_contains hwcont (Int.ofNat_lt.mpr hij)).symm
  subst heq
  rw [hox] at hcont hwo
  obtain ⟨h1, h2⟩ := hcont
  obtain ⟨h3, h4⟩ := hwo
  obtain rfl : x = i := Int.natCast_inj.mp (Int.le_antisymm h1 h3)
  obtain rfl : y = j := Int.natCast_inj.mp (Int.le_antisymm h4 h2)
  exact hm

theorem Laid.mem_survivors (h : Laid t 0 words) (hs : s ∈ words) : s ∈ survivors t := by
  obtain ⟨c, i, j, rfl, -, hp⟩ := h.placed hs
  refine Classical.byContradiction fun hn => ?_
  obtain ⟨r, hr, hinner, o, ho, houter, hcont⟩ :=
    exists_outer_of_not_mem_left (matched_tidy t).proper (h.mem_matched hs) hn
  exact hp.not_matched hr hinner houter (h.eq_extent_of_contains hs ho hcont)

/-- What the rules leave is the lexemes and nothing else. -/
theorem Laid.mem_survivors_iff (h : Laid t 0 words) : s ∈ survivors t ↔ s ∈ words := by
  refine ⟨fun hs => ?_, h.mem_survivors⟩
  obtain ⟨w, hw, hws⟩ := h.exists_word_of_matched (mem_matched_of_mem_survivors hs)
  by_cases heq : w = s
  · exact heq ▸ hw
  · have hc := category_of_contains (h.mem_survivors hw) hs heq hws
    obtain ⟨c, i, j, rfl, -, hp⟩ := h.placed hw
    change c = .character at hc
    subst hc
    exact hp.allowed.elim

/-! ### The tokens -/

theorem Laid.precedes (h : Laid t 0 words) : words.Pairwise Span.Precedes := by
  refine h.pairwise.imp_of_mem fun {a b} ha _ hab => ?_
  obtain ⟨c, i, j, rfl, -, hp⟩ := h.placed ha
  have := hp.lt
  rw [Span.precedes_iff]
  simp only at hab ⊢
  omega

theorem Laid.sort_survivors (h : Laid t 0 words) : Span.sort (survivors t) = words := by
  have hnodup : words.Nodup := h.pairwise.imp_of_mem fun {a b} ha _ hab => by
    rintro rfl
    obtain ⟨c, i, j, rfl, -, hp⟩ := h.placed ha
    have := hp.lt
    simp only at hab
    omega
  have hperm : (survivors t).Perm words :=
    (List.perm_ext_iff_of_nodup (survivors_tidy t).nodup hnodup).mpr fun s => h.mem_survivors_iff
  rw [Span.sort_eq_of_perm hperm, Span.sort_eq_self h.precedes]

/-- The tokens of a text made of lexemes are the lexemes. -/
theorem Laid.spans_eq {source : String} (h : Laid source.toList.toArray 0 words) :
    Lexer.spans .standard source = words := by
  rw [spans_standard, Repair.run, h.sort_survivors,
    Repair.visit_kept_eq_self (fun _ hb => absurd hb List.not_mem_nil) (h.pairwise.imp .inl)]

end Lexeme.Layout
