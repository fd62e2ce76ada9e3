import Lexeme.Proofs.Suppression.Containment

/-! Suppression as a filter. On a tidy list a rule that follows each of its inner spans could be
applied by asking of every span whether an outer one contains it, as long as no outer span ends
inside a span that is to go. Main statement: with one outer category, or without outer spans that
end inside inner ones, the pass is this filter. -/

namespace Lexeme.Suppression

variable {r : Rule} {spans : List Span} {s o : Span}

/-- The span is of an inner category and some outer span contains it. -/
def Enclosed (r : Rule) (spans : List Span) (s : Span) : Prop :=
  s.category ∈ r.inner ∧ ∃ o ∈ spans, o.category ∈ r.outer ∧ o.Contains s

instance (r : Rule) (spans : List Span) (s : Span) : Decidable (Enclosed r spans s) :=
  inferInstanceAs (Decidable (_ ∧ _))

/-- `o` begins no later than `s` and ends inside it. -/
def EndsInside (o s : Span) : Prop := o.start ≤ s.start ∧ s.start < o.stop ∧ o.stop < s.stop

instance (o s : Span) : Decidable (EndsInside o s) := inferInstanceAs (Decidable (_ ∧ _))

/-- No outer span ends inside an inner one that begins with it or later. -/
def Uncut (r : Rule) (spans : List Span) : Prop :=
  ∀ s ∈ spans, s.category ∈ r.inner → ∀ o ∈ spans, o.category ∈ r.outer → ¬ EndsInside o s

instance (r : Rule) (spans : List Span) : Decidable (Uncut r spans) :=
  inferInstanceAs (Decidable (∀ s ∈ spans, s.category ∈ r.inner → ∀ o ∈ spans,
    o.category ∈ r.outer → ¬ EndsInside o s))

theorem Interrupts.endsInside (h : Interrupts o s) : EndsInside o s :=
  ⟨Int.le_of_lt h.1, h.2⟩

/-- A pass over a tidy list filters by containment exactly if no outer span interrupts an enclosed
one. -/
theorem suppress_eq_filter_iff (h : Span.Tidy spans) (hf : FollowsEach r) :
    (suppress r spans = spans.filter fun s => ¬ Enclosed r spans s) ↔
      ∀ s ∈ spans, Enclosed r spans s → ∀ o ∈ spans, o.category ∈ r.outer → ¬ Interrupts o s := by
  constructor
  · intro hfilter s hs henc
    have hgone : s ∉ suppress r spans := by simp [hfilter, henc]
    have hrem : s ∈ removed r spans :=
      Classical.byContradiction fun hn => hgone (mem_suppress.mpr ⟨hs, hn⟩)
    exact ((mem_removed_iff h hf).mp hrem).2.2.2
  · intro hfree
    rw [suppress]
    apply List.filter_congr
    intro s hs
    have hiff : s ∈ removed r spans ↔ Enclosed r spans s := by
      rw [mem_removed_iff h hf]
      constructor
      · rintro ⟨-, hc, houter, -⟩
        exact ⟨hc, houter⟩
      · intro henc
        exact ⟨hs, henc.1, henc.2, hfree s hs henc⟩
    simp [hiff]

/-- A rule that is exhaustive or has one inner category, applied to a tidy list, removes exactly the
inner spans that an outer span contains, if it has one outer category or no outer span ends inside
an inner one. -/
theorem suppress_exact (r : Rule) (hf : FollowsEach r) (spans : List Span) (h : Span.Tidy spans)
    (hr : SingleOuter r ∨ Uncut r spans) :
    suppress r spans = spans.filter fun s => ¬ Enclosed r spans s := by
  refine (suppress_eq_filter_iff h hf).mpr fun s hs henc u hu huc => ?_
  obtain ⟨hsc, o, ho, hoc, hcont⟩ := henc
  rcases hr with hsingle | huncut
  · exact hsingle.not_interrupts h ho hoc hcont hu huc
  · exact fun hint => huncut s hs hsc u hu huc hint.endsInside

/-- Character constants and a floating constant that cross, nest and touch, with punctuators at
both ends, of the same extent and on the outside. -/
theorem suppress_exact_crossing :
    let r := Rule.make [.floating, .character] [.punctuator] false
    let spans : List Span := [⟨.punctuator, 9, 10⟩, ⟨.character, 0, 4⟩, ⟨.punctuator, 0, 1⟩,
      ⟨.floating, 2, 6⟩, ⟨.punctuator, 2, 4⟩, ⟨.punctuator, 5, 6⟩, ⟨.character, 6, 8⟩,
      ⟨.punctuator, 6, 8⟩, ⟨.identifier, 2, 3⟩]
    FollowsEach r ∧ Span.Tidy spans ∧ Uncut r spans ∧ ¬ SingleOuter r ∧
      suppress r spans = [⟨.punctuator, 9, 10⟩, ⟨.character, 0, 4⟩, ⟨.floating, 2, 6⟩,
        ⟨.character, 6, 8⟩, ⟨.identifier, 2, 3⟩] := by
  intro r spans
  have hf : FollowsEach r := by decide
  have htidy : Span.Tidy spans := ⟨by decide, by decide⟩
  have huncut : Uncut r spans := by decide
  refine ⟨hf, htidy, huncut, by decide, ?_⟩
  rw [suppress_exact r hf spans htidy (.inr huncut)]
  decide

/-- The floating constant ends inside a punctuator, which stays although the character constant
contains it. -/
example : suppress (Rule.make [.floating, .character] [.punctuator] false)
    [⟨.character, 0, 6⟩, ⟨.floating, 1, 3⟩, ⟨.punctuator, 2, 5⟩] =
      [⟨.character, 0, 6⟩, ⟨.floating, 1, 3⟩, ⟨.punctuator, 2, 5⟩] := by decide

end Lexeme.Suppression
