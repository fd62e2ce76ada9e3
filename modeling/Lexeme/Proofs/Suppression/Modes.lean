import Lexeme.Proofs.Stream
import Lexeme.Proofs.Suppression.Trace
import Mathlib.Data.List.Basic
import Mathlib.Data.List.Pairwise

/-! The two modes of a rule. A rule that follows one inner span at a time forgets a span when the
next one begins, and in all else reads the stream as an exhaustive rule does; so what it removes an
exhaustive rule removes as well. Main statement: the exhaustive mode keeps no span that the other
one removes, and the two are the same where inner spans do not overlap. -/

namespace Lexeme

/-- The rule with the same categories in the given mode. -/
def Rule.inMode (r : Rule) (exhaustive : Bool) : Rule := { r with exhaustive }

namespace Suppression

open Marker (stream)

variable {r : Rule} {spans : List Span} {ms : List Marker} {n i : Nat} {s : Span}

/-! ### What the mode leaves alone -/

/-- Outer spans open and close alike in both modes. -/
theorem openAt_inMode {a b : Bool} {c : Category} :
    OpenAt (r.inMode a) ms n c i ↔ OpenAt (r.inMode b) ms n c i :=
  ⟨fun h => ⟨h.outer, h.lt, h.opening, h.last⟩, fun h => ⟨h.outer, h.lt, h.opening, h.last⟩⟩

theorem anyOpen_inMode {a b : Bool} :
    AnyOpen (r.inMode a) ms n ↔ AnyOpen (r.inMode b) ms n := by
  simp only [AnyOpen, openAt_inMode (a := a) (b := b)]

/-- A followed span is followed in any mode that lets it stand when another one begins. -/
theorem PendingAt.inMode {a b : Bool} (h : PendingAt (r.inMode a) ms n s i)
    (hb : ∀ k u, i < k → k < n → ms[k]? = some ⟨u, .opening⟩ → u.category ∉ r.outer →
      AnyOpen (r.inMode a) ms k → b = true ∧ u ≠ s) : PendingAt (r.inMode b) ms n s i where
  inner := h.inner
  lt := h.lt
  opening := h.opening
  inside := anyOpen_inMode.mp h.inside
  unclosed := h.unclosed
  unreplaced k u hik hkn hu hc hany := hb k u hik hkn hu hc (anyOpen_inMode.mp hany)
  uncrossed k o j hik hkn ho hj := h.uncrossed k o j hik hkn ho (openAt_inMode.mp hj)

/-! ### From one mode to the other -/

theorem PendingAt.exhaustive (h : PendingAt (r.inMode false) ms n s i) :
    PendingAt (r.inMode true) ms n s i := by
  refine h.inMode fun k u hik hkn hu hc hany => ?_
  have hmode : false = true := (h.unreplaced k u hik hkn hu hc hany).1
  cases hmode

/-- What is removed one at a time is removed by following all. -/
theorem RemovedAt.exhaustive (h : RemovedAt (r.inMode false) ms n s) :
    RemovedAt (r.inMode true) ms n s := by
  obtain ⟨k, i, hk, hs, hp, c, j, hj, hji⟩ := h
  exact ⟨k, i, hk, hs, hp.exhaustive, c, j, openAt_inMode.mp hj, hji⟩

/-- Between the two ends of an inner span no other one begins, if inner spans are proper and share
no character. -/
theorem RemovedAt.single (hproper : ∀ s ∈ spans, s.category ∉ r.outer → s.start < s.stop)
    (hapart : ∀ s ∈ spans, ∀ u ∈ spans, s.category ∉ r.outer → u.category ∉ r.outer → s ≠ u →
      ¬ s.Overlaps u)
    (h : RemovedAt (r.inMode true) (stream r.outer spans) n s) :
    RemovedAt (r.inMode false) (stream r.outer spans) n s := by
  obtain ⟨k, i, hk, hs, hp, c, j, hj, hji⟩ := h
  refine ⟨k, i, hk, hs, hp.inMode fun k' u hik hkk hu hc hany => ?_, c, j, openAt_inMode.mp hj, hji⟩
  have hne : u ≠ s := (hp.unreplaced k' u hik hkk hu hc hany).2
  have hbegins := Marker.precedes_of_lt hp.opening hu hik
  have hends := Marker.precedes_of_lt hu hs hkk
  rw [Marker.precedes_opening_opening] at hbegins
  rw [Marker.precedes_opening_closing] at hends
  have hu' : u ∈ spans := Marker.mem_of_index hu
  have hlt := hproper u hu' hc
  have hover : s.Overlaps u := ⟨by omega, hends⟩
  exact absurd hover (hapart s (Marker.mem_of_index hs) u hu' hp.inner hc hne.symm)

/-! ### Lists of spans -/

theorem mem_removed_exhaustive (h : s ∈ removed (r.inMode false) spans) :
    s ∈ removed (r.inMode true) spans := by
  rw [removed, mem_scan_removed] at h ⊢
  exact h.exhaustive

theorem mem_removed_single (hproper : ∀ s ∈ spans, s.category ∈ r.inner → s.start < s.stop)
    (hapart : (spans.filter (·.category ∈ r.inner)).Pairwise fun a b => ¬ a.Overlaps b)
    (h : s ∈ removed (r.inMode true) spans) : s ∈ removed (r.inMode false) spans := by
  have hinner : ∀ u ∈ spans.filter fun u => u.category ∈ r.outer ∨ u.category ∈ r.inner,
      u.category ∉ r.outer → u ∈ spans ∧ u.category ∈ r.inner := by
    intro u hu hc
    obtain ⟨hu, hlook⟩ := List.mem_filter.mp hu
    exact ⟨hu, (of_decide_eq_true hlook).resolve_left hc⟩
  have hsymm : Std.Symm fun a b : Span => ¬ a.Overlaps b :=
    ⟨fun _ _ hab hba => hab ⟨hba.2, hba.1⟩⟩
  rw [removed, mem_scan_removed] at h ⊢
  refine RemovedAt.single (r := r) (fun u hu hc => ?_) (fun u hu v hv huc hvc hne => ?_) h
  · exact hproper u (hinner u hu hc).1 (hinner u hu hc).2
  · have hu' := hinner u hu huc
    have hv' := hinner v hv hvc
    refine hapart.forall ?_ ?_ hne
    · exact List.mem_filter.mpr ⟨hu'.1, decide_eq_true hu'.2⟩
    · exact List.mem_filter.mpr ⟨hv'.1, decide_eq_true hv'.2⟩

/-- Of any list a rule keeps in exhaustive mode some of the spans that it keeps otherwise, in their
order, and all of them if no two inner spans share a character and none is empty or inverted. -/
theorem suppress_exhaustive_sublist (r : Rule) (spans : List Span) :
    (suppress (r.inMode true) spans).Sublist (suppress (r.inMode false) spans) ∧
      ((∀ s ∈ spans, s.category ∈ r.inner → s.start < s.stop) →
        ((spans.filter (·.category ∈ r.inner)).Pairwise fun a b => ¬ a.Overlaps b) →
          suppress (r.inMode true) spans = suppress (r.inMode false) spans) := by
  constructor
  · refine List.monotone_filter_right spans fun s hs => ?_
    simp only [Bool.not_eq_true', List.contains_eq_mem, decide_eq_false_iff_not] at hs ⊢
    exact mt mem_removed_exhaustive hs
  · intro hproper hapart
    refine List.filter_congr fun s _ => ?_
    have hiff : s ∈ removed (r.inMode true) spans ↔ s ∈ removed (r.inMode false) spans :=
      ⟨mem_removed_single hproper hapart, mem_removed_exhaustive⟩
    simp only [List.contains_eq_mem, hiff]

/-- A string literal, there twice, and a character constant that cross, and a string literal that
is inverted; of the punctuators and integers three are inside, one crosses an end and one is
outside. -/
theorem suppress_exhaustive_sublist_crossing :
    let r := Rule.make [.character, .string] [.integer, .punctuator] true
    let spans : List Span := [⟨.punctuator, 8, 9⟩, ⟨.string, 0, 6⟩, ⟨.integer, 1, 3⟩,
      ⟨.character, 4, 10⟩, ⟨.punctuator, 3, 4⟩, ⟨.string, 14, 12⟩, ⟨.integer, 5, 7⟩,
      ⟨.string, 0, 6⟩, ⟨.punctuator, 11, 12⟩]
    let left : List Span := [⟨.string, 0, 6⟩, ⟨.character, 4, 10⟩, ⟨.string, 14, 12⟩,
      ⟨.integer, 5, 7⟩, ⟨.string, 0, 6⟩, ⟨.punctuator, 11, 12⟩]
    suppress (r.inMode true) spans = left ∧ suppress (r.inMode false) spans = left := by
  intro r spans left
  have hleft : suppress (r.inMode true) spans = left := by decide
  have hsame := (suppress_exhaustive_sublist r spans).2 (by decide) (by decide)
  exact ⟨hleft, hsame ▸ hleft⟩

/-- The identifier begins inside the keyword, which one at a time is forgotten and stays. -/
example :
    let r := Rule.make [.string] [.keyword, .identifier] true
    let spans : List Span := [⟨.string, 0, 9⟩, ⟨.keyword, 1, 5⟩, ⟨.identifier, 2, 3⟩]
    suppress (r.inMode true) spans = [⟨.string, 0, 9⟩] ∧
      suppress (r.inMode false) spans = [⟨.string, 0, 9⟩, ⟨.keyword, 1, 5⟩] := by decide

end Suppression

end Lexeme
