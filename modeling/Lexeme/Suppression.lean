import Lexeme.Marker
import Lexeme.Rule

/-! One rule applied to a list of spans. The marker stream is read once: an inner span that begins
and ends while an outer span stays open is removed. -/

namespace Lexeme.Suppression

/-- What a pass remembers: for each open outer category where it was opened, for each pending inner
span where it began, and the spans removed so far. Places are positions in the marker stream. -/
structure State where
  opened : List (Category × Nat)
  pending : List (Span × Nat)
  removed : List Span
deriving Repr

def State.start : State := ⟨[], [], []⟩

/-- An outer span begins; an earlier opening of its category is forgotten. -/
def openOuter (st : State) (i : Nat) (c : Category) : State :=
  { st with opened := (c, i) :: st.opened.filter (·.1 ≠ c) }

/-- An outer span ends. Inner spans that began inside it and are still pending cross its end. -/
def closeOuter (st : State) (c : Category) : State :=
  match st.opened.lookup c with
  | none => st
  | some i =>
    { st with
      opened := st.opened.filter (·.1 ≠ c)
      pending := st.pending.filter (·.2 < i) }

/-- An inner span begins. Without an open outer span it is not followed. -/
def openInner (exhaustive : Bool) (st : State) (i : Nat) (s : Span) : State :=
  if st.opened.isEmpty then st
  else
    let kept := if exhaustive then st.pending.filter (·.1 ≠ s) else []
    { st with pending := (s, i) :: kept }

/-- An inner span ends, and is removed if it was pending inside an outer span that is still open. -/
def closeInner (st : State) (s : Span) : State :=
  match st.pending.lookup s with
  | none => st
  | some i =>
    { st with
      pending := st.pending.filter (·.1 ≠ s)
      removed := if st.opened.any (·.2 < i) then s :: st.removed else st.removed }

/-- One marker, at position `i` of the stream. -/
def step (r : Rule) (st : State) (i : Nat) (m : Marker) : State :=
  if m.span.category ∈ r.outer then
    match m.role with
    | .opening => openOuter st i m.span.category
    | .closing => closeOuter st m.span.category
  else
    match m.role with
    | .opening => openInner r.exhaustive st i m.span
    | .closing => closeInner st m.span

/-- Reads the markers from position `i` of the stream on. -/
def scanFrom (r : Rule) : State → Nat → List Marker → State
  | st, _, [] => st
  | st, i, m :: ms => scanFrom r (step r st i m) (i + 1) ms

/-- The spans that a rule removes from a list. -/
def removed (r : Rule) (spans : List Span) : List Span :=
  let relevant := spans.filter fun s => s.category ∈ r.outer ∨ s.category ∈ r.inner
  (scanFrom r .start 0 (Marker.stream r.outer relevant)).removed

/-- The spans that a rule leaves, in their order. -/
def suppress (r : Rule) (spans : List Span) : List Span :=
  let gone := removed r spans
  spans.filter fun s => !gone.contains s

theorem mem_suppress {r : Rule} {spans : List Span} {s : Span} :
    s ∈ suppress r spans ↔ s ∈ spans ∧ s ∉ removed r spans := by
  simp [suppress]

theorem suppress_sublist (r : Rule) (spans : List Span) : (suppress r spans).Sublist spans :=
  List.filter_sublist

end Lexeme.Suppression
