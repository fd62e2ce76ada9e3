import Lexeme.Location
import Lexeme.Marker

/-! Annotated texts: a source with the markers of its spans laid into it. Taking the markers out
gives the source back, and reading them gives the spans back. -/

namespace Lexeme.Markup

/-- Lays markers into the rest of a text, whose first character has offset `pos`. -/
def weave : Int → List Char → List Marker → List Char
  | _, cs, [] => cs
  | pos, cs, m :: ms =>
    let n := (m.offset - pos).toNat
    cs.take n ++ m.sign :: weave (max pos m.offset) (cs.drop n) ms

/-- The source with the markers of the spans. -/
def annotate (source : String) (spans : List Span) : String :=
  String.ofList (weave 0 source.toList (Marker.stream [] spans))

/-- A text without its markers. -/
def strip (text : String) : String :=
  String.ofList (text.toList.filter fun c => !Marker.isSign c)

/-- A marker found in a text, with its offset in the text without markers. -/
structure Sighting where
  category : Category
  role : Role
  offset : Nat
deriving DecidableEq, Repr

/-- The markers of a text whose first character has offset `i`. -/
def sightingsFrom : Nat → List Char → List Sighting
  | _, [] => []
  | i, c :: cs =>
    match Marker.read? c with
    | some (k, r) => ⟨k, r, i⟩ :: sightingsFrom i cs
    | none => sightingsFrom (i + 1) cs

/-- The markers of a text from left to right. -/
def sightings (text : String) : List Sighting := sightingsFrom 0 text.toList

/-! ### Reading spans back -/

/-- What is wrong with a marker. -/
inductive Cause where
  | openedTwice
  | closedUnopened
  | neverClosed
deriving DecidableEq, Repr

/-- A marker that does not pair up, by its category and its offset. -/
structure Fault where
  cause : Cause
  category : Category
  offset : Nat
deriving DecidableEq, Repr

/-- Of what is open, what began at the least offset; of several there, what is listed first. -/
def earliest? : List (Category × Nat) → Option (Category × Nat)
  | [] => none
  | o :: opened => some (opened.foldl (fun first p => if p.2 < first.2 then p else first) o)

/-- Pairs up the markers, over the categories that are open and where they began, as they were
opened. A pair with nothing between its markers leaves no span. -/
def pairUp : List (Category × Nat) → List Sighting → Except Fault (List Span)
  | opened, [] =>
    match earliest? opened with
    | none => .ok []
    | some (c, i) => .error ⟨.neverClosed, c, i⟩
  | opened, ⟨c, .opening, i⟩ :: rest =>
    if (opened.lookup c).isSome then .error ⟨.openedTwice, c, i⟩
    else pairUp (opened ++ [(c, i)]) rest
  | opened, ⟨c, .closing, i⟩ :: rest =>
    match opened.lookup c with
    | none => .error ⟨.closedUnopened, c, i⟩
    | some start =>
      (pairUp (opened.filter (·.1 ≠ c)) rest).map fun spans =>
        if start < i then ⟨c, start, i⟩ :: spans else spans

/-- Where nothing began before the first one, that is it. -/
theorem earliest?_cons {o : Category × Nat} {opened : List (Category × Nat)}
    (h : ∀ p ∈ opened, o.2 ≤ p.2) : earliest? (o :: opened) = some o := by
  induction opened with
  | nil => rfl
  | cons p opened ih =>
    obtain ⟨hp, hrest⟩ := List.forall_mem_cons.mp h
    rw [earliest?, List.foldl_cons, if_neg (Nat.not_lt.mpr hp)]
    exact ih hrest

/-- The spans of an annotated text in document order. -/
def decode (text : String) : Except Fault (List Span) :=
  (pairUp [] (sightings text)).map Span.sort

end Lexeme.Markup
