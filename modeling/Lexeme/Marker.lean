import Lexeme.Span

/-! Markers: the two ends of a span as zero-width signs in a text. Sixteen code points are set
aside for them, one to open and one to close each category. -/

namespace Lexeme

/-- Whether a marker opens or closes its span. -/
inductive Role where
  | opening
  | closing
deriving DecidableEq, Repr

namespace Role

def name : Role → String
  | .opening => "BEGIN"
  | .closing => "END"

def ofName? (s : String) : Option Role := [opening, closing].find? (·.name == s)

end Role

/-- One end of a span. -/
structure Marker where
  span : Span
  role : Role
deriving DecidableEq, Repr

namespace Marker

/-- The position of a marker in the text. -/
def offset (m : Marker) : Int :=
  match m.role with
  | .opening => m.span.start
  | .closing => m.span.stop

/-! ### The marker alphabet -/

/-- The code point of a marker: U+0000 to U+0007 open a span, U+0080 to U+0087 close one. -/
def codePoint (c : Category) : Role → Nat
  | .opening => c.index
  | .closing => 0x80 + c.index

def signOf (c : Category) (r : Role) : Char := Char.ofNat (codePoint c r)

def sign (m : Marker) : Char := signOf m.span.category m.role

/-- The category and role of a marker character. -/
def read? (c : Char) : Option (Category × Role) :=
  if c.toNat < 0x80 then Category.all[c.toNat]?.map (·, .opening)
  else Category.all[c.toNat - 0x80]?.map (·, .closing)

def isSign (c : Char) : Bool := (read? c).isSome

@[simp] theorem read?_signOf (c : Category) (r : Role) : read? (signOf c r) = some (c, r) := by
  cases c <;> cases r <;> decide

theorem read?_eq_none {c : Char} (h : isSign c = false) : read? c = none := by
  rwa [isSign, Option.isSome_eq_false_iff, Option.isNone_iff_eq_none] at h

@[simp] theorem isSign_signOf (c : Category) (r : Role) : isSign (signOf c r) = true := by
  simp [isSign]

theorem signOf_inj {c d : Category} {r q : Role} : signOf c r = signOf d q ↔ c = d ∧ r = q := by
  constructor
  · intro h
    have hread := congrArg read? h
    simpa using hread
  · rintro ⟨rfl, rfl⟩
    rfl

/-- A character is read as the marker whose sign it is. -/
theorem eq_signOf {x : Char} {c : Category} {r : Role} (h : read? x = some (c, r)) :
    x = signOf c r := by
  have hindex : ∀ {n : Nat} {k : Category}, Category.all[n]? = some k → k.index = n := by
    intro n k hk
    rcases Nat.lt_or_ge n 8 with hn | hn
    · have hall : ∀ m < 8, ∀ k : Category, Category.all[m]? = some k → k.index = m := by decide
      exact hall n hn k hk
    · rw [List.getElem?_eq_none hn] at hk
      cases hk
  unfold read? at h
  split at h
  · obtain ⟨k, hk, he⟩ := Option.map_eq_some_iff.mp h
    cases he
    rw [signOf, codePoint, hindex hk, Char.ofNat_toNat]
  · obtain ⟨k, hk, he⟩ := Option.map_eq_some_iff.mp h
    cases he
    rw [signOf, codePoint, hindex hk, Nat.add_sub_cancel' (by omega), Char.ofNat_toNat]

/-! ### Streams -/

/-- The place of a marker in a stream. At one offset closing markers come first; spans open from
the outside in and close from the inside out. Of spans with one extent the categories in `outer`
are outside, and otherwise the rank decides. -/
def sortKey (outer : List Category) (m : Marker) : List Int :=
  let rank : Int := m.span.category.precedence
  match m.role with
  | .opening => [m.span.start, 1, -m.span.stop, if m.span.category ∈ outer then 0 else 1, rank]
  | .closing => [m.span.stop, 0, -m.span.start, if m.span.category ∈ outer then 1 else 0, -rank]

/-- Both markers of every span, in the order of the spans. -/
def pairs (spans : List Span) : List Marker :=
  spans.flatMap fun s => [⟨s, .opening⟩, ⟨s, .closing⟩]

/-- The markers of the spans in the order in which they stand in an annotated text. -/
def stream (outer : List Category) (spans : List Span) : List Marker :=
  Sorting.sortBy (sortKey outer) (pairs spans)

theorem stream_perm (outer : List Category) (spans : List Span) :
    (stream outer spans).Perm (pairs spans) := Sorting.sortBy_perm _ _

end Marker

end Lexeme
