import Lexeme.Proofs.Suppression.Trace
import Mathlib.Logic.Function.Basic

/-! A single inner span under an exhaustive rule. What becomes of it is computed by a watch that
reads the markers of the outer spans and its own and passes over all others; it knows no places in
the stream, only whether a category was open before the span began. Main statement: after any
number of markers the watch shows what the pass does. -/

namespace Lexeme.Suppression

/-- An outer category as an inner span sees it: not open, open since before the span began, or
opened while the span was followed. -/
inductive Phase where
  | closed
  | before
  | since
deriving DecidableEq

/-- What is known of one inner span: how it sees each category, whether it is followed and whether
it was removed. -/
structure Watch where
  phase : Category → Phase
  pending : Bool
  removed : Bool

namespace Watch

def start : Watch := ⟨fun _ => .closed, false, false⟩

def anyOpen (w : Watch) : Bool := Category.all.any fun c => w.phase c ≠ .closed

def anyBefore (w : Watch) : Bool := Category.all.any fun c => w.phase c = .before

def openOuter (w : Watch) (c : Category) : Watch :=
  { w with phase := Function.update w.phase c (bif w.pending then .since else .before) }

/-- The end of a category that was open before the span began crosses the span. -/
def closeOuter (w : Watch) (c : Category) : Watch :=
  { w with
    phase := Function.update w.phase c .closed
    pending := w.pending && w.phase c ≠ .before }

/-- The span begins, and sees all that is open as open before it. -/
def openInner (w : Watch) : Watch :=
  if w.anyOpen then
    { w with
      phase := fun c => if w.phase c = .closed then .closed else .before
      pending := true }
  else w

def closeInner (w : Watch) : Watch :=
  { w with
    pending := false
    removed := w.removed || (w.pending && w.anyBefore) }

/-- One marker. -/
def step (outer : List Category) (s : Span) (w : Watch) (m : Marker) : Watch :=
  if m.span.category ∈ outer then
    match m.role with
    | .opening => w.openOuter m.span.category
    | .closing => w.closeOuter m.span.category
  else if m.span = s then
    match m.role with
    | .opening => w.openInner
    | .closing => w.closeInner
  else w

/-- All markers of a stream. -/
def run (outer : List Category) (s : Span) (ms : List Marker) : Watch :=
  ms.foldl (step outer s) start

theorem anyOpen_iff {w : Watch} : w.anyOpen = true ↔ ∃ c, w.phase c ≠ .closed := by
  simp [anyOpen]

theorem anyBefore_iff {w : Watch} : w.anyBefore = true ↔ ∃ c, w.phase c = .before := by
  simp [anyBefore]

theorem openOuter_openOuter (w : Watch) (c : Category) :
    (w.openOuter c).openOuter c = w.openOuter c := by
  simp [openOuter]

theorem closeOuter_closeOuter (w : Watch) (c : Category) :
    (w.closeOuter c).closeOuter c = w.closeOuter c := by
  simp [closeOuter]

theorem closeInner_closeInner (w : Watch) : w.closeInner.closeInner = w.closeInner := by
  simp [closeInner]

/-- A second beginning finds open what the first one found open. -/
theorem openInner_openInner (w : Watch) : w.openInner.openInner = w.openInner := by
  by_cases hw : w.anyOpen
  · have hagain : w.openInner.anyOpen = true := by
      obtain ⟨c, hc⟩ := anyOpen_iff.mp hw
      exact anyOpen_iff.mpr ⟨c, by simp [openInner, hw, hc]⟩
    rw [openInner, if_pos hagain]
    simp only [openInner, if_pos hw]
    congr 1
    funext c
    by_cases hc : w.phase c = .closed <;> simp [hc]
  · simp only [openInner, hw, if_false, Bool.false_eq_true]

/-- A marker that comes twice in a row comes once. -/
theorem step_step (outer : List Category) (s : Span) (w : Watch) (m : Marker) :
    step outer s (step outer s w m) m = step outer s w m := by
  obtain ⟨u, role⟩ := m
  unfold step
  by_cases hu : u.category ∈ outer
  · simp only [if_pos hu]
    cases role with
    | opening => exact w.openOuter_openOuter u.category
    | closing => exact w.closeOuter_closeOuter u.category
  · simp only [if_neg hu]
    by_cases hs : u = s
    · simp only [if_pos hs]
      cases role with
      | opening => exact w.openInner_openInner
      | closing => exact w.closeInner_closeInner
    · simp only [if_neg hs]

end Watch

/-! ### The watch agrees with the pass -/

variable {r : Rule} {s : Span} {ms : List Marker} {n : Nat} {w : Watch}

/-- Before position `n` the watch over `s` shows what the stream says. -/
structure Sees (r : Rule) (s : Span) (ms : List Marker) (n : Nat) (w : Watch) : Prop where
  opened : ∀ c, w.phase c ≠ .closed ↔ ∃ j, OpenAt r ms n c j
  before : ∀ c j i, OpenAt r ms n c j → PendingAt r ms n s i → (w.phase c = .before ↔ j < i)
  pending : w.pending = true ↔ ∃ i, PendingAt r ms n s i
  removed : w.removed = true ↔ RemovedAt r ms n s

theorem sees_start (r : Rule) (s : Span) (ms : List Marker) : Sees r s ms 0 .start where
  opened c := by
    simp only [Watch.start, ne_eq, not_true, false_iff, not_exists]
    exact fun j hj => absurd hj.lt (Nat.not_lt_zero j)
  before c j i hj := absurd hj.lt (Nat.not_lt_zero j)
  pending := by
    simp only [Watch.start, Bool.false_eq_true, false_iff, not_exists]
    exact fun i hi => absurd hi.lt (Nat.not_lt_zero i)
  removed := by
    simp only [Watch.start, Bool.false_eq_true, false_iff]
    rintro ⟨k, i, hk, -⟩
    exact absurd hk (Nat.not_lt_zero k)

theorem Sees.anyOpen_iff (h : Sees r s ms n w) : w.anyOpen = true ↔ AnyOpen r ms n := by
  simp only [Watch.anyOpen_iff, h.opened, AnyOpen]

/-- An outer span and an inner one do not begin at the same place of the stream. -/
theorem OpenAt.ne_pending {c : Category} {i j : Nat} (hj : OpenAt r ms n c j)
    (hi : PendingAt r ms n s i) : j ≠ i := by
  rintro rfl
  obtain ⟨o, rfl, ho⟩ := hj.opening
  rw [hi.opening] at ho
  cases ho
  exact hi.inner hj.outer

/-- A category that a span sees as open before itself is one whose end would cross the span. -/
theorem Sees.before_iff (h : Sees r s ms n w) {c : Category} {i : Nat}
    (hi : PendingAt r ms n s i) : w.phase c ≠ .before ↔ ∀ j, OpenAt r ms n c j → i < j := by
  constructor
  · intro hc j hj
    have hle := mt (h.before c j i hj hi).mpr hc
    have hne := hj.ne_pending hi
    omega
  · intro hlater hc
    obtain ⟨j, hj⟩ := (h.opened c).mp (by simp [hc])
    have hlt := (h.before c j i hj hi).mp hc
    have hgt := hlater j hj
    omega

/-! ### One marker more -/

theorem Sees.openOuter {o : Span} (h : Sees r s ms n w) (hs : s.category ∉ r.outer)
    (hm : ms[n]? = some ⟨o, .opening⟩) (ho : o.category ∈ r.outer) :
    Sees r s ms (n + 1) (w.openOuter o.category) := by
  have hpending : ∀ i, PendingAt r ms (n + 1) s i ↔ PendingAt r ms n s i := by
    intro i
    rw [pendingAt_succ hm]
    grind
  constructor
  · intro c
    simp only [Watch.openOuter, openAt_succ hm, Function.update_apply]
    grind [h.opened c]
  · intro c j i hj hi
    simp only [Watch.openOuter, Function.update_apply]
    rw [hpending] at hi
    rw [openAt_succ hm] at hj
    have hlt := hi.lt
    have hw := h.pending.mpr ⟨i, hi⟩
    grind [h.before c j i]
  · simp only [hpending]
    exact h.pending
  · rw [removedAt_succ hm, ← h.removed]
    simp [Watch.openOuter]

theorem Sees.closeOuter {o : Span} (h : Sees r s ms n w) (hs : s.category ∉ r.outer)
    (hm : ms[n]? = some ⟨o, .closing⟩) (ho : o.category ∈ r.outer) :
    Sees r s ms (n + 1) (w.closeOuter o.category) := by
  have hpending : ∀ i, PendingAt r ms (n + 1) s i ↔
      PendingAt r ms n s i ∧ w.phase o.category ≠ .before := by
    intro i
    rw [pendingAt_succ hm]
    grind [h.before_iff]
  constructor
  · intro c
    simp only [Watch.closeOuter, openAt_succ hm, Function.update_apply]
    grind [h.opened c]
  · intro c j i hj hi
    simp only [Watch.closeOuter, Function.update_apply]
    rw [hpending] at hi
    rw [openAt_succ hm] at hj
    grind [h.before c j i]
  · simp only [Watch.closeOuter, hpending, exists_and_right, ← h.pending, Bool.and_eq_true,
      decide_eq_true_eq]
  · rw [removedAt_succ hm, ← h.removed]
    grind [Watch.closeOuter]

/-- A marker that changes nothing the watch knows of leaves it as it is. -/
theorem Sees.keep {m : Marker} (h : Sees r s ms n w) (hm : ms[n]? = some m)
    (hu : m.span.category ∉ r.outer)
    (hpending : ∀ i, PendingAt r ms (n + 1) s i ↔ PendingAt r ms n s i)
    (hremoved : RemovedAt r ms (n + 1) s ↔ RemovedAt r ms n s) : Sees r s ms (n + 1) w := by
  have hopen := fun c j => openAt_succ_of_inner (c := c) (i := j) hm hu
  constructor
  · simpa only [hopen] using h.opened
  · simpa only [hopen, hpending] using h.before
  · simpa only [hpending] using h.pending
  · exact h.removed.trans hremoved.symm

theorem Sees.openInner (h : Sees r s ms n w) (hs : s.category ∉ r.outer)
    (hm : ms[n]? = some ⟨s, .opening⟩) : Sees r s ms (n + 1) w.openInner := by
  have hremoved : RemovedAt r ms (n + 1) s ↔ RemovedAt r ms n s := by
    rw [removedAt_succ hm]
    grind
  unfold Watch.openInner
  by_cases hw : w.anyOpen
  · have hpending : ∀ i, PendingAt r ms (n + 1) s i ↔ i = n := by
      intro i
      rw [pendingAt_succ hm]
      grind [h.anyOpen_iff]
    have hopen := fun c j => openAt_succ_of_inner (c := c) (i := j) hm hs
    rw [if_pos hw]
    constructor
    · intro c
      simp only [hopen, ← h.opened]
      grind
    · intro c j i hj hi
      rw [hopen] at hj
      rw [hpending] at hi
      have hlt := hj.lt
      have hphase := (h.opened c).mpr ⟨j, hj⟩
      simp [hphase, hi, hlt]
    · simp [hpending]
    · exact h.removed.trans hremoved.symm
  · rw [if_neg hw]
    refine h.keep hm hs (fun i => ?_) hremoved
    rw [pendingAt_succ hm]
    grind [h.anyOpen_iff]

theorem Sees.closeInner (h : Sees r s ms n w) (hs : s.category ∉ r.outer)
    (hm : ms[n]? = some ⟨s, .closing⟩) : Sees r s ms (n + 1) w.closeInner := by
  have hopen := fun c j => openAt_succ_of_inner (c := c) (i := j) hm hs
  have hpending : ∀ i, ¬ PendingAt r ms (n + 1) s i := by
    intro i
    rw [pendingAt_succ hm]
    grind
  constructor
  · intro c
    simp only [hopen]
    exact h.opened c
  · exact fun c j i _ hi => absurd hi (hpending i)
  · simp [Watch.closeInner, hpending]
  · rw [removedAt_succ hm, ← h.removed]
    simp only [Watch.closeInner, Bool.or_eq_true, Bool.and_eq_true, Watch.anyBefore_iff, h.pending,
      true_and]
    refine or_congr_right ⟨?_, ?_⟩
    · rintro ⟨⟨i, hi⟩, c, hc⟩
      obtain ⟨j, hj⟩ := (h.opened c).mp (by simp [hc])
      exact ⟨i, hi, c, j, hj, (h.before c j i hj hi).mp hc⟩
    · rintro ⟨i, hi, c, j, hj, hlt⟩
      exact ⟨⟨i, hi⟩, c, (h.before c j i hj hi).mpr hlt⟩

/-- Another inner span leaves no trace: an exhaustive rule goes on following `s`. -/
theorem Sees.pass {m : Marker} (h : Sees r s ms n w) (hr : r.exhaustive = true)
    (hm : ms[n]? = some m) (hu : m.span.category ∉ r.outer) (hne : m.span ≠ s) :
    Sees r s ms (n + 1) w := by
  refine h.keep hm hu (fun i => ?_) ?_
  · rw [pendingAt_succ hm]
    grind [OpenAt.outer]
  · rw [removedAt_succ hm]
    grind

theorem Sees.step {m : Marker} (h : Sees r s ms n w) (hr : r.exhaustive = true)
    (hs : s.category ∉ r.outer) (hm : ms[n]? = some m) :
    Sees r s ms (n + 1) (Watch.step r.outer s w m) := by
  obtain ⟨u, role⟩ := m
  unfold Watch.step
  by_cases hu : u.category ∈ r.outer
  · rw [if_pos hu]
    cases role with
    | opening => exact h.openOuter hs hm hu
    | closing => exact h.closeOuter hs hm hu
  · rw [if_neg hu]
    by_cases hus : u = s
    · rw [if_pos hus]
      subst hus
      cases role with
      | opening => exact h.openInner hs hm
      | closing => exact h.closeInner hs hm
    · rw [if_neg hus]
      exact h.pass hr hm hu hus

theorem sees_run (hr : r.exhaustive = true) (hs : s.category ∉ r.outer) (hn : n ≤ ms.length) :
    Sees r s ms n (Watch.run r.outer s (ms.take n)) := by
  induction n with
  | zero => exact sees_start r s ms
  | succ n ih =>
    have hm : ms[n]? = some ms[n] := List.getElem?_eq_getElem hn
    rw [List.take_succ_eq_append_getElem hn, Watch.run, List.foldl_append]
    exact (ih (Nat.le_of_succ_le hn)).step hr hs hm

end Lexeme.Suppression
