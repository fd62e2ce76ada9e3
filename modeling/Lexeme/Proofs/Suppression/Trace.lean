import Lexeme.Suppression

/-! The memory of a pass, read off the marker stream. What is open, pending or removed at a position
is described by the markers before it alone, for every stream of markers. Main statement: a pass
removes exactly the spans that the description calls removed. -/

namespace Lexeme.Suppression

variable {r : Rule} {ms : List Marker} {n : Nat} {st : State}

/-- Before position `n` the last marker of the outer category `c` is an opening one, at `i`. -/
structure OpenAt (r : Rule) (ms : List Marker) (n : Nat) (c : Category) (i : Nat) : Prop where
  outer : c ∈ r.outer
  lt : i < n
  opening : ∃ o : Span, o.category = c ∧ ms[i]? = some ⟨o, .opening⟩
  last : ∀ k, i < k → k < n → ∀ m, ms[k]? = some m → m.span.category ≠ c

/-- Before position `n` some outer span is open. -/
def AnyOpen (r : Rule) (ms : List Marker) (n : Nat) : Prop := ∃ c i, OpenAt r ms n c i

/-- Before position `n` the inner span `s`, which began at `i`, is still followed: it began inside
an outer span and has not ended, no later inner span took its place, and every outer span that has
ended since began after it. -/
structure PendingAt (r : Rule) (ms : List Marker) (n : Nat) (s : Span) (i : Nat) : Prop where
  inner : s.category ∉ r.outer
  lt : i < n
  opening : ms[i]? = some ⟨s, .opening⟩
  inside : AnyOpen r ms i
  unclosed : ∀ k, i < k → k < n → ms[k]? ≠ some ⟨s, .closing⟩
  unreplaced : ∀ k u, i < k → k < n → ms[k]? = some ⟨u, .opening⟩ → u.category ∉ r.outer →
    AnyOpen r ms k → r.exhaustive = true ∧ u ≠ s
  uncrossed : ∀ k o j, i < k → k < n → ms[k]? = some ⟨o, .closing⟩ →
    OpenAt r ms k o.category j → i < j

/-- Before position `n` the span `s` ended while it was followed inside an open outer span. -/
def RemovedAt (r : Rule) (ms : List Marker) (n : Nat) (s : Span) : Prop :=
  ∃ k i, k < n ∧ ms[k]? = some ⟨s, .closing⟩ ∧ PendingAt r ms k s i ∧
    ∃ c j, OpenAt r ms k c j ∧ j < i

theorem OpenAt.unique {c : Category} {i j : Nat} (hi : OpenAt r ms n c i)
    (hj : OpenAt r ms n c j) : i = j := by
  obtain ⟨o, ho, hoi⟩ := hi.opening
  obtain ⟨u, hu, huj⟩ := hj.opening
  rcases Nat.lt_trichotomy i j with h | h | h
  · exact absurd hu (hi.last j h hj.lt _ huj)
  · exact h
  · exact absurd ho (hj.last i h hi.lt _ hoi)

/-- A span is followed from its last beginning. -/
theorem PendingAt.unique {s : Span} {i j : Nat} (hi : PendingAt r ms n s i)
    (hj : PendingAt r ms n s j) : i = j := by
  rcases Nat.lt_trichotomy i j with h | h | h
  · exact absurd rfl (hi.unreplaced j s h hj.lt hj.opening hj.inner hj.inside).2
  · exact h
  · exact absurd rfl (hj.unreplaced i s h hi.lt hi.opening hi.inner hi.inside).2

/-! ### One marker more -/

section Step

variable {m : Marker}

/-- Of its own category a marker leaves only itself open, and only if it opens. -/
theorem openAt_succ {c : Category} {i : Nat} (hm : ms[n]? = some m) :
    OpenAt r ms (n + 1) c i ↔
      (c ∈ r.outer ∧ m.span.category = c ∧ m.role = .opening ∧ i = n) ∨
        (m.span.category ≠ c ∧ OpenAt r ms n c i) := by
  constructor
  · rintro ⟨h1, h2, ⟨o, ho, hi⟩, h4⟩
    by_cases hin : i = n
    · subst hin
      rw [hm] at hi
      cases hi
      exact .inl ⟨h1, ho, rfl, rfl⟩
    · have hc := h4 n (by omega) (by omega) m hm
      exact .inr ⟨hc, h1, by omega, ⟨o, ho, hi⟩, fun k hk hkn => h4 k hk (by omega)⟩
  · rintro (⟨h1, hc, hr, rfl⟩ | ⟨hc, h1, h2, h3, h4⟩)
    · obtain ⟨o, role⟩ := m
      cases hr
      exact ⟨h1, by omega, ⟨o, hc, hm⟩, fun k hk hkn => by omega⟩
    · refine ⟨h1, by omega, h3, fun k hk hkn m' hm' => ?_⟩
      by_cases h : k = n
      · subst h
        rw [hm] at hm'
        cases hm'
        exact hc
      · exact h4 k hk (by omega) m' hm'

/-- A marker of an inner span opens and closes no outer one. -/
theorem openAt_succ_of_inner {c : Category} {i : Nat} (hm : ms[n]? = some m)
    (hs : m.span.category ∉ r.outer) : OpenAt r ms (n + 1) c i ↔ OpenAt r ms n c i := by
  rw [openAt_succ hm]
  grind [OpenAt.outer]

/-- A span that was followed stays so unless the marker ends it, takes its place or ends an outer
span that began no later. -/
theorem pendingAt_succ {s : Span} {i : Nat} (hm : ms[n]? = some m) :
    PendingAt r ms (n + 1) s i ↔
      (m = ⟨s, .opening⟩ ∧ i = n ∧ s.category ∉ r.outer ∧ AnyOpen r ms n) ∨
        (PendingAt r ms n s i ∧ m ≠ ⟨s, .closing⟩ ∧
          (m.role = .opening → m.span.category ∉ r.outer → AnyOpen r ms n →
            r.exhaustive = true ∧ m.span ≠ s) ∧
          (m.role = .closing → ∀ j, OpenAt r ms n m.span.category j → i < j)) := by
  constructor
  · rintro ⟨h1, h2, h3, h4, h5, h6, h7⟩
    by_cases hin : i = n
    · subst hin
      rw [hm] at h3
      cases h3
      exact .inl ⟨rfl, rfl, h1, h4⟩
    · have hlt : i < n := by omega
      refine .inr ⟨⟨h1, hlt, h3, h4, fun k hk hkn => h5 k hk (by omega),
        fun k u hk hkn => h6 k u hk (by omega), fun k o j hk hkn => h7 k o j hk (by omega)⟩,
        ?_, ?_, ?_⟩
      · rintro rfl
        exact h5 n hlt (by omega) hm
      · obtain ⟨u, role⟩ := m
        rintro rfl hu hany
        exact h6 n u hlt (by omega) hm hu hany
      · obtain ⟨o, role⟩ := m
        rintro rfl j hj
        exact h7 n o j hlt (by omega) hm hj
  · rintro (⟨rfl, rfl, h1, h2⟩ | ⟨⟨h1, h2, h3, h4, h5, h6, h7⟩, hc, ho, hx⟩)
    · exact ⟨h1, by omega, hm, h2, fun k hk hkn => by omega, fun k u hk hkn => by omega,
        fun k o j hk hkn => by omega⟩
    · refine ⟨h1, by omega, h3, h4, fun k hk hkn he => ?_, fun k u hk hkn he hu hany => ?_,
        fun k o j hk hkn he hj => ?_⟩ <;> by_cases h : k = n
      · subst h
        rw [hm] at he
        exact hc (Option.some.inj he)
      · exact h5 k hk (by omega) he
      · subst h
        rw [hm] at he
        cases he
        exact ho rfl hu hany
      · exact h6 k u hk (by omega) he hu hany
      · subst h
        rw [hm] at he
        cases he
        exact hx rfl j hj
      · exact h7 k o j hk (by omega) he hj

theorem removedAt_succ {s : Span} (hm : ms[n]? = some m) :
    RemovedAt r ms (n + 1) s ↔
      RemovedAt r ms n s ∨ (m = ⟨s, .closing⟩ ∧ ∃ i, PendingAt r ms n s i ∧
        ∃ c j, OpenAt r ms n c j ∧ j < i) := by
  constructor
  · rintro ⟨k, i, hk, hs, hp, ho⟩
    by_cases h : k = n
    · subst h
      rw [hm] at hs
      exact .inr ⟨Option.some.inj hs, i, hp, ho⟩
    · exact .inl ⟨k, i, by omega, hs, hp, ho⟩
  · rintro (⟨k, i, hk, hs, hp, ho⟩ | ⟨rfl, i, hp, ho⟩)
    · exact ⟨k, i, by omega, hs, hp, ho⟩
    · exact ⟨n, i, by omega, hm, hp, ho⟩

end Step

/-! ### The pass keeps track -/

/-- The memory of the pass before position `n` is what the stream says. -/
structure Tracks (r : Rule) (ms : List Marker) (n : Nat) (st : State) : Prop where
  opened : ∀ c i, (c, i) ∈ st.opened ↔ OpenAt r ms n c i
  pending : ∀ s i, (s, i) ∈ st.pending ↔ PendingAt r ms n s i
  removed : ∀ s, s ∈ st.removed ↔ RemovedAt r ms n s

theorem lookup_eq_some_iff {α : Type} [DecidableEq α] {l : List (α × Nat)} {a : α} {i : Nat}
    (h : ∀ i j, (a, i) ∈ l → (a, j) ∈ l → i = j) : l.lookup a = some i ↔ (a, i) ∈ l := by
  induction l with
  | nil => simp
  | cons p l ih =>
    obtain ⟨b, k⟩ := p
    by_cases hb : a = b
    · subst hb
      simp only [List.lookup_cons_self, Option.some.injEq, List.mem_cons]
      constructor
      · rintro rfl
        exact .inl rfl
      · intro hm
        exact h k i List.mem_cons_self (List.mem_cons.mpr hm)
    · have hne : (a == b) = false := by simpa using hb
      rw [List.lookup_cons, hne]
      dsimp only
      rw [ih fun i j hi hj => h i j (List.mem_cons_of_mem _ hi) (List.mem_cons_of_mem _ hj)]
      simp [hb]

theorem Tracks.lookup_opened (h : Tracks r ms n st) {c : Category} {i : Nat} :
    st.opened.lookup c = some i ↔ OpenAt r ms n c i := by
  rw [lookup_eq_some_iff fun i j hi hj => ((h.opened c i).mp hi).unique ((h.opened c j).mp hj)]
  exact h.opened c i

theorem Tracks.lookup_pending (h : Tracks r ms n st) {s : Span} {i : Nat} :
    st.pending.lookup s = some i ↔ PendingAt r ms n s i := by
  rw [lookup_eq_some_iff fun i j hi hj => ((h.pending s i).mp hi).unique ((h.pending s j).mp hj)]
  exact h.pending s i

theorem Tracks.isEmpty_opened (h : Tracks r ms n st) :
    st.opened.isEmpty = true ↔ ¬ AnyOpen r ms n := by
  rw [List.isEmpty_iff, List.eq_nil_iff_forall_not_mem]
  constructor
  · rintro ho ⟨c, i, hi⟩
    exact ho (c, i) ((h.opened c i).mpr hi)
  · rintro ho ⟨c, i⟩ hi
    exact ho ⟨c, i, (h.opened c i).mp hi⟩

theorem tracks_start (r : Rule) (ms : List Marker) : Tracks r ms 0 .start where
  opened c i := by
    simp only [State.start, List.not_mem_nil, false_iff]
    intro h
    exact absurd h.lt (Nat.not_lt_zero i)
  pending s i := by
    simp only [State.start, List.not_mem_nil, false_iff]
    intro h
    exact absurd h.lt (Nat.not_lt_zero i)
  removed s := by
    simp only [State.start, List.not_mem_nil, false_iff]
    rintro ⟨k, i, hk, -⟩
    exact absurd hk (Nat.not_lt_zero k)

theorem Tracks.openOuter {o : Span} (h : Tracks r ms n st) (hm : ms[n]? = some ⟨o, .opening⟩)
    (ho : o.category ∈ r.outer) : Tracks r ms (n + 1) (openOuter st n o.category) where
  opened c i := by
    simp only [Suppression.openOuter, List.mem_cons, Prod.mk.injEq, List.mem_filter,
      decide_eq_true_eq, h.opened, openAt_succ hm]
    grind
  pending s i := by
    simp only [Suppression.openOuter, h.pending, pendingAt_succ hm]
    grind [PendingAt.inner]
  removed s := by
    simp [Suppression.openOuter, h.removed, removedAt_succ hm]

theorem Tracks.closeOuter {o : Span} (h : Tracks r ms n st) (hm : ms[n]? = some ⟨o, .closing⟩)
    (ho : o.category ∈ r.outer) : Tracks r ms (n + 1) (closeOuter st o.category) := by
  unfold Suppression.closeOuter
  cases hl : st.opened.lookup o.category with
  | none =>
    have hno : ∀ j, ¬ OpenAt r ms n o.category j := by
      intro j hj
      rw [h.lookup_opened.mpr hj] at hl
      cases hl
    constructor
    · intro c i
      simp only [h.opened, openAt_succ hm]
      grind
    · intro s i
      simp only [h.pending, pendingAt_succ hm]
      grind [PendingAt.inner]
    · intro s
      simp only [h.removed, removedAt_succ hm]
      grind [PendingAt.inner]
  | some i =>
    have hi : OpenAt r ms n o.category i := h.lookup_opened.mp hl
    constructor
    · intro c j
      simp only [List.mem_filter, decide_eq_true_eq, h.opened, openAt_succ hm]
      grind
    · intro s j
      simp only [List.mem_filter, decide_eq_true_eq, h.pending, pendingAt_succ hm]
      grind [PendingAt.inner, OpenAt.unique]
    · intro s
      simp only [h.removed, removedAt_succ hm]
      grind [PendingAt.inner]

theorem Tracks.openInner {s : Span} (h : Tracks r ms n st) (hm : ms[n]? = some ⟨s, .opening⟩)
    (hs : s.category ∉ r.outer) : Tracks r ms (n + 1) (openInner r.exhaustive st n s) := by
  have hopened := fun c i => openAt_succ_of_inner (c := c) (i := i) hm hs
  have hremoved : ∀ u, RemovedAt r ms (n + 1) u ↔ RemovedAt r ms n u := by
    intro u
    rw [removedAt_succ hm]
    grind
  unfold Suppression.openInner
  by_cases he : st.opened.isEmpty
  · have hno := h.isEmpty_opened.mp he
    rw [if_pos he]
    refine ⟨fun c i => by rw [h.opened, hopened], fun u i => ?_,
      fun u => by rw [h.removed, hremoved]⟩
    rw [h.pending, pendingAt_succ hm]
    grind
  · have hany : AnyOpen r ms n :=
      Classical.byContradiction fun hno => he (h.isEmpty_opened.mpr hno)
    rw [if_neg he]
    refine ⟨fun c i => by rw [h.opened, hopened], fun u i => ?_,
      fun u => by rw [h.removed, hremoved]⟩
    rw [pendingAt_succ hm]
    cases hx : r.exhaustive
    · simp only [Bool.false_eq_true, if_false, List.mem_singleton, Prod.mk.injEq]
      grind
    · simp only [if_true, List.mem_cons, Prod.mk.injEq, List.mem_filter, decide_eq_true_eq,
        h.pending]
      grind

theorem Tracks.closeInner {s : Span} (h : Tracks r ms n st) (hm : ms[n]? = some ⟨s, .closing⟩)
    (hs : s.category ∉ r.outer) : Tracks r ms (n + 1) (closeInner st s) := by
  have hopened := fun c i => openAt_succ_of_inner (c := c) (i := i) hm hs
  unfold Suppression.closeInner
  cases hl : st.pending.lookup s with
  | none =>
    have hno : ∀ i, ¬ PendingAt r ms n s i := by
      intro i hi
      rw [h.lookup_pending.mpr hi] at hl
      cases hl
    refine ⟨fun c i => by rw [h.opened, hopened], fun u i => ?_, fun u => ?_⟩
    · rw [h.pending, pendingAt_succ hm]
      grind [OpenAt.outer]
    · rw [h.removed, removedAt_succ hm]
      grind
  | some i =>
    have hi : PendingAt r ms n s i := h.lookup_pending.mp hl
    have hany : st.opened.any (·.2 < i) = true ↔ ∃ c j, OpenAt r ms n c j ∧ j < i := by
      simp only [List.any_eq_true, Prod.exists, h.opened, decide_eq_true_eq]
    refine ⟨fun c i => by rw [h.opened, hopened], fun u j => ?_, fun u => ?_⟩
    · simp only [List.mem_filter, decide_eq_true_eq, h.pending, pendingAt_succ hm]
      grind [OpenAt.outer]
    · dsimp only
      rw [removedAt_succ hm]
      by_cases ha : st.opened.any (·.2 < i)
      · rw [if_pos ha, List.mem_cons, h.removed]
        have hex := hany.mp ha
        grind
      · rw [if_neg ha, h.removed]
        grind [PendingAt.unique]

/-- One marker keeps the memory in step with the stream. -/
theorem Tracks.step {m : Marker} (h : Tracks r ms n st) (hm : ms[n]? = some m) :
    Tracks r ms (n + 1) (step r st n m) := by
  obtain ⟨s, role⟩ := m
  unfold Suppression.step
  by_cases hs : s.category ∈ r.outer
  · rw [if_pos hs]
    cases role with
    | opening => exact h.openOuter hm hs
    | closing => exact h.closeOuter hm hs
  · rw [if_neg hs]
    cases role with
    | opening => exact h.openInner hm hs
    | closing => exact h.closeInner hm hs

/-- The rest of the stream keeps the memory in step to the end. -/
theorem Tracks.scanFrom (h : Tracks r ms n st) :
    Tracks r ms (max n ms.length) (scanFrom r st n (ms.drop n)) := by
  induction hd : ms.drop n generalizing n st with
  | nil =>
    have hlen : ms.length ≤ n := List.drop_eq_nil_iff.mp hd
    rw [Nat.max_eq_left hlen]
    exact h
  | cons m rest ih =>
    have hm : ms[n]? = some m := by rw [← List.head?_drop, hd, List.head?_cons]
    have hrest : ms.drop (n + 1) = rest := by rw [← List.tail_drop, hd, List.tail_cons]
    have hlt : n < ms.length := (List.getElem?_eq_some_iff.mp hm).1
    have hstep := ih (h.step hm) hrest
    rw [show max (n + 1) ms.length = max n ms.length by omega] at hstep
    exact hstep

/-- A pass over a stream removes what ends there while it is followed inside an open span. -/
theorem mem_scan_removed {s : Span} :
    s ∈ (scanFrom r .start 0 ms).removed ↔ RemovedAt r ms ms.length s := by
  have h := (tracks_start r ms).scanFrom
  rw [Nat.zero_max, List.drop_zero] at h
  exact h.removed s

end Lexeme.Suppression
