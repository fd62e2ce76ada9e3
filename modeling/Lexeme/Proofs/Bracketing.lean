import Lexeme.Proofs.Stream

/-! Markers as brackets. A stream is read with a stack: an opening marker puts its span on top, and
a closing one has to find its span there. Main statement: the stream of a list of proper spans
brackets, whichever categories are outer ones, exactly if no two spans of the list cross. -/

namespace Lexeme.Marker

variable {outer : List Category} {spans stack : List Span} {ms : List Marker} {a b s : Span}

/-- Over the spans that are open, the last one first, every closing marker ends the span that was
opened last, and no span is left open. -/
def brackets : List Span → List Marker → Bool
  | stack, [] => stack.isEmpty
  | stack, m :: ms =>
    match m.role, stack with
    | .opening, _ => brackets (m.span :: stack) ms
    | .closing, [] => false
    | .closing, top :: below => decide (top = m.span) && brackets below ms

theorem brackets_closing_iff : brackets stack (⟨s, .closing⟩ :: ms) = true ↔
    ∃ below, stack = s :: below ∧ brackets below ms = true := by
  cases stack with
  | nil => simp [brackets]
  | cons top below =>
    simp only [brackets, Bool.and_eq_true, decide_eq_true_eq, List.cons.injEq]
    constructor
    · rintro ⟨rfl, h⟩
      exact ⟨below, ⟨rfl, rfl⟩, h⟩
    · rintro ⟨_, ⟨rfl, rfl⟩, h⟩
      exact ⟨rfl, h⟩

/-! ### Bracketing streams come from spans that do not cross -/

theorem mem_of_brackets (h : brackets stack ms = true) (hs : s ∈ stack) : ⟨s, .closing⟩ ∈ ms := by
  induction ms generalizing stack with
  | nil => simp_all [brackets]
  | cons m ms ih =>
    obtain ⟨u, role⟩ := m
    cases role with
    | opening => exact List.mem_cons_of_mem _ (ih h (List.mem_cons_of_mem u hs))
    | closing =>
      obtain ⟨below, rfl, hrest⟩ := brackets_closing_iff.mp h
      rcases List.mem_cons.mp hs with rfl | hs
      · exact List.mem_cons_self
      · exact List.mem_cons_of_mem _ (ih hrest hs)

/-- Of the open spans those on top end first. -/
theorem pairwise_of_brackets (hsorted : ms.Pairwise (Precedes outer))
    (h : brackets stack ms = true) :
    stack.Pairwise fun a b => Precedes outer ⟨a, .closing⟩ ⟨b, .closing⟩ := by
  induction ms generalizing stack with
  | nil =>
    rw [brackets, List.isEmpty_iff] at h
    exact h ▸ .nil
  | cons m ms ih =>
    obtain ⟨hfirst, htail⟩ := List.pairwise_cons.mp hsorted
    obtain ⟨u, role⟩ := m
    cases role with
    | opening => exact (List.pairwise_cons.mp (ih htail h)).2
    | closing =>
      obtain ⟨below, rfl, hrest⟩ := brackets_closing_iff.mp h
      exact List.pairwise_cons.mpr
        ⟨fun b hb => hfirst _ (mem_of_brackets hrest hb), ih htail hrest⟩

/-- A span that begins while another one is open ends no later. -/
theorem stop_le_of_open (hsorted : ms.Pairwise (Precedes outer)) (h : brackets stack ms = true)
    (ha : a ∈ stack) (hb : ⟨b, .opening⟩ ∈ ms) (hlt : b.start < a.stop) : b.stop ≤ a.stop := by
  induction ms generalizing stack with
  | nil => cases hb
  | cons m ms ih =>
    obtain ⟨hfirst, htail⟩ := List.pairwise_cons.mp hsorted
    obtain ⟨u, role⟩ := m
    cases role with
    | opening =>
      rcases List.mem_cons.mp hb with heq | hb
      · cases heq
        have hends := (List.pairwise_cons.mp (pairwise_of_brackets htail h)).1 a ha
        rw [precedes_closing_closing] at hends
        rcases hends with hstop | ⟨hstop, -⟩
        · exact Int.le_of_lt hstop
        · exact Int.le_of_eq hstop
      · exact ih htail h (List.mem_cons_of_mem u ha) hb
    | closing =>
      obtain ⟨below, rfl, hrest⟩ := brackets_closing_iff.mp h
      have hahead : ⟨b, .opening⟩ ∈ ms := by simpa using hb
      rcases List.mem_cons.mp ha with rfl | ha
      · have hover := precedes_closing_opening.mp (hfirst _ hahead)
        omega
      · exact ih htail hrest ha hahead

/-- Of two spans that share a character the one that begins first ends last. -/
theorem stop_le_of_brackets (hsorted : ms.Pairwise (Precedes outer))
    (h : brackets stack ms = true) (ha : ⟨a, .opening⟩ ∈ ms) (hb : ⟨b, .opening⟩ ∈ ms)
    (hstart : a.start < b.start) (hlt : b.start < a.stop) : b.stop ≤ a.stop := by
  induction ms generalizing stack with
  | nil => cases ha
  | cons m ms ih =>
    obtain ⟨hfirst, htail⟩ := List.pairwise_cons.mp hsorted
    obtain ⟨u, role⟩ := m
    cases role with
    | opening =>
      rcases List.mem_cons.mp ha with heq | hahead
      · cases heq
        have hne : b ≠ a := by
          rintro rfl
          omega
        have hbhead : ⟨b, .opening⟩ ∈ ms := by simpa [hne] using hb
        exact stop_le_of_open htail h List.mem_cons_self hbhead hlt
      · rcases List.mem_cons.mp hb with heq | hbhead
        · cases heq
          have hbegins := hfirst _ hahead
          rw [precedes_opening_opening] at hbegins
          omega
        · exact ih htail h hahead hbhead
    | closing =>
      obtain ⟨below, rfl, hrest⟩ := brackets_closing_iff.mp h
      exact ih htail hrest (by simpa using ha) (by simpa using hb)

theorem not_crosses_of_brackets (hsorted : ms.Pairwise (Precedes outer))
    (h : brackets stack ms = true) (ha : ⟨a, .opening⟩ ∈ ms) (hb : ⟨b, .opening⟩ ∈ ms) :
    ¬ a.Crosses b := by
  rintro ⟨⟨hab, hba⟩, hnot, hnot'⟩
  unfold Span.Contains at hnot hnot'
  rcases Int.lt_trichotomy a.start b.start with hlt | heq | hlt
  · have := stop_le_of_brackets hsorted h ha hb hlt hba
    omega
  · omega
  · have := stop_le_of_brackets hsorted h hb ha hlt hab
    omega

/-! ### Spans that do not cross give bracketing streams -/

/-- The closing markers mirror the opening ones: of two spans that do not cross the one that opens
first closes last, if it is not over before the other one begins. -/
theorem Precedes.mirror (h : Precedes outer ⟨a, .opening⟩ ⟨b, .opening⟩)
    (hcross : ¬ a.Crosses b) (hlt : b.start < a.stop) :
    Precedes outer ⟨b, .closing⟩ ⟨a, .closing⟩ := by
  rw [precedes_opening_opening] at h
  rw [precedes_closing_closing]
  rcases h with hstart | ⟨hstart, hstop | ⟨hstop, htie⟩⟩
  · have hle : b.stop ≤ a.stop := by
      refine Int.not_lt.mp fun hgt => hcross ⟨⟨by omega, hlt⟩, ?_, ?_⟩ <;>
        unfold Span.Contains <;> omega
    omega
  · exact .inl hstop
  · refine .inr ⟨hstop.symm, .inr ⟨hstart.symm, ?_⟩⟩
    rcases htie with ⟨hin, hout⟩ | ⟨hiff, hle⟩
    · exact .inl ⟨hout, hin⟩
    · exact .inr ⟨hiff.symm, hle⟩

/-- What is known when the markers `ms` are still to come and the spans of `stack` are open. Equal
spans are told apart by their number alone. -/
structure Stacked (outer : List Category) (spans stack : List Span) (ms : List Marker) : Prop where
  sorted : ms.Pairwise (Precedes outer)
  known : ∀ m ∈ ms, m.span ∈ spans
  counted : ∀ s, ms.count ⟨s, .closing⟩ = stack.count s + ms.count ⟨s, .opening⟩
  begun : ∀ o ∈ stack, ∀ m ∈ ms, Precedes outer ⟨o, .opening⟩ m
  ordered : stack.Pairwise fun a b => Precedes outer ⟨a, .closing⟩ ⟨b, .closing⟩

theorem Stacked.mem_closing (h : Stacked outer spans stack ms) (hs : s ∈ stack) :
    ⟨s, .closing⟩ ∈ ms := by
  rw [← List.count_pos_iff, h.counted]
  have := List.count_pos_iff.mpr hs
  omega

theorem Stacked.tail {m : Marker} (h : Stacked outer spans stack (m :: ms)) :
    ms.Pairwise (Precedes outer) ∧ (∀ m' ∈ ms, m'.span ∈ spans) ∧ ∀ m' ∈ ms, Precedes outer m m' :=
  ⟨(List.pairwise_cons.mp h.sorted).2, fun m' hm => h.known m' (List.mem_cons_of_mem m hm),
    (List.pairwise_cons.mp h.sorted).1⟩

theorem Stacked.opening (hcross : ∀ a ∈ spans, ∀ b ∈ spans, ¬ a.Crosses b)
    (h : Stacked outer spans stack (⟨s, .opening⟩ :: ms)) :
    Stacked outer spans (s :: stack) ms := by
  obtain ⟨hsorted, hknown, hfirst⟩ := h.tail
  have hs : s ∈ spans := h.known _ List.mem_cons_self
  refine ⟨hsorted, hknown, fun u => ?_, ?_, List.pairwise_cons.mpr ⟨fun o ho => ?_, h.ordered⟩⟩
  · have hcount := h.counted u
    simp only [List.count_cons, beq_iff_eq, Marker.mk.injEq, reduceCtorEq, and_false, and_true,
      if_false] at hcount ⊢
    omega
  · exact List.forall_mem_cons.mpr
      ⟨hfirst, fun o ho m hm => h.begun o ho m (List.mem_cons_of_mem _ hm)⟩
  · -- an open span ends behind the place where `s` begins
    have hclose : ⟨o, .closing⟩ ∈ ms := by simpa using h.mem_closing ho
    have hlt := precedes_opening_closing.mp (hfirst _ hclose)
    exact (h.begun o ho _ List.mem_cons_self).mirror (hcross o (hknown _ hclose) s hs) hlt

/-- The span that ends is the one on top. -/
theorem Stacked.exists_below (hproper : ∀ s ∈ spans, s.start < s.stop)
    (h : Stacked outer spans stack (⟨s, .closing⟩ :: ms)) :
    ∃ below, stack = s :: below := by
  obtain ⟨hsorted, hknown, hfirst⟩ := h.tail
  have hs : s ∈ stack := by
    have hlt := hproper s (h.known _ List.mem_cons_self)
    have hnot : (⟨s, .opening⟩ : Marker) ∉ ⟨s, .closing⟩ :: ms := by
      intro hopen
      have hle := precedes_closing_opening.mp (hfirst ⟨s, .opening⟩ (by simpa using hopen))
      omega
    have hcount := h.counted s
    rw [List.count_eq_zero_of_not_mem hnot, List.count_cons_self] at hcount
    exact List.count_pos_iff.mp (by omega)
  cases stack with
  | nil => cases hs
  | cons top below =>
    refine ⟨below, ?_⟩
    rcases List.mem_cons.mp hs with rfl | hbelow
    · rfl
    · have hends := (List.pairwise_cons.mp h.ordered).1 s hbelow
      rcases List.mem_cons.mp (h.mem_closing List.mem_cons_self) with heq | hclose
      · cases heq
        rfl
      · cases hends.antisymm (hfirst _ hclose)
        rfl

theorem Stacked.closing (h : Stacked outer spans (s :: stack) (⟨s, .closing⟩ :: ms)) :
    Stacked outer spans stack ms := by
  obtain ⟨hsorted, hknown, -⟩ := h.tail
  refine ⟨hsorted, hknown, fun u => ?_, fun o ho m hm => ?_, (List.pairwise_cons.mp h.ordered).2⟩
  · have hcount := h.counted u
    simp only [List.count_cons, beq_iff_eq, Marker.mk.injEq, reduceCtorEq, and_false, and_true,
      if_false] at hcount
    omega
  · exact h.begun o (List.mem_cons_of_mem s ho) m (List.mem_cons_of_mem _ hm)

theorem Stacked.brackets (hproper : ∀ s ∈ spans, s.start < s.stop)
    (hcross : ∀ a ∈ spans, ∀ b ∈ spans, ¬ a.Crosses b) (h : Stacked outer spans stack ms) :
    brackets stack ms = true := by
  induction ms generalizing stack with
  | nil =>
    have hnil : stack = [] :=
      List.eq_nil_iff_forall_not_mem.mpr fun s hs => List.not_mem_nil (h.mem_closing hs)
    rw [hnil]
    rfl
  | cons m ms ih =>
    obtain ⟨s, role⟩ := m
    cases role with
    | opening => exact ih (h.opening hcross)
    | closing =>
      obtain ⟨below, rfl⟩ := h.exists_below hproper
      exact brackets_closing_iff.mpr ⟨below, rfl, ih h.closing⟩

/-! ### Streams -/

theorem count_pairs (spans : List Span) (s : Span) (role : Role) :
    (pairs spans).count ⟨s, role⟩ = spans.count s := by
  induction spans with
  | nil => rfl
  | cons u spans ih =>
    change (⟨u, .opening⟩ :: ⟨u, .closing⟩ :: pairs spans : List Marker).count _ = _
    cases role <;> simp [List.count_cons, ih]

theorem stream_stacked (outer : List Category) (spans : List Span) :
    Stacked outer spans [] (stream outer spans) where
  sorted := stream_precedes outer spans
  known _ hm := mem_stream.mp hm
  counted s := by
    rw [(stream_perm outer spans).count_eq, (stream_perm outer spans).count_eq, count_pairs,
      count_pairs, List.count_nil, Nat.zero_add]
  begun _ ho := absurd ho List.not_mem_nil
  ordered := .nil

/-- The stream of spans that are not empty or inverted, repeated and equal ones among them, brackets
exactly if no two of them cross, whichever categories are outer ones. -/
theorem brackets_stream_iff (outer : List Category) (spans : List Span)
    (hproper : ∀ s ∈ spans, s.start < s.stop) :
    brackets [] (stream outer spans) = true ↔ ∀ a ∈ spans, ∀ b ∈ spans, ¬ a.Crosses b := by
  constructor
  · intro h a ha b hb
    exact not_crosses_of_brackets (stream_precedes outer spans) h (mem_stream.mpr ha)
      (mem_stream.mpr hb)
  · exact fun hcross => (stream_stacked outer spans).brackets hproper hcross

/-- Spans that nest, touch, are there twice and share both ends, of an outer category and of others;
one that crosses them more. -/
theorem brackets_stream_nested :
    let spans : List Span := [⟨.integer, 2, 4⟩, ⟨.string, 0, 6⟩, ⟨.enumeration, 0, 6⟩,
      ⟨.integer, 2, 4⟩, ⟨.keyword, 0, 2⟩, ⟨.floating, 4, 6⟩, ⟨.identifier, 0, 6⟩]
    brackets [] (stream [.identifier] spans) = true ∧
      brackets [] (stream [.identifier] (⟨.character, 3, 5⟩ :: spans)) = false := by
  intro spans
  constructor
  · exact (brackets_stream_iff [.identifier] spans (by decide)).mpr (by decide)
  · rw [← Bool.not_eq_true, brackets_stream_iff [.identifier] _ (by decide)]
    decide

end Lexeme.Marker
