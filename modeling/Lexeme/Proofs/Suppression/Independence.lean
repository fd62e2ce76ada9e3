import Lexeme.Proofs.Stream
import Lexeme.Proofs.Suppression.Watch
import Mathlib.Data.List.Dedup

/-! Under an exhaustive rule inner spans do not influence each other. The watch over one of them
passes over the others, so it says the same of two lists with the same outer spans, in whatever
order and number. Main statement: a span is removed from a list exactly if it is removed from the
outer spans and itself alone; hence rules can be repeated, split and exchanged. -/

namespace Lexeme.Suppression

open Marker (stream)

variable {r : Rule} {s : Span} {ms : List Marker}

/-! ### Lists with the same outer spans -/

/-- The marker of an outer span, or of `s` itself. -/
def Concerns (outer : List Category) (s : Span) (m : Marker) : Prop :=
  m.span.category ∈ outer ∨ m.span = s

instance (outer : List Category) (s : Span) (m : Marker) : Decidable (Concerns outer s m) :=
  inferInstanceAs (Decidable (_ ∨ _))

theorem Watch.foldl_filter (outer : List Category) (s : Span) (w : Watch) (ms : List Marker) :
    (ms.filter (Concerns outer s)).foldl (step outer s) w = ms.foldl (step outer s) w := by
  induction ms generalizing w with
  | nil => rfl
  | cons m ms ih =>
    rw [List.filter_cons]
    by_cases hm : Concerns outer s m
    · simp [hm, ih]
    · have hstep : step outer s w m = w := by
        obtain ⟨houter, hs⟩ := not_or.mp hm
        simp [step, houter, hs]
      simp [hm, ih, hstep]

/-- A repetition of the first marker of a sorted list stands right behind it. -/
theorem Watch.foldl_dedup {outer : List Category} (s : Span) (w : Watch)
    (h : ms.Pairwise (Marker.Precedes outer)) :
    ms.dedup.foldl (step outer s) w = ms.foldl (step outer s) w := by
  induction ms generalizing w with
  | nil => rfl
  | cons m ms ih =>
    obtain ⟨hfirst, hrest⟩ := List.pairwise_cons.mp h
    by_cases hm : m ∈ ms
    · obtain ⟨m', rest, rfl⟩ := List.exists_cons_of_ne_nil (List.ne_nil_of_mem hm)
      have hle : Marker.Precedes outer m' m := by
        rcases List.mem_cons.mp hm with rfl | hm
        · exact hfirst _ List.mem_cons_self
        · exact (List.pairwise_cons.mp hrest).1 m hm
      obtain rfl : m = m' := (hfirst m' List.mem_cons_self).antisymm hle
      rw [List.dedup_cons_of_mem hm, ih w hrest, List.foldl_cons, List.foldl_cons, List.foldl_cons,
        step_step]
    · rw [List.dedup_cons_of_notMem hm, List.foldl_cons, List.foldl_cons, ih _ hrest]

/-- Sorted streams with the same markers of outer spans and of `s` look alike to `s`, however often
each marker stands in them. -/
theorem Watch.run_eq_of_mem_iff {outer : List Category} {ms' : List Marker}
    (hms : ms.Pairwise (Marker.Precedes outer)) (hms' : ms'.Pairwise (Marker.Precedes outer))
    (h : ∀ m, Concerns outer s m → (m ∈ ms ↔ m ∈ ms')) : run outer s ms = run outer s ms' := by
  have hsorted := hms.filter (Concerns outer s)
  have hsorted' := hms'.filter (Concerns outer s)
  have hperm : (ms.filter (Concerns outer s)).dedup.Perm (ms'.filter (Concerns outer s)).dedup := by
    rw [List.perm_ext_iff_of_nodup (List.nodup_dedup _) (List.nodup_dedup _)]
    intro m
    simp only [List.mem_dedup, List.mem_filter, decide_eq_true_eq]
    exact and_congr_left fun hm => h m hm
  have heq := hperm.eq_of_pairwise (fun _ _ _ _ hle hge => hle.antisymm hge)
    (hsorted.sublist (List.dedup_sublist _)) (hsorted'.sublist (List.dedup_sublist _))
  rw [run, run, ← foldl_filter, ← foldl_filter outer s start ms', ← foldl_dedup s start hsorted,
    ← foldl_dedup s start hsorted', heq]

theorem Watch.step_congr {outer outer' : List Category} (h : ∀ c, c ∈ outer ↔ c ∈ outer') :
    step outer = step outer' := by
  funext s w m
  simp only [step, h]

/-! ### Independence -/

/-- A rule removes an inner span if the watch over it says so. -/
theorem mem_removed_iff_run (hr : r.exhaustive = true) (hs : s.category ∈ r.inner)
    (spans : List Span) :
    s ∈ removed r spans ↔ (Watch.run r.outer s (stream r.outer spans)).removed = true := by
  have hsees := sees_run hr (fun hc => r.disjoint _ hc hs) (Nat.le_refl (stream r.outer
    (spans.filter fun u => u.category ∈ r.outer ∨ u.category ∈ r.inner)).length)
  rw [removed, mem_scan_removed, ← hsees.removed, List.take_length]
  -- the spans that the pass does not look at do not concern `s` either
  rw [Watch.run_eq_of_mem_iff (Marker.stream_precedes r.outer _)
    (Marker.stream_precedes r.outer spans)]
  intro m hm
  have hlook : m.span.category ∈ r.outer ∨ m.span.category ∈ r.inner := by
    rcases hm with hm | rfl
    · exact .inl hm
    · exact .inr hs
  simp [hlook]

/-- What becomes of an inner span under an exhaustive rule depends on the outer spans alone. -/
theorem mem_removed_congr {q : Rule} {xs ys : List Span} (hr : r.exhaustive = true)
    (hq : q.exhaustive = true) (houter : ∀ c, c ∈ r.outer ↔ c ∈ q.outer)
    (hsr : s.category ∈ r.inner) (hsq : s.category ∈ q.inner) (hx : s ∈ xs) (hy : s ∈ ys)
    (h : ∀ o : Span, o.category ∈ r.outer → (o ∈ xs ↔ o ∈ ys)) :
    s ∈ removed r xs ↔ s ∈ removed q ys := by
  have hrun :
      Watch.run q.outer s (stream q.outer ys) = Watch.run r.outer s (stream r.outer ys) := by
    rw [Watch.run, Watch.run, stream, stream, Watch.step_congr houter, Marker.sortKey_congr houter]
  rw [mem_removed_iff_run hr hsr, mem_removed_iff_run hq hsq, hrun,
    Watch.run_eq_of_mem_iff (Marker.stream_precedes r.outer xs)
      (Marker.stream_precedes r.outer ys)]
  intro m hm
  rw [Marker.mem_stream, Marker.mem_stream]
  rcases hm with hm | rfl
  · exact h m.span hm
  · exact ⟨fun _ => hy, fun _ => hx⟩

theorem inner_of_mem_removed {spans : List Span} (h : s ∈ removed r spans) :
    s.category ∈ r.inner := by
  rw [removed, mem_scan_removed] at h
  obtain ⟨k, i, -, hk, hp, -⟩ := h
  have hlook := (List.mem_filter.mp (Marker.mem_of_index hk)).2
  exact (of_decide_eq_true hlook).resolve_left hp.inner

/-- A rule that leaves the outer spans of another in place changes nothing for it: after both, the
spans are left that neither removes from the whole list. -/
theorem suppress_suppress_eq_filter {p q : Rule} (hp : p.exhaustive = true)
    (hq : ∀ c ∈ p.outer, c ∉ q.inner) (spans : List Span) :
    suppress p (suppress q spans) =
      spans.filter fun s => s ∉ removed q spans ∧ s ∉ removed p spans := by
  have houter : ∀ o : Span, o.category ∈ p.outer → (o ∈ suppress q spans ↔ o ∈ spans) := by
    intro o ho
    rw [mem_suppress]
    exact and_iff_left fun hrem => hq _ ho (inner_of_mem_removed hrem)
  rw [suppress, suppress, List.filter_filter]
  apply List.filter_congr
  intro s hs
  by_cases hsq : s ∈ removed q spans
  · simp [hsq]
  · have hkept : s ∈ suppress q spans := mem_suppress.mpr ⟨hs, hsq⟩
    have hiff : s ∈ removed p (suppress q spans) ↔ s ∈ removed p spans := by
      by_cases hsp : s.category ∈ p.inner
      · exact mem_removed_congr hp hp (fun _ => Iff.rfl) hsp hsp hkept hs houter
      · exact ⟨fun hrem => absurd (inner_of_mem_removed hrem) hsp,
          fun hrem => absurd (inner_of_mem_removed hrem) hsp⟩
    rw [← suppress]
    simp [hsq, hiff]

theorem suppress_idem (hr : r.exhaustive = true) (spans : List Span) :
    suppress r (suppress r spans) = suppress r spans := by
  rw [suppress_suppress_eq_filter hr r.disjoint]
  simp [suppress]

theorem suppress_comm {p q : Rule} (hp : p.exhaustive = true) (hq : q.exhaustive = true)
    (hpq : ∀ c ∈ p.outer, c ∉ q.inner) (hqp : ∀ c ∈ q.outer, c ∉ p.inner) (spans : List Span) :
    suppress p (suppress q spans) = suppress q (suppress p spans) := by
  rw [suppress_suppress_eq_filter hp hpq, suppress_suppress_eq_filter hq hqp]
  simp only [and_comm]

/-- Two rules with the outer categories of `r` that have its inner ones between them. -/
structure Splits (r a b : Rule) : Prop where
  outer_left : ∀ c, c ∈ r.outer ↔ c ∈ a.outer
  outer_right : ∀ c, c ∈ r.outer ↔ c ∈ b.outer
  inner : ∀ c, c ∈ r.inner ↔ c ∈ a.inner ∨ c ∈ b.inner

section Splits

variable {a b : Rule} {spans : List Span} (h : Splits r a b) (hr : r.exhaustive = true)
  (ha : a.exhaustive = true) (hb : b.exhaustive = true)
include h hr ha hb

theorem Splits.mem_removed_iff (hs : s ∈ spans) :
    s ∈ removed r spans ↔ s ∈ removed a spans ∨ s ∈ removed b spans := by
  have hleft : s.category ∈ a.inner → (s ∈ removed r spans ↔ s ∈ removed a spans) := fun hc =>
    mem_removed_congr hr ha h.outer_left ((h.inner _).mpr (.inl hc)) hc hs hs fun _ _ => Iff.rfl
  have hright : s.category ∈ b.inner → (s ∈ removed r spans ↔ s ∈ removed b spans) := fun hc =>
    mem_removed_congr hr hb h.outer_right ((h.inner _).mpr (.inr hc)) hc hs hs fun _ _ => Iff.rfl
  constructor
  · intro hrem
    rcases (h.inner _).mp (inner_of_mem_removed hrem) with hc | hc
    · exact .inl ((hleft hc).mp hrem)
    · exact .inr ((hright hc).mp hrem)
  · rintro (hrem | hrem)
    · exact (hleft (inner_of_mem_removed hrem)).mpr hrem
    · exact (hright (inner_of_mem_removed hrem)).mpr hrem

theorem Splits.suppress_eq : suppress r spans = suppress b (suppress a spans) := by
  have hapart : ∀ c ∈ b.outer, c ∉ a.inner := fun c hcb hca =>
    r.disjoint c ((h.outer_right c).mpr hcb) ((h.inner c).mpr (.inl hca))
  rw [suppress_suppress_eq_filter hb hapart, suppress]
  apply List.filter_congr
  intro s hs
  simp [h.mem_removed_iff hr ha hb hs]

end Splits

/-- Under an exhaustive rule an inner span of any list is removed exactly if it is removed from a
list of it and the outer spans alone. So such a rule has nothing to do a second time, it can be
split by inner categories, and two of them can be exchanged if neither removes what is outer to the
other. -/
theorem exhaustive_independent :
    (∀ r : Rule, r.exhaustive = true → ∀ spans : List Span, ∀ s ∈ spans, s.category ∈ r.inner →
      ∀ alone : List Span, (∀ u, u ∈ alone ↔ u = s ∨ u ∈ spans ∧ u.category ∈ r.outer) →
        (s ∉ suppress r spans ↔ s ∉ suppress r alone)) ∧
      (∀ r : Rule, r.exhaustive = true → ∀ spans : List Span,
        suppress r (suppress r spans) = suppress r spans) ∧
      (∀ r a b : Rule, Splits r a b → r.exhaustive = true → a.exhaustive = true →
        b.exhaustive = true → ∀ spans : List Span,
          suppress r spans = suppress b (suppress a spans)) ∧
      ∀ p q : Rule, p.exhaustive = true → q.exhaustive = true → (∀ c ∈ p.outer, c ∉ q.inner) →
        (∀ c ∈ q.outer, c ∉ p.inner) → ∀ spans : List Span,
          suppress p (suppress q spans) = suppress q (suppress p spans) := by
  refine ⟨?_, fun r hr spans => suppress_idem hr spans, fun r a b h hr ha hb spans =>
    h.suppress_eq hr ha hb, fun p q hp hq hpq hqp spans => suppress_comm hp hq hpq hqp spans⟩
  intro r hr spans s hs hsc alone halone
  have hmem : s ∈ alone := (halone s).mpr (.inl rfl)
  have houter : ∀ o : Span, o.category ∈ r.outer → (o ∈ spans ↔ o ∈ alone) := by
    intro o ho
    rw [halone]
    refine ⟨fun hm => .inr ⟨hm, ho⟩, ?_⟩
    rintro (rfl | ⟨hm, -⟩)
    · exact hs
    · exact hm
  have hrem := mem_removed_congr hr hr (fun _ => Iff.rfl) hsc hsc hs hmem houter
  simp [mem_suppress, hs, hmem, hrem]

/-- An enumeration specifier, another one whose end comes before its beginning and so closes the
first, and two copies of a keyword and an identifier inside; only the keyword goes. Elsewhere a
string literal holds a character constant. -/
theorem exhaustive_independent_inverted :
    let r := Rule.make [.enumeration] [.keyword, .identifier] true
    let a := Rule.make [.enumeration] [.keyword] true
    let b := Rule.make [.enumeration] [.identifier] true
    let q := Rule.make [.string] [.character] true
    let spans : List Span := [⟨.identifier, 2, 6⟩, ⟨.enumeration, 8, 3⟩, ⟨.keyword, 1, 2⟩,
      ⟨.keyword, 1, 2⟩, ⟨.enumeration, 0, 9⟩, ⟨.character, 11, 12⟩, ⟨.string, 10, 14⟩]
    let left : List Span := [⟨.identifier, 2, 6⟩, ⟨.enumeration, 8, 3⟩, ⟨.enumeration, 0, 9⟩,
      ⟨.character, 11, 12⟩, ⟨.string, 10, 14⟩]
    suppress r spans = left ∧
      (⟨.keyword, 1, 2⟩ : Span) ∉
        suppress r [⟨.keyword, 1, 2⟩, ⟨.enumeration, 8, 3⟩, ⟨.enumeration, 0, 9⟩] ∧
      suppress r left = left ∧
      suppress b (suppress a spans) = left ∧
      suppress r (suppress q spans) = suppress q left := by
  intro r a b q spans left
  have hleft : suppress r spans = left := by decide
  have halone := exhaustive_independent.1 r rfl spans ⟨.keyword, 1, 2⟩ (by decide) (by decide)
    [⟨.keyword, 1, 2⟩, ⟨.enumeration, 8, 3⟩, ⟨.enumeration, 0, 9⟩]
    (fun u => by simp [spans, r, Rule.make]; grind)
  have hagain := exhaustive_independent.2.1 r rfl spans
  have hsplit := exhaustive_independent.2.2.1 r a b
    ⟨fun _ => Iff.rfl, fun _ => Iff.rfl, by simp [r, a, b, Rule.make]⟩ rfl rfl rfl spans
  have hswap := exhaustive_independent.2.2.2 r q rfl rfl (by decide) (by decide) spans
  rw [hleft] at halone hagain hsplit hswap
  exact ⟨hleft, halone.mp (by decide), hagain, hsplit.symm, hswap⟩

end Lexeme.Suppression
