import Lexeme.Repair
import Lexeme.Proofs.Span
import Mathlib.Data.List.TakeWhile

/-! What a repair keeps. Of two kept spans the first is over or encloses the second, a span is
dropped only for a kept one in its way, and spans that share no character are all kept. -/

namespace Lexeme.Repair

open Lexeme.Span (Precedes)

variable {stack spans rest : List Span} {s b : Span}

/-! ### One visit -/

/-- The innermost open span is in the way of `s`. -/
def Blocked (stack : List Span) (s : Span) : Prop :=
  ∃ top ∈ (openAt stack s).head?, Conflicts top s

/-- A blocked span is passed over; any other span is kept and becomes the innermost one. -/
theorem visit_cons (stack : List Span) (s : Span) (rest : List Span) :
    Blocked stack s ∧ (visit stack (s :: rest)).kept = (visit (openAt stack s) rest).kept ∨
      ¬ Blocked stack s ∧
        (visit stack (s :: rest)).kept = s :: (visit (s :: openAt stack s) rest).kept := by
  rw [visit]
  unfold Blocked
  cases ho : openAt stack s with
  | nil =>
    refine .inr ⟨?_, rfl⟩
    rintro ⟨top, ht, -⟩
    cases ht
  | cons top below =>
    dsimp only
    by_cases hc : Conflicts top s
    · rw [if_pos hc]
      exact .inl ⟨⟨top, rfl, hc⟩, rfl⟩
    · rw [if_neg hc]
      refine .inr ⟨?_, rfl⟩
      rintro ⟨top', ht, hc'⟩
      cases ht
      exact hc hc'

/-- The stack holds nested spans, innermost first, and the spans to come follow in document
order. -/
structure Ready (stack spans : List Span) : Prop where
  nested : stack.Pairwise fun a b => b.Contains a
  before : ∀ b ∈ stack, ∀ s ∈ spans, b.Precedes s
  sorted : spans.Pairwise Precedes

theorem start_le_of_precedes (h : b.Precedes s) : b.start ≤ s.start := by
  rw [Span.precedes_iff] at h
  omega

theorem openAt_sublist (stack : List Span) (s : Span) : (openAt stack s).Sublist stack :=
  List.dropWhile_sublist _

/-- A span of the stack is still open or has ended. -/
theorem mem_openAt_or (hb : b ∈ stack) (s : Span) : b ∈ openAt stack s ∨ b.stop ≤ s.start := by
  rw [← List.takeWhile_append_dropWhile (p := fun x => decide (x.stop ≤ s.start)) (l := stack)]
    at hb
  rcases List.mem_append.mp hb with h | h
  · exact .inr (by simpa using List.mem_takeWhile_imp h)
  · exact .inl h

/-- The innermost open span has not ended. -/
theorem start_lt_of_head? {top : Span} (h : top ∈ (openAt stack s).head?) :
    s.start < top.stop := by
  have hhead := List.head?_dropWhile_not (fun x : Span => decide (x.stop ≤ s.start)) stack
  rw [← openAt, h] at hhead
  simpa using hhead

theorem Ready.pass (h : Ready stack (s :: rest)) : Ready (openAt stack s) rest :=
  ⟨h.nested.sublist (openAt_sublist stack s),
    fun b hb u hu => h.before b ((openAt_sublist stack s).mem hb) u (List.mem_cons_of_mem s hu),
    (List.pairwise_cons.mp h.sorted).2⟩

/-- A span that is not blocked lies within every open span. -/
theorem Ready.contains_of_not_blocked (h : Ready stack (s :: rest)) (hs : ¬ Blocked stack s)
    (hb : b ∈ openAt stack s) : b.Contains s := by
  have hn := h.nested.sublist (openAt_sublist stack s)
  cases ho : openAt stack s with
  | nil =>
    rw [ho] at hb
    cases hb
  | cons top below =>
    rw [ho] at hb hn
    have hle : s.stop ≤ top.stop := by
      refine Int.not_lt.mp fun hlt => hs ⟨top, ?_, .inl hlt⟩
      rw [ho]
      rfl
    have hmem : top ∈ stack := (openAt_sublist stack s).mem (by rw [ho]; exact List.mem_cons_self)
    have htop : top.Contains s :=
      ⟨start_le_of_precedes (h.before top hmem s List.mem_cons_self), hle⟩
    rcases List.mem_cons.mp hb with rfl | hb
    · exact htop
    · exact ((List.pairwise_cons.mp hn).1 b hb).trans htop

/-- A span that is not blocked has not the extent of an open span: the innermost one lies between
the two and would have it as well. -/
theorem Ready.not_sameExtent_of_not_blocked (h : Ready stack (s :: rest)) (hs : ¬ Blocked stack s)
    (hb : b ∈ openAt stack s) : ¬ b.SameExtent s := by
  intro hsame
  have hn := h.nested.sublist (openAt_sublist stack s)
  cases ho : openAt stack s with
  | nil =>
    rw [ho] at hb
    cases hb
  | cons top below =>
    have htop : top.Contains s :=
      h.contains_of_not_blocked hs (by rw [ho]; exact List.mem_cons_self)
    rw [ho] at hb hn
    have hcont : b.Contains top := by
      rcases List.mem_cons.mp hb with rfl | hb
      · exact ⟨Int.le_refl _, Int.le_refl _⟩
      · exact (List.pairwise_cons.mp hn).1 b hb
    refine hs ⟨top, by rw [ho]; rfl, .inr ?_⟩
    have h1 := hsame.1
    have h2 := hsame.2
    have h3 := hcont.1
    have h4 := hcont.2
    have h5 := htop.1
    have h6 := htop.2
    constructor <;> omega

theorem Ready.push (h : Ready stack (s :: rest)) (hs : ¬ Blocked stack s) :
    Ready (s :: openAt stack s) rest := by
  refine ⟨?_, ?_, h.pass.sorted⟩
  · rw [List.pairwise_cons]
    exact ⟨fun b hb => h.contains_of_not_blocked hs hb, h.pass.nested⟩
  · intro b hb u hu
    rcases List.mem_cons.mp hb with rfl | hb
    · exact (List.pairwise_cons.mp h.sorted).1 u hu
    · exact h.pass.before b hb u hu

theorem ready_nil (h : spans.Pairwise Precedes) : Ready [] spans :=
  ⟨.nil, fun _ hb => absurd hb (List.not_mem_nil), h⟩

/-! ### A whole run -/

theorem not_crosses_of_contains (h : b.Contains s) : ¬ b.Crosses s := fun hc => hc.2.1 h

theorem not_crosses_of_stop_le (h : b.stop ≤ s.start) : ¬ b.Crosses s := by
  rintro ⟨⟨-, h2⟩, -⟩
  omega

/-- `a` is over where `b` begins, or `b` lies within it and is smaller. -/
def EndsOrEncloses (a b : Span) : Prop := a.stop ≤ b.start ∨ a.Contains b ∧ ¬ a.SameExtent b

theorem EndsOrEncloses.not_crosses (h : EndsOrEncloses b s) : ¬ b.Crosses s := by
  rcases h with h | ⟨h, -⟩
  · exact not_crosses_of_stop_le h
  · exact not_crosses_of_contains h

/-- Of the spans of the stack, what is kept sees each one over or around it. -/
theorem Ready.stack_endsOrEncloses (h : Ready stack spans) (hb : b ∈ stack) {k : Span}
    (hk : k ∈ (visit stack spans).kept) : EndsOrEncloses b k := by
  induction spans generalizing stack with
  | nil => cases hk
  | cons s rest ih =>
    rcases mem_openAt_or hb s with hopen | hle
    · rcases visit_cons stack s rest with ⟨-, he⟩ | ⟨hs, he⟩
      · rw [he] at hk
        exact ih h.pass hopen hk
      · rw [he] at hk
        rcases List.mem_cons.mp hk with rfl | hk
        · exact .inr ⟨h.contains_of_not_blocked hs hopen, h.not_sameExtent_of_not_blocked hs hopen⟩
        · exact ih (h.push hs) (List.mem_cons_of_mem s hopen) hk
    · -- what comes after `s` begins no earlier, so `b` is over there too
      left
      rcases List.mem_cons.mp ((visit_kept_sublist stack (s :: rest)).mem hk) with rfl | hk
      · exact hle
      · have := start_le_of_precedes ((List.pairwise_cons.mp h.sorted).1 k hk)
        omega

/-- Of two kept spans the first is over or encloses the second. -/
theorem Ready.kept_endsOrEncloses (h : Ready stack spans) :
    (visit stack spans).kept.Pairwise EndsOrEncloses := by
  induction spans generalizing stack with
  | nil => exact .nil
  | cons s rest ih =>
    rcases visit_cons stack s rest with ⟨-, he⟩ | ⟨hs, he⟩
    · rw [he]
      exact ih h.pass
    · rw [he, List.pairwise_cons]
      exact ⟨fun k hk => (h.push hs).stack_endsOrEncloses List.mem_cons_self hk, ih (h.push hs)⟩

/-- The span in the way of a blocked one crosses it or has its extent. -/
theorem Ready.exists_of_blocked (h : Ready stack (s :: rest)) (hs : Blocked stack s) :
    ∃ b ∈ stack, b.Crosses s ∨ b.SameExtent s := by
  obtain ⟨top, ht, hc⟩ := hs
  have hmem : top ∈ openAt stack s := List.mem_of_head? ht
  have hstop := start_lt_of_head? ht
  have hm := (openAt_sublist stack s).mem hmem
  have hp := (Span.precedes_iff).mp (h.before top hm s List.mem_cons_self)
  refine ⟨top, hm, ?_⟩
  rcases hc with hlt | hsame
  · left
    refine ⟨⟨by omega, hstop⟩, fun hcont => ?_, fun hcont => ?_⟩
    · have := hcont.2
      omega
    · have := hcont.1
      omega
  · exact .inr ⟨hsame.1.symm, hsame.2.symm⟩

/-- A span that is dropped crosses a kept one or has its extent. -/
theorem Ready.exists_of_not_kept (h : Ready stack spans) (hs : s ∈ spans)
    (hn : s ∉ (visit stack spans).kept) :
    ∃ k, (k ∈ stack ∨ k ∈ (visit stack spans).kept) ∧ (k.Crosses s ∨ k.SameExtent s) := by
  induction spans generalizing stack with
  | nil => cases hs
  | cons u rest ih =>
    rcases visit_cons stack u rest with ⟨hu, he⟩ | ⟨hu, he⟩
    · rw [he] at hn ⊢
      rcases List.mem_cons.mp hs with rfl | hs
      · obtain ⟨b, hb, hx⟩ := h.exists_of_blocked hu
        exact ⟨b, .inl hb, hx⟩
      · obtain ⟨k, hk, hx⟩ := ih h.pass hs hn
        exact ⟨k, hk.imp_left (openAt_sublist stack u).mem, hx⟩
    · rw [he] at hn ⊢
      rw [List.mem_cons, not_or] at hn
      obtain ⟨k, hk, hx⟩ := ih (h.push hu) ((List.mem_cons.mp hs).resolve_left hn.1) hn.2
      refine ⟨k, ?_, hx⟩
      rcases hk with hk | hk
      · rcases List.mem_cons.mp hk with rfl | hk
        · exact .inr List.mem_cons_self
        · exact .inl ((openAt_sublist stack u).mem hk)
      · exact .inr (List.mem_cons_of_mem u hk)

/-- A span that is enclosed by what is still open is not blocked. -/
theorem not_blocked (h : ∀ b ∈ stack, EndsOrEncloses b s) : ¬ Blocked stack s := by
  rintro ⟨top, htop, hconf⟩
  have hmem : top ∈ stack := (openAt_sublist stack s).mem (List.mem_of_head? htop)
  rcases h top hmem with hle | ⟨hcont, hsame⟩
  · have := start_lt_of_head? htop
    omega
  · rcases hconf with hlt | heq
    · have := hcont.2
      omega
    · exact hsame ⟨heq.1.symm, heq.2.symm⟩

/-- Spans of which each is over or encloses the later ones are all kept. -/
theorem visit_kept_eq_self (hstack : ∀ b ∈ stack, ∀ s ∈ spans, EndsOrEncloses b s)
    (hspans : spans.Pairwise EndsOrEncloses) : (visit stack spans).kept = spans := by
  induction spans generalizing stack with
  | nil => rfl
  | cons s rest ih =>
    rw [List.pairwise_cons] at hspans
    rcases visit_cons stack s rest with ⟨hs, -⟩ | ⟨-, he⟩
    · exact absurd hs (not_blocked fun b hb => hstack b hb s List.mem_cons_self)
    · rw [he, ih (fun b hb u hu => ?_) hspans.2]
      rcases List.mem_cons.mp hb with rfl | hb
      · exact hspans.1 u hu
      · exact hstack b ((openAt_sublist stack s).mem hb) u (List.mem_cons_of_mem s hu)

/-! ### Repairs -/

theorem run_kept_sublist (spans : List Span) : (run spans).kept.Sublist (Span.sort spans) :=
  visit_kept_sublist [] _

theorem run_kept_precedes (spans : List Span) : (run spans).kept.Pairwise Precedes :=
  (Span.sort_precedes spans).sublist (run_kept_sublist spans)

theorem mem_of_mem_kept (h : s ∈ (run spans).kept) : s ∈ spans :=
  Span.mem_sort.mp ((run_kept_sublist spans).mem h)

theorem run_kept_endsOrEncloses (spans : List Span) : (run spans).kept.Pairwise EndsOrEncloses :=
  (ready_nil (Span.sort_precedes spans)).kept_endsOrEncloses

theorem run_kept_not_crosses (spans : List Span) :
    (run spans).kept.Pairwise fun a b => ¬ a.Crosses b :=
  (run_kept_endsOrEncloses spans).imp EndsOrEncloses.not_crosses

/-- What a repair kept it keeps again. -/
theorem run_kept (spans : List Span) : run (run spans).kept = ⟨(run spans).kept, []⟩ := by
  have hkept : (run (run spans).kept).kept = (run spans).kept := by
    rw [run, Span.sort_eq_self (run_kept_precedes spans)]
    exact visit_kept_eq_self (fun _ hb => absurd hb List.not_mem_nil)
      (run_kept_endsOrEncloses spans)
  have hcount : (run (run spans).kept).dropped.length = 0 := by
    have hlen := visit_length [] (Span.sort (run spans).kept)
    rw [← run, hkept, Span.sort_eq_self (run_kept_precedes spans)] at hlen
    omega
  change (⟨(run (run spans).kept).kept, (run (run spans).kept).dropped⟩ : Repair) = _
  rw [hkept, List.length_eq_zero_iff.mp hcount]

theorem exists_of_not_mem_kept (hs : s ∈ spans) (hn : s ∉ (run spans).kept) :
    ∃ k ∈ (run spans).kept, k.Crosses s ∨ k.SameExtent s := by
  obtain ⟨k, hk, hx⟩ := (ready_nil (Span.sort_precedes spans)).exists_of_not_kept
    (Span.mem_sort.mpr hs) hn
  exact ⟨k, hk.resolve_left List.not_mem_nil, hx⟩

end Lexeme.Repair
