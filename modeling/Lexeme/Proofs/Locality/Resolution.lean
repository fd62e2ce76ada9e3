import Lexeme.Proofs.Locality.Spans
import Lexeme.Proofs.Resolution
import Mathlib.Data.List.Basic

/-! Rules and repair look at one part of a text at a time. A pass over the markers of a part ends
with nothing open and nothing pending, and the stack of the repair is empty again where the next
part begins. Main statements: spans on two sides of a place are resolved side by side, and moved
spans are resolved as they were before the move. -/

namespace Lexeme

open Lexeme.Span (Divided shift)
open Marker (stream)

/-! ### One rule -/

namespace Suppression

variable {r : Rule} {f : Span → Span} {n : Int} {xs ys spans : List Span}

/-- A memory in which spans have other names, places are `d` further and `gone` was removed
before. -/
def State.relabel (f : Span → Span) (d : Nat) (gone : List Span) (st : State) : State where
  opened := st.opened.map fun p => (p.1, p.2 + d)
  pending := st.pending.map fun p => (f p.1, p.2 + d)
  removed := st.removed.map f ++ gone

theorem lookup_map_prod {α β : Type} [DecidableEq α] [DecidableEq β] {g : α → β}
    (hg : Function.Injective g) (d : Nat) (l : List (α × Nat)) (a : α) :
    (l.map fun p => (g p.1, p.2 + d)).lookup (g a) = (l.lookup a).map (· + d) := by
  induction l with
  | nil => rfl
  | cons p l ih =>
    obtain ⟨b, j⟩ := p
    have hgb : (g a == g b) = (a == b) := by simp [hg.eq_iff]
    rw [List.map_cons, List.lookup_cons, List.lookup_cons, hgb]
    cases a == b with
    | true => rfl
    | false => exact ih

section Relabel

variable (hf : Function.Injective f) (hcat : ∀ s, (f s).category = s.category)
include hf hcat

/-- A marker does to a relabelled memory what it does to the memory itself. -/
theorem step_relabel (r : Rule) (d : Nat) (gone : List Span) (st : State) (i : Nat) (m : Marker) :
    step r (st.relabel f d gone) (i + d) (m.relabel f) = (step r st i m).relabel f d gone := by
  obtain ⟨s, role⟩ := m
  have hopened := lookup_map_prod (g := id) Function.injective_id d st.opened s.category
  have hpending := lookup_map_prod hf d st.pending s
  have hinj : ∀ u, f u = f s ↔ u = s := fun u => hf.eq_iff
  unfold step
  simp only [Marker.relabel, hcat]
  split
  · cases role with
    | opening => simp [openOuter, State.relabel, List.filter_map, Function.comp_def]
    | closing =>
      simp only [closeOuter, State.relabel]
      simp only [id] at hopened
      rw [hopened]
      cases st.opened.lookup s.category with
      | none => rfl
      | some j => simp [List.filter_map, Function.comp_def]
  · cases role with
    | opening =>
      simp only [openInner, State.relabel, List.isEmpty_map]
      split
      · rfl
      · cases r.exhaustive <;> simp [List.filter_map, Function.comp_def, hinj]
    | closing =>
      simp only [closeInner, State.relabel]
      rw [hpending]
      cases st.pending.lookup s with
      | none => rfl
      | some j =>
        simp only [Option.map_some, List.any_map, List.filter_map, Function.comp_def, ne_eq, hinj,
          Nat.add_lt_add_iff_right]
        split <;> rfl

theorem scanFrom_relabel (r : Rule) (d : Nat) (gone : List Span) (st : State) (i : Nat)
    (ms : List Marker) :
    scanFrom r (st.relabel f d gone) (i + d) (ms.map (Marker.relabel f)) =
      (scanFrom r st i ms).relabel f d gone := by
  induction ms generalizing st i with
  | nil => rfl
  | cons m ms ih =>
    rw [List.map_cons, scanFrom, scanFrom, step_relabel hf hcat, Nat.add_right_comm]
    exact ih (step r st i m) (i + 1)

end Relabel

theorem scanFrom_append (r : Rule) (st : State) (i : Nat) (ms ms' : List Marker) :
    scanFrom r st i (ms ++ ms') = scanFrom r (scanFrom r st i ms) (i + ms.length) ms' := by
  induction ms generalizing st i with
  | nil => rfl
  | cons m ms ih =>
    rw [List.cons_append, scanFrom, scanFrom, ih, List.length_cons]
    rw [show i + (ms.length + 1) = i + 1 + ms.length by omega]

/-- The spans that a rule looks at. -/
def relevant (r : Rule) (spans : List Span) : List Span :=
  spans.filter fun s => s.category ∈ r.outer ∨ s.category ∈ r.inner

/-- After all markers of a list nothing is open and nothing is followed any more. -/
theorem scan_clean (r : Rule) (h : ∀ s ∈ spans, s.start < s.stop) :
    scanFrom r .start 0 (stream r.outer spans) =
      ⟨[], [], (scanFrom r .start 0 (stream r.outer spans)).removed⟩ := by
  have htrack := (tracks_start r (stream r.outer spans)).scanFrom
  rw [Nat.zero_max, List.drop_zero] at htrack
  have hlater : ∀ {s : Span} {i : Nat}, (stream r.outer spans)[i]? = some ⟨s, .opening⟩ →
      ∃ k, i < k ∧ k < (stream r.outer spans).length ∧
        (stream r.outer spans)[k]? = some ⟨s, .closing⟩ := by
    intro s i hi
    obtain ⟨k, hk⟩ := Marker.exists_index r.outer (Marker.mem_of_index hi) .closing
    exact ⟨k, opening_lt_closing h hi hk, (List.getElem?_eq_some_iff.mp hk).1, hk⟩
  have hopened : (scanFrom r .start 0 (stream r.outer spans)).opened = [] := by
    rw [List.eq_nil_iff_forall_not_mem]
    rintro ⟨c, i⟩ hmem
    have hopen := (htrack.opened c i).mp hmem
    obtain ⟨o, hc, hi⟩ := hopen.opening
    obtain ⟨k, hik, hk, hclose⟩ := hlater hi
    exact hopen.last k hik hk _ hclose hc
  have hpending : (scanFrom r .start 0 (stream r.outer spans)).pending = [] := by
    rw [List.eq_nil_iff_forall_not_mem]
    rintro ⟨s, i⟩ hmem
    have hpend := (htrack.pending s i).mp hmem
    obtain ⟨k, hik, hk, hclose⟩ := hlater hpend.opening
    exact hpend.unclosed k hik hk hclose
  rw [← hopened, ← hpending]

theorem removed_append (r : Rule) (h : Divided n xs ys) :
    removed r (xs ++ ys) = removed r ys ++ removed r xs := by
  have hdiv : Divided n (relevant r xs) (relevant r ys) :=
    h.mono List.filter_sublist.subset List.filter_sublist.subset
  change (scanFrom r .start 0 (stream r.outer (relevant r (xs ++ ys)))).removed = _
  rw [show relevant r (xs ++ ys) = relevant r xs ++ relevant r ys from List.filter_append ..,
    Marker.stream_append r.outer hdiv, scanFrom_append,
    scan_clean r fun s hs => (hdiv.left s hs).1]
  have hright := scanFrom_relabel (f := id) Function.injective_id (fun _ => rfl) r
    (stream r.outer (relevant r xs)).length (removed r xs) .start 0
    (stream r.outer (relevant r ys))
  have hid : (stream r.outer (relevant r ys)).map (Marker.relabel id) =
      stream r.outer (relevant r ys) := List.map_id _
  rw [hid] at hright
  have hremoved := congrArg State.removed hright
  simp only [State.relabel, List.map_id] at hremoved
  exact hremoved

theorem removed_shift (r : Rule) (k : Int) (spans : List Span) :
    removed r (spans.map (shift k)) = (removed r spans).map (shift k) := by
  have hrel : relevant r (spans.map (shift k)) = (relevant r spans).map (shift k) := by
    unfold relevant
    rw [List.filter_map]
    rfl
  have hscan := scanFrom_relabel (Span.shift_injective k) (fun _ => rfl) r 0 [] .start 0
    (stream r.outer (relevant r spans))
  have hremoved := congrArg State.removed hscan
  simp only [State.relabel, List.append_nil] at hremoved
  change (scanFrom r .start 0 (stream r.outer (relevant r (spans.map (shift k))))).removed = _
  rw [hrel, Marker.stream_shift]
  exact hremoved

theorem suppress_append (r : Rule) (h : Divided n xs ys) :
    suppress r (xs ++ ys) = suppress r xs ++ suppress r ys := by
  have hleft : ∀ s ∈ removed r xs, s ∈ xs := fun s hs =>
    (exists_outer_of_mem_removed (fun u hu => (h.left u hu).1) hs).1
  have hright : ∀ s ∈ removed r ys, s ∈ ys := fun s hs =>
    (exists_outer_of_mem_removed (fun u hu => (h.right u hu).2) hs).1
  unfold suppress
  rw [removed_append r h, List.filter_append]
  congr 1
  · apply List.filter_congr
    intro s hs
    have hnot : s ∉ removed r ys := fun hm => h.not_mem_right hs (hright s hm)
    simp [hnot]
  · apply List.filter_congr
    intro s hs
    have hnot : s ∉ removed r xs := fun hm => h.not_mem_right (hleft s hm) hs
    simp [hnot]

theorem suppress_shift (r : Rule) (k : Int) (spans : List Span) :
    suppress r (spans.map (shift k)) = (suppress r spans).map (shift k) := by
  unfold suppress
  rw [removed_shift, List.filter_map]
  congr 1
  apply List.filter_congr
  intro s _
  have hmem : s.shift k ∈ (removed r spans).map (shift k) ↔ s ∈ removed r spans :=
    List.mem_map_of_injective (Span.shift_injective k)
  simp only [Function.comp_apply, List.contains_eq_mem, hmem]

end Suppression

/-! ### Repair -/

namespace Repair

variable {n : Int} {stack xs ys : List Span}

theorem openAt_shift (k : Int) (stack : List Span) (s : Span) :
    openAt (stack.map (shift k)) (s.shift k) = (openAt stack s).map (shift k) := by
  simp [openAt, List.dropWhile_map, Function.comp_def]

theorem visit_shift (k : Int) (stack spans : List Span) :
    (visit (stack.map (shift k)) (spans.map (shift k))).kept =
      (visit stack spans).kept.map (shift k) := by
  induction spans generalizing stack with
  | nil => rfl
  | cons s rest ih =>
    rw [List.map_cons, visit, visit, openAt_shift]
    cases openAt stack s with
    | nil => simpa using ih [s]
    | cons top below =>
      have hconf : Conflicts (top.shift k) (s.shift k) ↔ Conflicts top s := by
        simp [Conflicts, Span.SameExtent]
      simp only [List.map_cons, hconf]
      split
      · exact ih (top :: below)
      · simpa using ih (s :: top :: below)

/-- A stack that is over where the spans begin is the same as none. -/
theorem visit_of_over (hstack : ∀ b ∈ stack, b.stop ≤ n) (hy : ∀ s ∈ ys, n ≤ s.start) :
    visit stack ys = visit [] ys := by
  cases ys with
  | nil => rfl
  | cons s rest =>
    have hopen : openAt stack s = [] := by
      rw [openAt, List.dropWhile_eq_nil_iff]
      intro b hb
      have h1 := hstack b hb
      have h2 := hy s List.mem_cons_self
      simpa using Int.le_trans h1 h2
    rw [visit, visit, hopen]
    rfl

theorem visit_append (hstack : ∀ b ∈ stack, b.stop ≤ n) (hx : ∀ s ∈ xs, s.stop ≤ n)
    (hy : ∀ s ∈ ys, n ≤ s.start) :
    (visit stack (xs ++ ys)).kept = (visit stack xs).kept ++ (visit [] ys).kept := by
  induction xs generalizing stack with
  | nil =>
    rw [List.nil_append, visit_of_over hstack hy]
    rfl
  | cons s rest ih =>
    have hs := hx s List.mem_cons_self
    have hrest : ∀ u ∈ rest, u.stop ≤ n := fun u hu => hx u (List.mem_cons_of_mem s hu)
    have hopen : ∀ b ∈ openAt stack s, b.stop ≤ n :=
      fun b hb => hstack b ((openAt_sublist stack s).mem hb)
    rw [List.cons_append, visit, visit]
    cases ho : openAt stack s with
    | nil =>
      have hkept := ih (show ∀ b ∈ [s], b.stop ≤ n by simpa using hs) hrest
      simp [hkept]
    | cons top below =>
      rw [ho] at hopen
      dsimp only
      split
      · exact ih hopen hrest
      · have hpush : ∀ b ∈ s :: top :: below, b.stop ≤ n := by
          intro b hb
          rcases List.mem_cons.mp hb with rfl | hb
          · exact hs
          · exact hopen b hb
        have hkept := ih hpush hrest
        simp [hkept]

theorem run_shift (k : Int) (spans : List Span) :
    (run (spans.map (shift k))).kept = (run spans).kept.map (shift k) := by
  rw [run, run, Span.sort_shift]
  exact visit_shift k [] _

theorem run_append (h : Divided n xs ys) :
    (run (xs ++ ys)).kept = (run xs).kept ++ (run ys).kept := by
  rw [run, run, run, h.sort_append]
  apply visit_append (n := n) (by simp)
  · exact fun s hs => (h.left s (Span.mem_sort.mp hs)).2
  · exact fun s hs => (h.right s (Span.mem_sort.mp hs)).1

end Repair

/-! ### Tables -/

namespace Resolution

variable {n : Int} {xs ys : List Span}

theorem left_shift (rules : List Rule) (k : Int) (spans : List Span) :
    left rules (spans.map (shift k)) = (left rules spans).map (shift k) := by
  induction rules generalizing spans with
  | nil => rfl
  | cons r rules ih => rw [left_cons, left_cons, Suppression.suppress_shift, ih]

theorem left_divided (rules : List Rule) (h : Divided n xs ys) :
    left rules (xs ++ ys) = left rules xs ++ left rules ys := by
  induction rules generalizing xs ys with
  | nil => rfl
  | cons r rules ih =>
    rw [left_cons, left_cons, left_cons, Suppression.suppress_append r h]
    exact ih (h.mono (Suppression.suppress_sublist r xs).subset
      (Suppression.suppress_sublist r ys).subset)

theorem resolve_shift (rules : List Rule) (repair : Bool) (k : Int) (spans : List Span) :
    (resolve rules repair (spans.map (shift k))).spans =
      (resolve rules repair spans).spans.map (shift k) := by
  rw [resolve_spans, resolve_spans, left_shift]
  split
  · exact Repair.run_shift k _
  · rfl

theorem resolve_append (rules : List Rule) (repair : Bool) (h : Divided n xs ys) :
    (resolve rules repair (xs ++ ys)).spans =
      (resolve rules repair xs).spans ++ (resolve rules repair ys).spans := by
  rw [resolve_spans, resolve_spans, resolve_spans, left_divided rules h]
  split
  · exact Repair.run_append (h.mono (left_sublist rules xs).subset (left_sublist rules ys).subset)
  · rfl

theorem resolve_subset (rules : List Rule) (repair : Bool) (spans : List Span) :
    (resolve rules repair spans).spans ⊆ spans :=
  fun _ hs => (left_sublist rules spans).mem (resolve_subset_left rules repair spans hs)

end Resolution

end Lexeme
