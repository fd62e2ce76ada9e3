import Lexeme.Proofs.Repair
import Lexeme.Proofs.Stream
import Lexeme.Proofs.Stripping

/-! Nested spans. In document order a span is followed by those inside it and then by those behind
it, and the markers of the ones inside stand between its own two. Main statements: spans of which
each is over or encloses the later ones nest, and a text woven with their markers comes apart into
what stands before, inside and behind the first of them. -/

namespace Lexeme

variable {lo hi : Int} {s u : Span} {spans inside behind : List Span}

/-! ### Nesting -/

namespace Span

/-- Spans between two places, in document order: the first one is followed by smaller ones inside it
and then by those behind it. -/
inductive Nested : Int → Int → List Span → Prop
  | nil {lo hi : Int} : lo ≤ hi → Nested lo hi []
  | cons {lo hi : Int} {s : Span} {inside behind : List Span} :
      lo ≤ s.start → s.start < s.stop → (∀ u ∈ inside, ¬ s.SameExtent u) →
        Nested s.start s.stop inside → Nested s.stop hi behind →
          Nested lo hi (s :: (inside ++ behind))

theorem Nested.le (h : Nested lo hi spans) : lo ≤ hi := by
  induction h with
  | nil hle => exact hle
  | cons hlo hs _ _ _ _ ih => omega

theorem Nested.bounds (h : Nested lo hi spans) (hu : u ∈ spans) :
    lo ≤ u.start ∧ u.start < u.stop ∧ u.stop ≤ hi := by
  induction h with
  | nil => cases hu
  | cons hlo hs _ _ hbehind ihin ih =>
    have hle := hbehind.le
    rcases List.mem_cons.mp hu with rfl | hu
    · exact ⟨hlo, hs, hle⟩
    · rcases List.mem_append.mp hu with hu | hu
      · have := ihin hu
        omega
      · have := ih hu
        omega

/-- Of sorted spans those are left that begin at the place or behind it. -/
theorem le_start_of_mem_dropWhile {k : Int} (h : spans.Pairwise Precedes)
    (hu : u ∈ spans.dropWhile (·.start < k)) : k ≤ u.start := by
  induction spans with
  | nil => cases hu
  | cons s rest ih =>
    obtain ⟨hs, hrest⟩ := List.pairwise_cons.mp h
    rw [List.dropWhile_cons] at hu
    split at hu
    · exact ih hrest hu
    · rename_i hk
      have hle : k ≤ s.start := by simpa using hk
      rcases List.mem_cons.mp hu with rfl | hu
      · exact hle
      · exact Int.le_trans hle (Repair.start_le_of_precedes (hs u hu))

/-- Spans in document order nest if each is over or encloses the later ones. -/
theorem nested_of_endsOrEncloses (hsorted : spans.Pairwise Precedes)
    (hlaminar : spans.Pairwise Repair.EndsOrEncloses) (hle : lo ≤ hi)
    (hbounds : ∀ u ∈ spans, lo ≤ u.start ∧ u.start < u.stop ∧ u.stop ≤ hi) :
    Nested lo hi spans := by
  induction hn : spans.length using Nat.strong_induction_on generalizing spans lo hi with
  | _ n ih =>
    cases spans with
    | nil => exact .nil hle
    | cons s rest =>
      obtain ⟨hlo, hs, hhi⟩ := hbounds s List.mem_cons_self
      obtain ⟨-, hsorted⟩ := List.pairwise_cons.mp hsorted
      obtain ⟨hfirst, hlaminar⟩ := List.pairwise_cons.mp hlaminar
      -- what begins before `s` ends is inside it, and document order puts it first
      have hinside : (rest.takeWhile (·.start < s.stop)).Sublist rest := List.takeWhile_sublist _
      have hbehind : (rest.dropWhile (·.start < s.stop)).Sublist rest := List.dropWhile_sublist _
      have hwithin : ∀ u ∈ rest.takeWhile (·.start < s.stop), s.Contains u ∧ ¬ s.SameExtent u := by
        intro u hu
        have hlt : u.start < s.stop := by simpa using List.mem_takeWhile_imp hu
        exact (hfirst u (hinside.mem hu)).resolve_left (by omega)
      rw [← List.takeWhile_append_dropWhile (p := fun u : Span => decide (u.start < s.stop))
        (l := rest)]
      have hlen : rest.length < n := by simp [← hn]
      refine .cons hlo hs (fun u hu => (hwithin u hu).2) ?_ ?_
      · refine ih _ (Nat.lt_of_le_of_lt hinside.length_le hlen) (hsorted.sublist hinside)
          (hlaminar.sublist hinside) (Int.le_of_lt hs) (fun u hu => ?_) rfl
        obtain ⟨hstart, hstop⟩ := (hwithin u hu).1
        exact ⟨hstart, (hbounds u (List.mem_cons_of_mem s (hinside.mem hu))).2.1, hstop⟩
      · refine ih _ (Nat.lt_of_le_of_lt hbehind.length_le hlen) (hsorted.sublist hbehind)
          (hlaminar.sublist hbehind) hhi (fun u hu => ?_) rfl
        have hrange := hbounds u (List.mem_cons_of_mem s (hbehind.mem hu))
        exact ⟨le_start_of_mem_dropWhile hsorted hu, hrange.2⟩

end Span

/-! ### Markers -/

namespace Marker

/-- The markers of the spans inside a span stand between its own, and those behind it after them. -/
theorem stream_nested (outer : List Category) (hs : s.start < s.stop)
    (hin : ∀ u ∈ inside, s.Contains u ∧ ¬ s.SameExtent u ∧ u.start < u.stop)
    (hbehind : ∀ u ∈ behind, s.stop ≤ u.start ∧ u.start < u.stop) :
    stream outer (s :: (inside ++ behind)) =
      ⟨s, .opening⟩ :: (stream outer inside ++ ⟨s, .closing⟩ :: stream outer behind) := by
  have hperm : (stream outer (s :: (inside ++ behind))).Perm
      (⟨s, .opening⟩ :: (stream outer inside ++ ⟨s, .closing⟩ :: stream outer behind)) := by
    have hpairs : pairs (s :: (inside ++ behind)) =
        ⟨s, .opening⟩ :: ⟨s, .closing⟩ :: (pairs inside ++ pairs behind) := by
      simp [pairs, List.flatMap_append]
    refine (stream_perm outer _).trans ?_
    rw [hpairs]
    refine ((List.Perm.append (stream_perm outer inside).symm
      (stream_perm outer behind).symm).cons _).cons _ |>.trans ?_
    exact List.perm_middle.symm.cons _
  refine hperm.eq_of_pairwise (fun _ _ _ _ => Precedes.antisymm) (stream_precedes outer _) ?_
  have hinside : ∀ m ∈ stream outer inside,
      Precedes outer ⟨s, .opening⟩ m ∧ Precedes outer m ⟨s, .closing⟩ := by
    rintro ⟨u, role⟩ hm
    obtain ⟨⟨hstart, hstop⟩, hsame, hu⟩ := hin u (mem_stream.mp hm)
    have hne : ¬ (s.start = u.start ∧ s.stop = u.stop) := hsame
    cases role
    · rw [precedes_opening_opening, precedes_opening_closing]
      omega
    · rw [precedes_opening_closing, precedes_closing_closing]
      omega
  have hafter : ∀ m ∈ stream outer behind, Precedes outer ⟨s, .closing⟩ m := by
    rintro ⟨u, role⟩ hm
    have hu := hbehind u (mem_stream.mp hm)
    cases role
    · rw [precedes_closing_opening]
      omega
    · rw [precedes_closing_closing]
      omega
  have hclose : Precedes outer ⟨s, .opening⟩ ⟨s, .closing⟩ := precedes_opening_closing.mpr hs
  rw [List.pairwise_cons, List.pairwise_append, List.pairwise_cons]
  refine ⟨fun m hm => ?_, stream_precedes outer inside,
    ⟨hafter, stream_precedes outer behind⟩, fun m hm m' hm' => ?_⟩
  · rcases List.mem_append.mp hm with hm | hm
    · exact (hinside m hm).1
    · rcases List.mem_cons.mp hm with rfl | hm
      · exact hclose
      · exact hclose.trans (hafter m hm)
  · rcases List.mem_cons.mp hm' with rfl | hm'
    · exact (hinside m hm).2
    · exact (hinside m hm).2.trans (hafter m' hm')

end Marker

theorem Span.Nested.offset_bounds {m : Marker} (h : Span.Nested lo hi spans)
    (hm : m ∈ Marker.stream [] spans) : lo ≤ m.offset ∧ m.offset ≤ hi := by
  obtain ⟨u, role⟩ := m
  have hu : lo ≤ u.start ∧ u.start < u.stop ∧ u.stop ≤ hi := h.bounds (Marker.mem_stream.mp hm)
  cases role <;> simp only [Marker.offset] <;> omega

/-! ### Woven texts -/

namespace Markup

open Marker (stream signOf)

variable {cs : List Char}

/-- The characters from one place up to another. -/
def between (cs : List Char) (i j : Int) : List Char := (cs.drop i.toNat).take (j - i).toNat

theorem length_between {i j : Int} (hi : 0 ≤ i) (hij : i ≤ j) (hj : j ≤ cs.length) :
    ((between cs i j).length : Int) = j - i := by
  rw [between, List.length_take, List.length_drop]
  omega

theorem between_append {i j k : Int} (hi : 0 ≤ i) (hij : i ≤ j) (hjk : j ≤ k) :
    between cs i j ++ between cs j k = between cs i k := by
  have hdrop : cs.drop j.toNat = (cs.drop i.toNat).drop (j - i).toNat := by
    rw [List.drop_drop]
    congr 1
    omega
  rw [between, between, between, hdrop, ← List.take_add]
  congr 1
  omega

theorem mem_of_mem_between {c : Char} {i j : Int} (h : c ∈ between cs i j) : c ∈ cs :=
  List.mem_of_mem_drop (List.mem_of_mem_take h)

/-- A marker at the place of the first character is laid before it. -/
theorem weave_cons {m : Marker} {pos : Int} (h : m.offset = pos) (ds : List Char)
    (ms : List Marker) : weave pos ds (m :: ms) = m.sign :: weave pos ds ms := by
  simp [weave, h]

/-- A text woven with nested spans comes apart at the first of them: the text before it, a sign,
what is inside, a sign, and what is behind. -/
theorem weave_nested (hlo : 0 ≤ lo) (hhi : hi ≤ cs.length) (hs : lo ≤ s.start)
    (hlt : s.start < s.stop) (hsame : ∀ u ∈ inside, ¬ s.SameExtent u)
    (hin : Span.Nested s.start s.stop inside) (hbehind : Span.Nested s.stop hi behind) :
    weave lo (between cs lo hi) (stream [] (s :: (inside ++ behind))) =
      between cs lo s.start ++ signOf s.category .opening ::
        (weave s.start (between cs s.start s.stop) (stream [] inside) ++
          signOf s.category .closing ::
            weave s.stop (between cs s.stop hi) (stream [] behind)) := by
  have hle := hbehind.le
  have hstream : stream [] (s :: (inside ++ behind)) =
      ⟨s, .opening⟩ :: (stream [] inside ++ ⟨s, .closing⟩ :: stream [] behind) := by
    refine Marker.stream_nested [] hlt (fun u hu => ?_) fun u hu => ?_
    · obtain ⟨hstart, hproper, hstop⟩ := hin.bounds hu
      exact ⟨⟨hstart, hstop⟩, hsame u hu, hproper⟩
    · obtain ⟨hstart, hproper, -⟩ := hbehind.bounds hu
      exact ⟨hstart, hproper⟩
  have hopen : Marker.offset ⟨s, .opening⟩ = s.start := rfl
  have hclose : Marker.offset ⟨s, .closing⟩ = s.stop := rfl
  have hfirst : lo + ((between cs lo s.start).length : Int) = s.start := by
    rw [length_between hlo hs (by omega)]
    omega
  have hsecond : s.start + ((between cs s.start s.stop).length : Int) = s.stop := by
    rw [length_between (by omega) (Int.le_of_lt hlt) (by omega)]
    omega
  have hinside : ∀ m ∈ stream [] inside,
      m.offset ≤ s.start + ((between cs s.start s.stop).length : Int) := by
    intro m hm
    rw [hsecond]
    exact (hin.offset_bounds hm).2
  have hafter : ∀ m ∈ (⟨s, .closing⟩ :: stream [] behind : List Marker),
      s.start + ((between cs s.start s.stop).length : Int) ≤ m.offset := by
    rw [hsecond]
    exact List.forall_mem_cons.mpr ⟨Int.le_refl _, fun m hm => (hbehind.offset_bounds hm).1⟩
  have hall : ∀ m ∈ (⟨s, .opening⟩ :: (stream [] inside ++ ⟨s, .closing⟩ :: stream [] behind) :
      List Marker), lo + ((between cs lo s.start).length : Int) ≤ m.offset := by
    rw [hfirst]
    refine List.forall_mem_cons.mpr ⟨Int.le_refl _, fun m hm => ?_⟩
    rcases List.mem_append.mp hm with hm | hm
    · exact (hin.offset_bounds hm).1
    · have := hafter m hm
      omega
  rw [hstream, ← between_append hlo hs (Int.le_trans (Int.le_of_lt hlt) hle),
    weave_of_behind lo hall, hfirst, weave_cons hopen,
    ← between_append (Int.le_trans hlo hs) (Int.le_of_lt hlt) hle,
    weave_append s.start hinside hafter, hsecond, weave_cons hclose]
  rfl

end Markup

end Lexeme
