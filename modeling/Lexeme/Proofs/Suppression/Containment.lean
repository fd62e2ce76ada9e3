import Lexeme.Proofs.Stream
import Lexeme.Proofs.Suppression.Trace

/-! What a rule removes from a tidy list of spans, said without a scan. An inner span is removed if
it lies within an outer span, unless another outer span begins before it and ends inside it: the end
of that span makes the pass forget what began inside. Main statement: this is all that is removed.
-/

namespace Lexeme.Suppression

open Marker (stream)

/-- `o` begins before `s` and ends inside it. -/
def Interrupts (o s : Span) : Prop := o.start < s.start ∧ s.start < o.stop ∧ o.stop < s.stop

instance (o s : Span) : Decidable (Interrupts o s) := inferInstanceAs (Decidable (_ ∧ _))

/-- No two spans that the rule follows at one time take each other's place. -/
def FollowsEach (r : Rule) : Prop :=
  r.exhaustive = true ∨ ∀ c ∈ r.inner, ∀ d ∈ r.inner, c = d

instance (r : Rule) : Decidable (FollowsEach r) := inferInstanceAs (Decidable (_ ∨ _))

/-- The rule has one outer category. -/
def SingleOuter (r : Rule) : Prop := ∀ c ∈ r.outer, ∀ d ∈ r.outer, c = d

instance (r : Rule) : Decidable (SingleOuter r) :=
  inferInstanceAs (Decidable (∀ c ∈ r.outer, ∀ d ∈ r.outer, c = d))

variable {r : Rule} {spans : List Span} {n i k : Nat} {s o : Span}

/-! ### Places in the stream of a tidy list -/

theorem opening_lt_closing (h : ∀ s ∈ spans, s.start < s.stop)
    (hi : (stream r.outer spans)[i]? = some ⟨s, .opening⟩)
    (hk : (stream r.outer spans)[k]? = some ⟨s, .closing⟩) : i < k := by
  rw [Marker.index_lt_iff hi hk (by simp), Marker.precedes_opening_closing]
  exact h s (Marker.mem_of_index hi)

/-- A marker between the two ends of a span belongs to a span that shares a character with it. -/
theorem overlaps_of_between (h : Span.Tidy spans) {u : Span} {role : Role} {j : Nat}
    (hi : (stream r.outer spans)[i]? = some ⟨o, .opening⟩)
    (hk : (stream r.outer spans)[k]? = some ⟨o, .closing⟩)
    (hj : (stream r.outer spans)[j]? = some ⟨u, role⟩) (hij : i < j) (hjk : j < k) :
    o.Overlaps u := by
  have hu : u.start < u.stop := h.proper u (Marker.mem_of_index hj)
  have h1 := Marker.precedes_of_lt hi hj hij
  have h2 := Marker.precedes_of_lt hj hk hjk
  cases role with
  | opening =>
    rw [Marker.precedes_opening_opening] at h1
    rw [Marker.precedes_opening_closing] at h2
    constructor <;> omega
  | closing =>
    rw [Marker.precedes_opening_closing] at h1
    rw [Marker.precedes_closing_closing] at h2
    constructor <;> omega

/-- In the stream of a tidy list an outer span is open between its two ends. -/
theorem openAt_iff (h : Span.Tidy spans) {c : Category} :
    OpenAt r (stream r.outer spans) n c i ↔
      c ∈ r.outer ∧ i < n ∧ ∃ o k, o.category = c ∧
        (stream r.outer spans)[i]? = some ⟨o, .opening⟩ ∧
        (stream r.outer spans)[k]? = some ⟨o, .closing⟩ ∧ n ≤ k := by
  constructor
  · rintro ⟨h1, h2, ⟨o, hc, hi⟩, h4⟩
    obtain ⟨k, hk⟩ := Marker.exists_index r.outer (Marker.mem_of_index hi) .closing
    have hik := opening_lt_closing h.proper hi hk
    refine ⟨h1, h2, o, k, hc, hi, hk, ?_⟩
    rcases Nat.lt_or_ge k n with hkn | hkn
    · exact absurd hc (h4 k hik hkn _ hk)
    · exact hkn
  · rintro ⟨h1, h2, o, k, hc, hi, hk, hnk⟩
    refine ⟨h1, h2, ⟨o, hc, hi⟩, ?_⟩
    rintro j hij hjn ⟨u, role⟩ hj hu
    have ho := overlaps_of_between h hi hk hj hij (by omega)
    have hou : o = u := h.eq_of_overlaps (Marker.mem_of_index hi) (Marker.mem_of_index hj)
      (hc.trans hu.symm) ho
    subst hou
    cases role with
    | opening =>
      have := Marker.index_unique h.nodup hi hj
      omega
    | closing =>
      have := Marker.index_unique h.nodup hk hj
      omega

/-! ### Removal by containment -/

/-- What is removed lies within an outer span, whether or not spans of one category overlap. -/
theorem exists_outer_of_removedAt (h : ∀ s ∈ spans, s.start < s.stop)
    (hs : RemovedAt r (stream r.outer spans) n s) :
    s ∈ spans ∧ s.category ∉ r.outer ∧ ∃ o ∈ spans, o.category ∈ r.outer ∧ o.Contains s := by
  obtain ⟨k, i, -, hk, hp, c, j, ⟨hc, hjk, ⟨o, rfl, hj⟩, hlast⟩, hji⟩ := hs
  have ho : o ∈ spans := Marker.mem_of_index hj
  obtain ⟨b, hb⟩ := Marker.exists_index r.outer ho .closing
  have hjb := opening_lt_closing h hj hb
  have hkb : k < b := by
    rcases Nat.lt_trichotomy k b with hlt | rfl | hlt
    · exact hlt
    · rw [hk] at hb
      cases hb
      exact absurd hc hp.inner
    · exact absurd rfl (hlast b hjb hlt _ hb)
  refine ⟨Marker.mem_of_index hk, hp.inner, o, ho, hc, ?_⟩
  have h1 := Marker.precedes_of_lt hj hp.opening hji
  have h2 := Marker.precedes_of_lt hk hb hkb
  rw [Marker.precedes_opening_opening] at h1
  rw [Marker.precedes_closing_closing] at h2
  constructor <;> omega

/-- An outer span around an inner one opens before it. -/
theorem opening_lt_opening {j : Nat} (hoc : o.category ∈ r.outer) (hsc : s.category ∉ r.outer)
    (hj : (stream r.outer spans)[j]? = some ⟨o, .opening⟩)
    (hi : (stream r.outer spans)[i]? = some ⟨s, .opening⟩) (hc : o.Contains s) : j < i := by
  have hne : o ≠ s := by
    rintro rfl
    exact hsc hoc
  rw [Marker.index_lt_iff hj hi (by simpa using hne), Marker.precedes_opening_opening]
  obtain ⟨h1, h2⟩ := hc
  rcases Int.lt_or_eq_of_le h1 with h1 | h1
  · exact .inl h1
  · rcases Int.lt_or_eq_of_le h2 with h2 | h2
    · exact .inr ⟨h1, .inl h2⟩
    · exact .inr ⟨h1, .inr ⟨h2.symm, .inl ⟨hoc, hsc⟩⟩⟩

/-- An outer span around an inner one closes after it. -/
theorem closing_lt_closing {j : Nat} (hoc : o.category ∈ r.outer) (hsc : s.category ∉ r.outer)
    (hk : (stream r.outer spans)[k]? = some ⟨s, .closing⟩)
    (hj : (stream r.outer spans)[j]? = some ⟨o, .closing⟩) (hc : o.Contains s) : k < j := by
  have hne : s ≠ o := by
    rintro rfl
    exact hsc hoc
  rw [Marker.index_lt_iff hk hj (by simpa using hne), Marker.precedes_closing_closing]
  obtain ⟨h1, h2⟩ := hc
  rcases Int.lt_or_eq_of_le h2 with h2 | h2
  · exact .inl h2
  · rcases Int.lt_or_eq_of_le h1 with h1 | h1
    · exact .inr ⟨h2, .inl h1⟩
    · exact .inr ⟨h2, .inr ⟨h1.symm, .inl ⟨hsc, hoc⟩⟩⟩

/-- An outer span that opens before an inner one and closes while it is open interrupts it. -/
theorem interrupts_iff {a b : Nat} (hoc : o.category ∈ r.outer) (hsc : s.category ∉ r.outer)
    (ha : (stream r.outer spans)[a]? = some ⟨o, .opening⟩)
    (hb : (stream r.outer spans)[b]? = some ⟨o, .closing⟩)
    (hi : (stream r.outer spans)[i]? = some ⟨s, .opening⟩)
    (hk : (stream r.outer spans)[k]? = some ⟨s, .closing⟩) :
    Interrupts o s ↔ a < i ∧ i < b ∧ b < k := by
  have hne : o ≠ s := by
    rintro rfl
    exact hsc hoc
  rw [Marker.index_lt_iff ha hi (by simpa using hne), Marker.index_lt_iff hi hb (by simp),
    Marker.index_lt_iff hb hk (by simpa using hne), Marker.precedes_opening_opening,
    Marker.precedes_opening_closing, Marker.precedes_closing_closing]
  simp only [Interrupts, hoc, hsc, not_true, not_false_iff, iff_false, false_and, and_false,
    or_false, and_true]
  omega

/-- The pass over the stream of a tidy list removes an inner span if it lies within an outer one
and no outer one interrupts it. -/
theorem removedAt_iff (h : Span.Tidy spans) (hr : FollowsEach r)
    (hin : ∀ s ∈ spans, s.category ∉ r.outer → s.category ∈ r.inner) :
    RemovedAt r (stream r.outer spans) (stream r.outer spans).length s ↔
      s ∈ spans ∧ s.category ∉ r.outer ∧
        (∃ o ∈ spans, o.category ∈ r.outer ∧ o.Contains s) ∧
        ∀ o ∈ spans, o.category ∈ r.outer → ¬ Interrupts o s := by
  constructor
  · intro hs
    obtain ⟨hm, hsc, ho⟩ := exists_outer_of_removedAt h.proper hs
    obtain ⟨k, i, -, hk, hp, -⟩ := hs
    refine ⟨hm, hsc, ho, ?_⟩
    intro u hu huc hint
    obtain ⟨a, ha⟩ := Marker.exists_index r.outer hu .opening
    obtain ⟨b, hb⟩ := Marker.exists_index r.outer hu .closing
    obtain ⟨hai, hib, hbk⟩ := (interrupts_iff huc hp.inner ha hb hp.opening hk).mp hint
    have hopen : OpenAt r (stream r.outer spans) b u.category a :=
      (openAt_iff h).mpr ⟨huc, by omega, u, b, rfl, ha, hb, Nat.le_refl _⟩
    have := hp.uncrossed b u a hib hbk hb hopen
    omega
  · rintro ⟨hs, hsc, ⟨o, ho, hoc, hcont⟩, hint⟩
    obtain ⟨i, hi⟩ := Marker.exists_index r.outer hs .opening
    obtain ⟨k, hk⟩ := Marker.exists_index r.outer hs .closing
    obtain ⟨j, hj⟩ := Marker.exists_index r.outer ho .opening
    obtain ⟨b, hb⟩ := Marker.exists_index r.outer ho .closing
    have hji := opening_lt_opening hoc hsc hj hi hcont
    have hkb := closing_lt_closing hoc hsc hk hb hcont
    have hik := opening_lt_closing h.proper hi hk
    have hopen : ∀ n, j < n → n ≤ b → OpenAt r (stream r.outer spans) n o.category j :=
      fun n hjn hnb => (openAt_iff h).mpr ⟨hoc, hjn, o, b, rfl, hj, hb, hnb⟩
    refine ⟨k, i, (List.getElem?_eq_some_iff.mp hk).1, hk,
      ⟨hsc, hik, hi, ⟨o.category, j, hopen i hji (by omega)⟩, ?_, ?_, ?_⟩,
      o.category, j, hopen k (by omega) (by omega), hji⟩
    · intro k' _ hk' he
      have := Marker.index_unique h.nodup hk he
      omega
    · -- another inner span that begins here overlaps `s`, so it is of another category
      intro k' u hik' hk' hu huc _
      have hus : u ≠ s := by
        rintro rfl
        have := Marker.index_unique h.nodup hi hu
        omega
      refine ⟨hr.resolve_right fun hcat => hus ?_, hus⟩
      have hum := Marker.mem_of_index hu
      exact (h.eq_of_overlaps hs hum (hcat _ (hin s hs hsc) _ (hin u hum huc))
        (overlaps_of_between h hi hk hu hik' hk')).symm
    · -- the outer span that ends here began after `s`, or else it interrupts `s`
      intro k' u a hik' hk' hu ha
      obtain ⟨huc, hak, v, b', hvu, hva, hvb, hkb'⟩ := (openAt_iff h).mp ha
      have hum := Marker.mem_of_index hu
      obtain ⟨a', ha'⟩ := Marker.exists_index r.outer hum .opening
      have huv : u = v := by
        have hak' := opening_lt_closing h.proper ha' hu
        rcases Nat.lt_trichotomy a a' with hlt | heq | hlt
        · have := ha.last a' hlt hak' _ ha'
          exact absurd rfl this
        · subst heq
          rw [hva] at ha'
          cases ha'
          rfl
        · exact h.eq_of_overlaps hum (Marker.mem_of_index hva) hvu.symm
            (overlaps_of_between h ha' hu hva hlt hak)
      subst huv
      rcases Nat.lt_trichotomy i a with hia | rfl | hai
      · exact hia
      · rw [hi] at hva
        cases hva
        exact absurd huc hsc
      · exact absurd ((interrupts_iff huc hsc hva hu hi hk).mpr ⟨hai, hik', hk'⟩)
          (hint u hum huc)

/-- A rule removes an inner span only if it lies within an outer span of the list. -/
theorem exists_outer_of_mem_removed (h : ∀ s ∈ spans, s.start < s.stop)
    (hs : s ∈ removed r spans) :
    s ∈ spans ∧ s.category ∈ r.inner ∧ ∃ o ∈ spans, o.category ∈ r.outer ∧ o.Contains s := by
  rw [removed, mem_scan_removed] at hs
  obtain ⟨hm, hsc, o, ho, hoc, hcont⟩ := exists_outer_of_removedAt
    (fun u hu => h u (List.mem_filter.mp hu).1) hs
  obtain ⟨hm, hc⟩ := List.mem_filter.mp hm
  exact ⟨hm, (of_decide_eq_true hc).resolve_left hsc, o, (List.mem_filter.mp ho).1, hoc, hcont⟩

/-- A rule removes from a tidy list exactly the inner spans that lie within an outer span and are
not interrupted by one. -/
theorem mem_removed_iff (h : Span.Tidy spans) (hr : FollowsEach r) :
    s ∈ removed r spans ↔
      s ∈ spans ∧ s.category ∈ r.inner ∧ (∃ o ∈ spans, o.category ∈ r.outer ∧ o.Contains s) ∧
        ∀ o ∈ spans, o.category ∈ r.outer → ¬ Interrupts o s := by
  have hsub := h.sublist (List.filter_sublist (p := fun s =>
    decide (s.category ∈ r.outer ∨ s.category ∈ r.inner)) (l := spans))
  have hdisj : s.category ∈ r.inner → s.category ∉ r.outer := fun hi ho => r.disjoint _ ho hi
  rw [removed, mem_scan_removed, removedAt_iff hsub hr]
  · simp only [List.mem_filter, decide_eq_true_eq]
    constructor
    · rintro ⟨⟨hs, hc⟩, hsc, ⟨o, ⟨ho, -⟩, hoc, hcont⟩, hint⟩
      exact ⟨hs, hc.resolve_left hsc, ⟨o, ho, hoc, hcont⟩,
        fun u hu huc => hint u ⟨hu, .inl huc⟩ huc⟩
    · rintro ⟨hs, hsc, ⟨o, ho, hoc, hcont⟩, hint⟩
      exact ⟨⟨hs, .inr hsc⟩, hdisj hsc, ⟨o, ⟨ho, .inl hoc⟩, hoc, hcont⟩,
        fun u hu huc => hint u hu.1 huc⟩
  · intro u hu huc
    have hm := (List.mem_filter.mp hu).2
    simpa [huc] using hm

/-- An outer span of the same category as the one around `s` cannot end inside `s`. -/
theorem SingleOuter.not_interrupts (hr : SingleOuter r) (h : Span.Tidy spans) {u : Span}
    (ho : o ∈ spans) (hoc : o.category ∈ r.outer) (hcont : o.Contains s) (hu : u ∈ spans)
    (huc : u.category ∈ r.outer) : ¬ Interrupts u s := by
  rintro ⟨hstart, hin, hstop⟩
  obtain ⟨hos, hso⟩ := hcont
  have hover : o.Overlaps u := by constructor <;> omega
  obtain rfl := h.eq_of_overlaps ho hu (hr _ hoc _ huc) hover
  omega

/-- With one outer category containment alone decides. -/
theorem SingleOuter.mem_removed_iff (hr : SingleOuter r) (hf : FollowsEach r)
    (h : Span.Tidy spans) :
    s ∈ removed r spans ↔
      s ∈ spans ∧ s.category ∈ r.inner ∧ ∃ o ∈ spans, o.category ∈ r.outer ∧ o.Contains s := by
  rw [Suppression.mem_removed_iff h hf]
  refine ⟨fun ⟨hs, hsc, hout, _⟩ => ⟨hs, hsc, hout⟩, ?_⟩
  rintro ⟨hs, hsc, o, ho, hoc, hcont⟩
  exact ⟨hs, hsc, ⟨o, ho, hoc, hcont⟩,
    fun u hu huc => hr.not_interrupts h ho hoc hcont hu huc⟩

end Lexeme.Suppression
