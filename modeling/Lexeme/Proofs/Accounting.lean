import Lexeme.Profile
import Lexeme.Proofs.Resolution
import Mathlib

/-! The books of the lexer. A resolution counts what each rule takes by the lengths before and after
it, and adds up under one name what rules of that name took; a profile gets its numbers in another
way, from what was matched and what was emitted. Main statement: both ways agree, in every
resolution and over any sequence of runs. -/

namespace Lexeme

/-! ### Tallies -/

namespace Tally

variable {α β : Type} [DecidableEq α] [AddCommMonoid β]

theorem keys_add (k : α) (n : β) (t : List (α × β)) :
    (add k n t).map Prod.fst =
      if k ∈ t.map Prod.fst then t.map Prod.fst else t.map Prod.fst ++ [k] := by
  induction t with
  | nil => rfl
  | cons p t ih =>
    by_cases h : p.1 = k
    · simp [add, h]
    · rw [add, if_neg h, List.map_cons, ih, List.map_cons]
      by_cases hk : k ∈ t.map Prod.fst
      · rw [if_pos hk, if_pos (List.mem_cons_of_mem _ hk)]
      · have hnot : k ∉ p.1 :: t.map Prod.fst := by
          simp only [List.mem_cons, not_or]
          exact ⟨Ne.symm h, hk⟩
        rw [if_neg hk, if_neg hnot, List.cons_append]

/-- New keys follow the known ones in the order in which they are first seen. -/
theorem keys_addAll (t counts : List (α × β)) :
    (addAll t counts).map Prod.fst =
      t.map Prod.fst ++
        ((counts.map Prod.fst).filter fun k => k ∉ t.map Prod.fst).eraseDups := by
  induction counts generalizing t with
  | nil => simp [addAll]
  | cons c counts ih =>
    change (addAll (add c.1 c.2 t) counts).map Prod.fst = _
    rw [ih, keys_add, List.map_cons, List.filter_cons]
    by_cases hc : c.1 ∈ t.map Prod.fst
    · rw [if_pos hc, if_neg (by simpa using hc)]
    · rw [if_neg hc, if_pos (by simpa using hc), List.eraseDups_cons, List.filter_filter,
        List.append_assoc, List.singleton_append]
      congr 3
      apply List.filter_congr
      intro k _
      rw [Bool.eq_iff_iff]
      simp only [List.mem_append, List.mem_singleton, not_or, decide_eq_true_eq, Bool.and_eq_true,
        Bool.not_eq_true', beq_eq_false_iff_ne]
      exact and_comm

/-- The count of a key; a key that is not there counts nothing. -/
def count (t : List (α × β)) (k : α) : β := (t.lookup k).getD 0

theorem count_cons (a : α) (m : β) (t : List (α × β)) (k : α) :
    count ((a, m) :: t) k = if a = k then m else count t k := by
  by_cases h : a = k
  · simp [count, h]
  · have hk : (k == a) = false := by simpa using Ne.symm h
    simp [count, List.lookup_cons, h, hk]

theorem count_add (k : α) (n : β) (t : List (α × β)) (a : α) :
    count (add k n t) a = count t a + if k = a then n else 0 := by
  induction t with
  | nil =>
    rw [add, count_cons]
    simp [count]
  | cons p t ih =>
    obtain ⟨b, m⟩ := p
    rw [add]
    by_cases hb : b = k
    · rw [if_pos hb, count_cons, count_cons, hb]
      by_cases hk : k = a <;> simp [hk]
    · rw [if_neg hb, count_cons, count_cons, ih]
      by_cases hk : b = a
      · have hne : k ≠ a := fun h => hb (hk.trans h.symm)
        simp [hk, hne]
      · simp [hk]

/-- Under each key stands the sum of what was added there. -/
theorem count_addAll (t counts : List (α × β)) (a : α) :
    count (addAll t counts) a =
      count t a + ((counts.filter (·.1 = a)).map Prod.snd).sum := by
  induction counts generalizing t with
  | nil => simp [addAll]
  | cons c counts ih =>
    change count (addAll (add c.1 c.2 t) counts) a = _
    rw [ih, count_add, List.filter_cons]
    by_cases hc : c.1 = a <;> simp [hc, add_assoc]

theorem sum_add (k : α) (n : β) (t : List (α × β)) :
    ((add k n t).map Prod.snd).sum = (t.map Prod.snd).sum + n := by
  induction t with
  | nil => simp [add]
  | cons p t ih =>
    by_cases h : p.1 = k
    · simp only [add, h, if_true, List.map_cons, List.sum_cons]
      exact add_right_comm _ _ _
    · simp only [add, h, if_false, List.map_cons, List.sum_cons, ih]
      exact (add_assoc _ _ _).symm

/-- Whatever the keys are, nothing is lost in a tally and nothing counted twice. -/
theorem sum_addAll (t counts : List (α × β)) :
    ((addAll t counts).map Prod.snd).sum = (t.map Prod.snd).sum + (counts.map Prod.snd).sum := by
  induction counts generalizing t with
  | nil => simp [addAll]
  | cons c counts ih =>
    change ((addAll (add c.1 c.2 t) counts).map Prod.snd).sum = _
    rw [ih, sum_add, List.map_cons, List.sum_cons, add_assoc]

/-- The same counts as integers. -/
def toInt (t : List (α × Nat)) : List (α × Int) := t.map fun p => (p.1, (p.2 : Int))

theorem toInt_add (k : α) (n : Nat) (t : List (α × Nat)) :
    toInt (add k n t) = add k (n : Int) (toInt t) := by
  induction t with
  | nil => rfl
  | cons p t ih =>
    change _ = add k (n : Int) ((p.1, (p.2 : Int)) :: toInt t)
    rw [add, add]
    by_cases h : p.1 = k
    · rw [if_pos h, if_pos h]
      rfl
    · rw [if_neg h, if_neg h, ← ih]
      rfl

theorem toInt_addAll (t counts : List (α × Nat)) :
    toInt (addAll t counts) = addAll (toInt t) (toInt counts) := by
  induction counts generalizing t with
  | nil => rfl
  | cons c counts ih =>
    change toInt (addAll (add c.1 c.2 t) counts) = _
    rw [ih, toInt_add]
    rfl

theorem count_toInt (t : List (α × Nat)) (k : α) : count (toInt t) k = (count t k : Nat) := by
  induction t with
  | nil => rfl
  | cons p t ih =>
    change count ((p.1, (p.2 : Int)) :: toInt t) k = (count ((p.1, p.2) :: t) k : Nat)
    rw [count_cons, count_cons, ih]
    split <;> rfl

omit [DecidableEq α] in
theorem sum_toInt (t : List (α × Nat)) :
    ((toInt t).map Prod.snd).sum = ((t.map Prod.snd).sum : Nat) := by
  induction t with
  | nil => rfl
  | cons p t ih =>
    change (p.2 : Int) + ((toInt t).map Prod.snd).sum = ((p.2 + (t.map Prod.snd).sum : Nat) : Int)
    rw [ih, Int.natCast_add]

omit [DecidableEq α] in
theorem keys_toInt (t : List (α × Nat)) : (toInt t).map Prod.fst = t.map Prod.fst := by
  simp [toInt]

end Tally

/-! ### One resolution -/

namespace Resolution

variable {rules : List Rule} {repair : Bool} {spans : List Span}

/-- What each rule takes when its turn comes: by how much the list gets shorter. -/
def losses : List Rule → List Span → List (String × Int)
  | [], _ => []
  | r :: rules, spans =>
    (r.name, (spans.length : Int) - (Suppression.suppress r spans).length) ::
      losses rules (Suppression.suppress r spans)

theorem length_suppress_le (r : Rule) (spans : List Span) :
    (Suppression.suppress r spans).length ≤ spans.length :=
  (Suppression.suppress_sublist r spans).length_le

theorem losses_nonneg (rules : List Rule) (spans : List Span) :
    ∀ p ∈ losses rules spans, 0 ≤ p.2 := by
  induction rules generalizing spans with
  | nil => exact fun p hp => absurd hp List.not_mem_nil
  | cons r rules ih =>
    intro p hp
    rcases List.mem_cons.mp hp with rfl | hp
    · exact Int.sub_nonneg.mpr (Int.ofNat_le.mpr (length_suppress_le r spans))
    · exact ih _ p hp

theorem keys_losses (rules : List Rule) (spans : List Span) :
    (losses rules spans).map Prod.fst = rules.map Rule.name := by
  induction rules generalizing spans with
  | nil => rfl
  | cons r rules ih => simp [losses, ih]

/-- What the rules take is what is missing in the end. -/
theorem sum_losses (rules : List Rule) (spans : List Span) :
    ((losses rules spans).map Prod.snd).sum = (spans.length : Int) - (left rules spans).length := by
  induction rules generalizing spans with
  | nil => simp [losses]
  | cons r rules ih =>
    rw [losses, List.map_cons, List.sum_cons, ih, left_cons]
    omega

/-- No list grows under a rule, so the counts are the differences. -/
theorem toInt_applyRules (rules : List Rule) (spans : List Span) :
    Tally.toInt (applyRules rules spans).2 = losses rules spans := by
  induction rules generalizing spans with
  | nil => rfl
  | cons r rules ih =>
    have hfirst := Int.ofNat_sub (length_suppress_le r spans)
    rw [losses, ← ih, ← hfirst]
    rfl

/-- The tally of a resolution is that of the losses. -/
theorem toInt_removedByRule (rules : List Rule) (repair : Bool) (spans : List Span) :
    Tally.toInt (resolve rules repair spans).removedByRule =
      Tally.addAll [] (losses rules spans) := by
  have hremovals : (resolve rules repair spans).removals = (applyRules rules spans).2 := by
    cases repair <;> rfl
  rw [removedByRule, Tally.toInt_addAll, hremovals, toInt_applyRules]
  rfl

theorem keys_removedByRule (rules : List Rule) (repair : Bool) (spans : List Span) :
    (resolve rules repair spans).removedByRule.map Prod.fst =
      (rules.map Rule.name).eraseDups := by
  rw [← Tally.keys_toInt, toInt_removedByRule, Tally.keys_addAll, keys_losses]
  simp

theorem count_removedByRule (rules : List Rule) (repair : Bool) (spans : List Span)
    (name : String) :
    ((Tally.count (resolve rules repair spans).removedByRule name : Nat) : Int) =
      (((losses rules spans).filter (·.1 = name)).map Prod.snd).sum := by
  rw [← Tally.count_toInt, toInt_removedByRule, Tally.count_addAll]
  exact zero_add _

theorem sum_removedByRule (rules : List Rule) (repair : Bool) (spans : List Span) :
    ((((resolve rules repair spans).removedByRule.map Prod.snd).sum : Nat) : Int) =
      (spans.length : Int) - (left rules spans).length := by
  rw [← Tally.sum_toInt, toInt_removedByRule, Tally.sum_addAll, sum_losses]
  exact zero_add _

/-- The repair drops by how much it makes the list shorter. -/
theorem repaired_eq (rules : List Rule) (repair : Bool) (spans : List Span) :
    ((resolve rules repair spans).repaired : Int) =
      (left rules spans).length - (resolve rules repair spans).spans.length := by
  cases repair with
  | false =>
    change (0 : Int) = (left rules spans).length - (left rules spans).length
    omega
  | true =>
    have hvisit := Repair.visit_length [] (Span.sort (left rules spans))
    have hsort := (Span.sort_perm (left rules spans)).length_eq
    change ((Repair.run (left rules spans)).dropped.length : Int) =
      (left rules spans).length - (Repair.run (left rules spans)).kept.length
    rw [Repair.run]
    omega

theorem suppressed_eq_sum (r : Resolution) :
    r.suppressed = (r.removedByRule.map Prod.snd).sum + r.repaired := by
  rw [suppressed]
  induction r.removedByRule with
  | nil => simp
  | cons p t ih =>
    rw [List.foldr_cons, ih, List.map_cons, List.sum_cons, Nat.add_assoc]

/-- Every span is kept, or taken by a rule, or dropped by the repair. -/
theorem length_resolve (rules : List Rule) (repair : Bool) (spans : List Span) :
    spans.length = (resolve rules repair spans).spans.length +
      (resolve rules repair spans).suppressed := by
  have hsum := sum_removedByRule rules repair spans
  have hrepaired := repaired_eq rules repair spans
  have hsuppressed := suppressed_eq_sum (resolve rules repair spans)
  omega

end Resolution

/-! ### Many runs -/

namespace Profile

/-- A profile with runs of the lexer entered one after another. -/
def recordAll (p : Profile) (runs : List (Config × String)) : Profile :=
  runs.foldl (fun p x => p.recordRun (Lexer.run x.1 x.2)) p

/-- The profile holds the totals of the given runs. -/
structure Accounts (p : Profile) (runs : List (Config × String)) : Prop where
  calls : p.calls = runs.length
  sourceLength : p.sourceLength = (runs.map fun x => (x.2.length : Int)).sum
  matched : p.matched =
    (runs.map fun x => ((Matching.matchAll x.2 x.1.categories).length : Int)).sum
  emitted : p.matched = p.emitted + p.suppressed
  ruleHits : (p.ruleHits.map Prod.snd).sum =
    p.suppressed - (runs.map fun x => ((Lexer.run x.1 x.2).resolution.repaired : Int)).sum

theorem accounts_empty : Accounts empty [] := ⟨rfl, rfl, rfl, rfl, rfl⟩

/-- The counts of a run by rule, from its own totals. -/
theorem sum_hits (config : Config) (source : String) :
    ((Tally.toInt (Lexer.run config source).resolution.removedByRule).map Prod.snd).sum =
      (Lexer.run config source).matched.length -
        (Lexer.run config source).resolution.spans.length -
        (Lexer.run config source).resolution.repaired := by
  have hlength := Resolution.length_resolve config.rules config.repairs
    (Lexer.run config source).matched
  have hsuppressed := Resolution.suppressed_eq_sum (Lexer.run config source).resolution
  change (Lexer.run config source).matched.length =
    (Lexer.run config source).resolution.spans.length +
      (Lexer.run config source).resolution.suppressed at hlength
  rw [Tally.sum_toInt]
  omega

theorem Accounts.recordRun {p : Profile} {runs : List (Config × String)} (h : Accounts p runs)
    (x : Config × String) : Accounts (p.recordRun (Lexer.run x.1 x.2)) (runs ++ [x]) := by
  have hsize : (Lexer.run x.1 x.2).length = x.2.length := by
    rw [Lexer.run, List.size_toArray, String.length_toList]
  constructor
  · simp [Profile.recordRun, record, h.calls]
  · simp [Profile.recordRun, record, h.sourceLength, hsize]
  · simp [Profile.recordRun, record, h.matched, Lexer.run, Matching.matchAll]
  · have hemitted := h.emitted
    simp only [Profile.recordRun, record]
    omega
  · have hhits := h.ruleHits
    have hrun := sum_hits x.1 x.2
    have htotal : ((p.recordRun (Lexer.run x.1 x.2)).ruleHits.map Prod.snd).sum =
        (p.ruleHits.map Prod.snd).sum +
          ((Tally.toInt (Lexer.run x.1 x.2).resolution.removedByRule).map Prod.snd).sum :=
      Tally.sum_addAll _ _
    rw [htotal, List.map_append, List.sum_append, List.map_singleton, List.sum_singleton]
    simp only [Profile.recordRun, record]
    omega

theorem Accounts.recordAll {p : Profile} {past : List (Config × String)} (h : Accounts p past)
    (runs : List (Config × String)) : Accounts (p.recordAll runs) (past ++ runs) := by
  induction runs generalizing p past with
  | nil => simpa [Profile.recordAll] using h
  | cons x runs ih =>
    have hrest := ih (h.recordRun x)
    rwa [List.append_assoc, List.singleton_append] at hrest

/-- The rules that removed nothing add nothing. -/
theorem sum_effectiveHits (p : Profile) :
    (p.effectiveHits.map Prod.snd).sum = (p.ruleHits.map Prod.snd).sum := by
  rw [effectiveHits]
  induction p.ruleHits with
  | nil => rfl
  | cons hit hits ih =>
    rw [List.filter_cons]
    by_cases h : hit.2 = 0
    · rw [if_neg (by simpa using h), ih, List.map_cons, List.sum_cons, h, zero_add]
    · rw [if_pos (by simpa using h), List.map_cons, List.sum_cons, ih, List.map_cons,
        List.sum_cons]

/-- Every resolution accounts for its spans: each is kept, counted under the rule that took it or
dropped by the repair, and each name stands once in the tally, with all that rules of that name
took. Over any sequence of runs the totals of a profile agree with these counts. -/
theorem accounts_balance :
    (∀ (rules : List Rule) (repair : Bool) (spans : List Span),
      let r := Resolution.resolve rules repair spans
      spans.length = r.spans.length + r.suppressed ∧
        r.suppressed = (r.removedByRule.map Prod.snd).sum + r.repaired ∧
        r.removedByRule.map Prod.fst = (rules.map Rule.name).eraseDups ∧
        (∀ name, ((Tally.count r.removedByRule name : Nat) : Int) =
          (((Resolution.losses rules spans).filter (·.1 = name)).map Prod.snd).sum) ∧
        (∀ p ∈ Resolution.losses rules spans, 0 ≤ p.2) ∧
        (r.repaired : Int) = (Resolution.left rules spans).length - r.spans.length) ∧
      ∀ runs : List (Config × String),
        let p := empty.recordAll runs
        p.matched = p.emitted + p.suppressed ∧
          p.matched =
            (runs.map fun x => ((Matching.matchAll x.2 x.1.categories).length : Int)).sum ∧
          p.calls = runs.length ∧
          p.sourceLength = (runs.map fun x => (x.2.length : Int)).sum ∧
          (p.ruleHits.map Prod.snd).sum = p.suppressed -
            (runs.map fun x => ((Lexer.run x.1 x.2).resolution.repaired : Int)).sum ∧
          (p.effectiveHits.map Prod.snd).sum = (p.ruleHits.map Prod.snd).sum := by
  constructor
  · intro rules repair spans
    exact ⟨Resolution.length_resolve rules repair spans, Resolution.suppressed_eq_sum _,
      Resolution.keys_removedByRule rules repair spans,
      Resolution.count_removedByRule rules repair spans, Resolution.losses_nonneg rules spans,
      Resolution.repaired_eq rules repair spans⟩
  · intro runs
    have h := accounts_empty.recordAll runs
    rw [List.nil_append] at h
    exact ⟨h.emitted, h.matched, h.calls, h.sourceLength, h.ruleHits, sum_effectiveHits _⟩

/-- Two rules of one name take two copies of a keyword and a floating constant out of a string
literal, and the repair drops what crosses its end. -/
theorem accounts_balance_one_name :
    let rules := [{ Rule.make [.string] [.keyword] false with name := "quoted" },
      { Rule.make [.string] [.floating] true with name := "quoted" }]
    let spans : List Span := [⟨.string, 0, 9⟩, ⟨.keyword, 1, 3⟩, ⟨.keyword, 1, 3⟩,
      ⟨.floating, 4, 5⟩, ⟨.integer, 8, 12⟩]
    Resolution.resolve rules true spans =
        ⟨[⟨.string, 0, 9⟩], [("quoted", 2), ("quoted", 1)],
          [(⟨.integer, 8, 12⟩, ⟨.string, 0, 9⟩)]⟩ ∧
      (Resolution.resolve rules true spans).removedByRule = [("quoted", 3)] ∧
      ("quoted", 2) ∈ Resolution.losses rules spans ∧ 0 ≤ (2 : Int) ∧
      spans.length = (Resolution.resolve rules true spans).spans.length +
        (Resolution.resolve rules true spans).suppressed := by
  intro rules spans
  have hmem : ("quoted", 2) ∈ Resolution.losses rules spans := by decide
  have h := accounts_balance.1 rules true spans
  exact ⟨by decide, by decide, hmem, h.2.2.2.2.1 _ hmem, h.1⟩

end Profile

end Lexeme
