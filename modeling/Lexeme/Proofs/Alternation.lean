import Lexeme.Markup.Report
import Lexeme.Proofs.Position
import Lexeme.Proofs.Stripping

/-! Which annotated texts can be read, and what is wrong with the others. The markers of each
category have to come in pairs; the first one that cannot continue such pairs is at fault, and if
there is none, the first one that is never closed. Main statement: a text is read if its markers
alternate to the end, and otherwise the report names this marker and its place in the source. -/

namespace Lexeme.Markup

open Marker (isSign read? signOf eq_signOf signOf_inj)

variable {c k : Category} {r : Role} {x : Char} {cs before after past : List Char}
  {rs qs : List Role} {opened : List (Category × Nat)} {i j : Nat}

/-! ### Alternation -/

/-- Pairs of an opening and a closing marker, one behind the other. -/
inductive Paired : List Role → Prop
  | nil : Paired []
  | pair {rs : List Role} : Paired rs → Paired (.opening :: .closing :: rs)

/-- Pairs, of the last one perhaps only the opening marker. -/
def Alternates (rs : List Role) : Prop := ∃ rest, Paired (rs ++ rest)

theorem paired_append_iff (h : Paired qs) : Paired (qs ++ rs) ↔ Paired rs := by
  induction h with
  | nil => exact Iff.rfl
  | pair _ ih =>
    rw [← ih]
    refine ⟨fun h => ?_, .pair⟩
    cases h with
    | pair h => exact h

theorem Paired.alternates (h : Paired rs) : Alternates rs := ⟨[], by rwa [List.append_nil]⟩

theorem Alternates.of_append (h : Alternates (rs ++ qs)) : Alternates rs := by
  obtain ⟨rest, h⟩ := h
  exact ⟨qs ++ rest, by rwa [← List.append_assoc]⟩

theorem alternates_append_iff (h : Paired qs) : Alternates (qs ++ rs) ↔ Alternates rs := by
  simp only [Alternates, List.append_assoc, paired_append_iff h]

theorem not_alternates_closing : ¬ Alternates (.closing :: rs) := by
  rintro ⟨rest, h⟩
  cases h

theorem not_alternates_opening_opening : ¬ Alternates (.opening :: .opening :: rs) := by
  rintro ⟨rest, h⟩
  cases h

/-- Nothing is left open in pairs. -/
theorem Paired.closing_mem (h : Paired (qs ++ .opening :: rs)) : .closing ∈ rs := by
  generalize hall : qs ++ .opening :: rs = all at h
  induction h generalizing qs with
  | nil => simp at hall
  | pair _ ih =>
    match qs with
    | [] => simp_all
    | [q] => simp at hall
    | q :: q' :: qs =>
      simp only [List.cons_append, List.cons.injEq] at hall
      exact ih hall.2.2

/-! ### The markers of a category -/

/-- The roles of the markers of a category, from left to right. -/
def roles (c : Category) (cs : List Char) : List Role :=
  cs.filterMap fun x => (read? x).bind fun m => if m.1 = c then some m.2 else none

theorem roles_append (c : Category) (cs ds : List Char) :
    roles c (cs ++ ds) = roles c cs ++ roles c ds := List.filterMap_append

theorem roles_plain (h : read? x = none) (c : Category) : roles c (x :: cs) = roles c cs := by
  simp [roles, h]

theorem roles_sign_self (c : Category) (r : Role) (cs : List Char) :
    roles c (signOf c r :: cs) = r :: roles c cs := by
  simp [roles]

theorem roles_sign_of_ne (h : k ≠ c) (r : Role) (cs : List Char) :
    roles c (signOf k r :: cs) = roles c cs := by
  simp [roles, h]

theorem roles_concat_plain (h : read? x = none) (c : Category) (cs : List Char) :
    roles c (cs ++ [x]) = roles c cs := by
  rw [roles_append, roles_plain h]
  exact List.append_nil _

theorem roles_concat_self (c : Category) (r : Role) (cs : List Char) :
    roles c (cs ++ [signOf c r]) = roles c cs ++ [r] := by
  rw [roles_append, roles_sign_self]
  rfl

theorem roles_concat_of_ne (h : k ≠ c) (r : Role) (cs : List Char) :
    roles c (cs ++ [signOf k r]) = roles c cs := by
  rw [roles_append, roles_sign_of_ne h]
  exact List.append_nil _

theorem unmarked_concat_sign (cs : List Char) (c : Category) (r : Role) :
    unmarked (cs ++ [signOf c r]) = unmarked cs := by
  rw [unmarked_append, unmarked_sign]
  exact List.append_nil _

theorem closing_mem_concat_opening (k c : Category) (cs : List Char) :
    .closing ∈ roles c (cs ++ [signOf k .opening]) ↔ .closing ∈ roles c cs := by
  by_cases h : k = c
  · simp [h, roles_concat_self]
  · rw [roles_concat_of_ne h]

theorem closing_mem_concat_closing (k c : Category) (cs : List Char) :
    .closing ∈ roles c (cs ++ [signOf k .closing]) ↔ .closing ∈ roles c cs ∨ k = c := by
  by_cases h : k = c
  · simp [h, roles_concat_self]
  · simp [roles_concat_of_ne h, h]

/-! ### Markers at fault -/

/-- What is wrong with a marker of category `c` between two parts of a text: it breaks an
alternation that no marker before it breaks, or none is broken and it is the first that is never
closed. -/
inductive Blames (before : List Char) (c : Category) (after : List Char) : Role → Cause → Prop
  | openedTwice : (∀ k, Alternates (roles k before)) → ¬ Alternates (roles c before ++ [.opening]) →
      Blames before c after .opening .openedTwice
  | closedUnopened : (∀ k, Alternates (roles k before)) →
      ¬ Alternates (roles c before ++ [.closing]) → Blames before c after .closing .closedUnopened
  | neverClosed : (∀ k, Alternates (roles k (before ++ signOf c .opening :: after))) →
      .closing ∉ roles c after →
      (∀ b k a, before = b ++ signOf k .opening :: a →
        .closing ∈ roles k (a ++ signOf c .opening :: after)) →
      Blames before c after .opening .neverClosed

/-- The fault lies with a marker of the text, which is told by the characters before it. -/
def Located (text : List Char) (f : Fault) : Prop :=
  ∃ before r after, text = before ++ signOf f.category r :: after ∧
    Blames before f.category after r f.cause ∧ f.offset = (unmarked before).length

/-- What the outcome of pairing up says of a text. -/
def Judges (text : List Char) : Except Fault (List Span) → Prop
  | .ok _ => ∀ k, Paired (roles k text)
  | .error f => Located text f

theorem judges_map {text : List Char} {e : Except Fault (List Span)} (g : List Span → List Span) :
    Judges text (e.map g) ↔ Judges text e := by
  cases e <;> exact Iff.rfl

/-! ### Open markers -/

/-- The opening markers that no later marker of their category closes, with their offsets. -/
def unclosedFrom : Nat → List Char → List (Category × Nat)
  | _, [] => []
  | i, x :: cs =>
    match read? x with
    | none => unclosedFrom (i + 1) cs
    | some (_, .closing) => unclosedFrom i cs
    | some (k, .opening) =>
      if .closing ∈ roles k cs then unclosedFrom i cs else (k, i) :: unclosedFrom i cs

theorem unclosedFrom_plain (hx : read? x = none) (i : Nat) (cs : List Char) :
    unclosedFrom i (cs ++ [x]) = unclosedFrom i cs := by
  induction cs generalizing i with
  | nil => simp [unclosedFrom, hx]
  | cons y cs ih =>
    simp only [List.cons_append, unclosedFrom, ih, roles_concat_plain hx]

theorem unclosedFrom_opening (c : Category) (i : Nat) (cs : List Char) :
    unclosedFrom i (cs ++ [signOf c .opening]) =
      unclosedFrom i cs ++ [(c, i + (unmarked cs).length)] := by
  induction cs generalizing i with
  | nil => simp [unclosedFrom, roles, unmarked]
  | cons y cs ih =>
    rw [List.cons_append, unclosedFrom, unclosedFrom, unmarked, List.filter_cons]
    cases hy : read? y with
    | none =>
      have hplain : isSign y = false := by simp [isSign, hy]
      simp [ih, hplain, unmarked, Nat.add_assoc, Nat.add_comm 1]
    | some m =>
      obtain ⟨k, r⟩ := m
      have hsign : isSign y = true := by simp [isSign, hy]
      cases r with
      | closing => simp [ih, hsign, unmarked]
      | opening =>
        simp only [ih, hsign, unmarked, closing_mem_concat_opening]
        split <;> simp

theorem unclosedFrom_closing (c : Category) (i : Nat) (cs : List Char) :
    unclosedFrom i (cs ++ [signOf c .closing]) = (unclosedFrom i cs).filter (·.1 ≠ c) := by
  induction cs generalizing i with
  | nil => simp [unclosedFrom]
  | cons y cs ih =>
    rw [List.cons_append, unclosedFrom, unclosedFrom]
    cases hy : read? y with
    | none => simp [ih]
    | some m =>
      obtain ⟨k, r⟩ := m
      cases r with
      | closing => simp [ih]
      | opening =>
        simp only [ih, closing_mem_concat_closing]
        by_cases hk : c = k
        · subst hk
          simp only [or_true, if_true]
          split <;> simp
        · have hk' : k ≠ c := fun h => hk h.symm
          simp only [hk, or_false]
          split <;> simp [hk']

theorem le_of_mem_unclosedFrom {p : Category × Nat} (h : p ∈ unclosedFrom i cs) : i ≤ p.2 := by
  induction cs generalizing i with
  | nil => cases h
  | cons x cs ih =>
    rw [unclosedFrom] at h
    split at h
    · exact Nat.le_of_succ_le (ih h)
    · exact ih h
    · split at h
      · exact ih h
      · rcases List.mem_cons.mp h with rfl | h
        · exact Nat.le_refl i
        · exact ih h

/-- Open markers are listed by their offsets, so that the first one began first. -/
theorem unclosedFrom_sorted (i : Nat) (cs : List Char) :
    (unclosedFrom i cs).Pairwise fun a b => a.2 ≤ b.2 := by
  induction cs generalizing i with
  | nil => exact .nil
  | cons x cs ih =>
    rw [unclosedFrom]
    split
    · exact ih _
    · exact ih _
    · split
      · exact ih _
      · exact List.pairwise_cons.mpr ⟨fun p hp => le_of_mem_unclosedFrom hp, ih _⟩

/-- The first of them stands behind markers that are all closed. -/
theorem exists_split_of_unclosedFrom {rest : List (Category × Nat)}
    (h : unclosedFrom i cs = (c, j) :: rest) :
    ∃ before after, cs = before ++ signOf c .opening :: after ∧
      j = i + (unmarked before).length ∧ .closing ∉ roles c after ∧
      ∀ b k a, before = b ++ signOf k .opening :: a →
        .closing ∈ roles k (a ++ signOf c .opening :: after) := by
  induction cs generalizing i with
  | nil => cases h
  | cons x cs ih =>
    -- a character that opens nothing, or what is closed later, stands before the one sought
    have hstep : ∀ {i'}, unclosedFrom i' cs = (c, j) :: rest →
        i' = i + (unmarked [x]).length →
        (∀ k, x = signOf k .opening → .closing ∈ roles k cs) →
        ∃ before after, x :: cs = before ++ signOf c .opening :: after ∧
          j = i + (unmarked before).length ∧ .closing ∉ roles c after ∧
          ∀ b k a, before = b ++ signOf k .opening :: a →
            .closing ∈ roles k (a ++ signOf c .opening :: after) := by
      intro i' h hi' hx
      obtain ⟨before, after, rfl, hj, hafter, hbefore⟩ := ih h
      refine ⟨x :: before, after, rfl, ?_, hafter, ?_⟩
      · rw [hj, hi', Nat.add_assoc, ← List.length_append, ← unmarked_append, List.singleton_append]
      · rintro (_ | ⟨y, b⟩) k a heq
        · rw [List.nil_append, List.cons.injEq] at heq
          obtain ⟨hk, rfl⟩ := heq
          exact hx k hk
        · rw [List.cons_append, List.cons.injEq] at heq
          exact hbefore b k a heq.2
    rw [unclosedFrom] at h
    cases hx : read? x with
    | none =>
      rw [hx] at h
      refine hstep h (by rw [unmarked_plain hx]; rfl) ?_
      rintro k rfl
      simp at hx
    | some m =>
      obtain ⟨k, r⟩ := m
      obtain rfl := eq_signOf hx
      rw [hx] at h
      have hlen : i = i + (unmarked [signOf k r]).length := by rw [unmarked_sign]; rfl
      cases r with
      | closing =>
        refine hstep h hlen fun k' hk' => ?_
        rw [signOf_inj] at hk'
        cases hk'.2
      | opening =>
        dsimp only at h
        by_cases hclosed : .closing ∈ roles k cs
        · rw [if_pos hclosed] at h
          refine hstep h hlen fun k' hk' => ?_
          rw [signOf_inj] at hk'
          exact hk'.1 ▸ hclosed
        · rw [if_neg hclosed] at h
          cases h
          refine ⟨[], cs, rfl, rfl, hclosed, fun b k' a heq => ?_⟩
          simp at heq

/-! ### One marker after the other -/

/-- What is known of the part of a text that was read: what is held as open are its markers without
an end, and each category is at the end of a pair or inside one. -/
structure Held (past : List Char) (opened : List (Category × Nat)) : Prop where
  unclosed : opened = unclosedFrom 0 past
  paired : ∀ k, opened.lookup k = none → Paired (roles k past)
  begun : ∀ k j, opened.lookup k = some j → ∃ qs, Paired qs ∧ roles k past = qs ++ [.opening]

theorem held_nil : Held [] [] := ⟨rfl, fun _ _ => .nil, nofun⟩

theorem Held.alternates (h : Held past opened) (k : Category) : Alternates (roles k past) := by
  cases hk : opened.lookup k with
  | none => exact (h.paired k hk).alternates
  | some j =>
    obtain ⟨qs, hqs, heq⟩ := h.begun k j hk
    rw [heq, alternates_append_iff hqs]
    exact ⟨[.closing], .pair .nil⟩

theorem Held.plain (h : Held past opened) (hx : read? x = none) : Held (past ++ [x]) opened := by
  refine ⟨by rw [unclosedFrom_plain hx, h.unclosed], fun k hk => ?_, fun k j hk => ?_⟩
  · rw [roles_concat_plain hx]
    exact h.paired k hk
  · rw [roles_concat_plain hx]
    exact h.begun k j hk

theorem lookup_concat (hc : opened.lookup c = none) (n : Nat) (k : Category) :
    (opened ++ [(c, n)]).lookup k = if k = c then some n else opened.lookup k := by
  rw [List.lookup_append, Tally.lookup_cons_eq_ite]
  by_cases hk : k = c
  · rw [if_pos hk, if_pos hk, hk, hc, Option.none_or]
  · rw [if_neg hk, if_neg hk, List.lookup_nil, Option.or_none]

theorem lookup_filter_ne (opened : List (Category × Nat)) (c k : Category) :
    (opened.filter (·.1 ≠ c)).lookup k = if k = c then none else opened.lookup k := by
  induction opened with
  | nil => simp
  | cons p opened ih =>
    obtain ⟨d, n⟩ := p
    rw [Tally.lookup_cons_eq_ite]
    by_cases hd : d = c
    · rw [List.filter_cons_of_neg (by simp [hd]), ih]
      by_cases hk : k = c
      · rw [if_pos hk, if_pos hk]
      · rw [if_neg hk, if_neg hk, if_neg fun h => hk (h.trans hd)]
    · rw [List.filter_cons_of_pos (by simpa using hd), Tally.lookup_cons_eq_ite, ih]
      by_cases hk : k = d
      · rw [if_pos hk, if_pos hk, if_neg fun h => hd (hk.symm.trans h)]
      · rw [if_neg hk, if_neg hk]

theorem Held.opening (h : Held past opened) (hc : opened.lookup c = none) :
    Held (past ++ [signOf c .opening]) (opened ++ [(c, (unmarked past).length)]) := by
  refine ⟨by rw [unclosedFrom_opening, h.unclosed, Nat.zero_add], fun k hk => ?_, fun k j hk => ?_⟩
  all_goals
    rw [lookup_concat hc] at hk
    by_cases hck : k = c
  · rw [if_pos hck] at hk
    cases hk
  · rw [if_neg hck] at hk
    rw [roles_concat_of_ne (Ne.symm hck)]
    exact h.paired k hk
  · subst hck
    exact ⟨_, h.paired k hc, roles_concat_self k .opening past⟩
  · rw [if_neg hck] at hk
    rw [roles_concat_of_ne (Ne.symm hck)]
    exact h.begun k j hk

theorem Held.closing {start : Nat} (h : Held past opened) (hc : opened.lookup c = some start) :
    Held (past ++ [signOf c .closing]) (opened.filter (·.1 ≠ c)) := by
  refine ⟨by rw [unclosedFrom_closing, h.unclosed], fun k hk => ?_, fun k j hk => ?_⟩
  all_goals
    rw [lookup_filter_ne] at hk
    by_cases hck : k = c
  · subst hck
    obtain ⟨qs, hqs, heq⟩ := h.begun k start hc
    rw [roles_concat_self, heq, List.append_assoc, paired_append_iff hqs]
    exact .pair .nil
  · rw [if_neg hck] at hk
    rw [roles_concat_of_ne (Ne.symm hck)]
    exact h.paired k hk
  · rw [if_pos hck] at hk
    cases hk
  · rw [if_neg hck] at hk
    rw [roles_concat_of_ne (Ne.symm hck)]
    exact h.begun k j hk

/-- At the end of a text nothing is open, or what was opened first is at fault. -/
theorem Held.judges_end (h : Held past opened) : Judges past (pairUp opened []) := by
  cases hopened : opened with
  | nil =>
    intro k
    exact h.paired k (by rw [hopened]; rfl)
  | cons p rest =>
    obtain ⟨c, j⟩ := p
    have hfirst : unclosedFrom 0 past = (c, j) :: rest := h.unclosed ▸ hopened
    have hsorted := hfirst ▸ unclosedFrom_sorted 0 past
    rw [pairUp, earliest?_cons (List.pairwise_cons.mp hsorted).1]
    obtain ⟨before, after, rfl, hj, hafter, hbefore⟩ := exists_split_of_unclosedFrom hfirst
    exact ⟨before, .opening, after, rfl, .neverClosed h.alternates hafter hbefore,
      by rw [hj, Nat.zero_add]⟩

/-- What is read of the rest of a text judges the whole text. -/
theorem Held.judges (h : Held past opened) (cs : List Char) :
    Judges (past ++ cs) (pairUp opened (sightingsFrom (unmarked past).length cs)) := by
  induction cs generalizing past opened with
  | nil =>
    rw [List.append_nil]
    exact h.judges_end
  | cons x cs ih =>
    rw [List.append_cons, sightingsFrom]
    cases hx : read? x with
    | none =>
      have hrest := ih (h.plain hx)
      rw [unmarked_append, unmarked_plain hx, List.length_append] at hrest
      exact hrest
    | some m =>
      obtain ⟨c, r⟩ := m
      obtain rfl := eq_signOf hx
      dsimp only
      cases hc : opened.lookup c with
      | none =>
        cases r with
        | opening =>
          have hrest := ih (h.opening hc)
          rw [unmarked_concat_sign] at hrest
          rw [pairUp, hc]
          exact hrest
        | closing =>
          rw [pairUp, hc]
          refine ⟨past, .closing, cs, List.append_assoc _ _ _, .closedUnopened h.alternates ?_, rfl⟩
          rw [alternates_append_iff (h.paired c hc)]
          exact not_alternates_closing
      | some start =>
        cases r with
        | opening =>
          obtain ⟨qs, hqs, heq⟩ := h.begun c start hc
          rw [pairUp, hc]
          refine ⟨past, .opening, cs, List.append_assoc _ _ _, .openedTwice h.alternates ?_, rfl⟩
          rw [heq, List.append_assoc, alternates_append_iff hqs]
          exact not_alternates_opening_opening
        | closing =>
          have hrest := ih (h.closing hc)
          rw [unmarked_concat_sign] at hrest
          rw [pairUp, hc, judges_map]
          exact hrest

theorem judges_decode (text : String) : Judges text.toList (decode text) := by
  rw [decode, judges_map]
  exact held_nil.judges text.toList

/-! ### One fault -/

variable {before' after' between : List Char} {c' : Category} {r' : Role} {cause cause' : Cause}
  {text : String} {f f' : Fault}

theorem roles_split (c : Category) (r : Role) (before after : List Char) :
    roles c (before ++ signOf c r :: after) = roles c before ++ [r] ++ roles c after := by
  rw [roles_append, roles_sign_self, List.append_cons]

theorem Blames.alternates (h : Blames before c after r cause) (k : Category) :
    Alternates (roles k before) := by
  cases h with
  | openedTwice h _ => exact h k
  | closedUnopened h _ => exact h k
  | neverClosed h _ _ =>
    have hall := h k
    rw [roles_append] at hall
    exact hall.of_append

/-- A marker breaks the alternation, or alternation goes on to the end. -/
theorem Blames.breaks_or (h : Blames before c after r cause) :
    ¬ Alternates (roles c before ++ [r]) ∨
      (∀ k, Alternates (roles k (before ++ signOf c r :: after))) ∧ cause = .neverClosed := by
  cases h with
  | openedTwice _ h => exact .inl h
  | closedUnopened _ h => exact .inl h
  | neverClosed h _ _ => exact .inr ⟨h, rfl⟩

/-- No other marker behind a faulty one is at fault. -/
theorem Blames.not_later (h : Blames before c (between ++ signOf c' r' :: after) r cause) :
    ¬ Blames (before ++ signOf c r :: between) c' after r' cause' := by
  intro h'
  rcases h.breaks_or with hbreak | ⟨hall, rfl⟩
  · have halt := h'.alternates c
    rw [roles_split] at halt
    exact hbreak halt.of_append
  · rcases h'.breaks_or with hbreak | ⟨-, rfl⟩
    · have halt := hall c'
      rw [← List.cons_append, ← List.append_assoc, roles_split] at halt
      exact hbreak halt.of_append
    · cases h with
      | neverClosed _ hopen _ =>
        cases h' with
        | neverClosed _ _ hfirst => exact hopen (hfirst before c between rfl)

theorem Blames.cause_eq (h : Blames before c after r cause) (h' : Blames before c after r cause') :
    cause = cause' := by
  have hcontra : ¬ Alternates (roles c before ++ [r]) →
      ¬ ∀ k, Alternates (roles k (before ++ signOf c r :: after)) := by
    intro hbreak hall
    have halt := hall c
    rw [roles_split] at halt
    exact hbreak halt.of_append
  cases h <;> cases h' <;> first | rfl | exact absurd ‹_› (hcontra ‹_›)

/-- Of two faulty markers of a text the first is the second. -/
theorem Blames.eq_of_split {a : List Char} (h : Blames before c after r cause)
    (h' : Blames (before ++ a) c' after' r' cause')
    (heq : signOf c r :: after = a ++ signOf c' r' :: after') :
    a = [] ∧ c = c' ∧ cause = cause' := by
  cases a with
  | nil =>
    obtain ⟨hsign, rfl⟩ := List.cons.inj heq
    obtain ⟨rfl, rfl⟩ := signOf_inj.mp hsign
    rw [List.append_nil] at h'
    exact ⟨rfl, rfl, h.cause_eq h'⟩
  | cons x between =>
    obtain ⟨rfl, rfl⟩ := List.cons.inj heq
    exact absurd h' h.not_later

theorem Located.unique (h : Located cs f) (h' : Located cs f') : f = f' := by
  obtain ⟨before, r, after, rfl, hblame, hoffset⟩ := h
  obtain ⟨before', r', after', heq, hblame', hoffset'⟩ := h'
  obtain ⟨cause, c, i⟩ := f
  obtain ⟨cause', c', i'⟩ := f'
  dsimp only at heq hblame hblame' hoffset hoffset'
  rcases List.append_eq_append_iff.mp heq with ⟨a, rfl, ha⟩ | ⟨a, rfl, ha⟩
  · obtain ⟨rfl, rfl, rfl⟩ := hblame.eq_of_split hblame' ha
    rw [hoffset, hoffset', List.append_nil]
  · obtain ⟨rfl, rfl, rfl⟩ := hblame'.eq_of_split hblame ha
    rw [hoffset, hoffset', List.append_nil]

/-- A text with a faulty marker is not made of pairs. -/
theorem Located.not_paired (h : Located cs f) : ¬ ∀ k, Paired (roles k cs) := by
  obtain ⟨before, r, after, rfl, hblame, -⟩ := h
  intro hpaired
  have hc := hpaired f.category
  rw [roles_split] at hc
  rcases hblame.breaks_or with hbreak | ⟨-, hcause⟩
  · exact hbreak hc.alternates.of_append
  · rw [hcause] at hblame
    cases hblame with
    | neverClosed _ hopen _ =>
      rw [← List.append_cons] at hc
      exact hopen hc.closing_mem

theorem decode_eq_error_iff : decode text = .error f ↔ Located text.toList f := by
  have hjudges := judges_decode text
  cases hdecode : decode text with
  | ok spans =>
    rw [hdecode] at hjudges
    exact ⟨nofun, fun h => absurd hjudges h.not_paired⟩
  | error f' =>
    rw [hdecode] at hjudges
    rw [Except.error.injEq]
    exact ⟨fun h => h ▸ hjudges, fun h => hjudges.unique h⟩

theorem decode_eq_ok_iff :
    (∃ spans, decode text = .ok spans) ↔ ∀ c, Paired (roles c text.toList) := by
  have hjudges := judges_decode text
  cases hdecode : decode text with
  | ok spans =>
    rw [hdecode] at hjudges
    exact ⟨fun _ => hjudges, fun _ => ⟨spans, rfl⟩⟩
  | error f =>
    rw [hdecode] at hjudges
    exact ⟨nofun, fun h => absurd h hjudges.not_paired⟩

/-! ### Reports -/

/-- The report of a fault counts lines and columns in the source before the marker. -/
theorem report_eq (htext : text.toList = before ++ after)
    (hoffset : f.offset = (unmarked before).length) :
    f.report text = ⟨f.category.name ++ " " ++ f.cause.text, some f.offset,
      some ((unmarked before).count '\n' + 1),
      some (((unmarked before).rtakeWhile (· ≠ '\n')).length + 1)⟩ := by
  have hstrip : (strip text).toList = unmarked before ++ unmarked after := by
    rw [toList_strip, htext, unmarked_append]
  have hclamp : (LineIndex.ofText (strip text).toList).clamp f.offset =
      (unmarked before).length := by
    rw [hstrip, hoffset, LineIndex.clamp, LineIndex.ofText, Int.toNat_natCast,
      List.length_append]
    exact Nat.min_eq_left (Nat.le_add_right _ _)
  rw [Fault.report, LineIndex.position_ofText, hclamp, hstrip, List.take_left]
  simp

/-- A text is read if the markers of each category come in pairs. Otherwise the fault is that of the
first marker that breaks the alternation of its category, or, if none does, of the first one that is
never closed; its place is counted in the source before it. -/
theorem decode_alternating (text : String) :
    ((∃ spans, decode text = .ok spans) ↔ ∀ c, Paired (roles c text.toList)) ∧
      ∀ f, decode text = .error f ↔ ∃ before r after,
        text.toList = before ++ signOf f.category r :: after ∧
          Blames before f.category after r f.cause ∧ f.offset = (unmarked before).length ∧
            f.report text = ⟨f.category.name ++ " " ++ f.cause.text, some f.offset,
              some ((unmarked before).count '\n' + 1),
              some (((unmarked before).rtakeWhile (· ≠ '\n')).length + 1)⟩ := by
  refine ⟨decode_eq_ok_iff, fun f => decode_eq_error_iff.trans ?_⟩
  constructor
  · rintro ⟨before, r, after, htext, hblame, hoffset⟩
    exact ⟨before, r, after, htext, hblame, hoffset, report_eq htext hoffset⟩
  · rintro ⟨before, r, after, htext, hblame, hoffset, -⟩
    exact ⟨before, r, after, htext, hblame, hoffset⟩

/-- A keyword that is never closed behind an identifier that is, and a string literal that is opened
twice before that shows. -/
example :
    decode "\x01a\n\x00b\x81c" = .error ⟨.neverClosed, .keyword, 2⟩ ∧
      decode "\x01a\n\x06\x00b\x06c" = .error ⟨.openedTwice, .string, 3⟩ := by decide

end Lexeme.Markup
