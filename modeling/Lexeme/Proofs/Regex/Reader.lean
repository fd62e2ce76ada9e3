import Lexeme.Regex.Reader

/-! What the reader of expressions gets from a text that goes on. An atom is read the same whatever
follows it, a sequence where no quantifier follows, and alternatives up to a closing parenthesis or
the end. Main statements: texts of these three sorts are put together by juxtaposition, quantifiers,
bars and groups, and what is read agrees with the expressions put together alike. -/

namespace Lexeme

namespace CharClass

/-! ### Classes -/

/-- What a text starts with is not changed by what follows it. -/
theorem append_starts {cs : List Char} {c : Char} (hcs : cs ≠ []) (h : ∀ r, cs = c :: r → False)
    (more r : List Char) : cs ++ more = c :: r → False := by
  cases cs with
  | nil => exact absurd rfl hcs
  | cons d cs =>
    intro hr
    exact h cs (by rw [(List.cons.inj hr).1])

/-- What the reader gets from the head of a text is not changed by what follows the text, if
something was left over. Digits and names go on as long as they can. -/
def ReadsOn (reader : List Char → Option (Item × List Char)) : Prop :=
  ∀ {cs rest : List Char} {item : Item}, reader cs = some (item, rest) → rest ≠ [] →
    ∀ more, reader (cs ++ more) = some (item, rest ++ more)

theorem readPoint_append (base least most bound : Nat) :
    ReadsOn (readPoint base least most bound) := by
  intro cs rest item h hrest more
  rw [readPoint] at h
  split at h
  · next hdigits =>
    cases h
    rw [readPoint, Digits.splitUpTo_append hrest, if_pos hdigits]
  · cases h

theorem readNamed_append [CharNames] : ReadsOn readNamed := by
  intro cs rest item h hrest more
  unfold readNamed at h
  split at h
  · next name =>
    split at h
    · cases h
    · next c tail hdrop =>
      have hopen : name.dropWhile (· != '\x7d') ≠ [] := by simp [hdrop]
      obtain ⟨n, hn, heq⟩ := Option.map_eq_some_iff.mp h
      cases heq
      have htake : (name.takeWhile (· != '\x7d')).length ≠ name.length := by
        intro hlength
        have htext := List.takeWhile_append_dropWhile (p := (· != '\x7d')) (l := name)
        rw [List.takeWhile_prefix _ |>.eq_of_length hlength] at htext
        simp_all
      simp [readNamed, List.dropWhile_append, List.takeWhile_append, hdrop, htake, hn]
  · cases h

theorem readEscape_append [CharNames] : ReadsOn readEscape := by
  intro cs rest item h hrest more
  unfold readEscape at h
  split at h
  · cases h
  · exact readPoint_append 16 2 2 _ h hrest more
  · exact readPoint_append 16 4 4 _ h hrest more
  · exact readPoint_append 16 8 8 _ h hrest more
  · exact readNamed_append h hrest more
  · next c tail hx hu hU hN =>
    rw [List.cons_append, readEscape]
    · split at h
      · cases h
        rfl
      · obtain ⟨d, hd, heq⟩ := Option.map_eq_some_iff.mp h
        cases heq
        rw [hd]
        rfl
    · exact hx
    · exact hu
    · exact hU
    · exact hN

theorem readClassEscape_append [CharNames] : ReadsOn readClassEscape := by
  intro cs rest item h hrest more
  unfold readClassEscape at h
  split at h
  · cases h
    rfl
  · next hb =>
    have hcs : cs ≠ [] := by
      rintro rfl
      cases h
    have hhead : (cs ++ more).head? = cs.head? := by
      rw [List.head?_append, Option.or_of_isSome (List.isSome_head?.mpr hcs)]
    rw [readClassEscape, hhead]
    · split at h
      · next hdigit =>
        rw [if_pos hdigit]
        exact readPoint_append 8 1 3 _ h hrest more
      · next hdigit =>
        rw [if_neg hdigit]
        exact readEscape_append h hrest more
    · exact append_starts hcs hb more

theorem readItem_append [CharNames] : ReadsOn readItem := by
  intro cs rest item h hrest more
  unfold readItem at h
  split at h
  · cases h
  · exact readClassEscape_append h hrest more
  · cases h
    simp [readItem]

theorem ne_nil_of_readItem [CharNames] {cs : List Char} {x : Item × List Char}
    (h : readItem cs = some x) : cs ≠ [] := by
  rintro rfl
  cases h

theorem ne_nil_of_readItems [CharNames] {cs : List Char} {n : Nat} {first : Bool}
    {x : List CodeRange × List Char} (h : readItems n first cs = some x) : cs ≠ [] := by
  rintro rfl
  cases n <;> cases h

theorem readItems_append [CharNames] {cs rest : List Char} {ranges : List CodeRange}
    {first : Bool} {n m : Nat} (h : readItems n first cs = some (ranges, rest)) (hn : n ≤ m)
    (more : List Char) :
    readItems m first (cs ++ more) = some (ranges, rest ++ more) := by
  induction n generalizing m first cs ranges with
  | zero => cases h
  | succ n ih =>
    obtain ⟨m, rfl⟩ := Nat.exists_eq_add_of_le' (Nat.one_le_of_lt hn)
    have hm : n ≤ m := Nat.le_of_succ_le_succ hn
    have hcs := ne_nil_of_readItems h
    unfold readItems at h
    split at h
    · cases h
      rfl
    · next hopen =>
      obtain ⟨⟨item, tail⟩, hitem, h⟩ := Option.bind_eq_some_iff.mp h
      have hopen' : ∀ r, cs ++ more = ']' :: r → first = false → False :=
        fun r hr hfirst => append_starts hcs (fun r' hr' => hopen r' hr' hfirst) more r hr
      dsimp only at h
      split at h
      -- A hyphen before the closing bracket is an element.
      · cases h
        rw [readItems, readItem_append hitem (List.cons_ne_nil _ _) more]
        · rfl
        · exact hopen'
      · next tail hedge =>
        obtain ⟨⟨last, tail'⟩, hlast, h⟩ := Option.bind_eq_some_iff.mp h
        obtain ⟨range, hrange, h⟩ := Option.bind_eq_some_iff.mp h
        obtain ⟨⟨ranges', rest'⟩, hrest, h⟩ := Option.bind_eq_some_iff.mp h
        have hedge' := append_starts (ne_nil_of_readItem hlast) hedge more
        cases h
        rw [readItems, readItem_append hitem (List.cons_ne_nil _ _) more]
        · simp [readItem_append hlast (ne_nil_of_readItems hrest) more, hrange, ih hrest hm]
        · exact hopen'
      · next hedge hhyphen =>
        obtain ⟨⟨ranges', rest'⟩, hrest, h⟩ := Option.bind_eq_some_iff.mp h
        have hhyphen' := append_starts (ne_nil_of_readItems hrest) hhyphen more
        have hedge' := fun r => hhyphen' (']' :: r)
        cases h
        rw [readItems, readItem_append hitem (ne_nil_of_readItems hrest) more]
        · simp [ih hrest hm]
        · exact hopen'

/-- A class is read the same whatever follows it. -/
theorem read_append [CharNames] {cs rest : List Char} {k : CharClass} (h : read cs = some (k, rest))
    (more : List Char) : read (cs ++ more) = some (k, rest ++ more) := by
  have hlength (cs : List Char) : cs.length + 1 ≤ (cs ++ more).length + 1 := by simp
  unfold read at h
  split at h
  · obtain ⟨⟨ranges, tail⟩, hitems, heq⟩ := Option.map_eq_some_iff.mp h
    cases heq
    rw [List.cons_append, read, readItems_append hitems (hlength _)]
    rfl
  · next hnegated =>
    obtain ⟨⟨ranges, tail⟩, hitems, heq⟩ := Option.map_eq_some_iff.mp h
    have hnegated' := append_starts (ne_nil_of_readItems hitems) hnegated more
    cases heq
    rw [read, readItems_append hitems (hlength _)]
    · rfl
    · exact hnegated'

end CharClass

namespace Regex

variable {a b q q' : Regex} {cs rest out s s' : List Char} {k n : Nat}

/-! ### Expressions that differ in their grouping -/

/-- The two expressions reach the same ends in the same order, and keep to the same limit. -/
structure Agrees (a b : Regex) : Prop where
  ends : ∀ t i, a.ends t i = b.ends t i
  bounded : a.isBounded = b.isBounded

namespace Agrees

variable {a' b' c : Regex}

theorem refl (a : Regex) : Agrees a a := ⟨fun _ _ => rfl, rfl⟩

theorem symm (h : Agrees a b) : Agrees b a := ⟨fun t i => (h.ends t i).symm, h.bounded.symm⟩

theorem trans (h : Agrees a b) (h' : Agrees b c) : Agrees a c :=
  ⟨fun t i => (h.ends t i).trans (h'.ends t i), h.bounded.trans h'.bounded⟩

theorem ends_eq (h : Agrees a b) (t : Array Char) : a.ends t = b.ends t := funext (h.ends t)

theorem seq (ha : Agrees a a') (hb : Agrees b b') : Agrees (.seq a b) (.seq a' b') :=
  ⟨fun t i => by simp only [Regex.ends, ha.ends_eq, hb.ends_eq],
    by simp only [isBounded, ha.bounded, hb.bounded]⟩

theorem alt (ha : Agrees a a') (hb : Agrees b b') : Agrees (.alt a b) (.alt a' b') :=
  ⟨fun t i => by simp only [Regex.ends, ha.ends_eq, hb.ends_eq],
    by simp only [isBounded, ha.bounded, hb.bounded]⟩

theorem notAhead (h : Agrees a b) : Agrees (.notAhead a) (.notAhead b) :=
  ⟨fun t i => by simp only [Regex.ends, h.ends_eq], by simp only [isBounded, h.bounded]⟩

theorem rep (h : Agrees a b) (low : Nat) (high : Option Nat) :
    Agrees (.rep a low high) (.rep b low high) :=
  ⟨fun t i => by simp only [Regex.ends, h.ends_eq], by simp only [isBounded, h.bounded]⟩

theorem seq_assoc (a b c : Regex) : Agrees (.seq a (.seq b c)) (.seq (.seq a b) c) :=
  ⟨fun t i => by simp only [Regex.ends, List.flatMap_assoc],
    by simp only [isBounded, Bool.and_assoc]⟩

theorem alt_assoc (a b c : Regex) : Agrees (.alt a (.alt b c)) (.alt (.alt a b) c) :=
  ⟨fun t i => by simp only [Regex.ends, List.append_assoc],
    by simp only [isBounded, Bool.and_assoc]⟩

theorem seq_empty (a : Regex) : Agrees (.seq a .empty) a :=
  ⟨fun t i => by simp [Regex.ends], by simp [isBounded]⟩

end Agrees

/-! ### Steps of the reader -/

variable [CharNames]

/-- Where an atom can be read there is no quantifier, so that none is taken from the next part. -/
theorem readQuantifier_of_readAtom {x : Regex × List Char} (h : readAtom n cs = some x) :
    readQuantifier cs = none := by
  cases n with
  | zero => cases h
  | succ n =>
    unfold readQuantifier
    split
    · simp [readAtom] at h
    · simp [readAtom] at h
    · simp [readAtom] at h
    -- A brace is a literal character exactly where no bounds follow it.
    · exact (by simpa [readAtom] using h : _ ∧ _).1
    · rfl

theorem not_stop_of_readAtom {x : Regex × List Char} (h : readAtom n cs = some x) :
    cs ≠ [] ∧ (∀ r, cs ≠ '|' :: r) ∧ ∀ r, cs ≠ ')' :: r := by
  cases n with
  | zero => cases h
  | succ n =>
    refine ⟨?_, fun r => ?_, fun r => ?_⟩ <;> rintro rfl <;> simp [readAtom] at h

theorem readSequence_atom (ha : readAtom n cs = some (a, rest)) (hq : readQuantifier rest = none)
    (hb : readSequence n rest = some (b, out)) :
    readSequence (n + 1) cs = some (.seq a b, out) := by
  obtain ⟨hnil, hbar, hclose⟩ := not_stop_of_readAtom ha
  simp [readSequence, ha, hq, hb]

theorem readSequence_quantified {low : Nat} {high : Option Nat} {rest' : List Char}
    (ha : readAtom n cs = some (a, rest)) (hq : readQuantifier rest = some ((low, high), rest'))
    (hanchor : atAnchor cs = false) (hbounds : high.any (· < low) = false)
    (hb : readSequence n rest' = some (b, out)) :
    readSequence (n + 1) cs = some (.seq (.rep a low high) b, out) := by
  obtain ⟨hnil, hbar, hclose⟩ := not_stop_of_readAtom ha
  simp [readSequence, ha, hq, hb, hanchor, hbounds]

/-- Here alternatives end. -/
def Closes (rest : List Char) : Prop := rest = [] ∨ ∃ more, rest = ')' :: more

/-- Here a sequence ends. -/
def Stops (rest : List Char) : Prop := Closes rest ∨ ∃ more, rest = '|' :: more

omit [CharNames] in
theorem Stops.unquantified (h : Stops rest) : readQuantifier rest = none := by
  rcases h with (rfl | ⟨more, rfl⟩) | ⟨more, rfl⟩ <;> rfl

theorem Stops.readSequence (h : Stops rest) (n : Nat) :
    readSequence (n + 1) rest = some (.empty, rest) := by
  rcases h with (rfl | ⟨more, rfl⟩) | ⟨more, rfl⟩ <;> rfl

theorem readAlternatives_last (ha : readSequence n cs = some (a, rest)) (hrest : Closes rest) :
    readAlternatives (n + 1) cs = some (a, rest) := by
  rcases hrest with rfl | ⟨more, rfl⟩ <;> simp [readAlternatives, ha]

theorem readAlternatives_bar (ha : readSequence n cs = some (a, '|' :: rest))
    (hb : readAlternatives n rest = some (b, out)) :
    readAlternatives (n + 1) cs = some (.alt a b, out) := by
  simp [readAlternatives, ha, hb]

/-! ### Texts that read as a given expression

Each of the three readers calls another one at most before a character is consumed. Fuel of three
times the length is therefore enough, and the bounds below add up when texts are put together. -/

/-- With fuel `k` or more, the reader gets `x` from the text. -/
def Reads (reader : Nat → List Char → Option (Regex × List Char)) (k : Nat) (cs : List Char)
    (x : Regex × List Char) : Prop :=
  ∀ n, k ≤ n → reader n cs = some x

omit [CharNames] in
theorem reads_of_succ {reader : Nat → List Char → Option (Regex × List Char)}
    {x : Regex × List Char} (hk : 0 < k) (h : ∀ n, k ≤ n + 1 → reader (n + 1) cs = some x) :
    Reads reader k cs x := by
  intro n hn
  cases n with
  | zero => omega
  | succ n => exact h n hn

/-- The text is read as one atom, whatever follows it. -/
def AtomText (s : List Char) (q : Regex) : Prop :=
  ∃ a, Agrees a q ∧ ∀ rest, Reads readAtom (3 * s.length) (s ++ rest) (a, rest)

/-- The text is read as the head of a sequence, where no quantifier follows. -/
structure SequenceText (s : List Char) (q : Regex) : Prop where
  unquantified : ∀ rest, readQuantifier (s ++ rest) = none
  -- What is read nests to the right: `f` puts this text before the sequence read from the rest.
  read : ∃ f : Regex → Regex, (∀ b, Agrees (f b) (.seq q b)) ∧
    ∀ rest b out k, readQuantifier rest = none → Reads readSequence (k + 1) rest (b, out) →
      Reads readSequence (k + 3 * s.length + 1) (s ++ rest) (f b, out)

/-- The text is read as alternatives, the last ones or with others after a bar. -/
structure AlternativesText (s : List Char) (q : Regex) : Prop where
  last : ∃ a, Agrees a q ∧
    ∀ rest, Closes rest → Reads readAlternatives (3 * s.length + 3) (s ++ rest) (a, rest)
  next : ∃ g : Regex → Regex, (∀ b, Agrees (g b) (.alt q b)) ∧
    ∀ rest b out k, Reads readAlternatives k rest (b, out) →
      Reads readAlternatives (k + 3 * s.length + 3) (s ++ '|' :: rest) (g b, out)

theorem AtomText.congr (h : AtomText s q) (hq : Agrees q q') : AtomText s q' := by
  obtain ⟨a, ha, hread⟩ := h
  exact ⟨a, ha.trans hq, hread⟩

theorem SequenceText.congr (h : SequenceText s q) (hq : Agrees q q') : SequenceText s q' := by
  obtain ⟨hnone, f, hf, hread⟩ := h
  exact ⟨hnone, f, fun b => (hf b).trans (hq.seq (.refl b)), hread⟩

theorem AtomText.length_pos (h : AtomText s q) : 0 < s.length := by
  obtain ⟨a, -, hread⟩ := h
  apply Nat.pos_of_ne_zero
  intro h0
  have := hread [] 0 (by omega)
  cases this

theorem AtomText.unquantified (h : AtomText s q) (rest : List Char) :
    readQuantifier (s ++ rest) = none := by
  obtain ⟨a, -, hread⟩ := h
  exact readQuantifier_of_readAtom (hread rest _ (Nat.le_refl _))

theorem AtomText.sequence (h : AtomText s q) : SequenceText s q := by
  refine ⟨h.unquantified, ?_⟩
  have hpos := h.length_pos
  obtain ⟨a, ha, hread⟩ := h
  refine ⟨.seq a, fun b => ha.seq (.refl b), fun rest b out k hq hrest => ?_⟩
  refine reads_of_succ (by omega) fun n hn => ?_
  exact readSequence_atom (hread rest n (by omega)) hq (hrest n (by omega))

/-- A quantifier applies to an atom that is no anchor. -/
theorem AtomText.quantified (h : AtomText s q) (hanchor : ∀ rest, atAnchor (s ++ rest) = false)
    {low : Nat} {high : Option Nat} (hbounds : high.any (· < low) = false)
    (hs' : ∀ rest, readQuantifier (s' ++ rest) = some ((low, high), rest)) :
    SequenceText (s ++ s') (.rep q low high) := by
  refine ⟨fun rest => by rw [List.append_assoc]; exact h.unquantified _, ?_⟩
  have hpos := h.length_pos
  obtain ⟨a, ha, hread⟩ := h
  refine ⟨.seq (.rep a low high), fun b => (ha.rep low high).seq (.refl b), ?_⟩
  intro rest b out k _ hrest
  rw [List.length_append, List.append_assoc]
  refine reads_of_succ (by omega) fun n hn => ?_
  exact readSequence_quantified (hread _ n (by omega)) (hs' rest) (hanchor _) hbounds
    (hrest n (by omega))

theorem SequenceText.append (h : SequenceText s q) (h' : SequenceText s' q') :
    SequenceText (s ++ s') (.seq q q') := by
  obtain ⟨hnone, f, hf, hread⟩ := h
  obtain ⟨hnone', f', hf', hread'⟩ := h'
  refine ⟨fun rest => by rw [List.append_assoc]; exact hnone _, f ∘ f', fun b => ?_, ?_⟩
  · exact ((hf (f' b)).trans ((Agrees.refl q).seq (hf' b))).trans (.seq_assoc q q' b)
  · intro rest b out k hq hrest n hn
    rw [List.length_append] at hn
    rw [List.append_assoc]
    exact hread _ _ _ _ (hnone' rest) (hread' rest b out k hq hrest) n (by omega)

/-- Where a sequence stops, so does the reading of a sequence text. -/
theorem SequenceText.stop (h : SequenceText s q) : ∃ a, Agrees a q ∧
    ∀ rest, Stops rest → Reads readSequence (3 * s.length + 1) (s ++ rest) (a, rest) := by
  obtain ⟨-, f, hf, hread⟩ := h
  refine ⟨f .empty, (hf .empty).trans (.seq_empty q), fun rest hrest => ?_⟩
  have hend : Reads readSequence (0 + 1) rest (.empty, rest) :=
    reads_of_succ (by omega) fun n _ => hrest.readSequence n
  simpa using hread rest .empty rest 0 hrest.unquantified hend

theorem SequenceText.alternatives (h : SequenceText s q) : AlternativesText s q := by
  obtain ⟨a, ha, hread⟩ := h.stop
  constructor
  · refine ⟨a, ha, fun rest hrest => reads_of_succ (by omega) fun n hn => ?_⟩
    exact readAlternatives_last (hread rest (.inl hrest) n (by omega)) hrest
  · refine ⟨.alt a, fun b => ha.alt (.refl b), fun rest b out k hrest => ?_⟩
    refine reads_of_succ (by omega) fun n hn => ?_
    exact readAlternatives_bar (hread _ (.inr ⟨rest, rfl⟩) n (by omega)) (hrest n (by omega))

theorem AlternativesText.bar (h : AlternativesText s q) (h' : AlternativesText s' q') :
    AlternativesText (s ++ '|' :: s') (.alt q q') := by
  obtain ⟨-, g, hg, hread⟩ := h
  obtain ⟨⟨a', ha', hlast'⟩, g', hg', hread'⟩ := h'
  have hlength : (s ++ '|' :: s').length = s.length + s'.length + 1 := by
    rw [List.length_append, List.length_cons, Nat.add_assoc]
  constructor
  · refine ⟨g a', (hg a').trans ((Agrees.refl q).alt ha'), fun rest hrest n hn => ?_⟩
    rw [List.append_assoc]
    exact hread _ _ _ _ (hlast' rest hrest) n (by omega)
  · refine ⟨g ∘ g', fun b => ?_, fun rest b out k hrest n hn => ?_⟩
    · exact ((hg (g' b)).trans ((Agrees.refl q).alt (hg' b))).trans (.alt_assoc q q' b)
    · rw [List.append_assoc]
      exact hread _ _ _ _ (hread' rest b out k hrest) n (by omega)

/-- Alternatives between parentheses are one atom; what it means depends on the opening one. -/
theorem AlternativesText.enclosed {opening : List Char} {f : Regex → Regex}
    (h : AlternativesText s q) (hf : ∀ a, Agrees a q → Agrees (f a) q') (hopening : opening ≠ [])
    (hatom : ∀ n cs a rest, readAlternatives n cs = some (a, ')' :: rest) →
      readAtom (n + 1) (opening ++ cs) = some (f a, rest)) :
    AtomText (opening ++ (s ++ [')'])) q' := by
  obtain ⟨⟨a, ha, hread⟩, -⟩ := h
  have hpos := List.length_pos_iff.mpr hopening
  refine ⟨f a, hf a ha, fun rest => reads_of_succ ?_ fun n hn => ?_⟩
  · rw [List.length_append]
    omega
  · simp only [List.length_append, List.length_singleton] at hn
    rw [List.append_assoc, List.append_assoc]
    exact hatom n _ a rest (hread (')' :: rest) (.inr ⟨rest, rfl⟩) n (by omega))

theorem AlternativesText.group (h : AlternativesText s q) :
    AtomText (['(', '?', ':'] ++ (s ++ [')'])) q :=
  h.enclosed (fun _ ha => ha) (List.cons_ne_nil _ _) fun n cs a rest hcs => by
    simp [readAtom, hcs]

theorem AlternativesText.notAhead (h : AlternativesText s q) :
    AtomText (['(', '?', '!'] ++ (s ++ [')'])) (.notAhead q) :=
  h.enclosed (fun _ ha => ha.notAhead) (List.cons_ne_nil _ _) fun n cs a rest hcs => by
    simp [readAtom, hcs]

theorem AlternativesText.ofText? {source : String} (h : AlternativesText source.toList q) :
    ∃ a, Agrees a q ∧ ofText? source = some a := by
  obtain ⟨⟨a, ha, hread⟩, -⟩ := h
  have := hread [] (.inl rfl) _ (Nat.le_refl _)
  rw [List.append_nil] at this
  refine ⟨a, ha, ?_⟩
  simp [Regex.ofText?, this]

end Regex

end Lexeme
