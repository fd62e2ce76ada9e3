import Lexeme.Proofs.Session.Scopes

/-! Lexers in a session. A lexer is made with the settings that are active then, and all that
happens to it later is that it gets its own result; an iteration over its tokens stays with it even
if its name goes to a new lexer. Main statement: settings are scoped, and a run without settings of
its own uses those that were active when its lexer was made. -/

namespace Lexeme.Session

variable {st : State} {s : Step} {lexers : List (String × LazyLexer)} {new l : LazyLexer}
  {id : String} {k : Nat} {core core' : Core}

/-! ### Named lexers -/

/-- `l` is the lexer `new`, before or after its run. -/
def Stems (new l : LazyLexer) : Prop :=
  l = new ∨ ∃ r, new.outcome = .ok r ∧ l = { new with result := some r }

theorem Stems.outcome_eq (h : Stems new l) : l.outcome = new.outcome := by
  rcases h with rfl | ⟨r, hr, rfl⟩
  · rfl
  · exact hr.symm

theorem Stems.source_eq (h : Stems new l) : l.source = new.source := by
  rcases h with rfl | ⟨_, _, rfl⟩ <;> rfl

theorem Stems.sourceFile_eq (h : Stems new l) : l.sourceFile = new.sourceFile := by
  rcases h with rfl | ⟨_, _, rfl⟩ <;> rfl

theorem Stems.keep (h : Stems new l) {r : Run} (hr : l.outcome = .ok r) :
    Stems new { l with result := some r } := by
  refine .inr ⟨r, h.outcome_eq.symm.trans hr, ?_⟩
  rcases h with rfl | ⟨_, _, rfl⟩ <;> rfl

/-- The name stands for the lexer `new`, before or after its run. -/
def Holds (lexers : List (String × LazyLexer)) (id : String) (new : LazyLexer) : Prop :=
  ∃ l, lexers.lookup id = some l ∧ Stems new l

theorem Holds.set_of_ne (h : Holds lexers id new) {i : String} (hi : id ≠ i) (l : LazyLexer) :
    Holds (Tally.set i l lexers) id new := by
  obtain ⟨l', hl', hstems⟩ := h
  exact ⟨l', (Tally.lookup_set_of_ne hi l lexers).trans hl', hstems⟩

theorem Holds.asked {lexers' : List (String × LazyLexer)} (h : Holds lexers id new)
    (hasked : Asked lexers lexers') : Holds lexers' id new := by
  cases hasked with
  | same => exact h
  | @result i l r hl hr =>
    by_cases hid : id = i
    · subst hid
      obtain ⟨l', hl', hstems⟩ := h
      obtain rfl := Option.some.inj (hl.symm.trans hl')
      exact ⟨_, Tally.lookup_set_self id _ lexers, hstems.keep hr⟩
    · exact h.set_of_ne hid _

/-- The step gives the name to a new lexer. -/
def Step.Creates (id : String) : Step → Prop
  | .newLexer i _ own _ => i = id ∧ ∀ built ∈ own, built.isOk
  | _ => False

theorem Holds.step (h : Holds st.lexers id new) (hs : ¬ s.Creates id) :
    Holds (step st s).2.lexers id new := by
  have hchange := step_change st s
  change Holds (Session.step st s).2.core.lexers id new
  generalize (Session.step st s).2.core = core at hchange ⊢
  cases hchange with
  | answer _ _ hasked => exact h.asked hasked
  | take hasked _ => exact h.asked hasked
  | create hown =>
    refine h.set_of_ne ?_ _
    rintro rfl
    refine hs ⟨rfl, fun built hbuilt => ?_⟩
    obtain rfl := Option.mem_def.mp hbuilt
    obtain rfl : built = .ok _ := hown
    rfl
  | _ => exact h

theorem Holds.after {steps : List Step} (h : Holds st.lexers id new)
    (hs : ∀ s ∈ steps, ¬ s.Creates id) : Holds (after st steps).lexers id new := by
  induction steps generalizing st with
  | nil => exact h
  | cons s steps ih =>
    exact ih (h.step (hs s List.mem_cons_self)) fun u hu => hs u (List.mem_cons_of_mem s hu)

/-- A lexer that is given no settings takes those that are active. -/
theorem holds_newLexer (st : State) (id source : String) (sourceFile : Option String) :
    Holds (step st (.newLexer id source none sourceFile)).2.lexers id
      ⟨source, sourceFile, st.settings, none⟩ :=
  ⟨_, Tally.lookup_set_self id _ _, .inl rfl⟩

/-! ### Iterations -/

/-- The tokens of a lexer; there are none without a result. -/
def LazyLexer.tokens (l : LazyLexer) : List Token :=
  match l.outcome with
  | .ok r => Lexer.tokensOf l.source l.sourceFile r.spans
  | .error _ => []

/-- The answer to who asks for token number `k`. A fault shows at the first token. -/
def LazyLexer.token (l : LazyLexer) (k : Nat) : Answer :=
  match l.outcome with
  | .ok _ => .token l.tokens[k]?
  | .error f => if k = 0 then .fault f else .token none

theorem Stems.tokens_eq (h : Stems new l) : l.tokens = new.tokens := by
  rw [LazyLexer.tokens, LazyLexer.tokens, h.outcome_eq, h.source_eq, h.sourceFile_eq]

theorem Stems.token_eq (h : Stems new l) (k : Nat) : l.token k = new.token k := by
  rw [LazyLexer.token, LazyLexer.token, h.outcome_eq, h.tokens_eq]

/-- In the iteration of this name `k` tokens of the lexer `new` have been taken. Before the first
one it looks for its lexer under the name, or has kept it. -/
inductive Taken (core : Core) (id : String) (new : LazyLexer) : Nat → Prop where
  | unstarted (hit : core.iterations.lookup id = some .unstarted)
      (hholds : Holds core.lexers id new) : Taken core id new 0
  | earlier {l : LazyLexer} (hit : core.iterations.lookup id = some (.earlier l))
      (hstems : Stems new l) : Taken core id new 0
  | rest {k : Nat} (hit : core.iterations.lookup id = some (.rest (new.tokens.drop (k + 1)))) :
      Taken core id new (k + 1)

theorem Taken.congr (h : Taken core id new k)
    (hit : core'.iterations.lookup id = core.iterations.lookup id)
    (hholds : Holds core.lexers id new → Holds core'.lexers id new) : Taken core' id new k := by
  cases h with
  | unstarted hit' hholds' => exact .unstarted (hit.trans hit') (hholds hholds')
  | earlier hit' hstems => exact .earlier (hit.trans hit') hstems
  | rest hit' => exact .rest (hit.trans hit')

theorem LazyLexer.token_succ (l : LazyLexer) (k : Nat) :
    l.token (k + 1) = .token (l.tokens.drop (k + 1)).head? := by
  rw [LazyLexer.token, List.head?_drop, LazyLexer.tokens]
  cases l.outcome <;> simp

/-- The first token is taken from the lexer; what follows it is the rest. -/
theorem startOn_token (st : State) (id : String) (l : LazyLexer) (keep : State → Run → State) :
    (startOn st id l keep).1 = l.token 0 ∧
      (startOn st id l keep).2.iterations.lookup id = some (.rest (l.tokens.drop 1)) := by
  obtain ⟨profiles, log, hresult⟩ := resultOf_eq st l
  rw [startOn, hresult]
  cases hr : l.outcome with
  | ok r =>
    simp only [LazyLexer.token, LazyLexer.tokens, hr, takeFirst, setIteration,
      Tally.lookup_set_self, List.head?_eq_getElem?, List.drop_one, and_self]
  | error f =>
    simp only [LazyLexer.token, LazyLexer.tokens, hr, setIteration, Tally.lookup_set_self, if_true,
      List.drop_nil, and_self]

theorem nextToken_unstarted (hit : st.iterations.lookup id = some .unstarted)
    (hl : st.lexers.lookup id = some l) :
    nextToken st id = startOn st id l fun st r => keepResult st id l r := by
  rw [nextToken, hit, hl]

theorem nextToken_earlier (hit : st.iterations.lookup id = some (.earlier l)) :
    nextToken st id = startOn st id l fun st _ => st := by
  rw [nextToken, hit]

theorem nextToken_rest {ts : List Token} (hit : st.iterations.lookup id = some (.rest ts)) :
    nextToken st id = takeFirst st id ts := by
  rw [nextToken, hit]

/-- To take a token is to get the next one of `new`, wherever the lexer was kept until now. -/
theorem Taken.next (h : Taken st.core id new k) :
    (nextToken st id).1 = new.token k ∧ Taken (nextToken st id).2.core id new (k + 1) := by
  have hstart : ∀ {l : LazyLexer} (keep : State → Run → State), Stems new l →
      (startOn st id l keep).1 = new.token 0 ∧ Taken (startOn st id l keep).2.core id new 1 := by
    intro l keep hstems
    obtain ⟨hanswer, hrest⟩ := startOn_token st id l keep
    rw [hstems.token_eq] at hanswer
    rw [hstems.tokens_eq] at hrest
    exact ⟨hanswer, .rest hrest⟩
  cases h with
  | unstarted hit hholds =>
    obtain ⟨l, hl, hstems⟩ := hholds
    rw [nextToken_unstarted hit hl]
    exact hstart _ hstems
  | earlier hit hstems =>
    rw [nextToken_earlier hit]
    exact hstart _ hstems
  | @rest k hit =>
    rw [nextToken_rest hit, takeFirst, new.token_succ k, List.tail_drop]
    exact ⟨rfl, .rest (Tally.lookup_set_self id _ _)⟩

theorem detach_unstarted (hit : st.iterations.lookup id = some .unstarted)
    (hl : st.lexers.lookup id = some l) : detach st id = setIteration st id (.earlier l) := by
  rw [detach, hit, hl]

theorem detach_of_ne_unstarted {it : Iteration} (hit : st.iterations.lookup id = some it)
    (hne : it ≠ .unstarted) : detach st id = st := by
  rw [detach, hit]
  cases it with
  | unstarted => exact absurd rfl hne
  | earlier l => rfl
  | rest ts => rfl

theorem detach_lookup_of_ne {i : String} (hi : id ≠ i) (st : State) :
    (detach st i).iterations.lookup id = st.iterations.lookup id := by
  unfold detach
  split
  · exact Tally.lookup_set_of_ne hi _ _
  · rfl

/-- When the name goes to a new lexer, an iteration that has not started keeps the earlier one. -/
theorem Taken.detach (h : Taken st.core id new k) :
    Taken { st.core with lexers := lexers, iterations := (detach st id).iterations } id new k := by
  cases h with
  | unstarted hit hholds =>
    obtain ⟨l, hl, hstems⟩ := hholds
    rw [detach_unstarted hit hl]
    exact .earlier (Tally.lookup_set_self id _ _) hstems
  | earlier hit hstems =>
    rw [detach_of_ne_unstarted hit (by simp)]
    exact .earlier hit hstems
  | rest hit =>
    rw [detach_of_ne_unstarted hit (by simp)]
    exact .rest hit

/-- Steps that neither begin the iteration anew nor take from it leave it where it is. -/
theorem Taken.step (h : Taken st.core id new k) (hi : s ≠ .iterate id) (hn : s ≠ .next id) :
    Taken (step st s).2.core id new k := by
  have hchange := step_change st s
  generalize (Session.step st s).2.core = core at hchange ⊢
  cases hchange with
  | answer _ _ hasked => exact h.congr rfl fun hholds => hholds.asked hasked
  | @create i _ _ _ _ hown =>
    by_cases hid : id = i
    · subst hid
      exact h.detach
    · exact h.congr (detach_lookup_of_ne hid st) fun hholds => hholds.set_of_ne hid _
  | @iterate i _ _ =>
    have hid : id ≠ i := fun hid => hi (hid ▸ rfl)
    exact h.congr (Tally.lookup_set_of_ne hid _ _) fun hholds => hholds
  | @take i _ hasked it =>
    have hid : id ≠ i := fun hid => hn (hid ▸ rfl)
    exact h.congr (Tally.lookup_set_of_ne hid _ _) fun hholds => hholds.asked hasked
  | _ => exact h.congr rfl fun hholds => hholds

/-- The step takes a token of this name. -/
def Step.takes (id : String) : Step → Bool
  | .next i => i == id
  | _ => false

theorem Step.takes_iff : s.takes id = true ↔ s = .next id := by
  cases s with
  | next i => simp only [takes, beq_iff_eq, Step.next.injEq]
  | _ => simp only [takes, Bool.false_eq_true, reduceCtorEq]

theorem Holds.iterate (h : Holds st.lexers id new) :
    Taken (Session.step st (.iterate id)).2.core id new 0 := by
  have hstep : (Session.step st (.iterate id)).2 = setIteration st id .unstarted := by
    obtain ⟨l, hl, -⟩ := h
    rw [Session.step, hl]
  rw [hstep]
  exact .unstarted (Tally.lookup_set_self id _ _) h

/-- Each token is taken once, and in order. -/
theorem Taken.after {later : List Step} (h : Taken st.core id new k)
    (hlater : Step.iterate id ∉ later) :
    Taken (after st later).core id new (k + later.countP (Step.takes id)) := by
  induction later generalizing st k with
  | nil => exact h
  | cons s later ih =>
    rw [List.mem_cons, not_or] at hlater
    by_cases hs : s.takes id = true
    · obtain rfl := Step.takes_iff.mp hs
      rw [List.countP_cons_of_pos hs, ← Nat.add_assoc, Nat.add_right_comm]
      exact ih h.next.2 hlater.2
    · rw [List.countP_cons_of_neg hs]
      exact ih (h.step (Ne.symm hlater.1) fun hn => hs (Step.takes_iff.mpr hn)) hlater.2

/-! ### Settings of a run -/

/-- The answer that a configuration gives; settings that are none give their fault. -/
def under (settings : Settings) (answer : Config → Answer) : Answer :=
  match settings.config with
  | .ok c => answer c
  | .error f => .fault (.settings f)

theorem answerFrom_outcome (settings : Settings) (source : String) (answer : Run → Answer) :
    answerFrom (outcome settings source) answer =
      under settings fun c => answer (Lexer.run c source) := by
  cases settings <;> rfl

/-- The answer to who asks for token number `k`: with settings that are no configuration a fault,
and after it no token. -/
def tokenUnder (settings : Settings) (k : Nat) (tokens : Config → List Token) : Answer :=
  match settings.config with
  | .ok c => .token (tokens c)[k]?
  | .error f => if k = 0 then .fault (.settings f) else .token none

theorem token_new (settings : Settings) (source : String) (sourceFile : Option String) (k : Nat) :
    LazyLexer.token ⟨source, sourceFile, settings, none⟩ k =
      tokenUnder settings k fun c => Lexer.tokenize c source sourceFile := by
  cases settings <;> rfl

theorem answerNow_answer (st : State) (source : String) (answer : Run → Answer) :
    (answerNow st source answer).1 =
      under st.settings fun c => answer (Lexer.run c source) := by
  obtain ⟨profiles, log, hnow⟩ := answerNow_eq st source answer
  rw [hnow, answerFrom_outcome]

/-- The answers of a lexer come from its source and its settings. -/
theorem Holds.ask_answer {settings : Settings} {source : String} {sourceFile : Option String}
    (h : Holds st.lexers id ⟨source, sourceFile, settings, none⟩)
    (answer : String → Option String → Run → Answer) :
    (ask st id fun l r => answer l.source l.sourceFile r).1 =
      under settings fun c => answer source sourceFile (Lexer.run c source) := by
  obtain ⟨l, hl, hstems⟩ := h
  rw [Session.ask_answer hl, hstems.outcome_eq, hstems.source_eq, hstems.sourceFile_eq]
  exact answerFrom_outcome settings source _

/-- Settings are scoped. Whatever a session has done before, a block that is entered now restores
the active settings when it is left, whatever is chosen, entered and left in between; and a run
without settings of its own uses the active ones, at once or when its lexer is asked, however often
they have changed since it was made. -/
theorem settings_scoped (before : List Step) :
    -- leaving a block restores what was active before it was entered
    (∀ settings inner exit, Balanced inner →
      (after .start
        (before ++ .pushConfig (.ok settings) :: inner ++ [.popConfig exit])).settings =
          (after .start before).settings) ∧
    -- every step that leaves a block finds one that was entered like this
    (∀ exit, answerAfter before (.popConfig exit) = .fault .noOpenBlock ∨
      ∃ outside settings inner, before = outside ++ .pushConfig (.ok settings) :: inner ∧
        Balanced inner) ∧
    -- a run on the spot uses the settings that are active
    (∀ source, answerAfter before (.lex source) =
      under (after .start before).settings fun c => .text (Lexer.lex c source)) ∧
    (∀ source sourceFile, answerAfter before (.tokenize source sourceFile) =
      under (after .start before).settings fun c =>
        .tokens (Lexer.tokenize c source sourceFile)) ∧
    (∀ source classes, answerAfter before (.render source classes) =
      under (after .start before).settings fun c => .text (Lexer.render c classes source)) ∧
    -- a lexer uses those that were active when it was made
    ∀ id source sourceFile between, (∀ s ∈ between, ¬ Step.Creates id s) →
      let made := before ++ .newLexer id source none sourceFile :: between
      answerAfter made (.spans id) =
        under (after .start before).settings (fun c => .spans (Lexer.spans c source)) ∧
      answerAfter made (.annotate id) =
        under (after .start before).settings (fun c => .text (Lexer.lex c source)) ∧
      answerAfter made (.tokens id) =
        under (after .start before).settings
          (fun c => .tokens (Lexer.tokenize c source sourceFile)) ∧
      ∀ later, Step.iterate id ∉ later →
        answerAfter (made ++ .iterate id :: later) (.next id) =
          tokenUnder (after .start before).settings (later.countP (Step.takes id))
            fun c => Lexer.tokenize c source sourceFile := by
  refine ⟨fun settings inner exit hinner => ?_, fun exit => ?_, fun source => ?_,
    fun source sourceFile => ?_, fun source classes => ?_, ?_⟩
  · rw [List.append_assoc, after_append, (after_block settings hinner.saved_after exit _).1]
  · by_cases h : (after .start before).saved = []
    · exact .inl (by rw [answerAfter, step, h])
    · exact .inr (exists_open_block h)
  · exact answerNow_answer _ source _
  · exact answerNow_answer _ source _
  · exact answerNow_answer _ source _
  · intro id source sourceFile between hbetween made
    have hholds : Holds (after .start made).lexers id
        ⟨source, sourceFile, (after .start before).settings, none⟩ := by
      rw [after_append, after_cons]
      exact (holds_newLexer _ id source sourceFile).after hbetween
    refine ⟨hholds.ask_answer fun _ _ r => .spans r.spans,
      hholds.ask_answer fun source _ r => .text (Markup.annotate source r.spans),
      hholds.ask_answer fun source file r => .tokens (Lexer.tokensOf source file r.spans),
      fun later hlater => ?_⟩
    have htaken := hholds.iterate.after hlater
    rw [← after_cons, ← after_append, Nat.zero_add] at htaken
    exact htaken.next.1.trans (token_new _ source sourceFile _)

/-- A block with another one in it that is left by an exception, and a lexer whose name goes to a
new one while its tokens are taken. -/
theorem settings_scoped_nested :
    let unrepaired : Config := ⟨Category.all, Rule.standard, .bool false⟩
    let mute : Settings := .ready ⟨[], Rule.standard, .bool true⟩
    let inner : List Step :=
      [.resetConfig, .pushConfig (.error .wrongType), .pushConfig (.ok mute),
        .setConfig (.ok (.ready unrepaired)), .popConfig .exception]
    let later : List Step :=
      [.next "a", .pushConfig (.ok mute), .newLexer "a" "y" none none, .next "b"]
    Balanced inner ∧
      (after .start (.setConfig (.ok (.ready unrepaired)) :: .pushConfig (.ok mute) :: inner ++
        [.popConfig .normal])).settings = .ready unrepaired ∧
      ¬ Step.Creates "a" .resetConfig ∧ Step.iterate "a" ∉ later ∧
      answerAfter (.setConfig (.ok (.ready unrepaired)) :: .newLexer "a" "int x" none none ::
        .resetConfig :: .iterate "a" :: later) (.next "a") =
          .token (Lexer.tokenize unrepaired "int x" none)[1]? := by
  intro unrepaired mute inner later
  obtain ⟨hblock, -, -, -, -, hlexer⟩ := settings_scoped [.setConfig (.ok (.ready unrepaired))]
  have hchoose : Balanced [.resetConfig] ∧ Balanced [.setConfig (.ok (.ready unrepaired))] :=
    ⟨.plain not_false not_false, .plain not_false not_false⟩
  have hattempt : Balanced [.pushConfig (.error .wrongType)] := .plain not_false not_false
  have hinner : Balanced inner :=
    hchoose.1.append (hattempt.append (.block mute hchoose.2 .exception))
  have hreset : ¬ Step.Creates "a" .resetConfig := not_false
  have hlater : Step.iterate "a" ∉ later := by simp [later]
  refine ⟨hinner, hblock mute inner .normal hinner, hreset, hlater, ?_⟩
  exact (hlexer "a" "int x" none [.resetConfig] (by simpa using hreset)).2.2.2 later hlater

end Lexeme.Session
