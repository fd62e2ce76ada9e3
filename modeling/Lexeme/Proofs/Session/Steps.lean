import Lexeme.Session

/-! Steps of a session, one by one and in sequence. Answers depend on the settings, those that are
saved, the lexers and the iterations; profiles and the log only record. Main statement:
`step_change`, all that a step can do to the former, from which the invariants of a session are
derived. -/

namespace Lexeme.Session

variable {st : State} {s : Step} {id : String} {l : LazyLexer}

/-! ### Sequences of steps -/

/-- The state after a sequence of steps. -/
def after (st : State) (steps : List Step) : State := steps.foldl (fun st s => (step st s).2) st

/-- The answer to a step that follows others in a session. -/
def answerAfter (steps : List Step) (s : Step) : Answer := (step (after .start steps) s).1

@[simp] theorem after_nil (st : State) : after st [] = st := rfl

@[simp] theorem after_cons (st : State) (s : Step) (steps : List Step) :
    after st (s :: steps) = after (step st s).2 steps := rfl

@[simp] theorem after_append (st : State) (xs ys : List Step) :
    after st (xs ++ ys) = after (after st xs) ys := List.foldl_append

/-- The last answer of a session. -/
theorem answers_concat (steps : List Step) (s : Step) :
    answers (steps ++ [s]) = answers steps ++ [answerAfter steps s] := by
  have hfrom : ∀ st, answersFrom st (steps ++ [s]) =
      answersFrom st steps ++ [(step (after st steps) s).1] := by
    induction steps with
    | nil => exact fun st => rfl
    | cons u steps ih => exact fun st => congrArg (List.cons (step st u).1) (ih (step st u).2)
  exact hfrom .start

/-! ### Runs -/

/-- What settings make of a source. -/
def outcome (settings : Settings) (source : String) : Except Fault Run :=
  match settings with
  | .ready c => .ok (Lexer.run c source)
  | .unresolvable _ => .error (.settings .notRules)

/-- The result of a lexer, of which it may have a copy. -/
def LazyLexer.outcome (l : LazyLexer) : Except Fault Run :=
  match l.result with
  | some r => .ok r
  | none => Session.outcome l.settings l.source

/-- Answers from a run, if there is one. -/
def answerFrom (run : Except Fault Run) (answer : Run → Answer) : Answer :=
  match run with
  | .ok r => answer r
  | .error f => .fault f

/-- A run leaves traces in the profiles and in the log, and nowhere else. -/
theorem run_eq (st : State) (settings : Settings) (source : String) :
    ∃ profiles log, run st settings source =
      (outcome settings source, { st with profiles := profiles, log := log }) := by
  cases settings with
  | ready c => exact ⟨_, _, rfl⟩
  | unresolvable cs => exact ⟨_, _, rfl⟩

theorem resultOf_eq (st : State) (l : LazyLexer) :
    ∃ profiles log, resultOf st l =
      (l.outcome, { st with profiles := profiles, log := log }) := by
  unfold resultOf LazyLexer.outcome
  cases l.result with
  | some r => exact ⟨st.profiles, st.log, rfl⟩
  | none => exact run_eq st l.settings l.source

theorem answerNow_eq (st : State) (source : String) (answer : Run → Answer) :
    ∃ profiles log, answerNow st source answer =
      (answerFrom (outcome st.settings source) answer,
        { st with profiles := profiles, log := log }) := by
  obtain ⟨profiles, log, hrun⟩ := run_eq st st.settings source
  refine ⟨profiles, log, ?_⟩
  rw [answerNow, hrun]
  cases outcome st.settings source <;> rfl

theorem ask_answer (hl : st.lexers.lookup id = some l) (answer : LazyLexer → Run → Answer) :
    (ask st id answer).1 = answerFrom l.outcome (answer l) := by
  obtain ⟨profiles, log, hresult⟩ := resultOf_eq st l
  rw [ask, hl]
  simp only [hresult]
  cases l.outcome <;> rfl

/-! ### Blocks -/

/-- Restoring has been done on both ways out of a block. -/
theorem leave_state (st : State) (exit : Exit) (restore : State → State)
    (answer : State → Answer) : (leave st exit restore answer).2 = restore st := by
  cases exit with
  | normal => rfl
  | exception => rfl

/-! ### Changes -/

/-- The state without its records. -/
structure Core where
  settings : Settings
  saved : List Settings
  lexers : List (String × LazyLexer)
  iterations : List (String × Iteration)

def State.core (st : State) : Core := ⟨st.settings, st.saved, st.lexers, st.iterations⟩

/-- The step enters a block: it has settings for it. -/
def Step.Enters : Step → Prop
  | .pushConfig (.ok _) => True
  | _ => False

/-- The step leaves a block, if one is open. -/
def Step.Leaves : Step → Prop
  | .popConfig _ => True
  | _ => False

theorem Step.enters_iff : s.Enters ↔ ∃ settings, s = .pushConfig (.ok settings) := by
  constructor
  · intro h
    cases s with
    | pushConfig built =>
      cases built with
      | ok settings => exact ⟨settings, rfl⟩
      | error f => exact h.elim
    | _ => exact h.elim
  · rintro ⟨settings, rfl⟩
    trivial

theorem Step.leaves_iff : s.Leaves ↔ ∃ exit, s = .popConfig exit := by
  constructor
  · intro h
    cases s with
    | popConfig exit => exact ⟨exit, rfl⟩
    | _ => exact h.elim
  · rintro ⟨exit, rfl⟩
    trivial

/-- The second lexers are the first, of which one may have got its result. -/
inductive Asked (lexers : List (String × LazyLexer)) : List (String × LazyLexer) → Prop where
  | same : Asked lexers lexers
  | result {id : String} {l : LazyLexer} {r : Run} (hl : lexers.lookup id = some l)
      (hr : l.outcome = .ok r) : Asked lexers (Tally.set id { l with result := some r } lexers)

/-- What a step can do. -/
inductive Change (st : State) : Step → Core → Prop where
  | answer {s : Step} {lexers : List (String × LazyLexer)} (he : ¬ s.Enters)
      (hl : s.Leaves → st.saved = []) (hasked : Asked st.lexers lexers) :
      Change st s { st.core with lexers := lexers }
  | choose {s : Step} {settings : Settings} (he : ¬ s.Enters) (hl : ¬ s.Leaves) :
      Change st s { st.core with settings := settings }
  | enter (settings : Settings) : Change st (.pushConfig (.ok settings))
      { st.core with settings := settings, saved := st.settings :: st.saved }
  | leave {settings : Settings} {rest : List Settings} (exit : Exit)
      (hsaved : st.saved = settings :: rest) :
      Change st (.popConfig exit) { st.core with settings := settings, saved := rest }
  | create {id source : String} {own : Option Build} {sourceFile : Option String}
      {settings : Settings} (hown : own.getD (.ok st.settings) = .ok settings) :
      Change st (.newLexer id source own sourceFile)
        { st.core with
          lexers := Tally.set id ⟨source, sourceFile, settings, none⟩ st.lexers
          iterations := (detach st id).iterations }
  | iterate {id : String} {l : LazyLexer} (hl : st.lexers.lookup id = some l) :
      Change st (.iterate id)
        { st.core with iterations := Tally.set id .unstarted st.iterations }
  | take {id : String} {lexers : List (String × LazyLexer)} (hasked : Asked st.lexers lexers)
      (it : Iteration) :
      Change st (.next id)
        { st.core with lexers := lexers, iterations := Tally.set id it st.iterations }

/-- What a step can do that has nothing to do with blocks or iterations and makes no lexer. -/
theorem Change.plain {lexers : List (String × LazyLexer)} (hasked : Asked st.lexers lexers)
    (he : ¬ s.Enters) (hl : ¬ s.Leaves) : Change st s { st.core with lexers := lexers } :=
  .answer he (fun h => absurd h hl) hasked

theorem ask_change (st : State) (id : String) (answer : LazyLexer → Run → Answer) :
    ∃ lexers, Asked st.lexers lexers ∧
      (ask st id answer).2.core = { st.core with lexers := lexers } := by
  unfold ask
  cases hl : st.lexers.lookup id with
  | none => exact ⟨_, .same, rfl⟩
  | some l =>
    obtain ⟨profiles, log, hresult⟩ := resultOf_eq st l
    simp only [hresult]
    cases hr : l.outcome with
    | ok r => exact ⟨_, .result hl hr, rfl⟩
    | error f => exact ⟨_, .same, rfl⟩

theorem detach_eq (st : State) (id : String) :
    detach st id = { st with iterations := (detach st id).iterations } := by
  unfold detach
  split <;> rfl

theorem newLexer_change (st : State) (id source : String) (own : Option Build)
    (sourceFile : Option String) : Change st (.newLexer id source own sourceFile)
      (step st (.newLexer id source own sourceFile)).2.core := by
  simp only [step]
  cases hown : own.getD (.ok st.settings) with
  | ok settings =>
    rw [detach_eq]
    exact .create hown
  | error f => exact .plain .same not_false not_false

theorem nextToken_change (st : State) (id : String) :
    Change st (.next id) (nextToken st id).2.core := by
  unfold nextToken
  split
  · exact .take .same _
  · rename_i l _
    obtain ⟨profiles, log, hresult⟩ := resultOf_eq st l
    rw [startOn, hresult]
    cases l.outcome <;> exact .take .same _
  · rename_i l _ hl
    obtain ⟨profiles, log, hresult⟩ := resultOf_eq st l
    rw [startOn, hresult]
    cases hr : l.outcome with
    | ok r => exact .take (.result hl hr) _
    | error f => exact .take .same _
  · exact .plain .same not_false not_false

/-- A step does one of these things. -/
theorem step_change (st : State) (s : Step) : Change st s (step st s).2.core := by
  have hask : ∀ s id answer, ¬ Step.Enters s → ¬ s.Leaves →
      Change st s (ask st id answer).2.core := by
    intro s id answer he hl
    obtain ⟨lexers, hasked, hcore⟩ := ask_change st id answer
    exact hcore ▸ .plain hasked he hl
  have hnow : ∀ s source answer, ¬ Step.Enters s → ¬ s.Leaves →
      Change st s (answerNow st source answer).2.core := by
    intro s source answer he hl
    obtain ⟨profiles, log, hnow⟩ := answerNow_eq st source answer
    exact hnow ▸ .plain .same he hl
  cases s with
  | setConfig built =>
    cases built with
    | ok settings => exact .choose not_false not_false
    | error f => exact .plain .same not_false not_false
  | resetConfig => exact .choose not_false not_false
  | pushConfig built =>
    cases built with
    | ok settings => exact .enter settings
    | error f => exact .plain .same not_false not_false
  | popConfig exit =>
    rw [step]
    cases hsaved : st.saved with
    | nil => exact .answer not_false (fun _ => hsaved) .same
    | cons settings rest =>
      simp only [leave_state]
      exact .leave exit hsaved
  | popProfile exit =>
    rw [step]
    cases st.profiles with
    | nil => exact .plain .same not_false not_false
    | cons p rest =>
      simp only [leave_state]
      exact .plain .same not_false not_false
  | newLexer id source own sourceFile => exact newLexer_change st id source own sourceFile
  | source id =>
    rw [step]
    cases st.lexers.lookup id <;> exact .plain .same not_false not_false
  | iterate id =>
    rw [step]
    cases hl : st.lexers.lookup id with
    | some l => exact .iterate hl
    | none => exact .plain .same not_false not_false
  | lex source => exact hnow _ _ _ not_false not_false
  | tokenize source sourceFile => exact hnow _ _ _ not_false not_false
  | render source classes => exact hnow _ _ _ not_false not_false
  | spans id => exact hask _ _ _ not_false not_false
  | annotate id => exact hask _ _ _ not_false not_false
  | tokens id => exact hask _ _ _ not_false not_false
  | next id => exact nextToken_change st id
  | getConfig => exact .plain .same not_false not_false
  | pushProfile => exact .plain .same not_false not_false
  | profile => exact .plain .same not_false not_false
  | logOn => exact .plain .same not_false not_false
  | logOff => exact .plain .same not_false not_false

end Lexeme.Session
