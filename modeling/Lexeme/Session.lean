import Lexeme.Log
import Lexeme.Profile
import Lexeme.Settings

/-! Sessions: a sequence of steps over active settings, nested profiles and named lexers. Settings
and profiles are entered and left as blocks; leaving a block of either kind, by its end or by an
exception, restores what was active when it was entered. Where a step takes settings, they have been
built before it, or building them has failed. -/

namespace Lexeme.Session

/-- A lexer over one source. It runs once, when its result is first needed. -/
structure LazyLexer where
  source : String
  sourceFile : Option String
  settings : Settings
  result : Option Run

/-- Tokens that are taken one by one. No lexer runs before the first one is taken; if by then the
name has gone to a new lexer, the earlier one is run. -/
inductive Iteration where
  | unstarted
  | earlier (l : LazyLexer)
  | rest (tokens : List Token)

/-- The state of a session: the active settings, those to be restored, the open profiles from the
inside out, the lexers and the iterations by name, and the log while it is kept. -/
structure State where
  settings : Settings
  saved : List Settings
  profiles : List Profile
  lexers : List (String × LazyLexer)
  iterations : List (String × Iteration)
  log : Option (List Log.Entry)

def State.start : State := ⟨.standard, [], [], [], [], none⟩

/-- Settings that were to be built. -/
abbrev Build := Except Config.Fault Settings

/-- How the body of a block comes to its end. -/
inductive Exit where
  | normal
  | exception

/-- What can be asked of a session. It is the innermost block that is left. -/
inductive Step where
  | setConfig (built : Build)
  | resetConfig
  | getConfig
  | pushConfig (built : Build)
  | popConfig (exit : Exit)
  | pushProfile
  | popProfile (exit : Exit)
  | profile
  | lex (source : String)
  | tokenize (source : String) (sourceFile : Option String)
  | render (source : String) (classes : List (Category × String))
  | newLexer (id source : String) (own : Option Build) (sourceFile : Option String)
  | source (id : String)
  | spans (id : String)
  | annotate (id : String)
  | tokens (id : String)
  | iterate (id : String)
  | next (id : String)
  | logOn
  | logOff

/-- Why a step has no answer. -/
inductive Fault where
  | settings (f : Config.Fault)
  | unknownName
  | noOpenBlock

/-- What a session answers. After an exception has come out of a block, the answer says so. -/
inductive Answer where
  | done
  | settings (s : Settings)
  | profile (p : Option Profile)
  | left (p now : Option Profile)
  | text (s : String)
  | spans (spans : List Span)
  | tokens (ts : List Token)
  | token (t : Option Token)
  | log (entries : List Log.Entry)
  | fault (f : Fault)
  | raised (a : Answer)

/-! ### Runs -/

/-- Adds lines to the log while it is kept. -/
def addLog (st : State) (entries : List Log.Entry) : State :=
  { st with log := st.log.map (· ++ entries) }

/-- Enters a run into the active profile and into the log. -/
def recordRun (st : State) (r : Run) : State :=
  addLog
    { st with
      profiles :=
        match st.profiles with
        | [] => []
        | p :: rest => p.recordRun r :: rest }
    (Log.entries r)

/-- Runs settings over a source. If its matches cannot be resolved only they are reported. -/
def run (st : State) (settings : Settings) (source : String) : Except Fault Run × State :=
  match settings with
  | .ready c =>
    let r := Lexer.run c source
    (.ok r, recordRun st r)
  | .unresolvable cs =>
    let entry := Log.matchedEntry source.length (Matching.matchAll source cs)
    (.error (.settings .notRules), addLog st [entry])

/-- Answers from a run of the active settings. -/
def answerNow (st : State) (source : String) (answer : Run → Answer) : Answer × State :=
  match run st st.settings source with
  | (.ok r, st) => (answer r, st)
  | (.error f, st) => (.fault f, st)

/-- The result of a lexer, which is run now if it has none. -/
def resultOf (st : State) (l : LazyLexer) : Except Fault Run × State :=
  match l.result with
  | some r => (.ok r, st)
  | none => run st l.settings l.source

/-- Keeps the result of a named lexer. -/
def keepResult (st : State) (id : String) (l : LazyLexer) (r : Run) : State :=
  { st with lexers := Tally.set id { l with result := some r } st.lexers }

/-- Answers from the result of a lexer. -/
def ask (st : State) (id : String) (answer : LazyLexer → Run → Answer) : Answer × State :=
  match st.lexers.lookup id with
  | none => (.fault .unknownName, st)
  | some l =>
    match resultOf st l with
    | (.ok r, st) => (answer l r, keepResult st id l r)
    | (.error f, st) => (.fault f, st)

/-! ### Iterations -/

def setIteration (st : State) (id : String) (it : Iteration) : State :=
  { st with iterations := Tally.set id it st.iterations }

/-- Takes the first of the given tokens. -/
def takeFirst (st : State) (id : String) (ts : List Token) : Answer × State :=
  (.token ts.head?, setIteration st id (.rest ts.tail))

/-- Takes the first token of a lexer; after a fault there are no more. -/
def startOn (st : State) (id : String) (l : LazyLexer) (keep : State → Run → State) :
    Answer × State :=
  match resultOf st l with
  | (.ok r, st) => takeFirst (keep st r) id (Lexer.tokensOf l.source l.sourceFile r.spans)
  | (.error f, st) => (.fault f, setIteration st id (.rest []))

/-- The next token of an iteration. -/
def nextToken (st : State) (id : String) : Answer × State :=
  match st.iterations.lookup id, st.lexers.lookup id with
  | some (.rest ts), _ => takeFirst st id ts
  | some (.earlier l), _ => startOn st id l fun st _ => st
  | some .unstarted, some l => startOn st id l fun st r => keepResult st id l r
  | _, _ => (.fault .unknownName, st)

/-- An iteration that has not started keeps its lexer when the name goes to a new one. -/
def detach (st : State) (id : String) : State :=
  match st.iterations.lookup id, st.lexers.lookup id with
  | some .unstarted, some l => setIteration st id (.earlier l)
  | _, _ => st

/-! ### Blocks -/

/-- The end of the body of a block. -/
def Exit.body : Exit → EStateM Unit State Unit
  | .normal => pure ()
  | .exception => throw ()

/-- Leaves a block. At the end of its body, what entering it changed is restored; an exception goes
on only after that. -/
def leave (st : State) (exit : Exit) (restore : State → State) (answer : State → Answer) :
    Answer × State :=
  let block : EStateM Unit State Unit := do
    try exit.body
    finally modify restore
  match block st with
  | .ok () st => (answer st, st)
  | .error () st => (.raised (answer st), st)

/-! ### Steps -/

/-- One step of a session. Settings that could not be built change nothing. -/
def step (st : State) : Step → Answer × State
  | .setConfig built =>
    match built with
    | .ok s => (.settings s, { st with settings := s })
    | .error f => (.fault (.settings f), st)
  | .resetConfig => (.settings .standard, { st with settings := .standard })
  | .getConfig => (.settings st.settings, st)
  | .pushConfig built =>
    match built with
    | .ok s => (.settings s, { st with settings := s, saved := st.settings :: st.saved })
    | .error f => (.fault (.settings f), st)
  | .popConfig exit =>
    match st.saved with
    | [] => (.fault .noOpenBlock, st)
    | s :: rest =>
      leave st exit (fun st => { st with settings := s, saved := rest }) fun st =>
        .settings st.settings
  | .pushProfile => (.profile (some .empty), { st with profiles := .empty :: st.profiles })
  | .popProfile exit =>
    match st.profiles with
    | [] => (.fault .noOpenBlock, st)
    | p :: rest =>
      leave st exit (fun st => { st with profiles := rest }) fun st =>
        .left (some p) st.profiles.head?
  | .profile => (.profile st.profiles.head?, st)
  | .lex source => answerNow st source fun r => .text (Markup.annotate source r.spans)
  | .tokenize source sourceFile =>
    answerNow st source fun r => .tokens (Lexer.tokensOf source sourceFile r.spans)
  | .render source classes =>
    answerNow st source fun r =>
      .text (Html.Style.render { Html.Style.standard with classes }
        (Markup.annotate source r.spans))
  | .newLexer id source own sourceFile =>
    match own.getD (.ok st.settings) with
    | .ok s =>
      let st := detach st id
      (.done, { st with lexers := Tally.set id ⟨source, sourceFile, s, none⟩ st.lexers })
    | .error f => (.fault (.settings f), st)
  | .source id =>
    match st.lexers.lookup id with
    | some l => (.text l.source, st)
    | none => (.fault .unknownName, st)
  | .spans id => ask st id fun _ r => .spans r.spans
  | .annotate id => ask st id fun l r => .text (Markup.annotate l.source r.spans)
  | .tokens id =>
    ask st id fun l r => .tokens (Lexer.tokensOf l.source l.sourceFile r.spans)
  | .iterate id =>
    match st.lexers.lookup id with
    | some _ => (.done, setIteration st id .unstarted)
    | none => (.fault .unknownName, st)
  | .next id => nextToken st id
  | .logOn => (.done, { st with log := some [] })
  | .logOff => (.log (st.log.getD []), { st with log := none })

/-- The answers to a sequence of steps. -/
def answersFrom : State → List Step → List Answer
  | _, [] => []
  | st, s :: rest =>
    let (a, st) := step st s
    a :: answersFrom st rest

/-- The answers of a session from its start. -/
def answers (steps : List Step) : List Answer := answersFrom .start steps

end Lexeme.Session
