import ClauseExchange.CommandLine.Options
import ClauseExchange.Engine.Simulated
import ClauseExchange.Portfolio

/-!
# The commands

`run` puts a portfolio of simulated engines through an exchange and prints what it concludes.
`workers` prints how many workers fit a memory limit. The exit code of `run` is that of its
verdict; a run that cannot be made ends with code `1`, arguments that are not understood end with
code `2`, and a broken rule outside any worker ends with code `101`.
-/

namespace ClauseExchange.CommandLine

/-- What a command prints and its exit code. -/
structure Response where
  code : Nat := 0
  /-- The lines on standard output. -/
  output : List String := []
  /-- The line on standard error. -/
  error? : Option String := none
  deriving DecidableEq, Repr, Inhabited

namespace Response

/-- The response to a run that cannot be made. -/
def failure (message : String) : Response := { code := 1, error? := some ("Error: " ++ message) }

/-- The response after a broken rule outside any worker. -/
def broken : Response := { code := 101 }

/-- The response to something that cannot be built. -/
def ofFailure : Failure → Response
  | .refused e => failure e.message
  | .fault _ => broken

end Response

/-- The options of `run`. -/
def runEntries : List Entry :=
  [ ⟨"cores", .word, some 'j'⟩, ⟨"margin", .word, none⟩, ⟨"period-length", .word, none⟩,
    ⟨"non-deterministic", .flag, none⟩, ⟨"fapp-clauses", .word, none⟩,
    ⟨"fapp-periods", .word, none⟩, ⟨"adaptive-conflicts", .word, none⟩,
    ⟨"adaptive-lb", .word, none⟩, ⟨"adaptive-ub", .word, none⟩,
    ⟨"adaptive-smoothing", .real, none⟩, ⟨"export-literals", .word, none⟩,
    ⟨"export-margin", .real, none⟩, ⟨"time-limit", .real, none⟩, ⟨"mem-limit", .real, none⟩,
    ⟨"log-interval", .word, none⟩, ⟨"stats", .flag, none⟩, ⟨"model", .flag, none⟩,
    ⟨"seed", .word, none⟩, ⟨"sim-verdict", .oneOf ["sat", "unsat", "unknown"], none⟩,
    ⟨"sim-conflicts", .word, none⟩, ⟨"sim-jitter", .word, none⟩, ⟨"sim-vars", .half, none⟩,
    ⟨"sim-min-work", .word, none⟩, ⟨"sim-max-work", .word, none⟩ ]

/-- The options of `workers`. -/
def workersEntries : List Entry :=
  [ ⟨"cores", .word, some 'j'⟩, ⟨"mem-limit", .real, none⟩, ⟨"loaded", .real, none⟩,
    ⟨"factor", .half, none⟩ ]

/-- A command with its options. -/
inductive Command
  | run (options : Given)
  | workers (cores : Nat) (limit used : Float) (factor : Nat)

namespace Command

/-- The command `run`, which can do without any option. -/
def ofRunOptions (g : Given) : Except Stop Command := .ok (.run g)

/-- The command `workers`, which needs both sizes of memory. -/
def ofWorkersOptions (g : Given) : Except Stop Command :=
  match g.real? "mem-limit", g.real? "loaded" with
  | some limit, some used => .ok (.workers (g.word "cores" 0) limit used (g.half "factor" 3))
  | _, _ => .error .misuse

/-- Reads the options of a command, which takes no other arguments. -/
def ofArguments (entries : List Entry) (make : Given → Except Stop Command) (args : List String) :
    Except Stop Command := do
  let (g, rest) ← Options.parse entries false (args.length + 1) [] args
  if rest.isEmpty then make g else .error .misuse

/-- Reads the arguments of the program: options common to all commands, a command and its
options. -/
def parse (args : List String) : Except Stop Command := do
  let (_, rest) ← Options.parse [] true (args.length + 1) [] args
  match rest with
  | "run" :: args => ofArguments runEntries ofRunOptions args
  | "workers" :: args => ofArguments workersEntries ofWorkersOptions args
  | ["help"] => .error .help
  | ["help", name] => if ["run", "workers", "help"].contains name then .error .help else .error .misuse
  | _ => .error .misuse

end Command

namespace Stop

/-- The response to arguments that do not lead to a command. -/
def response : Stop → Response
  | misuse => { code := 2 }
  | help => {}
  | version => { output := ["dps 0.1.0"] }

end Stop

/-- The scripted verdict that `run` is asked for. -/
def verdictOf (g : Given) : Verdict :=
  match g.value? "sim-verdict" with
  | some "sat" => .satisfiable
  | some "unknown" => .unknown
  | _ => .unsatisfiable

/-- The limits that `run` is asked for. -/
def limitsOf (g : Given) : Except Response Limits :=
  let memory := g.real? "mem-limit"
  match g.real? "time-limit" with
  | none => .ok { memory }
  | some seconds =>
    match Duration.ofSeconds seconds with
    | .ok time => .ok { time := some time, memory }
    | .error refusal =>
      .error (.failure ("invalid --time-limit " ++ Decimal.shortest seconds ++ ": " ++ refusal.message))

/-- The configuration that `run` is asked for; without a number of workers there is one a
processor. -/
def configOf (g : Given) (processors : Nat) : Except Response Config :=
  (limitsOf g).map fun limits =>
    let cores := g.word "cores" 0
    { numWorkers := if cores = 0 then processors else cores
      margin := g.word "margin" 20
      periodLength := g.word "period-length" 1000000
      nonDeterministic := g.has "non-deterministic"
      forcedClauses := g.word "fapp-clauses" 10000
      forcedPeriods := g.word "fapp-periods" 50
      adaptiveConflicts := g.word "adaptive-conflicts" 0
      adaptiveLower := g.word "adaptive-lb" 0
      adaptiveUpper := g.word "adaptive-ub" 0
      adaptiveSmoothing := (g.real? "adaptive-smoothing").getD 0.1
      exportBudget := g.word "export-literals" 150
      exportMargin := (g.real? "export-margin").getD 3.0
      limits }

/-- The simulated engines that `run` is asked for. An engine that never concludes needs more
conflicts than it can have. -/
def simulationOf (g : Given) : Simulation :=
  let verdict := verdictOf g
  let conflicts := if verdict = .unknown then Word.max / 2 else g.word "sim-conflicts" 20000
  let s : Simulation := { seed := g.word "seed" 0 }
  ((s.withVerdict verdict conflicts (g.word "sim-jitter" 5000)).withNumVars
    (g.half "sim-vars" 200)).withStepWork (g.word "sim-min-work" 50) (g.word "sim-max-work" 500)

/-- The size of an engine in bytes, in the table of engines. -/
def engineBytes : Nat := 496

/-- The portfolio that `run` is asked for, about to start. The engines are made before the
configuration is looked at, and a table that is too large for them breaks a rule. -/
def launch (g : Given) (processors : Nat) (sensors : Sensors) :
    Except Response (Portfolio (Simulated ChaCha.Stream)) :=
  match configOf g processors with
  | .error r => .error r
  | .ok config =>
    if Mailbox.maxTableBytes < config.numWorkers * engineBytes then .error .broken
    else
      let engines := (List.range config.numWorkers).map (Simulated.forWorker (simulationOf g))
      (Portfolio.launch engines config sensors).mapError .ofFailure

/-- What `run` prints about its result. -/
def describe (g : Given) (r : PortfolioResult) : Response :=
  let statistics := if g.has "stats" then r.summaryLines else .ok []
  match statistics with
  | .error _ => .broken
  | .ok lines =>
    let model :=
      match r.model? with
      | some ls => if g.has "model" then ["v " ++ " ".intercalate (ls.map toString) ++ " 0"] else []
      | none => []
    { code := r.verdict.exitCode
      output := lines.map ("c " ++ ·) ++ ["s " ++ r.verdict.text] ++ model }

/-- The response to a portfolio that has ended. -/
def respond (g : Given) (outcome : Except Failure PortfolioResult) : Response :=
  match outcome with
  | .error f => .ofFailure f
  | .ok r => describe g r

/-- The response of `workers`. -/
def respondWorkers (processors cores : Nat) (limit used : Float) (factor : Nat) : Response :=
  let requested := if cores = 0 then processors else cores
  { output := [toString (affordableWorkers requested limit used factor)] }

end ClauseExchange.CommandLine
