import Lexing.Journal.Collector
import Lexing.Journal.Logger

namespace Lexing

structure FileContext where
  path : Path
  id : Nat
  deriving DecidableEq, Repr

structure Journal where
  environment : Environment
  installed : Option LoggingPreferences
  service : Option LogService
  collector : Option Collector
  outputs : Array Output
  deriving Repr

inductive JournalError where
  | alreadyOpen
  | preferencesInstalled
  | unprepared (reason : String)
  deriving DecidableEq, Repr

def JournalError.message : JournalError → String
  | .alreadyOpen => "Global logger already initialized"
  | .preferencesInstalled => "Runtime logging preferences already initialized"
  | .unprepared reason => reason

namespace Journal

def closed (e : Environment) : Journal := ⟨e, none, none, none, #[]⟩

def preferences (j : Journal) : LoggingPreferences :=
  j.installed.getD (.ofEnvironment j.environment)

def isOpen (j : Journal) : Bool := j.service.isSome && j.collector.isSome

def put (j : Journal) (o : Output) : Journal := { j with outputs := j.outputs.push o }

def deliver (j : Journal) (e : Event) : Journal :=
  match j.service with
  | none => j
  | some s =>
      let (outputs, s) := s.deliver e
      { j with service := some s, outputs := j.outputs ++ outputs }

def openWith (j : Journal) (s : LogService) : Except JournalError Journal :=
  match Registry.demand Registry.isKnown (fun code => s!"Missing metadata for error code: {code}")
    ["ERR001", "E005", "E020"] with
  | .error reason => .error (.unprepared reason)
  | .ok () =>
      if j.service.isSome then
        .error .alreadyOpen
      else
        .ok (deliver { j with service := some s, collector := some .empty }
          (.success "I004" "Global logging system initialized"))

def openDefault (j : Journal) : Except JournalError Journal :=
  match Limits.logging.check with
  | .error reason => .error (.unprepared s!"Configuration validation failed: {reason}")
  | .ok () => j.openWith (.ofPreferences j.preferences)

def remembering (e : Environment) : Journal :=
  { closed e with service := some ⟨.memory #[], .debug⟩, collector := some .empty }

def remembered (j : Journal) : List Event :=
  ((j.service.bind fun s => s.logger.events).getD #[]).toList

def install (j : Journal) (p : LoggingPreferences) : Except JournalError Journal :=
  if j.installed.isSome then .error .preferencesInstalled else .ok { j with installed := some p }

def emit (j : Journal) (context : Option FileContext) (e : Event) : Journal :=
  match context with
  | none => j.deliver e
  | some c =>
      let e := if j.preferences.fileContext then
        (e.note "file" c.path.display).note "file_id" (toString c.id) else e
      let j := j.deliver e
      if e.isError || e.isWarning then
        { j with collector := j.collector.map (·.recordEvent c.path e) }
      else
        j

def recordFile (j : Journal) (path : Path) : Journal :=
  { j with collector := j.collector.map (·.recordFile path) }

def summary (j : Journal) : CollectorSummary :=
  match j.collector with
  | some c => c.summary
  | none => Collector.empty.summary

def fileErrors (j : Journal) (path : Path) : List Event :=
  match j.collector with
  | some c => c.errors path
  | none => []

def forgetCollected (j : Journal) : Journal :=
  { j with collector := j.collector.map fun _ => .empty }

def printReport (j : Journal) : Journal :=
  match j.preferences.summary, j.collector with
  | true, some c =>
      let report := c.report
      if report.isEmpty then j else j.put (.error report)
  | _, _ => j

def reportError (j : Journal) (code message : String) : Journal :=
  match j.service with
  | some _ => j.deliver (.error code message)
  | none => j.put (.error s!"[ERROR] FALLBACK: [{code}] {message}")

def settingsText (j : Journal) : String :=
  let p := j.preferences
  let l := Limits.logging
  "Logging Configuration:\n=== Limits (Compile-time) ===\n" ++
    s!"- Max error collection: {l.maxCollection}\n" ++
    s!"- Max events per file: {l.maxEventsPerFile}\n" ++
    s!"- Max message length: {l.maxMessage}\n" ++
    "=== User Preferences (Runtime) ===\n" ++
    s!"- Min log level: {p.minLevel.title}\n" ++
    s!"- Structured logging: {p.structured}\n" ++
    s!"- Console logging: {p.console}\n" ++
    s!"- Cargo-style output: {p.summary}\n" ++
    s!"- Include file context: {p.fileContext}"

def diagnosticsText (j : Journal) : String :=
  let counts := match j.collector with
    | some c =>
        let s := c.summary
        s!"Files processed: {s.total}\nTotal errors: {s.errors}\nTotal warnings: {s.warnings}\n"
    | none => ""
  s!"=== Logging System Diagnostics ===\nInitialized: {j.isOpen}\n" ++ counts ++ "\n" ++
    j.settingsText

end Journal

inductive Act where
  | enter (context : FileContext)
  | leave
  | emit (e : Event)
  | detail (e : Event)
  | print (o : Output)
  deriving Repr

namespace Act

def apply : Act → Option FileContext × Journal → Option FileContext × Journal
  | .enter c, (_, j) => (some c, j.recordFile c.path)
  | .leave, (_, j) => (none, j)
  | .emit e, (context, j) => (context, j.emit context e)
  | .detail e, (context, j) =>
      (context, if Level.debug.passes j.preferences.minLevel then j.emit context e else j)
  | .print o, (context, j) => (context, j.put o)

def applyAll (acts : List Act) (state : Option FileContext × Journal) :
    Option FileContext × Journal :=
  acts.foldl (fun s a => a.apply s) state

def within (context : FileContext) (acts : List Act) : List Act :=
  .enter context :: acts ++ [.leave]

def staysPut : Act → Bool
  | .enter _ | .leave => false
  | _ => true

end Act

end Lexing
