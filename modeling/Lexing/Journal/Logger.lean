import Lexing.Journal.Event
import Lexing.Journal.Output
import Lexing.Settings.Preferences

namespace Lexing

structure EventCounts where
  total : Nat
  errors : Nat
  warnings : Nat
  info : Nat
  critical : Nat
  deriving DecidableEq, Repr

def EventCounts.hasErrors (n : EventCounts) : Bool := 0 < n.errors

def EventCounts.hasCritical (n : EventCounts) : Bool := 0 < n.critical

inductive Logger where
  | console (threshold : Level)
  | structured (threshold : Level)
  | file (path : Path) (threshold : Level) (inJson : Bool)
  | memory (events : Array Event)
  | several (threshold : Level) (parts : List Logger)
  deriving Repr, Inhabited

namespace Logger

private def stream (e : Event) (line : String) : Output :=
  if e.isError then .error line else .standard line

def remember (room : Nat) (events : Array Event) (e : Event) : Array Event :=
  if events.size < room then events.push e
  else (events.extract (events.size - room + 1) events.size).push e

mutual

def log (e : Event) : Logger → List Output × Logger
  | .console threshold =>
      (if e.level.passes threshold then [stream e e.line] else [], .console threshold)
  | .structured threshold =>
      (if e.level.passes threshold then [stream e e.toJson.compact] else [],
        .structured threshold)
  | .file path threshold inJson =>
      let line := if inJson then e.toJson.compact else e.line
      (if e.level.passes threshold then [.append path line] else [],
        .file path threshold inJson)
  | .memory events => ([], .memory (remember Limits.logging.maxCollection events e))
  | .several threshold parts =>
      if e.level.passes threshold then
        let (outputs, parts) := logAll e parts
        (outputs, .several threshold parts)
      else
        ([], .several threshold parts)

def logAll (e : Event) : List Logger → List Output × List Logger
  | [] => ([], [])
  | l :: ls =>
      let (first, l) := log e l
      let (rest, ls) := logAll e ls
      (first ++ rest, l :: ls)

end

def ofPreferences (p : LoggingPreferences) (file : Option Path) : Logger :=
  let console := if !p.console then [] else if p.structured then [.structured p.minLevel]
    else [.console p.minLevel]
  let files := match file with
    | some path => [.file path p.minLevel p.structured]
    | none => []
  .several p.minLevel (console ++ files)

mutual

def paths : Logger → List Path
  | .file path _ _ => [path]
  | .several _ parts => pathsAll parts
  | _ => []

def pathsAll : List Logger → List Path
  | [] => []
  | l :: ls => paths l ++ pathsAll ls

def events : Logger → Option (Array Event)
  | .memory events => some events
  | .several _ parts => eventsAny parts
  | _ => none

def eventsAny : List Logger → Option (Array Event)
  | [] => none
  | l :: ls => match events l with
      | some found => some found
      | none => eventsAny ls

def forget : Logger → Logger
  | .memory _ => .memory #[]
  | .several threshold parts => .several threshold (forgetAll parts)
  | l => l

def forgetAll : List Logger → List Logger
  | [] => []
  | l :: ls => forget l :: forgetAll ls

end

def remembered (l : Logger) : List Event := (l.events.getD #[]).toList

def errors (l : Logger) : List Event := l.remembered.filter (·.isError)

def hasError (l : Logger) (code : String) : Bool :=
  l.remembered.any fun e => e.isError && e.code == code

def hasSuccess (l : Logger) (code : String) : Bool :=
  l.remembered.any fun e => e.isInfo && e.code == code

def inCategory (l : Logger) (category : String) : List Event :=
  l.remembered.filter (·.category == category)

def counts (l : Logger) : EventCounts where
  total := l.remembered.length
  errors := l.remembered.countP (·.isError)
  warnings := l.remembered.countP (·.isWarning)
  info := l.remembered.countP (·.isInfo)
  critical := l.remembered.countP fun e => e.isError && e.halts

end Logger

structure LogService where
  logger : Logger
  threshold : Level
  deriving Repr

namespace LogService

def deliver (s : LogService) (e : Event) : List Output × LogService :=
  if e.level.passes s.threshold then
    let (outputs, logger) := s.logger.log e
    (outputs, { s with logger })
  else
    ([], s)

def ofPreferences (p : LoggingPreferences) : LogService :=
  ⟨if p.structured then .structured p.minLevel else .console p.minLevel, p.minLevel⟩

end LogService

end Lexing
