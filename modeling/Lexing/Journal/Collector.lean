import Lexing.Files.Path
import Lexing.Journal.Event

namespace Lexing

structure FileRecord where
  path : Path
  parts : List PathPart
  events : Array Event
  deriving Repr

namespace FileRecord

def of (path : Path) : FileRecord := ⟨path, path.parts, #[]⟩

def overflow : Event :=
  .warning s!"Too many events for file (limit: {Limits.logging.maxEventsPerFile})"

def add (r : FileRecord) (e : Event) : FileRecord :=
  let limit := Limits.logging.maxEventsPerFile
  if r.events.size < limit then { r with events := r.events.push e }
  else if r.events.size = limit then { r with events := r.events.push overflow }
  else r

def errors (r : FileRecord) : List Event := r.events.toList.filter (·.isError)

def warnings (r : FileRecord) : List Event := r.events.toList.filter (·.isWarning)

end FileRecord

structure CollectorSummary where
  total : Nat
  successful : Nat
  failed : Nat
  withWarnings : Nat
  errors : Nat
  warnings : Nat
  deriving DecidableEq, Repr

def CollectorSummary.hasErrors (s : CollectorSummary) : Bool := 0 < s.errors

def CollectorSummary.hasWarnings (s : CollectorSummary) : Bool := 0 < s.warnings

structure Collector where
  records : List FileRecord
  deriving Repr

namespace Collector

def empty : Collector := ⟨[]⟩

def upsert (path : Path) (parts : List PathPart) (f : FileRecord → FileRecord) :
    List FileRecord → List FileRecord
  | [] => [f ⟨path, parts, #[]⟩]
  | r :: rs =>
      match Path.compareParts parts r.parts with
      | .lt => f ⟨path, parts, #[]⟩ :: r :: rs
      | .eq => f r :: rs
      | .gt => r :: upsert path parts f rs

def recordFile (c : Collector) (path : Path) : Collector :=
  ⟨upsert path path.parts id c.records⟩

def recordEvent (c : Collector) (path : Path) (e : Event) : Collector :=
  ⟨upsert path path.parts (·.add e) c.records⟩

def find? (c : Collector) (path : Path) : Option FileRecord :=
  let parts := path.parts
  c.records.find? fun r => r.parts == parts

def events (c : Collector) (path : Path) : List Event :=
  match c.find? path with
  | some r => r.events.toList
  | none => []

def errors (c : Collector) (path : Path) : List Event := (c.events path).filter (·.isError)

def hasErrors (c : Collector) (path : Path) : Bool := (c.events path).any (·.isError)

def count (c : Collector) : Nat := c.records.foldl (fun n r => n + r.events.size) 0

def critical (c : Collector) : List (Path × Event) :=
  c.records.flatMap fun r => (r.errors.filter (·.halts)).map fun e => (r.path, e)

def summary (c : Collector) : CollectorSummary :=
  c.records.foldl (fun s r =>
    let errors := r.errors.length
    let warnings := r.warnings.length
    { total := s.total + 1
      failed := s.failed + if 0 < errors then 1 else 0
      withWarnings := s.withWarnings + if errors = 0 ∧ 0 < warnings then 1 else 0
      successful := s.successful + if errors = 0 ∧ warnings = 0 then 1 else 0
      errors := s.errors + errors
      warnings := s.warnings + warnings }) ⟨0, 0, 0, 0, 0, 0⟩

private def eventText (r : FileRecord) (e : Event) : String :=
  let label := if e.isError then "error" else "warning"
  let place := match e.position with
    | some p => p.toString
    | none => r.path.display
  let notes := (e.context.filter fun v => v.1 != "file" && v.1 != "file_id").map
    fun (name, value) => s!"  = {name}: {value}\n"
  let help := if e.isError && e.action != Registry.noAction then s!"  = help: {e.action}\n" else ""
  s!"{label}[{e.code}]: {e.message}\n  --> {place}\n" ++ String.join notes ++ help

private def recordText (r : FileRecord) : String :=
  let shown := r.events.toList.filter fun e => e.isError || e.isWarning
  if shown.isEmpty then ""
  else s!"Checking {r.path.display}...\n" ++ String.join (shown.map (eventText r)) ++ "\n"

def report (c : Collector) : String :=
  let s := c.summary
  String.join (c.records.map recordText) ++
    (if 0 < s.errors then s!"Total errors: {s.errors}\n" else "") ++
    (if 0 < s.warnings then s!"Total warnings: {s.warnings}\n" else "")

end Collector

end Lexing
