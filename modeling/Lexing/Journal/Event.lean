import Lexing.Journal.Level
import Lexing.Journal.Registry
import Lexing.Journal.Timestamp
import Lexing.Settings.Limits
import Lexing.Token.Basic

namespace Lexing

structure Event where
  /-- Milliseconds since the start of 1970. -/
  time : Int
  level : Level
  code : String
  message : String
  position : Option Position
  context : List (String × String)
  deriving DecidableEq, Repr

namespace Event

def clampMessage (message : String) : String :=
  String.ofList (Text.clamp Limits.logging.maxMessage message.toList)

def of (level : Level) (code message : String) : Event :=
  ⟨0, level, code, clampMessage message, none, []⟩

def error (code message : String) : Event := of .error code message

def warning (message : String) : Event := of .warning "W000" message

def info (message : String) : Event := of .info "I000" message

def success (code message : String) : Event := of .info code message

def debug (message : String) : Event := of .debug "D000" message

def placed (e : Event) (position : Position) : Event := { e with position := some position }

private def insertValue (name value : String) : List (String × String) → List (String × String)
  | [] => [(name, value)]
  | (n, v) :: more =>
      if name < n then (name, value) :: (n, v) :: more
      else if name = n then (name, value) :: more
      else (n, v) :: insertValue name value more

def note (e : Event) (name value : String) : Event :=
  { e with context := insertValue name value e.context }

private theorem lookup_insertValue (name value other : String) (context : List (String × String)) :
    (insertValue name value context).lookup other =
      if other = name then some value else context.lookup other := by
  induction context with
  | nil =>
      rw [insertValue, List.lookup_cons]
      by_cases h : other = name
      · simp [h]
      · have hbeq : (other == name) = false := by simpa using h
        simp [hbeq, h]
  | cons entry more ih =>
      obtain ⟨n, v⟩ := entry
      rw [insertValue]
      by_cases h : other = name
      · subst h
        split
        · simp
        · split
          · simp
          · next hne =>
              have hbeq : (other == n) = false := by simpa using hne
              simpa [List.lookup_cons, hbeq] using ih
      · have hbeq : (other == name) = false := by simpa using h
        rw [if_neg h] at ih ⊢
        split
        · simp [List.lookup_cons, hbeq]
        · split
          · next heq =>
              subst heq
              simp [List.lookup_cons, hbeq]
          · rw [List.lookup_cons, List.lookup_cons, ih]

theorem lookup_note (e : Event) (name value other : String) :
    (e.note name value).context.lookup other =
      if other = name then some value else e.context.lookup other :=
  lookup_insertValue name value other e.context

def noteAll (e : Event) (values : List (String × String)) : Event :=
  values.foldl (fun e v => e.note v.1 v.2) e

def isError (e : Event) : Bool := e.level == .error

def isWarning (e : Event) : Bool := e.level == .warning

def isInfo (e : Event) : Bool := e.level == .info

def halts (e : Event) : Bool := Registry.halts e.code

def severity (e : Event) : Severity := Registry.severity e.code

def category (e : Event) : String := Registry.category e.code

def description (e : Event) : String := Registry.description e.code

def action (e : Event) : String := Registry.action e.code

def isRecoverable (e : Event) : Bool := Registry.isRecoverable e.code

def line (e : Event) : String :=
  let place := match e.position with
    | some p => s!" at {p.toString}"
    | none => ""
  s!"[{e.level.label}] {e.code} - {e.message}{place}"

def report (e : Event) : String :=
  let recoverable := if e.isError then s!"\n  Recoverable: {e.isRecoverable}" else ""
  let action := if e.action != Registry.noAction then
    s!"\n  Recommended action: {e.action}" else ""
  let context := e.context.map fun (name, value) => s!"\n    {name}: {value}"
  s!"{e.line}\n  Category: {e.category}\n  Severity: {e.severity.name}" ++ recoverable ++ action ++
    String.join context

def toJson (e : Event) : Json :=
  let metadata := if e.isError then
      [("error_metadata", Json.object [
        ("recoverable", .bool e.isRecoverable),
        ("requires_halt", .bool e.halts),
        ("description", .text e.description),
        ("recommended_action", .text e.action)])]
    else []
  let position := match e.position with
    | some p => [("position", p.toJson)]
    | none => []
  let context := if e.context.isEmpty then [] else
    [("context", Json.object (e.context.map fun (name, value) => (name, .text value)))]
  Json.sorted (.object ([
    ("timestamp", .text (Timestamp.write e.time)),
    ("level", .text e.level.label),
    ("code", .text e.code),
    ("message", .text e.message),
    ("category", .text e.category),
    ("severity", .text e.severity.name)] ++ metadata ++ position ++ context))

end Event

end Lexing
