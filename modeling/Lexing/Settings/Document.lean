import Lexing.Settings.Preferences
import Lexing.Toml.Document

namespace Lexing

namespace Toml.Value

def boolean? : Value → Option Bool
  | .boolean b => some b
  | _ => none

def text? : Value → Option String
  | .text s => some s
  | _ => none

def natural? : Value → Option Nat
  | .integer (.ofNat n) => some n
  | _ => none

def texts? : Value → Option (List String)
  | .list items => items.mapM text?
  | _ => none

def pair? : Value → Option (String × String)
  | .list (.text a :: .text b :: _) => some (a, b)
  | _ => none

def level? : Value → Option Level
  | .text s => Level.ofWord? s
  | .table [(s, .table [])] => Level.ofWord? s
  | .table [(s, .list [])] => Level.ofWord? s
  | _ => none

def fields? (names : List String) : Value → Option (List (Option Value))
  | .table fields => some (names.map fun name => fields.lookup name)
  | .list items => some ((List.range names.length).map fun i => items[i]?)
  | .moment _ => some (names.map fun _ => none)
  | _ => none

end Toml.Value

private def field {α : Type} (default : α) (read : Toml.Value → Option α) :
    Option Toml.Value → Option α
  | none => some default
  | some v => read v

private def required {α : Type} (read : Toml.Value → Option α) : Option Toml.Value → Option α
  | none => none
  | some v => read v

open Toml (Value)

theorem field_eq_some {α : Type} {default : α} {read : Value → Option α} {given : Option Value}
    (h : ∀ v, given = some v → (read v).isSome) :
    field default read given = some ((given.bind read).getD default) := by
  cases given with
  | none => rfl
  | some v =>
      obtain ⟨a, ha⟩ := Option.isSome_iff_exists.1 (h v rfl)
      rw [field, Option.bind_some, ha, Option.getD_some]

theorem field_given {α : Type} {default : α} {read : Value → Option α} {v : Value} :
    field default read (some v) = read v := rfl

theorem field_table {α : Type} (default : α) (read : Value → Option α) {given : Option Value}
    {inner : List (String × Value)} (hempty : read (.table []) = some default)
    (h : given = none ∧ inner = [] ∨ given = some (.table inner)) :
    field default read given = read (.table inner) := by
  obtain ⟨rfl, rfl⟩ | rfl := h
  · exact hempty.symm
  · rfl

def FilePreferences.ofValue? (d : FilePreferences) (v : Value) : Option FilePreferences := do
  match ← v.fields? ["require_rv_extension", "enable_performance_logging"] with
  | [a, b] => return ⟨← field d.requireExtension Value.boolean? a,
      ← field d.logPerformance Value.boolean? b⟩
  | _ => none

def Comments.ofValue? (v : Value) : Option Comments := do
  match v, ← v.fields? ["line", "block"] with
  | .list _, [_, none] => none
  | _, [a, b] => return ⟨← required Value.texts? a, ← field none (fun v => v.pair?.map some) b⟩
  | _, _ => none

theorem Comments.ofValue?_eq_none {fields : List (String × Value)}
    (h : fields.lookup "line" = none) : Comments.ofValue? (.table fields) = none := by
  simp only [Comments.ofValue?, Value.fields?, List.map_cons, List.map_nil, h]
  rfl

theorem Comments.ofValue?_eq_some {fields : List (String × Value)} {v : Value}
    {line : List String} (hline : fields.lookup "line" = some v) (hv : v.texts? = some line)
    (hblock : ∀ v, fields.lookup "block" = some v → v.pair?.isSome) :
    Comments.ofValue? (.table fields) =
      some ⟨line, (fields.lookup "block").bind Value.pair?⟩ := by
  have hblock : ∀ v, fields.lookup "block" = some v →
      ((fun v => (Value.pair? v).map some) v).isSome := fun v hv => by
    simpa using hblock v hv
  simp only [Comments.ofValue?, Value.fields?, List.map_cons, List.map_nil, hline,
    Option.bind_eq_bind, Option.bind_some, required, hv, field_eq_some hblock]
  cases hgiven : fields.lookup "block" with
  | none => rfl
  | some w =>
      obtain ⟨pair, hpair⟩ := Option.isSome_iff_exists.1 (by simpa using hblock w hgiven)
      simp [hpair]

def LexicalPreferences.ofValue? (d : LexicalPreferences) (v : Value) :
    Option LexicalPreferences := do
  match ← v.fields? ["coalesce_newlines", "comments", "collect_detailed_metrics",
    "log_diagnostics", "log_string_statistics"] with
  | [a, b, c, e, f] => return ⟨← field d.coalesce Value.boolean? a,
      ← field d.comments Comments.ofValue? b, ← field d.detailedMetrics Value.boolean? c,
      ← field d.logDiagnostics Value.boolean? e, ← field d.logStringStatistics Value.boolean? f⟩
  | _ => none

def BatchPreferences.ofValue? (d : BatchPreferences) (v : Value) : Option BatchPreferences := do
  match ← v.fields? ["worker_threads", "recursive", "fail_fast"] with
  | [a, b, c] => return ⟨← field d.workerThreads Value.natural? a,
      ← field d.recursive Value.boolean? b, ← field d.failFast Value.boolean? c⟩
  | _ => none

def LoggingPreferences.ofValue? (d : LoggingPreferences) (v : Value) :
    Option LoggingPreferences := do
  match ← v.fields? ["use_structured_logging", "enable_console_logging", "min_log_level",
    "enable_cargo_style_output", "include_file_context"] with
  | [a, b, c, e, f] => return ⟨← field d.structured Value.boolean? a,
      ← field d.console Value.boolean? b, ← field d.minLevel Value.level? c,
      ← field d.summary Value.boolean? e, ← field d.fileContext Value.boolean? f⟩
  | _ => none

def Preferences.ofValue? (d : Preferences) (v : Value) : Option Preferences := do
  match ← v.fields? ["file_processor", "lexical", "batch", "logging"] with
  | [a, b, c, e] => return ⟨← field d.files d.files.ofValue? a,
      ← field d.lexical d.lexical.ofValue? b, ← field d.batch d.batch.ofValue? c,
      ← field d.logging d.logging.ofValue? e⟩
  | _ => none

def Preferences.ofDocument? (e : Environment) (document : String) : Option Preferences :=
  (Toml.read? document).bind (Preferences.ofEnvironment e).ofValue?

structure BuildLimits where
  files : FileLimits
  lexical : LexicalLimits
  batch : BatchLimits
  logging : LoggingLimits
  deriving DecidableEq, Repr

namespace BuildLimits

private def naturals (names : List String) (v : Value) : Option (List Nat) := do
  (← v.fields? names).mapM (required Value.natural?)

private def files? (v : Value) : Option FileLimits := do
  match ← naturals ["max_file_size", "large_file_threshold", "max_line_count"] v with
  | [a, b, c] => return ⟨a, b, c⟩
  | _ => none

private def lexical? (v : Value) : Option LexicalLimits := do
  match ← naturals ["max_string_size", "max_identifier_length", "max_comment_length",
    "max_token_count", "max_external_recognizers"] v with
  | [a, b, c, d, e] => return ⟨a, b, c, d, e⟩
  | _ => none

private def batch? (v : Value) : Option BatchLimits := do
  match ← naturals ["max_worker_threads", "max_files_per_batch"] v with
  | [a, b] => return ⟨a, b⟩
  | _ => none

private def logging? (v : Value) : Option LoggingLimits := do
  match ← naturals ["max_error_collection", "max_log_message_length",
    "max_log_events_per_file"] v with
  | [a, b, c] => return ⟨a, b, c⟩
  | _ => none

def ofDocument? (document : String) : Option BuildLimits := do
  match ← (← Toml.read? document).fields? ["file_processing", "lexical", "batch_processing",
    "logging"] with
  | [a, b, c, d] => return ⟨← required files? a, ← required lexical? b, ← required batch? c,
      ← required logging? d⟩
  | _ => none

end BuildLimits

end Lexing
