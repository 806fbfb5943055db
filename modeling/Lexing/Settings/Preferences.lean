import Lexing.Journal.Level
import Lexing.Json.Basic
import Lexing.Scan.Piece
import Lexing.Settings.Environment
import Lexing.Settings.Limits

namespace Lexing

structure FilePreferences where
  requireExtension : Bool
  logPerformance : Bool
  deriving DecidableEq, Repr

structure LexicalPreferences where
  coalesce : Bool
  comments : Comments
  detailedMetrics : Bool
  logDiagnostics : Bool
  logStringStatistics : Bool
  deriving DecidableEq, Repr

structure BatchPreferences where
  workerThreads : Nat
  recursive : Bool
  failFast : Bool
  deriving DecidableEq, Repr

structure LoggingPreferences where
  structured : Bool
  console : Bool
  minLevel : Level
  summary : Bool
  fileContext : Bool
  deriving DecidableEq, Repr

structure Preferences where
  files : FilePreferences
  lexical : LexicalPreferences
  batch : BatchPreferences
  logging : LoggingPreferences
  deriving DecidableEq, Repr

def FilePreferences.ofEnvironment (e : Environment) : FilePreferences where
  requireExtension := e.switch "RAVEN_REQUIRE_RV_EXTENSION" false
  logPerformance := e.switch "RAVEN_ENABLE_PERFORMANCE_LOGGING" true

def Comments.ofEnvironment (e : Environment) : Comments where
  line :=
    match e.text? "RAVEN_LEXICAL_LINE_COMMENTS" with
    | some setting => Comments.readLine setting
    | none => ["#"]
  block := (e.text? "RAVEN_LEXICAL_BLOCK_COMMENT").bind Comments.readBlock

def LexicalPreferences.ofEnvironment (e : Environment) : LexicalPreferences where
  coalesce := e.switch "RAVEN_LEXICAL_COALESCE_NEWLINES" true
  comments := .ofEnvironment e
  detailedMetrics := e.switch "RAVEN_LEXICAL_DETAILED_METRICS" true
  logDiagnostics := e.switch "RAVEN_LEXICAL_LOG_DIAGNOSTICS" true
  logStringStatistics := e.switch "RAVEN_LEXICAL_LOG_STRING_STATS" false

def BatchPreferences.ofEnvironment (e : Environment) : BatchPreferences where
  workerThreads := e.count "RAVEN_BATCH_WORKER_THREADS" 4
  recursive := e.switch "RAVEN_BATCH_RECURSIVE" true
  failFast := e.switch "RAVEN_BATCH_FAIL_FAST" false

def LoggingPreferences.ofEnvironment (e : Environment) : LoggingPreferences where
  structured := e.switch "RAVEN_LOGGING_USE_STRUCTURED" false
  console := e.switch "RAVEN_LOGGING_ENABLE_CONSOLE" false
  minLevel := ((e.text? "RAVEN_LOGGING_MIN_LEVEL").bind Level.ofSetting?).getD .info
  summary := e.switch "RAVEN_LOGGING_CARGO_STYLE" true
  fileContext := e.switch "RAVEN_LOGGING_INCLUDE_FILE_CONTEXT" true

def Preferences.variables : List String :=
  ["RAVEN_REQUIRE_RV_EXTENSION", "RAVEN_ENABLE_PERFORMANCE_LOGGING",
    "RAVEN_LEXICAL_LINE_COMMENTS", "RAVEN_LEXICAL_BLOCK_COMMENT",
    "RAVEN_LEXICAL_COALESCE_NEWLINES", "RAVEN_LEXICAL_DETAILED_METRICS",
    "RAVEN_LEXICAL_LOG_DIAGNOSTICS", "RAVEN_LEXICAL_LOG_STRING_STATS",
    "RAVEN_BATCH_WORKER_THREADS", "RAVEN_BATCH_RECURSIVE", "RAVEN_BATCH_FAIL_FAST",
    "RAVEN_LOGGING_USE_STRUCTURED", "RAVEN_LOGGING_ENABLE_CONSOLE", "RAVEN_LOGGING_MIN_LEVEL",
    "RAVEN_LOGGING_CARGO_STYLE", "RAVEN_LOGGING_INCLUDE_FILE_CONTEXT"]

def Preferences.ofEnvironment (e : Environment) : Preferences where
  files := .ofEnvironment e
  lexical := .ofEnvironment e
  batch := .ofEnvironment e
  logging := .ofEnvironment e

def Options.ofPreferences (p : LexicalPreferences) : Options where
  coalesce := p.coalesce
  comments := p.comments
  maxIdentifier := Limits.lexical.maxIdentifier
  maxString := Limits.lexical.maxString
  maxComment := Limits.lexical.maxComment

def LexicalLimits.toJson (l : LexicalLimits) : Json :=
  .object [("max_string_size", .natural l.maxString),
    ("max_identifier_length", .natural l.maxIdentifier),
    ("max_comment_length", .natural l.maxComment), ("max_token_count", .natural l.maxTokens),
    ("max_external_recognizers", .natural l.maxRecognizers)]

def Comments.toJson (k : Comments) : Json :=
  .object [("line", .list (k.line.map .text)),
    ("block", Json.option (fun b => .list [.text b.1, .text b.2]) k.block)]

def LexicalPreferences.toJson (p : LexicalPreferences) : Json :=
  .object [("coalesce_newlines", .bool p.coalesce), ("comments", p.comments.toJson),
    ("collect_detailed_metrics", .bool p.detailedMetrics),
    ("log_diagnostics", .bool p.logDiagnostics),
    ("log_string_statistics", .bool p.logStringStatistics)]

def Preferences.toJson (p : Preferences) : Json :=
  .object [
    ("file_processor", .object [
      ("require_rv_extension", .bool p.files.requireExtension),
      ("enable_performance_logging", .bool p.files.logPerformance)]),
    ("lexical", p.lexical.toJson),
    ("batch", .object [
      ("worker_threads", .natural p.batch.workerThreads),
      ("recursive", .bool p.batch.recursive),
      ("fail_fast", .bool p.batch.failFast)]),
    ("logging", .object [
      ("use_structured_logging", .bool p.logging.structured),
      ("enable_console_logging", .bool p.logging.console),
      ("min_log_level", .text p.logging.minLevel.word),
      ("enable_cargo_style_output", .bool p.logging.summary),
      ("include_file_context", .bool p.logging.fileContext)])]

end Lexing
