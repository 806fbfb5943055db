import Lexing.Batch.Basic
import Lexing.CommandLine.Options

namespace Lexing.CommandLine

def usage (program : String) : List Output := [
  .error s!"Usage: {program} <input.rv|directory> [options]",
  .error s!"       {program} --help"]

def help (program : String) : List Output :=
  let l := Limits.lexical
  [.standard "Raven lexer v0.1.0",
    .standard "Tokenizes Raven source files and reports lexical diagnostics",
    .standard "",
    .standard "USAGE:",
    .standard s!"    {program} <input.rv> [options]           # Tokenize one file",
    .standard s!"    {program} <directory> [options]          # Tokenize a directory",
    .standard "",
    .standard "OPTIONS:",
    .standard "    --help              Show this help message",
    .standard "    --json              Print tokens and diagnostics as JSON",
    .standard "    --quiet             Only print diagnostics and the summary",
    .standard "    --config FILE       Load preferences from a TOML file",
    .standard "    --log-file FILE     Also write log events to FILE",
    .standard "    --sequential        Force sequential processing (no parallelism)",
    .standard "    --threads N         Set maximum number of worker threads",
    .standard "    --no-recursive      Don't search subdirectories",
    .standard "    --max-files N       Limit maximum files to process",
    .standard "    --fail-fast         Stop on first failed file",
    .standard "",
    .standard "EXIT STATUS:",
    .standard "    0 when every file tokenized without diagnostics, 1 otherwise",
    .standard "",
    .standard "LIMITS:",
    .standard s!"    Max token count: {l.maxTokens}",
    .standard s!"    Max identifier length: {l.maxIdentifier}",
    .standard s!"    Max string size: {l.maxString}",
    .standard s!"    Max file size: {Limits.files.maxSize}",
    .standard s!"    {Limits.sourceInfo}"]

private def payloadText : Payload → String
  | .none => ""
  | .number x => Layout.plain.write x
  | .text s => Text.quote s

private def padLeft (width : Nat) (s : String) : String := "".pushn ' ' (width - s.length) ++ s

private def padRight (width : Nat) (s : String) : String := s.pushn ' ' (width - s.length)

def tokenLine (t : Token) : String :=
  s!"{padLeft 5 (toString t.line)}  {padRight 26 t.kind.name} {payloadText t.payload}"

private def streamFields (s : TokenStream) : List (String × Json) := [
  ("diagnostics", .list (s.diagnostics.map (·.toJson))),
  ("tokens", .list (s.tokens.toList.map (·.toJson)))]

private def inJson (value : Json) : Output := .standard value.sorted.pretty

private def excerpts (s : TokenStream) : List Output :=
  s.diagnostics.map fun d => .error ((s.excerpt? d).getD "")

def streamReport (o : Options) (s : TokenStream) : List Output :=
  let tokens :=
    if o.json then [inJson (.object (streamFields s))]
    else if o.quiet then []
    else s.tokens.toList.map fun t => .standard (tokenLine t)
  tokens ++ excerpts s

def failure (code message : String) : Output := .error s!"error[{code}]: {message}"

def batchHeader (b : BatchSettings) (directory : Path) : List Output := [
  .standard s!"Starting batch tokenization: {directory.display}",
  .standard
    s!"Configuration: {b.workers} threads, recursive={b.recursive}, fail_fast={b.failFast}"]

def batchJson (r : BatchResults) : Output :=
  inJson (.object [
    ("files", .list (r.successes.map fun (path, file) =>
      .object ([("file", .text path.display), ("metrics", file.metrics.toJson)] ++
        streamFields file.stream))),
    ("failures", .list (r.failures.map fun (path, error) =>
      .object [("file", .text path.display), ("code", .text error.code),
        ("error", .text error.message)]))])

private def rateLine (r : BatchResults) : List Output :=
  match r.duration.seconds with
  | .finite false x =>
      if x.units = 0 then []
      else
        let rate := (Binary64.ofNat r.tokenCount).div (.finite false x)
        [.standard s!"  Processing rate: {rate.toPlaces 0} tokens/sec"]
  | _ => []

def batchReport (r : BatchResults) : List Output :=
  let failed :=
    if r.failures.isEmpty then []
    else .standard "\nFailed Files:" :: r.failures.map fun (path, error) =>
      .standard s!"  {path.display}: [{error.code}] {error.message}"
  [.standard "\nBatch Tokenization Summary:",
    .standard s!"  Files discovered: {r.discovered}",
    .standard s!"  Files processed: {r.processed}",
    .standard s!"  Successful: {r.successes.length} ({r.percentage}%)",
    .standard s!"  Failed: {r.failures.length}",
    .standard s!"  Tokens: {r.tokenCount}",
    .standard s!"  Diagnostics: {r.diagnosticCount}",
    .standard s!"  Total time: {r.duration.seconds.toPlaces 2}s"] ++
  rateLine r ++ failed ++ r.successes.flatMap fun file => excerpts file.2.stream

end Lexing.CommandLine
