import Lexing.Analysis.Basic

namespace Lexing

inductive BatchError where
  | directoryNotFound (path : String)
  | noFilesFound (path : String)
  | tooManyFiles (count limit : Nat)
  | unreadable (message : String)
  | workerFailed (message : String)
  deriving DecidableEq, Repr

namespace BatchError

def code : BatchError → String
  | .directoryNotFound _ => "B001"
  | .noFilesFound _ => "B002"
  | .tooManyFiles _ _ => "B003"
  | .unreadable _ => "B004"
  | .workerFailed _ => "B005"

def message : BatchError → String
  | .directoryNotFound path => s!"Directory not found: {path}"
  | .noFilesFound path => s!"No .rv files found in directory: {path}"
  | .tooManyFiles count limit => s!"Too many files found: {count} (max: {limit})"
  | .unreadable message => s!"IO error during directory traversal: {message}"
  | .workerFailed message => s!"Worker thread failed: {message}"

end BatchError

structure BatchResults where
  successes : List (Path × FileTokens)
  failures : List (Path × AnalysisError)
  processed : Nat
  discovered : Nat
  duration : Duration

namespace BatchResults

def empty : BatchResults := ⟨[], [], 0, 0, .zero⟩

def add (r : BatchResults) (path : Path) : Except AnalysisError FileTokens → BatchResults
  | .ok tokens =>
      { r with successes := r.successes ++ [(path, tokens)], processed := r.processed + 1 }
  | .error error =>
      { r with failures := r.failures ++ [(path, error)], processed := r.processed + 1 }

def merge (r other : BatchResults) : BatchResults :=
  { r with
    successes := r.successes ++ other.successes
    failures := r.failures ++ other.failures
    processed := r.processed + other.processed }

def sorted (r : BatchResults) : BatchResults :=
  { r with
    successes := Path.inOrder (·.1) r.successes
    failures := Path.inOrder (·.1) r.failures }

def successRate (r : BatchResults) : Binary64 :=
  if r.processed = 0 then .zero
  else (Binary64.ofNat r.successes.length).div (.ofNat r.processed)

def diagnosticCount (r : BatchResults) : Nat :=
  r.successes.foldl (fun n f => n + f.2.stream.diagnostics.length) 0

def tokenCount (r : BatchResults) : Nat := r.successes.foldl (fun n f => n + f.2.stream.size) 0

def percentage (r : BatchResults) : String := (r.successRate.mul (.ofNat 100)).toPlaces 1

def summary (r : BatchResults) : String :=
  s!"Batch tokenization completed: {r.processed} files processed, " ++
    s!"{r.successes.length} successful ({r.percentage}%), {r.failures.length} failed, " ++
    s!"{r.tokenCount} tokens, {r.diagnosticCount} diagnostics, " ++
    s!"{r.duration.seconds.toPlaces 2}s total"

end BatchResults

end Lexing
