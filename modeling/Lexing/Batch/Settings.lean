import Lexing.Scan.Recognizer
import Lexing.Settings.Preferences

namespace Lexing

structure BatchSettings where
  threads : Nat
  recursive : Bool
  fileLimit : Option Nat
  progress : Bool
  failFast : Bool
  files : FilePreferences
  lexical : LexicalPreferences
  recognizers : Recognizers

namespace BatchSettings

private def boundThreads (n : Nat) : Nat := max 1 (min n Limits.batch.maxThreads)

def ofPreferences (p : Preferences) : BatchSettings where
  threads := boundThreads p.batch.workerThreads
  recursive := p.batch.recursive
  fileLimit := none
  progress := false
  failFast := p.batch.failFast
  files := p.files
  lexical := p.lexical
  recognizers := .empty

/-- The settings where none are chosen, on a machine with so many cores if their number is known. -/
def ofCores (cores : Option Nat) (e : Environment) : BatchSettings where
  threads := (cores.map (min · 8)).getD 4
  recursive := true
  fileLimit := none
  progress := false
  failFast := false
  files := .ofEnvironment e
  lexical := .ofEnvironment e
  recognizers := .empty

def workers (b : BatchSettings) : Nat := boundThreads b.threads

theorem workers_pos (b : BatchSettings) : 0 < b.workers := Nat.le_max_left ..

end BatchSettings

end Lexing
