import Lexing.Analysis.Opening
import Lexing.CommandLine.Report
import Lexing.Settings.Document

namespace Lexing.CommandLine

structure Exit where
  code : Nat
  outputs : Array Output
  files : FileSystem
  deriving Repr

inductive StartError where
  | unreadableSettings (path : String)
  | invalidSettings (path : String)
  | unwritableLog (path : String)
  | journal (error : JournalError)
  deriving DecidableEq, Repr

def StartError.message : StartError → String
  | .unreadableSettings path => s!"Io: cannot read {path}"
  | .invalidSettings path => s!"Parse: no settings in {path}"
  | .unwritableLog path => s!"Os: cannot open {path}"
  | .journal error => Text.quote error.message

private def putAll (j : Journal) (outputs : List Output) : Journal :=
  { j with outputs := j.outputs ++ outputs.toArray }

def preferences (s : FileSystem) (e : Environment) (o : Options) :
    Except StartError Preferences :=
  match o.config with
  | none => .ok (.ofEnvironment e)
  | some path =>
      match s.text? (.ofString path) with
      | none => .error (.unreadableSettings path)
      | some document =>
          match Preferences.ofDocument? e document with
          | some p => .ok p
          | none => .error (.invalidSettings path)

def withLog (s : FileSystem) (o : Options) : Except StartError FileSystem :=
  match o.logFile with
  | none => .ok s
  | some path =>
      match s.touch (.ofString path) with
      | .ok s => .ok s
      | .error _ => .error (.unwritableLog path)

def openJournal (p : Preferences) (o : Options) (j : Journal) : Except StartError Journal :=
  let service : LogService :=
    ⟨.ofPreferences p.logging (o.logFile.map .ofString), p.logging.minLevel⟩
  match (j.install p.logging).bind (·.openWith service), Opening.remarks with
  | .error error, _ => .error (.journal error)
  | .ok _, .error reason => .error (.journal (.unprepared reason))
  | .ok j, .ok told => .ok (Act.applyAll told (none, j)).2

abbrev Verdict := Bool × Journal

private def fail (j : Journal) (code message : String) : Verdict :=
  (false, (j.put (failure code message)).printReport)

def runFile (d : Disk) (p : Preferences) (o : Options) (path : String) (j : Journal) :
    Verdict :=
  let added (told : List Act) := d.added fun _ => (Act.applyAll told (none, j)).2.outputs.toList
  let (loaded, told) := (Loader.mk p.files d.files added).load path
  let j := (Act.applyAll told (none, j)).2
  match loaded with
  | .error error => fail j error.code error.message
  | .ok file =>
      let (outcome, _, told) := (Analyzer.ofPreferences p.lexical .empty).analyzeFile file
      let j := (Act.applyAll (Act.within ⟨file.metadata.path, 0⟩ told) (none, j)).2
      match outcome with
      | .error error => fail j error.code error.message
      | .ok stream => (!stream.hasErrors, putAll j (streamReport o stream))

def runDirectory (schedule : Nat → List Nat) (d : Disk) (p : Preferences) (o : Options)
    (directory : Path) (j : Journal) : Verdict :=
  let b := o.batchSettings p
  let j := if o.quiet || o.json then j else putAll j (batchHeader b directory)
  match Batch.runBy schedule d b (Batch.modeOf b) directory j with
  | (.error error, j) => fail j error.code error.message
  | (.ok results, j) =>
      let j := if o.json then j.put (batchJson results)
        else (putAll j (batchReport results)).printReport
      (results.failures.isEmpty && results.diagnosticCount = 0, j)

def runInputBy (schedule : Nat → List Nat) (s : FileSystem) (e : Environment) (input : String)
    (arguments : List String) : Exit :=
  let gs := groups arguments
  let o := Options.ofGroups gs
  let j := putAll (.closed e) (gs.filterMap fun g => g.warning?.map .error)
  let started : Except StartError (FileSystem × Preferences × Journal) := do
    let p ← preferences s e o
    let s ← withLog s o
    return (s, p, ← openJournal p o j)
  match started with
  | .error error => ⟨1, (j.put (.error s!"Error: {error.message}")).outputs, s⟩
  | .ok (s, p, j) =>
      let path := Path.ofString input
      let d : Disk := ⟨s, (o.logFile.map .ofString).toList⟩
      let (clean, j) :=
        if s.isFolder path then runDirectory schedule d p o path j else runFile d p o input j
      ⟨if clean then 0 else 1, j.outputs, s.receive j.outputs.toList⟩

def runInput (s : FileSystem) (e : Environment) (input : String) (arguments : List String) :
    Exit :=
  runInputBy (fun _ => []) s e input arguments

def run (s : FileSystem) (e : Environment) (program : String) : List String → Exit
  | [] => ⟨2, (usage program).toArray, s⟩
  | input :: arguments =>
      if input = "--help" then ⟨0, (help program).toArray, s⟩ else runInput s e input arguments

end Lexing.CommandLine
