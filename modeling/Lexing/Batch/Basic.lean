import Lexing.Batch.Discovery
import Lexing.Batch.Pool

namespace Lexing

inductive BatchMode where
  | sequential
  | parallel
  deriving DecidableEq, Repr

abbrev NumberedFile := Path × Nat

abbrev Round := List (List NumberedFile)

namespace Batch

def chunks {α : Type} (size : Nat) (items : List α) : List (List α) :=
  match items with
  | [] => []
  | x :: xs => (x :: xs.take (size - 1)) :: chunks size (xs.drop (size - 1))
termination_by items.length
decreasing_by simp only [List.length_cons, List.length_drop]; omega

def shareCount (count size : Nat) : Nat := (count + size - 1) / size

def roundSize (files workers : Nat) : Nat := max 1 (min (shareCount files (max 1 workers)) 50)

def shareSize (files workers : Nat) : Nat := max 1 (shareCount files workers)

def shares (workers first : Nat) (files : List Path) : Round :=
  let size := shareSize files.length workers
  (chunks size files).zipIdx.map fun (share, worker) => share.zipIdx (first + worker * size)

def rounds (mode : BatchMode) (workers : Nat) (files : List Path) : List Round :=
  match mode with
  | .sequential => files.zipIdx.map fun f => [[f]]
  | .parallel =>
      let size := roundSize files.length workers
      (chunks size files).zipIdx.map fun (round, index) => shares workers (index * size) round

def process (d : Disk) (b : BatchSettings) (before : Unit → Journal) (f : NumberedFile) :
    Except AnalysisError FileTokens × List Act :=
  match f.1.text? with
  | none => (.error (.file (.invalidPath f.1.display)), [])
  | some text =>
      let added (told : List Act) := d.added fun _ =>
        (Act.applyAll (.enter ⟨f.1, f.2⟩ :: told) (none, before ())).2.outputs.toList
      Loader.analyze ⟨b.files, d.files, added⟩ (.ofPreferences b.lexical b.recognizers) text

def announce (b : BatchSettings) (mode : BatchMode) (total : Nat) (f : NumberedFile) :
    List Task :=
  if b.progress && mode = .sequential then
    [.act (.print (.error s!"Tokenizing file {f.2 + 1} of {total}: {f.1.display}"))]
  else
    []

def tasks (d : Disk) (b : BatchSettings) (mode : BatchMode) (total : Nat)
    (before : Unit → Journal) : List NumberedFile → List Task
  | [] => []
  | f :: more =>
      let own := announce b mode total f ++ Task.ofFile f.1 f.2 (process d b before f)
      own ++ tasks d b mode total (fun _ => Pool.alone (before ()) own) more

def runRounds (d : Disk) (b : BatchSettings) (mode : BatchMode) (total : Nat)
    (schedule : Nat → List Nat) :
    List Round → Nat → BatchResults → Journal → BatchResults × Journal
  | [], _, results, j => (results, j)
  | round :: more, number, results, j =>
      let shares := round.map (tasks d b mode total fun _ => j)
      let pool := (Pool.ofTasks j shares).complete (schedule number)
      let results := results.merge pool.results
      if b.failFast && !results.failures.isEmpty then
        (results, pool.journal.emit none
          (.warning "Fail-fast mode enabled, stopping batch processing"))
      else
        runRounds d b mode total schedule more (number + 1) results pool.journal

def tellStart (b : BatchSettings) (mode : BatchMode) (directory : Path) : Act :=
  match mode with
  | .sequential =>
      .emit ((Event.info "Starting sequential batch processing").note
        "directory" directory.display)
  | .parallel =>
      .emit ((Event.info "Starting parallel batch processing").noteAll [
        ("directory", directory.display), ("max_threads", toString b.workers)])

def tellRounds (b : BatchSettings) (mode : BatchMode) (files : Nat) : List Act :=
  match mode with
  | .sequential => []
  | .parallel =>
      [.detail ((Event.debug "Parallel processing configuration").noteAll [
        ("total_files", toString files), ("chunk_size", toString (roundSize files b.workers)),
        ("threads", toString b.workers)])]

private def tellDone (threads : Nat) (r : BatchResults) : Event :=
  (Event.success "I031" "Batch tokenization completed").noteAll [
    ("files_processed", toString r.processed), ("successful", toString r.successes.length),
    ("failed", toString r.failures.length), ("tokens", toString r.tokenCount),
    ("diagnostics", toString r.diagnosticCount), ("threads_used", toString threads),
    ("duration_ms", r.duration.millis.toPlaces 2)]

/-- Runs a batch over a directory. `schedule` gives the turns of the workers in each round. -/
def runBy (schedule : Nat → List Nat) (d : Disk) (b : BatchSettings) (mode : BatchMode)
    (directory : Path) (j : Journal) : Except BatchError BatchResults × Journal :=
  let (found, told) := Discovery.find d.files b directory
  let j := (Act.applyAll (tellStart b mode directory :: told) (none, j)).2
  match found with
  | .error error => (.error error, j)
  | .ok files =>
      let (valid, told) := Discovery.accept d.files files
      let j := (Act.applyAll (told ++ tellRounds b mode valid.length) (none, j)).2
      let todo := rounds mode b.workers valid
      let (results, j) := runRounds d b mode valid.length schedule todo 0 .empty j
      let results := { results with discovered := files.length }
      let (results, threads) := match mode with
        | .sequential => (results, 1)
        | .parallel => (results.sorted, b.workers)
      (.ok results, j.emit none (tellDone threads results))

def modeOf (b : BatchSettings) : BatchMode := if b.workers = 1 then .sequential else .parallel

def runIn (mode : BatchMode) (d : Disk) (b : BatchSettings) (directory : Path)
    (j : Journal) : Except BatchError BatchResults × Journal :=
  runBy (fun _ => []) d b mode directory j

def run (d : Disk) (b : BatchSettings) (directory : Path) (j : Journal) :
    Except BatchError BatchResults × Journal :=
  runIn (modeOf b) d b directory j

end Batch

end Lexing
