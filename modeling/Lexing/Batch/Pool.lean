import Lexing.Batch.Results

namespace Lexing

inductive Task where
  | act (a : Act)
  | record (path : Path) (id : Nat) (outcome : Except AnalysisError FileTokens)

namespace Task

def tellOutcome (path : Path) (id : Nat) : Except AnalysisError FileTokens → Act
  | .ok tokens =>
      .emit ((Event.success "I006" "File tokenized").noteAll [
        ("file", path.display), ("file_id", toString id),
        ("tokens", toString tokens.stream.size),
        ("diagnostics", toString tokens.stream.diagnostics.length)])
  | .error error =>
      .emit ((Event.error error.code "File processing failed").noteAll [
        ("file", path.display), ("file_id", toString id), ("error", error.message)])

def ofFile (path : Path) (id : Nat) (processed : Except AnalysisError FileTokens × List Act) :
    List Task :=
  act (.enter ⟨path, id⟩) :: processed.2.map act ++
    [record path id processed.1, act .leave]

end Task

structure Worker where
  context : Option FileContext
  todo : List Task

structure Pool where
  journal : Journal
  results : BatchResults
  workers : List Worker

namespace Pool

def ofTasks (j : Journal) (tasks : List (List Task)) : Pool :=
  ⟨j, .empty, tasks.map fun todo => ⟨none, todo⟩⟩

/-- A task is done in one turn, without interruption. -/
def step (p : Pool) (i : Nat) : Pool :=
  match p.workers[i]? with
  | some ⟨context, .act a :: todo⟩ =>
      let (context, journal) := a.apply (context, p.journal)
      { p with journal, workers := p.workers.set i ⟨context, todo⟩ }
  | some ⟨context, .record path id outcome :: todo⟩ =>
      let (context, journal) := (Task.tellOutcome path id outcome).apply (context, p.journal)
      ⟨journal, p.results.add path outcome, p.workers.set i ⟨context, todo⟩⟩
  | _ => p

def run (p : Pool) (schedule : List Nat) : Pool := schedule.foldl step p

def inTurn (p : Pool) : List Nat :=
  p.workers.zipIdx.flatMap fun (w, i) => List.replicate w.todo.length i

def complete (p : Pool) (schedule : List Nat) : Pool :=
  let p := p.run schedule
  p.run p.inTurn

def alone (j : Journal) (tasks : List Task) : Journal :=
  ((ofTasks j [tasks]).complete []).journal

end Pool

end Lexing
