import Lexing.Proofs.Batch.Discovery
import Lexing.Proofs.Batch.Pool
import Lexing.Proofs.Batch.Rounds
import Lexing.Proofs.Files.Loading
import Lexing.Proofs.Journal.Attribution

namespace Lexing

/-- Nothing is logged to the file at a path. -/
def Disk.Spares (d : Disk) (path : Path) : Prop :=
  ∀ text, path.text? = some text → ∀ found, d.files.find? (.ofString text) = some found →
    ∀ log ∈ d.logs, d.files.leadsTo log found.1 = false

def AnalysisError.ofOutcome? {α : Type} : Except AnalysisError α → Option AnalysisError
  | .ok _ => none
  | .error error => some error

namespace BatchResults

def ofFiles (outcomeOf : Path → Except AnalysisError FileTokens) (files : List Path) :
    BatchResults where
  successes := files.filterMap fun p => (outcomeOf p).toOption.map (p, ·)
  failures := files.filterMap fun p => (AnalysisError.ofOutcome? (outcomeOf p)).map (p, ·)
  processed := files.length
  discovered := 0
  duration := .zero

theorem addAll_eq (r : BatchResults) (found : List FileOutcome) :
    r.addAll found =
      { r with
        successes := r.successes ++ found.filterMap fun f => f.2.toOption.map (f.1, ·)
        failures := r.failures ++
          found.filterMap fun f => (AnalysisError.ofOutcome? f.2).map (f.1, ·)
        processed := r.processed + found.length } := by
  induction found generalizing r with
  | nil => simp [addAll]
  | cons f fs ih =>
      obtain ⟨path, outcome⟩ := f
      have hmore : r.addAll ((path, outcome) :: fs) = (r.add path outcome).addAll fs := rfl
      rw [hmore, ih]
      cases outcome <;>
        simp [add, Except.toOption, AnalysisError.ofOutcome?, Nat.add_assoc, Nat.add_comm 1]

variable {outcomeOf : Path → Except AnalysisError FileTokens} {files : List Path}

theorem addAll_outcomes :
    empty.addAll (files.map fun p => (p, outcomeOf p)) = ofFiles outcomeOf files := by
  rw [addAll_eq]
  simp only [empty, ofFiles, List.filterMap_map, List.length_map, List.nil_append, Nat.zero_add]
  rfl

theorem inOrder_eq {α : Type} (valueOf : Path → Option α) {found : List (Path × α)}
    (hsorted : Path.Sorted id files)
    (hparts : ∀ p ∈ files, ∀ q ∈ files, p.parts = q.parts → p = q)
    (hperm : found.Perm (files.filterMap fun p => (valueOf p).map (p, ·))) :
    Path.inOrder (·.1) found = files.filterMap fun p => (valueOf p).map (p, ·) := by
  have hmem : ∀ x ∈ files.filterMap fun p => (valueOf p).map (p, ·),
      x.1 ∈ files ∧ valueOf x.1 = some x.2 := by
    intro x hx
    obtain ⟨p, hp, hvalue⟩ := List.mem_filterMap.1 hx
    obtain ⟨a, ha, rfl⟩ := Option.map_eq_some_iff.1 hvalue
    exact ⟨hp, ha⟩
  refine Path.inOrder_eq_of_perm ?_ hperm ?_
  · refine List.pairwise_filterMap.2 (hsorted.imp fun {p q} hpq => ?_)
    intro x hx y hy
    obtain ⟨a, -, rfl⟩ := Option.map_eq_some_iff.1 hx
    obtain ⟨c, -, rfl⟩ := Option.map_eq_some_iff.1 hy
    exact hpq
  · intro x hx y hy hxy
    obtain ⟨hxfile, hxvalue⟩ := hmem x hx
    obtain ⟨hyfile, hyvalue⟩ := hmem y hy
    have hpath := hparts _ hxfile _ hyfile hxy
    rw [hpath, hyvalue] at hxvalue
    exact Prod.ext hpath (Option.some.inj hxvalue).symm

theorem sorted_addAll {found : List FileOutcome} (hsorted : Path.Sorted id files)
    (hparts : ∀ p ∈ files, ∀ q ∈ files, p.parts = q.parts → p = q)
    (hperm : found.Perm (files.map fun p => (p, outcomeOf p))) :
    (empty.addAll found).sorted = ofFiles outcomeOf files := by
  have hoks := hperm.filterMap fun f => f.2.toOption.map (f.1, ·)
  have herrors := hperm.filterMap fun f => (AnalysisError.ofOutcome? f.2).map (f.1, ·)
  have hlength := hperm.length_eq
  rw [List.filterMap_map] at hoks herrors
  rw [List.length_map] at hlength
  have hokorder := inOrder_eq (fun p => (outcomeOf p).toOption) hsorted hparts hoks
  have herrororder := inOrder_eq (fun p => AnalysisError.ofOutcome? (outcomeOf p)) hsorted
    hparts herrors
  rw [addAll_eq, hlength]
  simp only [sorted, empty, ofFiles, List.nil_append, Nat.zero_add, hokorder, herrororder]

end BatchResults

def Task.numbered : Task → List NumberedFile
  | .act _ => []
  | .record path id _ => [(path, id)]

namespace Batch

variable {d : Disk} {b : BatchSettings} {mode : BatchMode} {total : Nat}

def outcome (d : Disk) (b : BatchSettings) (path : Path) : Except AnalysisError FileTokens :=
  match path.text? with
  | none => .error (.file (.invalidPath path.display))
  | some text =>
      (Loader.analyze (.of b.files d.files) (.ofPreferences b.lexical b.recognizers) text).1

def told (d : Disk) (b : BatchSettings) (path : Path) : List Act :=
  match path.text? with
  | none => []
  | some text =>
      (Loader.analyze (.of b.files d.files) (.ofPreferences b.lexical b.recognizers) text).2

theorem staysPut_told (d : Disk) (b : BatchSettings) (path : Path) :
    ∀ a ∈ told d b path, a.staysPut := by
  unfold told
  split
  · simp
  · exact Loader.staysPut_analyze _ _ _

theorem process_eq {f : NumberedFile} (h : d.Spares f.1) (before : Unit → Journal) :
    process d b before f = (outcome d b f.1, told d b f.1) := by
  unfold process outcome told
  cases htext : f.1.text? with
  | none => rfl
  | some text =>
      dsimp only
      rw [Loader.analyze_of_unchanged]
      intro found hfound told
      have hnone : d.logs.any (d.files.leadsTo · found.1) = false := by
        rw [List.any_eq_false]
        intro log hlog
        simp [h text htext found hfound log hlog]
      simp [Disk.added, hnone]

section Tasks

variable {β : Type} {g : Task → List β}

theorem flatMap_ofFile (hact : ∀ a, g (.act a) = []) (path : Path) (id : Nat)
    (processed : Except AnalysisError FileTokens × List Act) :
    (Task.ofFile path id processed).flatMap g = g (.record path id processed.1) := by
  simp [Task.ofFile, List.flatMap_map, hact]

theorem flatMap_announce (hact : ∀ a, g (.act a) = []) (f : NumberedFile) :
    (announce b mode total f).flatMap g = [] := by
  unfold announce
  split <;> simp [hact]

theorem flatMap_tasks {valueOf : NumberedFile → β} {files : List NumberedFile}
    (hact : ∀ a, g (.act a) = [])
    (hrecord : ∀ f ∈ files, ∀ before, g (.record f.1 f.2 (process d b before f).1) = [valueOf f])
    (before : Unit → Journal) :
    (tasks d b mode total before files).flatMap g = files.map valueOf := by
  induction files generalizing before with
  | nil => rfl
  | cons f fs ih =>
      obtain ⟨hf, hfs⟩ := List.forall_mem_cons.1 hrecord
      rw [tasks, List.flatMap_append, List.flatMap_append, flatMap_announce hact,
        flatMap_ofFile hact, hf, ih hfs]
      rfl

end Tasks

theorem flatMap_recorded_tasks {files : List NumberedFile} (h : ∀ f ∈ files, d.Spares f.1)
    (before : Unit → Journal) :
    (tasks d b mode total before files).flatMap Task.recorded =
      files.map fun f => (f.1, outcome d b f.1) := by
  refine flatMap_tasks (fun _ => rfl) (fun f hf before => ?_) before
  rw [Task.recorded, process_eq (h f hf)]

theorem flatMap_numbered_tasks (files : List NumberedFile) (before : Unit → Journal) :
    (tasks d b mode total before files).flatMap Task.numbered = files := by
  have hmap : (tasks d b mode total before files).flatMap Task.numbered = files.map id :=
    flatMap_tasks (fun _ => rfl) (fun _ _ _ => rfl) before
  rwa [List.map_id] at hmap

theorem results_round (mode : BatchMode) (total : Nat) {round : Round}
    (h : ∀ f ∈ round.flatten, d.Spares f.1) (j : Journal) (schedule : List Nat) :
    ∃ found, ((Pool.ofTasks j (round.map (tasks d b mode total fun _ => j))).complete
        schedule).results = BatchResults.empty.addAll found ∧
      found.Perm (round.flatten.map fun f => (f.1, outcome d b f.1)) := by
  have htasks : (round.map (tasks d b mode total fun _ => j)).flatten.flatMap Task.recorded =
      round.flatten.map fun f => (f.1, outcome d b f.1) := by
    induction round with
    | nil => rfl
    | cons share round ih =>
        rw [List.flatten_cons, List.forall_mem_append] at h
        rw [List.map_cons, List.flatten_cons, List.flatMap_append, flatMap_recorded_tasks h.1,
          ih h.2, List.flatten_cons, List.map_append]
  rw [← htasks]
  exact Pool.results_complete j _ schedule

inductive Records (d : Disk) (b : BatchSettings) : List Round → List FileOutcome → Prop
  | nil : Records d b [] []
  | cons {round : Round} {todo : List Round} {found more : List FileOutcome} :
      found.Perm (round.flatten.map fun f => (f.1, outcome d b f.1)) → Records d b todo more →
      Records d b (round :: todo) (found ++ more)

theorem Records.perm {todo : List Round} {found : List FileOutcome} (h : Records d b todo found) :
    found.Perm (todo.flatten.flatten.map fun f => (f.1, outcome d b f.1)) := by
  induction h with
  | nil => exact .nil
  | cons hfound _ ih =>
      rw [List.flatten_cons, List.flatten_append, List.map_append]
      exact hfound.append ih

theorem Records.eq_of_singletons {todo : List Round} {found : List FileOutcome}
    (h : Records d b todo found) (hsingle : ∀ round ∈ todo, ∃ f, round = [[f]]) :
    found = todo.flatten.flatten.map fun f => (f.1, outcome d b f.1) := by
  induction h with
  | nil => rfl
  | cons hfound _ ih =>
      obtain ⟨⟨f, rfl⟩, hmore⟩ := List.forall_mem_cons.1 hsingle
      rw [List.perm_singleton.1 hfound, ih hmore]
      rfl

def ordered (mode : BatchMode) (results : BatchResults) : BatchResults :=
  match mode with
  | .sequential => results
  | .parallel => results.sorted

theorem Records.results {todo : List Round} {found : List FileOutcome} {paths : List Path}
    (h : Records d b todo found) (hpaths : (todo.map files).flatten = paths)
    (hsingle : mode = .sequential → ∀ round ∈ todo, ∃ f, round = [[f]])
    (hsorted : Path.Sorted id paths)
    (hparts : ∀ p ∈ paths, ∀ q ∈ paths, p.parts = q.parts → p = q) :
    ordered mode (BatchResults.empty.addAll found) = BatchResults.ofFiles (outcome d b) paths := by
  have hfiles : (todo.flatten.flatten.map fun f => (f.1, outcome d b f.1)) =
      paths.map fun p => (p, outcome d b p) := by
    rw [← hpaths, ← map_fst_flatten, List.map_map]
    rfl
  cases mode with
  | sequential =>
      rw [ordered, h.eq_of_singletons (hsingle rfl), hfiles, BatchResults.addAll_outcomes]
  | parallel =>
      have hperm := h.perm
      rw [hfiles] at hperm
      exact BatchResults.sorted_addAll hsorted hparts hperm

theorem records_runRounds (mode : BatchMode) (total : Nat) (hfast : b.failFast = false)
    {todo : List Round} (h : ∀ f ∈ todo.flatten.flatten, d.Spares f.1)
    (schedule : Nat → List Nat) (number : Nat) (results : BatchResults) (j : Journal) :
    ∃ found, (runRounds d b mode total schedule todo number results j).1 = results.addAll found ∧
      Records d b todo found := by
  induction todo generalizing number results j with
  | nil => exact ⟨[], rfl, .nil⟩
  | cons round todo ih =>
      rw [List.flatten_cons, List.flatten_append, List.forall_mem_append] at h
      obtain ⟨found, hresults, hfound⟩ := results_round mode total h.1 j (schedule number)
      obtain ⟨more, hmore, hrecords⟩ := ih h.2 (number + 1) (results.addAll found)
        ((Pool.ofTasks j (round.map (tasks d b mode total fun _ => j))).complete
          (schedule number)).journal
      refine ⟨found ++ more, ?_, .cons hfound hrecords⟩
      rw [runRounds, hfast]
      simp only [Bool.false_and, Bool.false_eq_true, if_false]
      rw [hresults, BatchResults.merge_empty_addAll, BatchResults.addAll_append]
      exact hmore

theorem results_rounds (mode : BatchMode) (hfast : b.failFast = false) {files : List Path}
    (hsorted : Path.Sorted id files)
    (hparts : ∀ p ∈ files, ∀ q ∈ files, p.parts = q.parts → p = q)
    (hspares : ∀ p ∈ files, d.Spares p) (schedule : Nat → List Nat) (j : Journal) :
    ordered mode (runRounds d b mode files.length schedule (rounds mode b.workers files) 0 .empty
      j).1 = BatchResults.ofFiles (outcome d b) files := by
  have hall : ∀ f ∈ (rounds mode b.workers files).flatten.flatten, d.Spares f.1 := by
    rw [flatten_rounds]
    exact fun f hf => hspares f.1 (List.fst_mem_of_mem_zipIdx hf)
  obtain ⟨found, hresults, hrecords⟩ :=
    records_runRounds mode files.length hfast hall schedule 0 .empty j
  rw [hresults]
  refine hrecords.results ?_ ?_ hsorted hparts
  · rw [← map_fst_flatten, flatten_rounds, List.zipIdx_map_fst]
  · rintro rfl
    exact fun _ => exists_of_mem_sequential

def expected (d : Disk) (b : BatchSettings) (directory : Path) : Except BatchError BatchResults :=
  (Discovery.find d.files b directory).1.map fun files =>
    { BatchResults.ofFiles (outcome d b) (Discovery.accept d.files files).1 with
      discovered := files.length }

def started (d : Disk) (b : BatchSettings) (mode : BatchMode) (directory : Path)
    (files : List Path) (j : Journal) : Journal :=
  let (valid, told) := Discovery.accept d.files files
  let found := tellStart b mode directory :: (Discovery.find d.files b directory).2
  (Act.applyAll (told ++ tellRounds b mode valid.length) (none, (Act.applyAll found (none, j)).2)).2

theorem started_unchanged (mode : BatchMode) (directory : Path) (files : List Path) (j : Journal) :
    (started d b mode directory files j).preferences = j.preferences ∧
      (started d b mode directory files j).collector = j.collector := by
  have hfound : ∀ a ∈ tellStart b mode directory :: (Discovery.find d.files b directory).2,
      a.staysPut :=
    List.forall_mem_cons.2 ⟨by cases mode <;> rfl, Discovery.staysPut_find _ _ _⟩
  have haccepted : ∀ a ∈ (Discovery.accept d.files files).2 ++
      tellRounds b mode (Discovery.accept d.files files).1.length, a.staysPut :=
    List.forall_mem_append.2 ⟨Discovery.staysPut_accept _ _, by
      cases mode <;> simp [tellRounds, Act.staysPut]⟩
  obtain ⟨hpreferences, hcollector⟩ := Act.applyAll_none hfound j
  obtain ⟨hlater, hkept⟩ := Act.applyAll_none haccepted (Act.applyAll _ (none, j)).2
  exact ⟨hlater.trans hpreferences, hkept.trans hcollector⟩

theorem runBy_of_find (mode : BatchMode) {directory : Path} {files : List Path}
    (h : (Discovery.find d.files b directory).1 = .ok files) (schedule : Nat → List Nat)
    (j : Journal) :
    let ran := runRounds d b mode (Discovery.accept d.files files).1.length schedule
      (rounds mode b.workers (Discovery.accept d.files files).1) 0 .empty
      (started d b mode directory files j)
    ∃ ending, runBy schedule d b mode directory j =
      (.ok { ordered mode ran.1 with discovered := files.length }, ran.2.emit none ending) := by
  unfold runBy started
  cases hfind : Discovery.find d.files b directory with
  | mk found told =>
      rw [hfind] at h
      obtain rfl : found = .ok files := h
      cases mode <;> exact ⟨_, rfl⟩

theorem runBy_eq_expected {directory : Path} (hnamed : d.files.root.IsNamed)
    (hspares : ∀ files, (Discovery.find d.files b directory).1 = .ok files → ∀ p ∈ files, d.Spares p)
    (hfast : b.failFast = false) (schedule : Nat → List Nat) (j : Journal) :
    (runBy schedule d b mode directory j).1 = expected d b directory := by
  unfold expected
  cases hfind : (Discovery.find d.files b directory).1 with
  | error e =>
      unfold runBy
      cases hfound : Discovery.find d.files b directory with
      | mk found told =>
          obtain rfl : found = .error e := by rw [hfound] at hfind; exact hfind
          rfl
  | ok files =>
      obtain ⟨ending, hrun⟩ := runBy_of_find mode hfind schedule j
      rw [hrun, results_rounds mode hfast (Discovery.sorted_accept hfind)
        (Discovery.eq_of_parts_accept hnamed hfind)
        (fun p hp => hspares files hfind p ((Discovery.accept_sublist ..).subset hp))]
      rfl

theorem runBy_threads {directory : Path} (hnamed : d.files.root.IsNamed)
    (hspares : ∀ files, (Discovery.find d.files b directory).1 = .ok files → ∀ p ∈ files, d.Spares p)
    (hfast : b.failFast = false) (threads : Nat) (schedule : Nat → List Nat) (j : Journal) :
    let c := { b with threads }
    (runBy schedule d c (modeOf c) directory j).1 = expected d b directory ∧
      ∀ files : List Path,
        (∀ round ∈ rounds (modeOf c) c.workers files, round.length ≤ c.workers) ∧
        (rounds (modeOf c) c.workers files).flatten.flatMap (fun share =>
          (tasks d c (modeOf c) files.length (fun _ => j) share).flatMap Task.numbered) =
            files.zipIdx := by
  intro c
  refine ⟨?_, fun files => ⟨fun round => length_le_of_mem_rounds c.workers_pos, ?_⟩⟩
  · exact runBy_eq_expected (b := c) hnamed hspares hfast schedule j
  · have hshares : (fun share => (tasks d c (modeOf c) files.length (fun _ => j) share).flatMap
        Task.numbered) = id := funext fun share => flatMap_numbered_tasks share _
    rw [hshares, List.flatMap_id, flatten_rounds]

theorem runBy_three_threads :
    let d : Disk := ⟨⟨.folder [([97, 46, 114, 118], .file (.text "x = 1")),
      ([98], .folder [([99, 46, 114, 118], .file (.text "1.2.3"))])], []⟩, []⟩
    let b := BatchSettings.ofPreferences (.ofEnvironment [])
    let c := { b with threads := 3 }
    (d.files.root.IsNamed ∧ (∀ p, d.Spares p) ∧ b.failFast = false) ∧
      (runBy (fun _ => [2, 0, 1]) d c (modeOf c) ⟨[47]⟩ (.closed [])).1 = expected d b ⟨[47]⟩ ∧
      ∀ files : List Path,
        (∀ round ∈ rounds (modeOf c) c.workers files, round.length ≤ c.workers) ∧
        (rounds (modeOf c) c.workers files).flatten.flatMap (fun share =>
          (tasks d c (modeOf c) files.length (fun _ => .closed []) share).flatMap
            Task.numbered) = files.zipIdx := by
  intro d b c
  have hnamed : d.files.root.IsNamed := by
    refine .folder (by decide) (List.forall_mem_cons.2 ⟨.file _, List.forall_mem_singleton.2 ?_⟩)
    exact .folder (by decide) (List.forall_mem_singleton.2 (.file _))
  have hspares (p : Path) : d.Spares p := fun _ _ _ _ log hlog => absurd hlog (by simp [d])
  have hfast : b.failFast = false := rfl
  exact ⟨⟨hnamed, hspares, hfast⟩,
    runBy_threads hnamed (fun _ _ p _ => hspares p) hfast 3 (fun _ => [2, 0, 1]) (.closed [])⟩

end Batch

end Lexing
