import Lexing.Proofs.Batch.Run

namespace Lexing

namespace BatchResults

def paths (r : BatchResults) : List Path := r.successes.map Prod.fst ++ r.failures.map Prod.fst

theorem length_paths (r : BatchResults) :
    r.paths.length = r.successes.length + r.failures.length := by
  simp [paths]

theorem paths_add (r : BatchResults) (path : Path) (outcome : Except AnalysisError FileTokens) :
    (r.add path outcome).paths.Perm (r.paths ++ [path]) := by
  cases outcome with
  | ok tokens =>
      have hswap : ([path] ++ r.failures.map Prod.fst).Perm (r.failures.map Prod.fst ++ [path]) :=
        List.perm_append_comm
      simp only [paths, add, List.map_append, List.map_cons, List.map_nil, List.append_assoc]
      exact hswap.append_left _
  | error error =>
      simp only [paths, add, List.map_append, List.map_cons, List.map_nil, List.append_assoc]
      exact List.Perm.refl _

theorem paths_addAll (r : BatchResults) (found : List FileOutcome) :
    (r.addAll found).paths.Perm (r.paths ++ found.map Prod.fst) := by
  induction found generalizing r with
  | nil => simp [addAll]
  | cons f fs ih =>
      have hadd := (r.paths_add f.1 f.2).append_right (fs.map Prod.fst)
      rw [List.append_assoc] at hadd
      exact (ih (r.add f.1 f.2)).trans hadd

theorem paths_sorted (r : BatchResults) : r.sorted.paths.Perm r.paths :=
  ((Path.perm_inOrder _ _).map _).append ((Path.perm_inOrder _ _).map _)

theorem failures_of_sorted {r : BatchResults} (h : r.sorted.failures = []) : r.failures = [] :=
  List.Perm.eq_nil (h ▸ (Path.perm_inOrder Prod.fst r.failures).symm)

structure AccountsFor (r : BatchResults) (s : FileSystem) (files : List Path) : Prop where
  discovered_eq : r.discovered = files.length
  processed_eq : r.processed = r.successes.length + r.failures.length
  paths_perm : r.paths.Perm (files.filter fun p => (Discovery.check s p).isNone)

variable {r : BatchResults} {s : FileSystem} {files : List Path}

theorem filter_check_eq_self :
    files.filter (fun p => (Discovery.check s p).isNone) = files ↔
      ∀ p ∈ files, Discovery.check s p = none := by
  simp only [List.filter_eq_self, Option.isNone_iff_eq_none]

theorem AccountsFor.perm_iff (h : r.AccountsFor s files) :
    r.paths.Perm files ↔ ∀ p ∈ files, Discovery.check s p = none := by
  rw [← filter_check_eq_self]
  constructor
  · intro hperm
    have hlength := (h.paths_perm.symm.trans hperm).length_eq
    exact List.filter_sublist.eq_of_length hlength
  · intro heq
    have hperm := h.paths_perm
    rwa [heq] at hperm

theorem AccountsFor.processed_iff (h : r.AccountsFor s files) :
    r.processed = r.discovered ↔ ∀ p ∈ files, Discovery.check s p = none := by
  rw [← filter_check_eq_self, h.processed_eq, ← length_paths, h.paths_perm.length_eq,
    h.discovered_eq]
  exact List.filter_sublist.length_eq

theorem AccountsFor.eq_nil (h : r.AccountsFor s files)
    (hnone : ∀ p ∈ files, (Discovery.check s p).isSome) : r.successes = [] ∧ r.failures = [] := by
  have hfilter : files.filter (fun p => (Discovery.check s p).isNone) = [] := by
    rw [List.filter_eq_nil_iff]
    intro p hp hcheck
    have hsome := hnone p hp
    rw [Option.isNone_iff_eq_none.1 hcheck] at hsome
    contradiction
  have hpaths := h.paths_perm
  rw [hfilter] at hpaths
  simpa [paths] using hpaths.eq_nil

theorem AccountsFor.sorted (h : r.AccountsFor s files) : r.sorted.AccountsFor s files where
  discovered_eq := h.discovered_eq
  processed_eq := by
    have hlength := r.paths_sorted.length_eq
    rw [length_paths, length_paths] at hlength
    exact h.processed_eq.trans hlength.symm
  paths_perm := r.paths_sorted.trans h.paths_perm

end BatchResults

namespace Batch

variable {d : Disk} {b : BatchSettings} {mode : BatchMode} {total : Nat}

theorem paths_tasks (files : List NumberedFile) (before : Unit → Journal) :
    ((tasks d b mode total before files).flatMap Task.recorded).map Prod.fst =
      files.map Prod.fst := by
  rw [List.map_flatMap]
  exact flatMap_tasks (fun _ => rfl) (fun _ _ _ => rfl) before

theorem paths_round (mode : BatchMode) (total : Nat) (round : Round) (j : Journal)
    (schedule : List Nat) :
    ∃ found, ((Pool.ofTasks j (round.map (tasks d b mode total fun _ => j))).complete
        schedule).results = BatchResults.empty.addAll found ∧
      (found.map Prod.fst).Perm (round.flatten.map Prod.fst) := by
  have htasks : ((round.map (tasks d b mode total fun _ => j)).flatten.flatMap
      Task.recorded).map Prod.fst = round.flatten.map Prod.fst := by
    induction round with
    | nil => rfl
    | cons share round ih =>
        rw [List.map_cons, List.flatten_cons, List.flatMap_append, List.map_append, paths_tasks, ih,
          List.flatten_cons, List.map_append]
  obtain ⟨found, hresults, hperm⟩ := Pool.results_complete j
    (round.map (tasks d b mode total fun _ => j)) schedule
  have hpaths := hperm.map Prod.fst
  rw [htasks] at hpaths
  exact ⟨found, hresults, hpaths⟩

theorem paths_runRounds {results : BatchResults} {todo : List Round} {schedule : Nat → List Nat}
    {number : Nat} {j : Journal}
    (h : b.failFast = false ∨
      (runRounds d b mode total schedule todo number results j).1.failures = []) :
    ∃ found, (runRounds d b mode total schedule todo number results j).1 = results.addAll found ∧
      (found.map Prod.fst).Perm (todo.flatten.flatten.map Prod.fst) := by
  induction todo generalizing number results j with
  | nil => exact ⟨[], rfl, .nil⟩
  | cons round todo ih =>
      obtain ⟨found, hround, hfound⟩ := paths_round (d := d) (b := b) mode total round j
        (schedule number)
      rw [runRounds] at h ⊢
      simp only [hround, BatchResults.merge_empty_addAll] at h ⊢
      split at h
      · next hstop =>
          -- The batch is given up at a failure, which then is among the results.
          obtain ⟨hfast, hfailed⟩ := Bool.and_eq_true_iff.1 hstop
          rcases h with h | h
          · rw [h] at hfast
            contradiction
          · dsimp only at h
            rw [h] at hfailed
            contradiction
      · next hgo =>
          rw [if_neg hgo]
          obtain ⟨more, hmore, hpaths⟩ := ih h
          refine ⟨found ++ more, by rw [hmore, BatchResults.addAll_append], ?_⟩
          rw [List.map_append, List.flatten_cons, List.flatten_append, List.map_append]
          exact hfound.append hpaths

theorem accountsFor_rounds {schedule : Nat → List Nat} {files : List Path} {j : Journal}
    (h : b.failFast = false ∨ (runRounds d b mode total schedule
      (rounds mode b.workers (Discovery.accept d.files files).1) 0 .empty j).1.failures = []) :
    BatchResults.AccountsFor
      { (runRounds d b mode total schedule
          (rounds mode b.workers (Discovery.accept d.files files).1) 0 .empty j).1 with
        discovered := files.length } d.files files := by
  obtain ⟨found, hfound, hpaths⟩ := paths_runRounds h
  rw [flatten_rounds, List.zipIdx_map_fst] at hpaths
  have hall := (BatchResults.paths_addAll .empty found).trans hpaths
  have hlength := hall.length_eq.trans hpaths.length_eq.symm
  rw [List.length_map, BatchResults.length_paths] at hlength
  rw [Discovery.accept_eq_filter] at hall
  rw [hfound]
  refine ⟨rfl, ?_, hall⟩
  dsimp only
  rw [hlength, BatchResults.addAll_eq]
  exact Nat.zero_add _

theorem find_of_runBy {schedule : Nat → List Nat} {directory : Path} {j : Journal}
    {results : BatchResults} (h : (runBy schedule d b mode directory j).1 = .ok results) :
    ∃ files, (Discovery.find d.files b directory).1 = .ok files := by
  unfold runBy at h
  cases hfind : Discovery.find d.files b directory with
  | mk found told =>
      rw [hfind] at h
      cases found with
      | error error => contradiction
      | ok files => exact ⟨files, rfl⟩

theorem runBy_accountsFor (mode : BatchMode) (schedule : Nat → List Nat) {directory : Path}
    (j : Journal) {files : List Path} (hfind : (Discovery.find d.files b directory).1 = .ok files) :
    ∃ results, (runBy schedule d b mode directory j).1 = .ok results ∧
      (b.failFast = false ∨ results.failures = [] → results.AccountsFor d.files files) := by
  unfold runBy
  cases hfound : Discovery.find d.files b directory with
  | mk found told =>
      obtain rfl : found = .ok files := by rw [hfound] at hfind; exact hfind
      cases mode with
      | sequential => exact ⟨_, rfl, accountsFor_rounds⟩
      | parallel =>
          refine ⟨_, rfl, fun h => (accountsFor_rounds ?_).sorted⟩
          exact h.imp_right BatchResults.failures_of_sorted

end Batch

end Lexing
