import Lexing.CommandLine.Basic
import Lexing.Proofs.Batch.Accounts
import Lexing.Proofs.Batch.Sources

namespace Lexing

theorem BatchResults.diagnosticCount_eq_zero {r : BatchResults} :
    r.diagnosticCount = 0 ↔ ∀ f ∈ r.successes, f.2.stream.diagnostics = [] := by
  have hfold (fs : List (Path × FileTokens)) (n : Nat) :
      fs.foldl (fun n f => n + f.2.stream.diagnostics.length) n = 0 ↔
        n = 0 ∧ ∀ f ∈ fs, f.2.stream.diagnostics = [] := by
    induction fs generalizing n with
    | nil => simp
    | cons f fs ih => simp [ih, and_assoc]
  rw [diagnosticCount, hfold]
  simp

namespace CommandLine

def CleanBatch (schedule : Nat → List Nat) (d : Disk) (b : BatchSettings) (directory : Path) :
    Prop :=
  ∃ files j results, (Discovery.find d.files b directory).1 = .ok files ∧
    (Batch.runBy schedule d b (Batch.modeOf b) directory j).1 = .ok results ∧
    ∀ p ∈ files, (∃ tokens, (p, tokens) ∈ results.successes ∧ tokens.stream.diagnostics = []) ↔
      Discovery.check d.files p = none

variable {schedule : Nat → List Nat} {d : Disk} {p : Preferences} {o : Options} {directory : Path}

theorem verdict_runDirectory (schedule : Nat → List Nat) (d : Disk) (p : Preferences) (o : Options)
    (directory : Path) (j : Journal) :
    ∃ ready, (runDirectory schedule d p o directory j).1 =
      match (Batch.runBy schedule d (o.batchSettings p) (Batch.modeOf (o.batchSettings p)) directory
          ready).1 with
      | .ok results => results.failures.isEmpty && results.diagnosticCount = 0
      | .error _ => false := by
  unfold runDirectory
  dsimp only
  generalize (if (o.quiet || o.json) = true then j else _) = ready
  refine ⟨ready, ?_⟩
  cases Batch.runBy schedule d (o.batchSettings p) (Batch.modeOf (o.batchSettings p)) directory
      ready with
  | mk found told => cases found <;> rfl

theorem cleanBatch_of_runDirectory {j : Journal}
    (h : (runDirectory schedule d p o directory j).1 = true) :
    CleanBatch schedule d (o.batchSettings p) directory := by
  obtain ⟨ready, hverdict⟩ := verdict_runDirectory schedule d p o directory j
  rw [h] at hverdict
  cases hrun : (Batch.runBy schedule d (o.batchSettings p) (Batch.modeOf (o.batchSettings p))
      directory ready).1 with
  | error error =>
      rw [hrun] at hverdict
      contradiction
  | ok results =>
      rw [hrun] at hverdict
      obtain ⟨hfailed, hcount⟩ := Bool.and_eq_true_iff.1 hverdict.symm
      have hfailures : results.failures = [] := List.isEmpty_iff.1 hfailed
      have hclean := BatchResults.diagnosticCount_eq_zero.1 (of_decide_eq_true hcount)
      obtain ⟨files, hfind⟩ := Batch.find_of_runBy hrun
      obtain ⟨again, hagain, haccounts⟩ := Batch.runBy_accountsFor _ _ _ hfind
      obtain rfl : again = results := Except.ok.inj (hagain.symm.trans hrun)
      have hpaths : again.paths = again.successes.map (·.1) := by
        rw [BatchResults.paths, hfailures, List.map_nil, List.append_nil]
      have hmem (path : Path) : path ∈ again.successes.map (·.1) ↔
          path ∈ files ∧ Discovery.check d.files path = none := by
        rw [← hpaths, ((haccounts (.inr hfailures)).paths_perm).mem_iff, List.mem_filter]
        simp
      refine ⟨files, ready, again, hfind, hrun, fun path hpath => ⟨?_, fun hcheck => ?_⟩⟩
      · rintro ⟨tokens, hfound, -⟩
        exact ((hmem path).1 (List.mem_map_of_mem hfound)).2
      · obtain ⟨⟨found, tokens⟩, hfound, rfl⟩ := List.mem_map.1 ((hmem path).2 ⟨hpath, hcheck⟩)
        exact ⟨tokens, hfound, hclean _ hfound⟩

theorem runDirectory_of_turnedAway {files : List Path} (j : Journal)
    (hfast : (o.batchSettings p).failFast = false)
    (hfind : (Discovery.find d.files (o.batchSettings p) directory).1 = .ok files)
    (hnone : ∀ p ∈ files, (Discovery.check d.files p).isSome) :
    (runDirectory schedule d p o directory j).1 = true := by
  obtain ⟨ready, hverdict⟩ := verdict_runDirectory schedule d p o directory j
  obtain ⟨results, hrun, haccounts⟩ := Batch.runBy_accountsFor _ _ _ hfind
  obtain ⟨hsuccesses, hfailures⟩ := (haccounts (.inl hfast)).eq_nil hnone
  rw [hverdict, hrun]
  simp [hfailures, BatchResults.diagnosticCount, hsuccesses]

section Input

variable {s opened : FileSystem} {e : Environment} {input : String} {arguments : List String}

theorem code_of_folder (schedule : Nat → List Nat)
    (hp : preferences s e (.ofArguments arguments) = .ok p)
    (hlog : withLog s (.ofArguments arguments) = .ok opened)
    (hfolder : opened.isFolder (.ofString input)) :
    ∃ ready, (runInputBy schedule s e input arguments).code =
      if (runDirectory schedule
          ⟨opened, ((Options.ofArguments arguments).logFile.map .ofString).toList⟩ p
          (.ofArguments arguments) (.ofString input) ready).1 = true then 0 else 1 := by
  rw [Options.ofArguments] at hp hlog
  simp only [runInputBy, bind, Except.bind, pure, Except.pure, hp, hlog]
  generalize hjournal : openJournal p _ _ = journal
  cases journal with
  | error error => cases hjournal
  | ok ready =>
      refine ⟨ready, ?_⟩
      simp only [hfolder, if_true]
      rfl

theorem started_of_code (h : (runInputBy schedule s e input arguments).code = 0) :
    ∃ p opened, preferences s e (.ofArguments arguments) = .ok p ∧
      withLog s (.ofArguments arguments) = .ok opened := by
  simp only [runInputBy, bind, Except.bind, pure, Except.pure] at h
  cases hp : preferences s e (.ofGroups (groups arguments)) with
  | error error => simp only [hp, Nat.one_ne_zero] at h
  | ok p =>
      cases hlog : withLog s (.ofGroups (groups arguments)) with
      | error error => simp only [hp, hlog, Nat.one_ne_zero] at h
      | ok opened => exact ⟨p, opened, hp, hlog⟩

theorem cleanBatch_of_code (h : (runInputBy schedule s e input arguments).code = 0) :
    let o := Options.ofArguments arguments
    ∃ p opened, preferences s e o = .ok p ∧ withLog s o = .ok opened ∧
      (opened.isFolder (.ofString input) →
        CleanBatch schedule ⟨opened, (o.logFile.map .ofString).toList⟩ (o.batchSettings p)
          (.ofString input)) := by
  intro o
  obtain ⟨p, opened, hp, hlog⟩ := started_of_code h
  refine ⟨p, opened, hp, hlog, fun hfolder => ?_⟩
  obtain ⟨ready, hcode⟩ := code_of_folder schedule hp hlog hfolder
  rw [h] at hcode
  split at hcode
  · next hclean => exact cleanBatch_of_runDirectory hclean
  · contradiction

end Input

theorem accounts_for_checked (d : Disk) (b : BatchSettings) (mode : BatchMode) (directory : Path)
    (schedule : Nat → List Nat) (j : Journal) (s : FileSystem) (e : Environment) (input : String)
    (arguments : List String) :
    (∀ results, b.failFast = false →
      (Batch.runBy schedule d b mode directory j).1 = .ok results →
        ∃ files, (Discovery.find d.files b directory).1 = .ok files ∧
          results.AccountsFor d.files files ∧
          (results.paths.Perm files ↔ ∀ p ∈ files, Discovery.check d.files p = none) ∧
          (results.processed = results.discovered ↔
            ∀ p ∈ files, Discovery.check d.files p = none)) ∧
    ((runInputBy schedule s e input arguments).code = 0 →
      let o := Options.ofArguments arguments
      ∃ p opened, preferences s e o = .ok p ∧ withLog s o = .ok opened ∧
        (opened.isFolder (.ofString input) →
          CleanBatch schedule ⟨opened, (o.logFile.map .ofString).toList⟩ (o.batchSettings p)
            (.ofString input))) := by
  constructor
  · intro results hfast hrun
    obtain ⟨files, hfind⟩ := Batch.find_of_runBy hrun
    obtain ⟨again, hagain, haccounts⟩ := Batch.runBy_accountsFor _ _ _ hfind
    obtain rfl : again = results := Except.ok.inj (hagain.symm.trans hrun)
    have h := haccounts (.inl hfast)
    exact ⟨files, hfind, h, h.perm_iff, h.processed_iff⟩
  · exact cleanBatch_of_code

def unnameable : FileSystem := ⟨.folder [([255, 46, 114, 118], .file (.text "x"))], []⟩

theorem find_unnameable {b : BatchSettings} (h : b.fileLimit = none) :
    (Discovery.find unnameable b (.ofString "/")).1 = .ok [⟨[47, 255, 46, 114, 118]⟩] := by
  have htree : unnameable.root.IsTree :=
    Node.isTree_of_files (by decide) (by decide) (by decide)
  have hsources : [(⟨[47, 255, 46, 114, 118]⟩ : Path)].Perm
      (Discovery.sources b.recursive (.ofString "/") unnameable.root) := by
    cases b.recursive <;> decide +kernel
  have hfind := Discovery.find_root (b := b) htree (by decide +kernel) hsources
    (by decide +kernel) (by simp) (by decide)
  rwa [h] at hfind

theorem isSome_check_of_text? {s : FileSystem} {path : Path} (h : path.text? = none) :
    (Discovery.check s path).isSome := by
  unfold Discovery.check
  cases s.contents? path <;> simp [h]

theorem check_unnameable :
    ∀ p ∈ [(⟨[47, 255, 46, 114, 118]⟩ : Path)], (Discovery.check unnameable p).isSome :=
  List.forall_mem_singleton.2 (isSome_check_of_text? (by decide +kernel))

theorem code_unnameable (schedule : Nat → List Nat) :
    (runInputBy schedule unnameable [] "/" []).code = 0 := by
  have hfind := find_unnameable (b := Options.default.batchSettings (.ofEnvironment [])) rfl
  have hpreferences : preferences unnameable [] (.ofArguments []) = .ok (.ofEnvironment []) := rfl
  have hlog : withLog unnameable (.ofArguments []) = .ok unnameable := rfl
  have hfolder : unnameable.isFolder (.ofString "/") := by
    rw [FileSystem.isFolder, FileSystem.node?, unnameable, Discovery.find?_root]
    rfl
  obtain ⟨ready, hcode⟩ := code_of_folder schedule hpreferences hlog hfolder
  rw [hcode, if_pos]
  exact runDirectory_of_turnedAway ready rfl hfind check_unnameable

theorem accounts_for_checked_unnameable :
    let d : Disk := ⟨⟨.folder [([97, 46, 114, 118], .file (.text "x")),
      ([255, 46, 114, 118], .file (.text "x"))], []⟩, []⟩
    let b := BatchSettings.ofPreferences (.ofEnvironment [])
    (∃ results, b.failFast = false ∧
      (Batch.runBy (fun _ => []) d b .parallel (.ofString "/") (.closed [])).1 = .ok results ∧
        ∃ files, (Discovery.find d.files b (.ofString "/")).1 = .ok files ∧
          results.AccountsFor d.files files ∧
          (results.paths.Perm files ↔ ∀ p ∈ files, Discovery.check d.files p = none) ∧
          (results.processed = results.discovered ↔
            ∀ p ∈ files, Discovery.check d.files p = none)) ∧
      (runInputBy (fun _ => []) unnameable [] "/" []).code = 0 ∧
        ∃ p opened, preferences unnameable [] .default = .ok p ∧
          withLog unnameable .default = .ok opened ∧
          (opened.isFolder (.ofString "/") →
            CleanBatch (fun _ => []) ⟨opened, []⟩ (Options.default.batchSettings p)
              (.ofString "/")) := by
  intro d b
  have htree : d.files.root.IsTree :=
    Node.isTree_of_files (by decide) (by decide) (by decide)
  have hfind : (Discovery.find d.files b (.ofString "/")).1 =
      .ok [⟨[47, 97, 46, 114, 118]⟩, ⟨[47, 255, 46, 114, 118]⟩] :=
    Discovery.find_root htree (by decide +kernel) (by decide +kernel) (by decide +kernel) (by simp)
      (by decide)
  obtain ⟨results, hrun, -⟩ := Batch.runBy_accountsFor .parallel (fun _ => []) (.closed []) hfind
  have h := accounts_for_checked d b .parallel (.ofString "/") (fun _ => []) (.closed []) unnameable
    [] "/" []
  exact ⟨⟨results, rfl, hrun, h.1 results rfl hrun⟩, code_unnameable _, h.2 (code_unnameable _)⟩

/-- One file is found, none is processed, and the command line is content. -/
theorem clean_unnameable :
    let d : Disk := ⟨unnameable, []⟩
    let b := BatchSettings.ofPreferences (.ofEnvironment [])
    b.failFast = false ∧
      (Discovery.find d.files b (.ofString "/")).1 = .ok [⟨[47, 255, 46, 114, 118]⟩] ∧
      (∃ results, (Batch.run d b (.ofString "/") (.closed [])).1 = .ok results ∧
        results.discovered = 1 ∧ results.processed = 0 ∧ results.successes = [] ∧
        results.failures = []) ∧
      (run unnameable [] "lex" ["/"]).code = 0 := by
  intro d b
  have hfind := find_unnameable (b := b) rfl
  refine ⟨rfl, hfind, ?_, code_unnameable fun _ => []⟩
  obtain ⟨results, hrun, haccounts⟩ := Batch.runBy_accountsFor (d := d) (Batch.modeOf b)
    (fun _ => []) (.closed []) hfind
  have h := haccounts (.inl rfl)
  obtain ⟨hsuccesses, hfailures⟩ := h.eq_nil check_unnameable
  refine ⟨results, hrun, h.discovered_eq, ?_, hsuccesses, hfailures⟩
  rw [h.processed_eq, hsuccesses, hfailures]
  rfl

end CommandLine

end Lexing
