import Lexing.Proofs.Batch.Run
import Lexing.Proofs.Batch.Sources

namespace Lexing

namespace Batch

section Through

variable {α β : Type} {p : α → Bool}

def through (p : α → Bool) (items : List α) : List α := items.take (items.findIdx p + 1)

theorem through_cons (p : α → Bool) (x : α) (xs : List α) :
    through p (x :: xs) = x :: if p x then [] else through p xs := by
  cases hx : p x <;> simp [through, List.findIdx_cons, hx]

theorem prefix_through (p : α → Bool) (items : List α) : through p items <+: items :=
  List.take_prefix ..

theorem through_map (p : β → Bool) (f : α → β) (items : List α) :
    through p (items.map f) = (through (p ∘ f) items).map f := by
  rw [through, through, List.findIdx_map, List.map_take]

theorem find?_through (p : α → Bool) (items : List α) :
    (through p items).find? p = items.find? p := by
  induction items with
  | nil => rfl
  | cons x xs ih =>
      rw [through_cons]
      cases hx : p x <;> simp [hx, ih]

theorem through_append (p : α → Bool) (xs ys : List α) :
    through p (xs ++ ys) = if xs.any p then through p xs else xs ++ through p ys := by
  induction xs with
  | nil => rfl
  | cons x xs ih =>
      rw [List.cons_append, through_cons, through_cons, ih, List.any_cons]
      cases hx : p x <;> cases hxs : xs.any p <;> simp

theorem through_ne_nil {items : List α} (h : items.any p) : through p items ≠ [] := by
  cases items with
  | nil => contradiction
  | cons x xs => simp [through_cons]

theorem through_flatten {size : Nat} (hsize : 0 < size) {portions : List (List α)}
    (h : ∀ portion ∈ portions, portion.length ≤ size) :
    through p portions.flatten <+: (through (·.any p) portions).flatten ∧
      (through (·.any p) portions).flatten.length < (through p portions.flatten).length + size := by
  induction portions with
  | nil => exact ⟨List.prefix_refl _, Nat.lt_add_of_pos_right hsize⟩
  | cons portion portions ih =>
      obtain ⟨hportion, hmore⟩ := List.forall_mem_cons.1 h
      rw [List.flatten_cons, through_append, through_cons]
      by_cases hany : portion.any p
      · have hpos := List.length_pos_iff.2 (through_ne_nil hany)
        simp only [hany, if_true, List.flatten_cons, List.flatten_nil, List.append_nil]
        exact ⟨prefix_through p portion, by omega⟩
      · obtain ⟨hpre, hlength⟩ := ih hmore
        simp only [hany, Bool.false_eq_true, if_false, List.flatten_cons, List.length_append]
        exact ⟨(List.prefix_append_right_inj portion).2 hpre, by omega⟩

theorem find?_of_between {xs ys zs : List α} (hxs : xs <+: ys) (hys : ys <+: zs)
    (h : xs.find? p = zs.find? p) : ys.find? p = zs.find? p := by
  obtain ⟨more, rfl⟩ := hxs
  obtain ⟨most, rfl⟩ := hys
  rw [List.append_assoc, List.find?_append] at h
  rw [List.append_assoc, List.find?_append, List.find?_append]
  cases hx : xs.find? p with
  | some x => rfl
  | none =>
      rw [hx, Option.none_or] at h
      have hmore : more.find? p = none := by
        rw [List.find?_append] at h
        exact (Option.or_eq_none_iff.1 h.symm).1
      simp [hmore, ← h]

end Through

section Portions

variable {α : Type} {size : Nat}

theorem flatten_chunks (size : Nat) (items : List α) : (chunks size items).flatten = items := by
  fun_induction chunks size items with
  | case1 => rfl
  | case2 x xs ih => rw [List.flatten_cons, ih, List.cons_append, List.take_append_drop]

theorem length_le_of_mem_chunks (h : 0 < size) (items : List α) :
    ∀ portion ∈ chunks size items, portion.length ≤ size := by
  fun_induction chunks size items with
  | case1 => simp
  | case2 x xs ih =>
      refine List.forall_mem_cons.2 ⟨?_, ih⟩
      simp only [List.length_cons, List.length_take]
      omega

def portions (mode : BatchMode) (workers : Nat) (files : List Path) : List (List Path) :=
  match mode with
  | .sequential => files.map ([·])
  | .parallel => chunks (roundSize files.length workers) files

theorem map_files_rounds (mode : BatchMode) (workers : Nat) (paths : List Path) :
    (rounds mode workers paths).map files = portions mode workers paths := by
  cases mode with
  | sequential =>
      have hzip := congrArg (List.map ([·])) (List.zipIdx_map_fst 0 paths)
      rw [List.map_map] at hzip
      rw [rounds, List.map_map, portions, ← hzip]
      rfl
  | parallel =>
      rw [rounds, List.map_map, portions]
      refine (List.map_congr_left ?_).trans (List.zipIdx_map_fst 0 _)
      rintro ⟨round, index⟩ -
      rw [Function.comp_apply, files, flatten_shares, List.zipIdx_map_fst]

end Portions

variable {d : Disk} {b : BatchSettings} {mode : BatchMode} {total : Nat}

def fails (d : Disk) (b : BatchSettings) (path : Path) : Bool :=
  (AnalysisError.ofOutcome? (outcome d b path)).isSome

def processed (d : Disk) (b : BatchSettings) (mode : BatchMode) (valid : List Path) : List Path :=
  (through (·.any (fails d b)) (portions mode b.workers valid)).flatten

theorem map_fst_failures (files : List Path) :
    (BatchResults.ofFiles (outcome d b) files).failures.map Prod.fst =
      files.filter (fails d b) := by
  rw [BatchResults.ofFiles]
  induction files with
  | nil => rfl
  | cons p files ih =>
      cases hp : AnalysisError.ofOutcome? (outcome d b p) <;> simpa [fails, hp] using ih

theorem failures_addAll {results : BatchResults} (hresults : results.failures = [])
    {round : Round} {found : List FileOutcome}
    (hfound : found.Perm (round.flatten.map fun f => (f.1, outcome d b f.1))) :
    (results.addAll found).failures = [] ↔ ¬ (files round).any (fails d b) := by
  have hfiles : (round.flatten.map fun f => (f.1, outcome d b f.1)) =
      (files round).map fun p => (p, outcome d b p) := by
    rw [files, List.map_map]
    rfl
  have hperm : ((results.addAll found).failures.map Prod.fst).Perm
      ((files round).filter (fails d b)) := by
    rw [hfiles] at hfound
    have hfailed := (hfound.filterMap fun f => (AnalysisError.ofOutcome? f.2).map (f.1, ·)).map
      Prod.fst
    rw [List.filterMap_map] at hfailed
    rw [BatchResults.addAll_eq, hresults, ← map_fst_failures]
    exact hfailed
  have hnone : (files round).filter (fails d b) = [] ↔ ¬ (files round).any (fails d b) := by
    simp
  rw [← hnone]
  constructor
  · intro h
    rw [h] at hperm
    exact hperm.symm.eq_nil
  · intro h
    rw [h] at hperm
    exact List.map_eq_nil_iff.1 hperm.eq_nil

theorem records_through (mode : BatchMode) (total : Nat) (hfast : b.failFast = true)
    {todo : List Round} (h : ∀ f ∈ todo.flatten.flatten, d.Spares f.1)
    (schedule : Nat → List Nat) (number : Nat) (results : BatchResults)
    (hresults : results.failures = []) (j : Journal) :
    ∃ found, (runRounds d b mode total schedule todo number results j).1 = results.addAll found ∧
      Records d b (through (fun round => (files round).any (fails d b)) todo) found := by
  induction todo generalizing number results j with
  | nil => exact ⟨[], rfl, .nil⟩
  | cons round todo ih =>
      rw [List.flatten_cons, List.flatten_append, List.forall_mem_append] at h
      obtain ⟨found, hround, hfound⟩ := results_round mode total h.1 j (schedule number)
      have hfailures := failures_addAll hresults hfound
      rw [runRounds, hfast, through_cons, hround, BatchResults.merge_empty_addAll]
      by_cases hfails : (files round).any (fails d b)
      · have hne : (results.addAll found).failures ≠ [] := fun hnil => hfailures.1 hnil hfails
        refine ⟨found, ?_, ?_⟩
        · simp [hne]
        · rw [if_pos hfails, ← List.append_nil found]
          exact .cons hfound .nil
      · have hnil := hfailures.2 hfails
        obtain ⟨more, hmore, hrecords⟩ := ih h.2 (number + 1) _ hnil
          ((Pool.ofTasks j (round.map (tasks d b mode total fun _ => j))).complete
            (schedule number)).journal
        refine ⟨found ++ more, ?_, ?_⟩
        · rw [BatchResults.addAll_append, ← hmore]
          simp [hnil]
        · rw [if_neg hfails]
          exact .cons hfound hrecords

theorem flatten_portions (mode : BatchMode) (workers : Nat) (valid : List Path) :
    (portions mode workers valid).flatten = valid := by
  rw [← map_files_rounds, ← map_fst_flatten, flatten_rounds, List.zipIdx_map_fst]

theorem prefix_processed (mode : BatchMode) (valid : List Path) :
    processed d b mode valid <+: valid := by
  have hflatten := flatten_portions mode b.workers valid
  obtain ⟨more, hmore⟩ := prefix_through (·.any (fails d b)) (portions mode b.workers valid)
  rw [← hmore, List.flatten_append] at hflatten
  exact ⟨more.flatten, hflatten⟩

theorem processed_sequential (valid : List Path) :
    processed d b .sequential valid = through (fails d b) valid := by
  have hany : ((·.any (fails d b)) ∘ ([·])) = fails d b := by
    funext p
    simp
  rw [processed, portions, through_map, hany, ← List.flatMap_def,
    List.flatMap_singleton']

theorem results_through (mode : BatchMode) (hfast : b.failFast = true) {valid : List Path}
    (hsorted : Path.Sorted id valid)
    (hparts : ∀ p ∈ valid, ∀ q ∈ valid, p.parts = q.parts → p = q)
    (hspares : ∀ p ∈ valid, d.Spares p) (schedule : Nat → List Nat) (j : Journal) :
    ordered mode (runRounds d b mode valid.length schedule (rounds mode b.workers valid) 0 .empty
      j).1 = BatchResults.ofFiles (outcome d b) (processed d b mode valid) := by
  have hall : ∀ f ∈ (rounds mode b.workers valid).flatten.flatten, d.Spares f.1 := by
    rw [flatten_rounds]
    exact fun f hf => hspares f.1 (List.fst_mem_of_mem_zipIdx hf)
  have hpre : processed d b mode valid <+: valid := prefix_processed mode valid
  obtain ⟨found, hresults, hrecords⟩ :=
    records_through mode valid.length hfast hall schedule 0 .empty rfl j
  rw [hresults]
  refine hrecords.results ?_ ?_ (List.Pairwise.sublist hpre.sublist hsorted)
    fun p hp q hq => hparts p (hpre.subset hp) q (hpre.subset hq)
  · rw [processed, ← map_files_rounds, through_map]
    rfl
  · rintro rfl round hround
    exact exists_of_mem_sequential ((prefix_through _ _).subset hround)

structure ReportsFirst (failing : Path → Bool) (valid : List Path) (r : BatchResults) : Prop where
  failures_ne_nil_iff : r.failures ≠ [] ↔ ∃ p ∈ valid, failing p
  head?_failures : r.failures.head?.map Prod.fst = valid.find? failing

theorem reportsFirst_ofFiles {paths valid : List Path}
    (h : paths.find? (fails d b) = valid.find? (fails d b)) (discovered : Nat) :
    ReportsFirst (fails d b) valid
      { BatchResults.ofFiles (outcome d b) paths with discovered } := by
  have hhead : (BatchResults.ofFiles (outcome d b) paths).failures.head?.map Prod.fst =
      valid.find? (fails d b) := by
    rw [← List.head?_map, map_fst_failures, List.head?_filter, h]
  refine ⟨?_, hhead⟩
  rw [← List.find?_isSome, ← hhead]
  cases (BatchResults.ofFiles (outcome d b) paths).failures <;> simp

theorem runBy_failFast {directory : Path} {files : List Path} (hnamed : d.files.root.IsNamed)
    (hfind : (Discovery.find d.files b directory).1 = .ok files) (hspares : ∀ p ∈ files, d.Spares p)
    (hfast : b.failFast = true) (alone together : Nat → List Nat) (j k : Journal) :
    let valid := (Discovery.accept d.files files).1
    let size := roundSize valid.length b.workers
    let first := through (fails d b) valid
    let whole := (through (·.any (fails d b)) (chunks size valid)).flatten
    let byFirst := { BatchResults.ofFiles (outcome d b) first with discovered := files.length }
    let byWhole := { BatchResults.ofFiles (outcome d b) whole with discovered := files.length }
    Path.Sorted id valid ∧
      (runBy alone d b .sequential directory j).1 = .ok byFirst ∧
      (runBy together d b .parallel directory k).1 = .ok byWhole ∧
      first <+: whole ∧ whole <+: valid ∧ whole.length < first.length + size ∧
      ReportsFirst (fails d b) valid byFirst ∧ ReportsFirst (fails d b) valid byWhole := by
  intro valid size first whole byFirst byWhole
  have hsorted : Path.Sorted id valid := Discovery.sorted_accept hfind
  have hresults (mode : BatchMode) := results_through mode hfast hsorted
    (Discovery.eq_of_parts_accept hnamed hfind)
    (fun p hp => hspares p ((Discovery.accept_sublist ..).subset hp))
  have hpos : 0 < size := Nat.lt_of_lt_of_le Nat.zero_lt_one (Nat.le_max_left ..)
  obtain ⟨hwhole, hlength⟩ := through_flatten (p := fails d b) hpos
    (length_le_of_mem_chunks hpos valid)
  rw [flatten_chunks] at hwhole hlength
  have hvalid : whole <+: valid := prefix_processed .parallel valid
  have hfirst : first.find? (fails d b) = valid.find? (fails d b) := find?_through ..
  refine ⟨hsorted, ?_, ?_, hwhole, hvalid, hlength, reportsFirst_ofFiles hfirst _,
    reportsFirst_ofFiles (find?_of_between hwhole hvalid hfirst) _⟩
  · obtain ⟨ending, hrun⟩ := runBy_of_find .sequential hfind alone j
    rw [hrun, hresults, processed_sequential]
  · obtain ⟨ending, hrun⟩ := runBy_of_find .parallel hfind together k
    rw [hrun, hresults]
    rfl

theorem runBy_failFast_empty :
    let d : Disk := ⟨⟨.folder [([97, 46, 114, 118], .file (.text "x = 1")),
      ([98, 46, 114, 118], .file (.text "")), ([99, 46, 114, 118], .file (.text "y"))], []⟩, []⟩
    let b := { BatchSettings.ofPreferences (.ofEnvironment []) with threads := 2, failFast := true }
    let files : List Path :=
      [⟨[47, 97, 46, 114, 118]⟩, ⟨[47, 98, 46, 114, 118]⟩, ⟨[47, 99, 46, 114, 118]⟩]
    let valid := (Discovery.accept d.files files).1
    let first := through (fails d b) valid
    let whole := (through (·.any (fails d b)) (chunks (roundSize valid.length b.workers)
      valid)).flatten
    let byFirst := { BatchResults.ofFiles (outcome d b) first with discovered := 3 }
    let byWhole := { BatchResults.ofFiles (outcome d b) whole with discovered := 3 }
    (d.files.root.IsNamed ∧ (∀ p ∈ files, d.Spares p) ∧ b.failFast = true ∧
        (Discovery.find d.files b (.ofString "/")).1 = .ok files) ∧
      Path.Sorted id valid ∧
      (runBy (fun _ => []) d b .sequential (.ofString "/") (.closed [])).1 = .ok byFirst ∧
      (runBy (fun _ => [1, 0, 1]) d b .parallel (.ofString "/") (.closed [])).1 = .ok byWhole ∧
      first <+: whole ∧ whole <+: valid ∧
      whole.length < first.length + roundSize valid.length b.workers ∧
      ReportsFirst (fails d b) valid byFirst ∧ ReportsFirst (fails d b) valid byWhole := by
  intro d b files
  have htree : d.files.root.IsTree :=
    Node.isTree_of_files (by decide) (by decide) (by decide)
  have hspares : ∀ p ∈ files, d.Spares p :=
    fun _ _ _ _ _ _ log hlog => absurd hlog (by simp [d])
  have hfind : (Discovery.find d.files b (.ofString "/")).1 = .ok files :=
    Discovery.find_root htree (by decide +kernel) (by decide +kernel) (by decide +kernel) (by simp)
      (by decide)
  exact ⟨⟨htree.named, hspares, rfl, hfind⟩, runBy_failFast htree.named hfind hspares rfl (fun _ => [])
    (fun _ => [1, 0, 1]) (.closed []) (.closed [])⟩

end Batch

end Lexing
