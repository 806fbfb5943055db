import Lexing.Proofs.Batch.Collecting
import Lexing.Proofs.Batch.Sources

namespace Lexing

open CollectorEntry

namespace Batch

variable {d : Disk} {b : BatchSettings} {mode : BatchMode} {total : Nat} {p : LoggingPreferences}

def collected (d : Disk) (b : BatchSettings) (p : LoggingPreferences) (f : NumberedFile) :
    List Event :=
  (told d b f.1 ++ [Task.tellOutcome f.1 f.2 (outcome d b f.1)]).flatMap (Act.kept p ⟨f.1, f.2⟩)

def entriesOf (d : Disk) (b : BatchSettings) (p : LoggingPreferences) (f : NumberedFile) :
    List CollectorEntry :=
  ⟨f.1, none⟩ :: (collected d b p f).map fun e => ⟨f.1, some e⟩

theorem path_of_mem_entriesOf {f : NumberedFile} {x : CollectorEntry} (h : x ∈ entriesOf d b p f) :
    x.path = f.1 := by
  rcases List.mem_cons.1 h with rfl | h
  · rfl
  · obtain ⟨e, -, rfl⟩ := List.mem_map.1 h
    rfl

theorem entriesAll_ofFile (f : NumberedFile) (before : Option FileContext) (more : List Act) :
    Act.entriesAll p before
        ((Task.ofFile f.1 f.2 (outcome d b f.1, told d b f.1)).map Task.toAct ++ more) =
      entriesOf d b p f ++ Act.entriesAll p none more := by
  let course := told d b f.1 ++ [Task.tellOutcome f.1 f.2 (outcome d b f.1)]
  have hacts : (Task.ofFile f.1 f.2 (outcome d b f.1, told d b f.1)).map Task.toAct ++ more =
      .enter ⟨f.1, f.2⟩ :: (course ++ .leave :: more) := by
    simp [Task.ofFile, Task.toAct, Function.comp_def, course]
  have houtcome : (Task.tellOutcome f.1 f.2 (outcome d b f.1)).staysPut := by
    cases outcome d b f.1 <;> rfl
  have hstays : ∀ a ∈ course, a.staysPut :=
    List.forall_mem_append.2 ⟨staysPut_told d b f.1, List.forall_mem_singleton.2 houtcome⟩
  have hcourse : Act.entriesAll p (some ⟨f.1, f.2⟩) (course ++ .leave :: more) =
      ((collected d b p f).map fun e => ⟨f.1, some e⟩) ++ Act.entriesAll p none more := by
    rw [Act.entriesAll_append, Act.entriesAll_of_staysPut hstays,
      Act.foldl_context_of_staysPut hstays]
    rfl
  rw [hacts, Act.entriesAll, Act.context, hcourse, entriesOf, List.cons_append]
  rfl

theorem entriesAll_tasks {files : List NumberedFile} (h : ∀ f ∈ files, d.Spares f.1)
    (before : Unit → Journal) :
    Act.entriesAll p none ((tasks d b mode total before files).map Task.toAct) =
      files.flatMap (entriesOf d b p) := by
  induction files generalizing before with
  | nil => rfl
  | cons f files ih =>
      obtain ⟨hf, hmore⟩ := List.forall_mem_cons.1 h
      have hannounce (acts : List Act) : Act.entriesAll p none
          ((announce b mode total f).map Task.toAct ++ acts) = Act.entriesAll p none acts := by
        unfold announce
        split <;> rfl
      rw [tasks, process_eq hf, List.append_assoc, List.map_append, List.map_append, hannounce,
        entriesAll_ofFile, ih hmore]
      rfl

def Apart (f g : NumberedFile) : Prop := f.1.parts ≠ g.1.parts

def Before (f g : NumberedFile) : Prop := Path.compareParts f.1.parts g.1.parts = .lt

theorem Before.apart {f g : NumberedFile} (h : Before f g) : Apart f g := by
  intro hparts
  have hself : Path.compareParts g.1.parts g.1.parts = .eq := Std.ReflCmp.compare_self
  rw [Before, hparts, hself] at h
  contradiction

theorem collects_round (mode : BatchMode) (total : Nat) {round : Round}
    (hspares : ∀ f ∈ round.flatten, d.Spares f.1) (hapart : round.flatten.Pairwise Apart)
    (j : Journal) :
    (Pool.ofTasks j (round.map (tasks d b mode total fun _ => j))).Collects j.preferences
      j.collector (round.flatten.flatMap (entriesOf d b j.preferences)) := by
  have hworker : ∀ share ∈ round, Worker.entries j.preferences
      ⟨none, tasks d b mode total (fun _ => j) share⟩ =
        share.flatMap (entriesOf d b j.preferences) := fun share hshare =>
    entriesAll_tasks (fun f hf => hspares f (List.mem_flatten_of_mem hshare hf)) _
  refine ⟨rfl, ?_, [], ?_, ?_⟩
  · rw [Pool.ofTasks, List.map_map, List.pairwise_map]
    refine (List.pairwise_flatten.1 hapart).2.imp_of_mem fun {share other} hshare hother h => ?_
    rw [Function.comp_apply, Function.comp_apply, hworker share hshare, hworker other hother]
    intro x hx y hy
    obtain ⟨f, hf, hxf⟩ := List.mem_flatMap.1 hx
    obtain ⟨g, hg, hyg⟩ := List.mem_flatMap.1 hy
    rw [path_of_mem_entriesOf hxf, path_of_mem_entriesOf hyg]
    exact h f hf g hg
  · exact (Collector.map_enterAll_nil _).symm
  · intro parts
    rw [List.nil_append, Pool.unmade, Pool.ofTasks, List.map_map, List.flatMap_map,
      ← List.flatMap_id (L := round), List.flatMap_assoc]
    rw [List.flatMap_def, List.flatMap_def]
    exact congrArg _ (congrArg _ (List.map_congr_left hworker))

theorem collector_runRounds (mode : BatchMode) (total : Nat) (hfast : b.failFast = false)
    {todo : List Round} (hspares : ∀ f ∈ todo.flatten.flatten, d.Spares f.1)
    (hapart : todo.flatten.flatten.Pairwise Apart) (schedule : Nat → List Nat) (number : Nat)
    (results : BatchResults) (j : Journal) :
    (runRounds d b mode total schedule todo number results j).2.collector =
      j.collector.map
        (·.enterAll (todo.flatten.flatten.flatMap (entriesOf d b j.preferences))) := by
  induction todo generalizing number results j with
  | nil => exact (Collector.map_enterAll_nil _).symm
  | cons round todo ih =>
      rw [List.flatten_cons, List.flatten_append] at hspares hapart
      obtain ⟨hspared, hlater⟩ := List.forall_mem_append.1 hspares
      obtain ⟨hround, hrest, -⟩ := List.pairwise_append.1 hapart
      obtain ⟨hpreferences, hcollector⟩ :=
        (collects_round mode total hspared hround j).complete (schedule number)
      rw [runRounds, hfast]
      simp only [Bool.false_and, Bool.false_eq_true, if_false]
      rw [ih hlater hrest, hpreferences, hcollector, List.flatten_cons, List.flatten_append,
        List.flatMap_append, Collector.map_enterAll_append]

inductive Occurs (d : Disk) (b : BatchSettings) (mode : BatchMode) (total : Nat)
    (schedule : Nat → List Nat) (k : Journal) : List Round → Nat → Journal → Prop
  | within (round : Round) (todo : List Round) (number : Nat) (j : Journal) (turns : List Nat) :
      ((Pool.ofTasks j (round.map (tasks d b mode total fun _ => j))).run turns).journal = k →
      Occurs d b mode total schedule k (round :: todo) number j
  | later (round : Round) (todo : List Round) (number : Nat) (j : Journal) :
      Occurs d b mode total schedule k todo (number + 1)
        ((Pool.ofTasks j (round.map (tasks d b mode total fun _ => j))).complete
          (schedule number)).journal →
      Occurs d b mode total schedule k (round :: todo) number j

theorem made_of_occurs {schedule : Nat → List Nat} {k j : Journal} {todo : List Round}
    {number : Nat} (h : Occurs d b mode total schedule k todo number j)
    (hspares : ∀ f ∈ todo.flatten.flatten, d.Spares f.1)
    (hapart : todo.flatten.flatten.Pairwise Apart) :
    ∃ done, k.collector = j.collector.map (·.enterAll done) ∧
      ∀ parts, done.filter (isAbout parts) <+:
        (todo.flatten.flatten.flatMap (entriesOf d b j.preferences)).filter (isAbout parts) := by
  induction h with
  | within round todo number j turns hk =>
      rw [List.flatten_cons, List.flatten_append] at hspares hapart
      obtain ⟨-, -, done, hcollector, hsame⟩ := (collects_round mode total
        (List.forall_mem_append.1 hspares).1 (List.pairwise_append.1 hapart).1 j).run turns
      refine ⟨done, by rw [← hk, hcollector], fun parts => ?_⟩
      rw [List.flatten_cons, List.flatten_append, List.flatMap_append, List.filter_append,
        ← hsame parts, List.filter_append, List.append_assoc]
      exact List.prefix_append ..
  | later round todo number j _ ih =>
      rw [List.flatten_cons, List.flatten_append] at hspares hapart
      obtain ⟨hspared, hlater⟩ := List.forall_mem_append.1 hspares
      obtain ⟨hround, hrest, -⟩ := List.pairwise_append.1 hapart
      obtain ⟨hpreferences, hcollector⟩ :=
        (collects_round mode total hspared hround j).complete (schedule number)
      obtain ⟨done, hk, hpre⟩ := ih hlater hrest
      refine ⟨round.flatten.flatMap (entriesOf d b j.preferences) ++ done, ?_, fun parts => ?_⟩
      · rw [hk, hcollector, Collector.map_enterAll_append]
      · rw [hpreferences] at hpre
        rw [List.flatten_cons, List.flatten_append, List.flatMap_append, List.filter_append,
          List.filter_append]
        exact (List.prefix_append_right_inj _).2 (hpre parts)

section Groups

variable {files : List NumberedFile} {group : NumberedFile → List CollectorEntry}

theorem filter_flatMap_eq_nil (hgroup : ∀ f ∈ files, ∀ x ∈ group f, x.path.parts = f.1.parts)
    {parts : List PathPart} (hparts : ∀ f ∈ files, f.1.parts ≠ parts) :
    (files.flatMap group).filter (isAbout parts) = [] := by
  rw [List.filter_eq_nil_iff]
  intro x hx habout
  obtain ⟨f, hf, hxf⟩ := List.mem_flatMap.1 hx
  exact hparts f hf ((hgroup f hf x hxf).symm.trans (of_decide_eq_true habout))

theorem filter_flatMap_of_mem (hgroup : ∀ f ∈ files, ∀ x ∈ group f, x.path.parts = f.1.parts)
    (hapart : files.Pairwise Apart) {f : NumberedFile} (hf : f ∈ files) :
    (files.flatMap group).filter (isAbout f.1.parts) = group f := by
  obtain ⟨before, after, rfl⟩ := List.append_of_mem hf
  obtain ⟨-, hworker, hacross⟩ := List.pairwise_append.1 hapart
  obtain ⟨hearlier, hmore⟩ := List.forall_mem_append.1 hgroup
  obtain ⟨hown, hlater⟩ := List.forall_mem_cons.1 hmore
  have hself : (group f).filter (isAbout f.1.parts) = group f :=
    List.filter_eq_self.2 fun x hx => decide_eq_true (hown x hx)
  rw [List.flatMap_append, List.flatMap_cons, List.filter_append, List.filter_append, hself,
    filter_flatMap_eq_nil hearlier fun g hg => hacross g hg f List.mem_cons_self,
    filter_flatMap_eq_nil hlater fun g hg => ((List.pairwise_cons.1 hworker).1 g hg).symm,
    List.nil_append, List.append_nil]

theorem sameByFile_groups {done : List CollectorEntry} (hapart : files.Pairwise Apart)
    (hdone : ∀ parts, (∀ f ∈ files, f.1.parts ≠ parts) → done.filter (isAbout parts) = []) :
    SameByFile done (files.flatMap fun f => done.filter (isAbout f.1.parts)) := by
  have hgroup : ∀ f ∈ files, ∀ x ∈ done.filter (isAbout f.1.parts), x.path.parts = f.1.parts :=
    fun f _ x hx => of_decide_eq_true (List.mem_filter.1 hx).2
  intro parts
  by_cases hparts : ∀ f ∈ files, f.1.parts ≠ parts
  · rw [hdone parts hparts, filter_flatMap_eq_nil hgroup hparts]
  · obtain ⟨f, hf, rfl⟩ : ∃ f ∈ files, f.1.parts = parts := by simpa using hparts
    exact (filter_flatMap_of_mem hgroup hapart hf).symm

end Groups

theorem pairwise_before {valid : List Path} (hsorted : Path.Sorted id valid)
    (hparts : ∀ p ∈ valid, ∀ q ∈ valid, p.parts = q.parts → p = q) (hnodup : valid.Nodup) :
    valid.zipIdx.Pairwise Before := by
  have hlt : valid.Pairwise fun p q => Path.compareParts p.parts q.parts = .lt := by
    refine (hsorted.and hnodup).imp_of_mem fun {p q} hp hq h => ?_
    cases hcompare : Path.compareParts p.parts q.parts with
    | lt => rfl
    | eq => exact absurd (hparts p hp q hq (Std.LawfulEqCmp.eq_of_compare hcompare)) h.2
    | gt =>
        have hle := h.1
        simp [hcompare] at hle
  rw [← List.zipIdx_map_fst 0 valid, List.pairwise_map] at hlt
  exact hlt

def recordOf (d : Disk) (b : BatchSettings) (p : LoggingPreferences) (f : NumberedFile) :
    FileRecord :=
  (collected d b p f).foldl FileRecord.add (.of f.1)

def HoldsOwn (d : Disk) (b : BatchSettings) (p : LoggingPreferences) (files : List NumberedFile)
    (c : Collector) : Prop :=
  ∀ r ∈ c.records, ∃ f ∈ files, ∃ es, es <+: collected d b p f ∧
    r = es.foldl FileRecord.add (.of f.1)

section Records

variable {files : List NumberedFile}

theorem enterAll_entriesOf (hsorted : files.Pairwise Before) :
    Collector.empty.enterAll (files.flatMap (entriesOf d b p)) = ⟨files.map (recordOf d b p)⟩ := by
  have hrecord : (fun f => record? (entriesOf d b p f)) = some ∘ recordOf d b p :=
    funext fun f => record?_cons f.1 _
  rw [Collector.enterAll_flatMap hsorted fun _ _ _ => path_of_mem_entriesOf, hrecord,
    List.filterMap_eq_map]
  · rfl
  · simp [Collector.empty]

theorem record_of_made {f : NumberedFile} {xs : List CollectorEntry} {r : FileRecord}
    (hxs : xs <+: entriesOf d b p f) (hr : record? xs = some r) :
    ∃ es, es <+: collected d b p f ∧ r = es.foldl FileRecord.add (.of f.1) := by
  cases xs with
  | nil => contradiction
  | cons x xs =>
      obtain ⟨rfl, hmore⟩ := List.cons_prefix_cons.1 hxs
      obtain ⟨es, hes, rfl⟩ := List.prefix_map_iff.1 hmore
      rw [record?_cons] at hr
      exact ⟨es, hes, (Option.some.inj hr).symm⟩

theorem holdsOwn_of_made {done : List CollectorEntry} (hsorted : files.Pairwise Before)
    (hdone : ∀ parts, done.filter (isAbout parts) <+:
      (files.flatMap (entriesOf d b p)).filter (isAbout parts)) :
    HoldsOwn d b p files (Collector.empty.enterAll done) := by
  have hapart := hsorted.imp Before.apart
  have hgroup : ∀ f ∈ files, ∀ x ∈ entriesOf d b p f, x.path.parts = f.1.parts :=
    fun f _ x hx => congrArg Path.parts (path_of_mem_entriesOf hx)
  have hown : ∀ f ∈ files, done.filter (isAbout f.1.parts) <+: entriesOf d b p f := by
    intro f hf
    have hpre := hdone f.1.parts
    rwa [filter_flatMap_of_mem hgroup hapart hf] at hpre
  have hnone : ∀ parts, (∀ f ∈ files, f.1.parts ≠ parts) → done.filter (isAbout parts) = [] := by
    intro parts hparts
    have hpre := hdone parts
    rw [filter_flatMap_eq_nil hgroup hparts] at hpre
    exact List.prefix_nil.1 hpre
  rw [Collector.enterAll_eq_of_sameByFile (sameByFile_groups hapart hnone),
    Collector.enterAll_flatMap hsorted fun f hf x hx =>
      path_of_mem_entriesOf ((hown f hf).subset hx)]
  · intro r hr
    obtain ⟨f, hf, hrecord⟩ := List.mem_filterMap.1 hr
    exact ⟨f, hf, record_of_made (hown f hf) hrecord⟩
  · simp [Collector.empty]

end Records

theorem runBy_collects {directory : Path} {files : List Path} (hnamed : d.files.root.IsNamed)
    (hdistinct : d.files.root.IsDistinct)
    (hfind : (Discovery.find d.files b directory).1 = .ok files) (hspares : ∀ p ∈ files, d.Spares p)
    (hfast : b.failFast = false) {j : Journal} (hempty : j.collector = some .empty)
    (together alone : Nat → List Nat) :
    let valid := (Discovery.accept d.files files).1
    let collector : Collector := ⟨valid.zipIdx.map (recordOf d b j.preferences)⟩
    (runBy together d b .parallel directory j).2.collector = some collector ∧
      (runBy alone d b .sequential directory j).2.collector = some collector ∧
      ∀ mode schedule k, Occurs d b mode valid.length schedule k (rounds mode b.workers valid) 0
          (started d b mode directory files j) →
        ∃ c, k.collector = some c ∧ HoldsOwn d b j.preferences valid.zipIdx c := by
  intro valid collector
  have hsorted := pairwise_before (Discovery.sorted_accept hfind)
    (Discovery.eq_of_parts_accept hnamed hfind) (Discovery.nodup_accept hnamed hdistinct hfind)
  have hall (mode : BatchMode) : ∀ f ∈ (rounds mode b.workers valid).flatten.flatten,
      d.Spares f.1 := by
    rw [flatten_rounds]
    exact fun f hf => hspares f.1
      ((Discovery.accept_sublist ..).subset (List.fst_mem_of_mem_zipIdx hf))
  have hapart (mode : BatchMode) :
      (rounds mode b.workers valid).flatten.flatten.Pairwise Apart := by
    rw [flatten_rounds]
    exact hsorted.imp Before.apart
  have hcollector (mode : BatchMode) (schedule : Nat → List Nat) :
      (runBy schedule d b mode directory j).2.collector = some collector := by
    obtain ⟨hpreferences, hstarted⟩ := started_unchanged (d := d) (b := b) mode directory files j
    obtain ⟨ending, hrun⟩ := runBy_of_find mode hfind schedule j
    rw [hrun, Journal.collector_emit_none,
      collector_runRounds mode _ hfast (hall mode) (hapart mode), flatten_rounds, hpreferences,
      hstarted, hempty, Option.map_some, enterAll_entriesOf hsorted]
  refine ⟨hcollector .parallel together, hcollector .sequential alone, fun mode schedule k hk => ?_⟩
  obtain ⟨hpreferences, hstarted⟩ := started_unchanged (d := d) (b := b) mode directory files j
  obtain ⟨done, hdone, hpre⟩ := made_of_occurs hk (hall mode) (hapart mode)
  rw [flatten_rounds, hpreferences] at hpre
  refine ⟨_, ?_, holdsOwn_of_made hsorted hpre⟩
  rw [hdone, hstarted, hempty, Option.map_some]

theorem runBy_collects_two_workers :
    let d : Disk := ⟨⟨.folder [([97, 46, 114, 118], .file (.text "x = 1")),
      ([98, 46, 114, 118], .file (.text "1.2.3")), ([99, 46, 114, 118], .file (.text ""))], []⟩, []⟩
    let b := { BatchSettings.ofPreferences (.ofEnvironment []) with threads := 2 }
    let files : List Path :=
      [⟨[47, 97, 46, 114, 118]⟩, ⟨[47, 98, 46, 114, 118]⟩, ⟨[47, 99, 46, 114, 118]⟩]
    let j := Journal.remembering []
    let valid := (Discovery.accept d.files files).1
    let collector : Collector := ⟨valid.zipIdx.map (recordOf d b j.preferences)⟩
    (d.files.root.IsNamed ∧ d.files.root.IsDistinct ∧ (∀ p ∈ files, d.Spares p) ∧
        b.failFast = false ∧ j.collector = some .empty ∧
        (Discovery.find d.files b (.ofString "/")).1 = .ok files) ∧
      (runBy (fun _ => [1, 0, 0, 1]) d b .parallel (.ofString "/") j).2.collector =
        some collector ∧
      (runBy (fun _ => []) d b .sequential (.ofString "/") j).2.collector = some collector ∧
      ∀ mode schedule k, Occurs d b mode valid.length schedule k (rounds mode b.workers valid) 0
          (started d b mode (.ofString "/") files j) →
        ∃ c, k.collector = some c ∧ HoldsOwn d b j.preferences valid.zipIdx c := by
  intro d b files j
  have htree : d.files.root.IsTree :=
    Node.isTree_of_files (by decide) (by decide) (by decide)
  have hspares : ∀ p ∈ files, d.Spares p :=
    fun _ _ _ _ _ _ log hlog => absurd hlog (by simp [d])
  have hfind : (Discovery.find d.files b (.ofString "/")).1 = .ok files :=
    Discovery.find_root htree (by decide +kernel) (by decide +kernel) (by decide +kernel) (by simp)
      (by decide)
  exact ⟨⟨htree.named, htree.distinct, hspares, rfl, rfl, hfind⟩,
    runBy_collects htree.named htree.distinct hfind hspares rfl rfl (fun _ => [1, 0, 0, 1]) fun _ => []⟩

end Batch

end Lexing
