import Lexing.Proofs.Batch.Run
import Lexing.Proofs.Journal.Attribution

namespace Lexing

open CollectorEntry

def Worker.entries (p : LoggingPreferences) (w : Worker) : List CollectorEntry :=
  Act.entriesAll p w.context (w.todo.map Task.toAct)

namespace Pool

def unmade (p : LoggingPreferences) (pool : Pool) : List CollectorEntry :=
  pool.workers.flatMap (Worker.entries p)

structure Collects (pool : Pool) (p : LoggingPreferences) (start : Option Collector)
    (all : List CollectorEntry) : Prop where
  preferences_eq : pool.journal.preferences = p
  apart : pool.workers.Pairwise fun v w =>
    ∀ x ∈ v.entries p, ∀ y ∈ w.entries p, x.path.parts ≠ y.path.parts
  made : ∃ done, pool.journal.collector = start.map (·.enterAll done) ∧
    SameByFile (done ++ pool.unmade p) all

variable {pool : Pool} {p : LoggingPreferences} {start : Option Collector}
  {all : List CollectorEntry}

theorem sameByFile_move {done earlier made later : List CollectorEntry}
    (h : ∀ x ∈ earlier, ∀ y ∈ made, x.path.parts ≠ y.path.parts) :
    SameByFile (done ++ made ++ (earlier ++ later)) (done ++ (earlier ++ (made ++ later))) := by
  intro parts
  have hswap : made.filter (isAbout parts) ++ earlier.filter (isAbout parts) =
      earlier.filter (isAbout parts) ++ made.filter (isAbout parts) := by
    by_cases hnone : made.filter (isAbout parts) = []
    · rw [hnone, List.append_nil, List.nil_append]
    · obtain ⟨y, hy⟩ := List.exists_mem_of_ne_nil _ hnone
      obtain ⟨hmade, habout⟩ := List.mem_filter.1 hy
      have hearlier : earlier.filter (isAbout parts) = [] := by
        rw [List.filter_eq_nil_iff]
        intro x hx hxabout
        simp only [isAbout, decide_eq_true_eq] at habout hxabout
        exact h x hx y hmade (hxabout.trans habout.symm)
      rw [hearlier, List.append_nil, List.nil_append]
  simp only [List.filter_append, List.append_assoc, List.append_cancel_left_eq]
  rw [← List.append_assoc, hswap, List.append_assoc]

theorem Collects.step (h : pool.Collects p start all) (i : Nat) :
    (pool.step i).Collects p start all := by
  rcases pool.step_cases i with ⟨hstep, -⟩ | ⟨before, after, context, t, todo, hworkers, -, hstep⟩
  · rwa [hstep]
  obtain ⟨hpreferences, hapart, done, hcollector, hsame⟩ := h
  rw [hworkers] at hapart
  have hentries : Worker.entries p ⟨context, t :: todo⟩ =
      t.toAct.entries p context ++ Worker.entries p ⟨t.toAct.context context, todo⟩ := rfl
  obtain ⟨hbefore, hworker, hacross⟩ := List.pairwise_append.1 hapart
  obtain ⟨hafter, hlater⟩ := List.pairwise_cons.1 hworker
  rw [hstep, Act.apply_context]
  refine ⟨?_, ?_, done ++ t.toAct.entries p context, ?_, ?_⟩
  · rw [← hpreferences]
    exact Act.apply_preferences _
  · refine List.pairwise_append.2 ⟨hbefore, List.pairwise_cons.2 ⟨?_, hlater⟩, ?_⟩
    · intro w hw x hx
      exact hafter w hw x (hentries ▸ List.mem_append_right _ hx)
    · intro v hv
      refine List.forall_mem_cons.2 ⟨fun x hx y hy => ?_, fun w hw =>
        hacross v hv w (List.mem_cons_of_mem _ hw)⟩
      exact hacross v hv _ List.mem_cons_self x hx y (hentries ▸ List.mem_append_right _ hy)
  · rw [Act.apply_collector, hcollector, hpreferences, Collector.map_enterAll_append]
  · intro parts
    rw [← hsame parts]
    -- The worker's entries have overtaken those of the workers before it.
    simp only [unmade, hworkers, List.flatMap_append, List.flatMap_cons, hentries,
      List.append_assoc]
    rw [← List.append_assoc done]
    refine sameByFile_move (fun x hx y hy => ?_) parts
    obtain ⟨v, hv, hxv⟩ := List.mem_flatMap.1 hx
    exact hacross v hv _ List.mem_cons_self x hxv y (hentries ▸ List.mem_append_left _ hy)

theorem Collects.run (h : pool.Collects p start all) (turns : List Nat) :
    (pool.run turns).Collects p start all := by
  induction turns generalizing pool with
  | nil => exact h
  | cons i turns ih => exact ih (h.step i)

theorem Collects.complete (h : pool.Collects p start all) (schedule : List Nat) :
    (pool.complete schedule).journal.preferences = p ∧
      (pool.complete schedule).journal.collector = start.map (·.enterAll all) := by
  obtain ⟨hpreferences, -, done, hcollector, hsame⟩ :=
    (h.run schedule).run (pool.run schedule).inTurn
  refine ⟨hpreferences, hcollector.trans ?_⟩
  have hunmade : (pool.complete schedule).unmade p = [] := by
    rw [unmade, List.flatMap_eq_nil_iff]
    intro w hw
    rw [Worker.entries, todo_complete hw]
    rfl
  rw [Pool.complete] at hunmade
  rw [hunmade, List.append_nil] at hsame
  congr 1
  funext c
  exact c.enterAll_eq_of_sameByFile hsame

end Pool

end Lexing
