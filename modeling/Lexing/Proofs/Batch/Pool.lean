import Lexing.Batch.Pool

namespace Lexing

abbrev FileOutcome := Path × Except AnalysisError FileTokens

namespace BatchResults

def addAll (r : BatchResults) (found : List FileOutcome) : BatchResults :=
  found.foldl (fun r f => r.add f.1 f.2) r

theorem addAll_append (r : BatchResults) (found more : List FileOutcome) :
    r.addAll (found ++ more) = (r.addAll found).addAll more :=
  List.foldl_append

theorem merge_add (r s : BatchResults) (path : Path) (outcome : Except AnalysisError FileTokens) :
    r.merge (s.add path outcome) = (r.merge s).add path outcome := by
  cases outcome <;> simp [merge, add, Nat.add_assoc]

theorem merge_addAll (r s : BatchResults) (found : List FileOutcome) :
    r.merge (s.addAll found) = (r.merge s).addAll found := by
  induction found generalizing s with
  | nil => rfl
  | cons f fs ih =>
      have hadd := ih (s.add f.1 f.2)
      rwa [merge_add] at hadd

theorem merge_empty (r : BatchResults) : r.merge empty = r := by
  simp [merge, empty]

theorem merge_empty_addAll (r : BatchResults) (found : List FileOutcome) :
    r.merge (empty.addAll found) = r.addAll found := by
  rw [merge_addAll, merge_empty]

end BatchResults

def Task.recorded : Task → List FileOutcome
  | .act _ => []
  | .record path _ outcome => [(path, outcome)]

def Task.toAct : Task → Act
  | .act a => a
  | .record path id outcome => tellOutcome path id outcome

namespace Pool

variable {p : Pool} {i : Nat}

theorem step_cases (p : Pool) (i : Nat) :
    (p.step i = p ∧ ∀ w, p.workers[i]? = some w → w.todo = []) ∨
      ∃ before after context t todo,
        p.workers = before ++ ⟨context, t :: todo⟩ :: after ∧ before.length = i ∧
        p.step i = ⟨(t.toAct.apply (context, p.journal)).2, p.results.addAll t.recorded,
          before ++ ⟨(t.toAct.apply (context, p.journal)).1, todo⟩ :: after⟩ := by
  have split {w : Worker} (h : p.workers[i]? = some w) (w' : Worker) :
      ∃ before after, p.workers = before ++ w :: after ∧ before.length = i ∧
        p.workers.set i w' = before ++ w' :: after := by
    obtain ⟨hlt, hw⟩ := List.getElem?_eq_some_iff.1 h
    obtain ⟨before, after, hbefore, hlength, hset⟩ := @List.exists_of_set _ i w' _ hlt
    exact ⟨before, after, by rw [← hw]; exact hbefore, hlength, hset⟩
  unfold step
  split
  · next context a todo h =>
      obtain ⟨before, after, hbefore, hlength, hset⟩ :=
        split h ⟨(a.apply (context, p.journal)).1, todo⟩
      refine .inr ⟨before, after, context, .act a, todo, hbefore, hlength, ?_⟩
      rw [Task.toAct, ← hset]
      rfl
  · next context path id outcome todo h =>
      let told := (Task.tellOutcome path id outcome).apply (context, p.journal)
      obtain ⟨before, after, hbefore, hlength, hset⟩ := split h ⟨told.1, todo⟩
      refine .inr ⟨before, after, context, .record path id outcome, todo, hbefore, hlength, ?_⟩
      rw [Task.toAct, ← hset]
      rfl
  · next hact hrecord =>
      refine .inl ⟨rfl, ?_⟩
      rintro ⟨context, todo⟩ h
      match todo with
      | [] => rfl
      | .act a :: todo => exact (hact context a todo h).elim
      | .record path id outcome :: todo => exact (hrecord context path id outcome todo h).elim

def pending (p : Pool) : List FileOutcome := p.workers.flatMap fun w => w.todo.flatMap Task.recorded

def Accounts (p : Pool) (all : List FileOutcome) : Prop :=
  ∃ found, p.results = BatchResults.empty.addAll found ∧ (found ++ p.pending).Perm all

theorem pending_ofTasks (j : Journal) (shares : List (List Task)) :
    (ofTasks j shares).pending = shares.flatten.flatMap Task.recorded := by
  induction shares with
  | nil => rfl
  | cons share shares ih =>
      rw [List.flatten_cons, List.flatMap_append, ← ih]
      rfl

theorem accounts_ofTasks (j : Journal) (shares : List (List Task)) :
    (ofTasks j shares).Accounts (shares.flatten.flatMap Task.recorded) :=
  ⟨[], rfl, by rw [pending_ofTasks, List.nil_append]⟩

theorem Accounts.step {all : List FileOutcome} (h : p.Accounts all) (i : Nat) :
    (p.step i).Accounts all := by
  obtain ⟨found, hresults, hperm⟩ := h
  rcases p.step_cases i with ⟨hstep, -⟩ | ⟨before, after, _, t, todo, hworkers, -, hstep⟩
  · rw [hstep]
    exact ⟨found, hresults, hperm⟩
  · rw [hstep]
    refine ⟨found ++ t.recorded, by rw [hresults, BatchResults.addAll_append], ?_⟩
    refine List.Perm.trans ?_ hperm
    rw [List.append_assoc]
    refine List.Perm.append_left found ?_
    simp only [pending, hworkers, List.flatMap_append, List.flatMap_cons, List.append_assoc]
    exact List.perm_append_comm_assoc ..

theorem Accounts.run {all : List FileOutcome} (h : p.Accounts all) (schedule : List Nat) :
    (p.run schedule).Accounts all := by
  induction schedule generalizing p with
  | nil => exact h
  | cons i is ih => exact ih (h.step i)

def lengths (p : Pool) : List Nat := p.workers.map (·.todo.length)

private theorem modify_append_cons (ms ns : List Nat) (n : Nat) (f : Nat → Nat) :
    (ms ++ n :: ns).modify ms.length f = ms ++ f n :: ns := by
  induction ms with
  | nil => rfl
  | cons m ms ih => simp [ih]

theorem lengths_step (p : Pool) (i : Nat) : (p.step i).lengths = p.lengths.modify i (· - 1) := by
  rcases p.step_cases i with ⟨hstep, hdone⟩ | ⟨before, after, _, t, todo, hworkers, hi, hstep⟩
  · rw [hstep]
    apply List.ext_getElem?
    intro k
    rw [List.getElem?_modify]
    by_cases hk : i = k
    · subst hk
      rw [lengths, List.getElem?_map]
      cases hw : p.workers[i]? with
      | none => rfl
      | some w => simp [hdone w hw]
    · simp [hk]
  · subst hi
    rw [hstep]
    simp only [lengths, hworkers, List.map_append, List.map_cons]
    have hmodify := modify_append_cons (before.map (·.todo.length)) (after.map (·.todo.length))
      (t :: todo).length (· - 1)
    rw [List.length_map] at hmodify
    rw [hmodify]
    rfl

theorem lengths_run (p : Pool) (schedule : List Nat) (k : Nat) :
    (p.run schedule).lengths[k]? = p.lengths[k]?.map (· - schedule.count k) := by
  induction schedule generalizing p with
  | nil => simp [run]
  | cons i is ih =>
      rw [run, List.foldl_cons]
      have hmore := ih (p.step i)
      rw [run] at hmore
      rw [hmore, lengths_step, List.getElem?_modify, List.count_cons]
      cases p.lengths[k]? with
      | none => simp
      | some n =>
          by_cases hk : i = k
          · simp [hk]
            omega
          · simp [hk]

private theorem count_turns (ws : List Worker) (first k : Nat) :
    ((ws.zipIdx first).flatMap fun (w, i) => List.replicate w.todo.length i).count k =
      if first ≤ k then ((ws.map (·.todo.length))[k - first]?).getD 0 else 0 := by
  induction ws generalizing first with
  | nil => simp
  | cons w ws ih =>
      rw [List.zipIdx_cons, List.flatMap_cons, List.count_append, ih, List.count_replicate]
      rcases Nat.lt_trichotomy first k with hlt | rfl | hgt
      · have hk : k - first = k - (first + 1) + 1 := by omega
        rw [if_neg (by simpa using Nat.ne_of_lt hlt), if_pos (Nat.succ_le_of_lt hlt),
          if_pos (Nat.le_of_lt hlt), hk]
        simp
      · rw [if_pos (beq_self_eq_true first), if_neg (Nat.not_succ_le_self first),
          if_pos (Nat.le_refl first), Nat.sub_self]
        simp
      · rw [if_neg (by simpa using Nat.ne_of_gt hgt), if_neg (by omega), if_neg (by omega)]

theorem count_inTurn (p : Pool) (k : Nat) : p.inTurn.count k = (p.lengths[k]?).getD 0 := by
  simpa [inTurn, lengths] using count_turns p.workers 0 k

theorem todo_complete {w : Worker} {schedule : List Nat}
    (h : w ∈ (p.complete schedule).workers) : w.todo = [] := by
  obtain ⟨k, hk⟩ := List.mem_iff_getElem?.1 h
  have hlength : (p.complete schedule).lengths[k]? = some w.todo.length := by
    rw [lengths, List.getElem?_map, hk]
    rfl
  rw [complete, lengths_run, count_inTurn] at hlength
  cases hn : (p.run schedule).lengths[k]? with
  | none => simp [hn] at hlength
  | some n =>
      rw [hn] at hlength
      simpa using hlength.symm

theorem results_complete (j : Journal) (shares : List (List Task)) (schedule : List Nat) :
    ∃ found, ((ofTasks j shares).complete schedule).results = BatchResults.empty.addAll found ∧
      found.Perm (shares.flatten.flatMap Task.recorded) := by
  obtain ⟨found, hresults, hperm⟩ :=
    ((accounts_ofTasks j shares).run schedule).run ((ofTasks j shares).run schedule).inTurn
  refine ⟨found, hresults, ?_⟩
  have hpending : ((ofTasks j shares).complete schedule).pending = [] := by
    rw [pending, List.flatMap_eq_nil_iff]
    intro w hw
    rw [todo_complete hw]
    rfl
  rw [complete] at hpending
  rwa [hpending, List.append_nil] at hperm

end Pool

end Lexing
