import Lexing.Journal.Basic
import Lexing.Proofs.Journal.Collecting

namespace Lexing

namespace Journal

@[simp]
theorem preferences_deliver (j : Journal) (e : Event) :
    (j.deliver e).preferences = j.preferences := by
  unfold deliver
  cases j.service <;> rfl

@[simp]
theorem collector_deliver (j : Journal) (e : Event) : (j.deliver e).collector = j.collector := by
  unfold deliver
  cases j.service <;> rfl

end Journal

namespace FileContext

def noted (c : FileContext) (p : LoggingPreferences) (e : Event) : Event :=
  if p.fileContext then (e.note "file" c.path.display).note "file_id" (toString c.id) else e

def kept (c : FileContext) (p : LoggingPreferences) (e : Event) : List Event :=
  if (c.noted p e).isError || (c.noted p e).isWarning then [c.noted p e] else []

end FileContext

namespace Journal

theorem emit_some (j : Journal) (c : FileContext) (e : Event) :
    j.emit (some c) e =
      if (c.noted j.preferences e).isError || (c.noted j.preferences e).isWarning then
        { j.deliver (c.noted j.preferences e) with
          collector := (j.deliver (c.noted j.preferences e)).collector.map
            (·.recordEvent c.path (c.noted j.preferences e)) }
      else
        j.deliver (c.noted j.preferences e) :=
  rfl

@[simp]
theorem preferences_emit (j : Journal) (context : Option FileContext) (e : Event) :
    (j.emit context e).preferences = j.preferences := by
  cases context with
  | none => exact j.preferences_deliver e
  | some c =>
      rw [emit_some]
      split <;> exact j.preferences_deliver _

theorem collector_emit_none (j : Journal) (e : Event) : (j.emit none e).collector = j.collector :=
  j.collector_deliver e

theorem collector_emit_some (j : Journal) (c : FileContext) (e : Event) :
    (j.emit (some c) e).collector =
      j.collector.map
        (·.enterAll ((c.kept j.preferences e).map fun e => ⟨c.path, some e⟩)) := by
  rw [emit_some, FileContext.kept]
  split
  · simp only [collector_deliver]
    rfl
  · rw [collector_deliver]
    exact (Collector.map_enterAll_nil _).symm

end Journal

namespace Act

def kept (p : LoggingPreferences) (c : FileContext) : Act → List Event
  | .emit e => c.kept p e
  | .detail e => if Level.debug.passes p.minLevel then c.kept p e else []
  | _ => []

def entries (p : LoggingPreferences) (context : Option FileContext) (a : Act) :
    List CollectorEntry :=
  match a, context with
  | .enter c, _ => [⟨c.path, none⟩]
  | a, some c => (a.kept p c).map fun e => ⟨c.path, some e⟩
  | _, none => []

def context (before : Option FileContext) : Act → Option FileContext
  | .enter c => some c
  | .leave => none
  | _ => before

def entriesAll (p : LoggingPreferences) : Option FileContext → List Act → List CollectorEntry
  | _, [] => []
  | before, a :: more => a.entries p before ++ entriesAll p (a.context before) more

variable {p : LoggingPreferences} {before : Option FileContext} {j : Journal}

theorem apply_context (a : Act) : (a.apply (before, j)).1 = a.context before := by
  cases a <;> rfl

theorem apply_preferences (a : Act) : (a.apply (before, j)).2.preferences = j.preferences := by
  cases a with
  | emit e => exact j.preferences_emit before e
  | detail e =>
      simp only [apply]
      split
      · exact j.preferences_emit before e
      · rfl
  | _ => rfl

theorem apply_collector (a : Act) :
    (a.apply (before, j)).2.collector =
      j.collector.map (·.enterAll (a.entries j.preferences before)) := by
  have hnone := (Collector.map_enterAll_nil j.collector).symm
  have hemit (e : Event) : (j.emit before e).collector =
      j.collector.map (·.enterAll ((Act.emit e).entries j.preferences before)) := by
    cases before with
    | none => exact (j.collector_emit_none e).trans hnone
    | some c => exact j.collector_emit_some c e
  cases a with
  | enter c => rfl
  | leave => cases before <;> exact hnone
  | emit e => exact hemit e
  | detail e =>
      by_cases hpass : Level.debug.passes j.preferences.minLevel
      · have hentries : (Act.detail e).entries j.preferences before =
            (Act.emit e).entries j.preferences before := by
          cases before <;> simp [entries, kept, hpass]
        rw [apply, if_pos hpass, hentries, hemit]
      · have hentries : (Act.detail e).entries j.preferences before = [] := by
          cases before <;> simp [entries, kept, hpass]
        rw [apply, if_neg hpass, hentries, ← hnone]
  | print o => cases before <;> exact hnone

theorem entriesAll_append (acts more : List Act) :
    entriesAll p before (acts ++ more) =
      entriesAll p before acts ++ entriesAll p (acts.foldl context before) more := by
  induction acts generalizing before with
  | nil => rfl
  | cons a acts ih =>
      simp only [List.cons_append, entriesAll, List.foldl_cons, ih, List.append_assoc]

theorem context_of_staysPut {a : Act} (h : a.staysPut) (before : Option FileContext) :
    a.context before = before := by
  cases a <;> first | rfl | contradiction

theorem foldl_context_of_staysPut {acts : List Act} (h : ∀ a ∈ acts, a.staysPut)
    (before : Option FileContext) : acts.foldl context before = before := by
  induction acts with
  | nil => rfl
  | cons a acts ih =>
      obtain ⟨ha, hmore⟩ := List.forall_mem_cons.1 h
      rw [List.foldl_cons, context_of_staysPut ha, ih hmore]

theorem entriesAll_of_staysPut {acts : List Act} (h : ∀ a ∈ acts, a.staysPut) (c : FileContext) :
    entriesAll p (some c) acts =
      (acts.flatMap (kept p c)).map fun e => ⟨c.path, some e⟩ := by
  induction acts with
  | nil => rfl
  | cons a acts ih =>
      obtain ⟨ha, hmore⟩ := List.forall_mem_cons.1 h
      have hentries : a.entries p (some c) = (a.kept p c).map fun e => ⟨c.path, some e⟩ := by
        cases a <;> first | rfl | contradiction
      rw [entriesAll, context_of_staysPut ha, ih hmore, hentries, List.flatMap_cons,
        List.map_append]

theorem entriesAll_none {acts : List Act} (h : ∀ a ∈ acts, a.staysPut) :
    entriesAll p none acts = [] := by
  induction acts with
  | nil => rfl
  | cons a acts ih =>
      obtain ⟨ha, hmore⟩ := List.forall_mem_cons.1 h
      have hentries : a.entries p none = [] := by
        cases a <;> first | rfl | contradiction
      rw [entriesAll, context_of_staysPut ha, ih hmore, hentries, List.nil_append]

theorem applyAll_append (acts more : List Act) (s : Option FileContext × Journal) :
    applyAll (acts ++ more) s = applyAll more (applyAll acts s) :=
  List.foldl_append

theorem applyAll_within (c : FileContext) (acts : List Act) :
    applyAll (within c acts) (before, j) =
      (none, (applyAll acts (some c, j.recordFile c.path)).2) := by
  rw [within, List.cons_append]
  exact applyAll_append acts [.leave] _

theorem applyAll_preferences (acts : List Act) (s : Option FileContext × Journal) :
    (applyAll acts s).2.preferences = s.2.preferences := by
  induction acts generalizing s with
  | nil => rfl
  | cons a acts ih => exact (ih (a.apply s)).trans a.apply_preferences

theorem applyAll_collector (acts : List Act) :
    (applyAll acts (before, j)).2.collector =
      j.collector.map (·.enterAll (entriesAll j.preferences before acts)) := by
  induction acts generalizing before j with
  | nil => exact (Collector.map_enterAll_nil _).symm
  | cons a acts ih =>
      have hstate : a.apply (before, j) = (a.context before, (a.apply (before, j)).2) :=
        Prod.ext a.apply_context rfl
      have hstep : applyAll (a :: acts) (before, j) =
          applyAll acts (a.context before, (a.apply (before, j)).2) := by
        rw [← hstate]
        rfl
      rw [hstep, ih, a.apply_preferences, a.apply_collector, entriesAll,
        Collector.map_enterAll_append]

theorem applyAll_none {acts : List Act} (h : ∀ a ∈ acts, a.staysPut) (j : Journal) :
    (applyAll acts (none, j)).2.preferences = j.preferences ∧
      (applyAll acts (none, j)).2.collector = j.collector := by
  refine ⟨applyAll_preferences acts (none, j), ?_⟩
  rw [applyAll_collector, entriesAll_none h, Collector.map_enterAll_nil]

end Act

end Lexing
