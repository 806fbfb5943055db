import Lexing.Proofs.Journal.Attribution
import Lexing.Proofs.Journal.Summaries

namespace Lexing

inductive Telling where
  | done
  | emit (e : Event) (more : Telling)
  | within (c : FileContext) (inner more : Telling)

abbrev Attribution := Option FileContext × Event

namespace Attribution

def tagged (x : Attribution) : Event :=
  match x.1 with
  | some c => (x.2.note "file" c.path.display).note "file_id" (toString c.id)
  | none => x.2

def isAbout (parts : List PathPart) (x : Attribution) : Bool := x.1.any fun c => c.path.parts = parts

def collected (parts : List PathPart) (xs : List Attribution) : List Event :=
  ((xs.filter (isAbout parts)).map tagged).filter fun e => e.isError || e.isWarning

variable {c : FileContext} {e : Event}

theorem lookup_file : (tagged (some c, e)).context.lookup "file" = some c.path.display := by
  rw [tagged, Event.lookup_note, Event.lookup_note, if_neg (by decide), if_pos rfl]

theorem lookup_id : (tagged (some c, e)).context.lookup "file_id" = some (toString c.id) := by
  rw [tagged, Event.lookup_note, if_pos rfl]

theorem tagged_some {p : LoggingPreferences} (h : p.fileContext = true) :
    tagged (some c, e) = c.noted p e := by
  rw [FileContext.noted, if_pos h]
  rfl

theorem collected_append (parts : List PathPart) (xs ys : List Attribution) :
    collected parts (xs ++ ys) = collected parts xs ++ collected parts ys := by
  simp [collected]

theorem length_collected_le (parts : List PathPart) (xs : List Attribution) :
    (collected parts xs).length ≤ xs.length := by
  have hkept := List.length_filter_le (fun e : Event => e.isError || e.isWarning)
    ((xs.filter (isAbout parts)).map tagged)
  rw [List.length_map] at hkept
  exact Nat.le_trans hkept (List.length_filter_le ..)

end Attribution

namespace Telling

open Attribution

def acts : Telling → List Act
  | done => []
  | emit e more => .emit e :: more.acts
  | within c inner more => Act.within c inner.acts ++ more.acts

def bracketed (around : Option FileContext) : Telling → List Attribution
  | done => []
  | emit e more => (around, e) :: more.bracketed around
  | within c inner more => inner.bracketed (some c) ++ more.bracketed around

def heard (before : Option FileContext) : Telling → List Attribution
  | done => []
  | emit e more => (before, e) :: more.heard before
  | within c inner more => inner.heard (some c) ++ more.heard none

def IsSilent : Telling → Prop
  | done => True
  | emit _ _ => False
  | within _ _ more => more.IsSilent

def ReturnsLast (inFile : Bool) : Telling → Prop
  | done => True
  | emit _ more => more.ReturnsLast inFile
  | within _ inner more =>
      inner.ReturnsLast true ∧ (inFile → more.IsSilent) ∧ more.ReturnsLast inFile

def IsFlat (inFile : Bool) : Telling → Prop
  | done => True
  | emit _ more => more.IsFlat inFile
  | within _ inner more => inFile = false ∧ inner.IsFlat true ∧ more.IsFlat inFile

def turns : Telling → Option FileContext × Journal →
    List (Option FileContext × Option FileContext)
  | done, _ => []
  | emit e more, s => more.turns ((Act.emit e).apply s)
  | within c inner more, s =>
      (s.1, (Act.applyAll (Act.within c inner.acts) s).1) ::
        (inner.turns ((Act.enter c).apply s) ++
          more.turns (Act.applyAll (Act.within c inner.acts) s))

section Courses

variable {inFile : Bool} {before around : Option FileContext}

theorem length_heard (t : Telling) (before around : Option FileContext) :
    (t.heard before).length = (t.bracketed around).length := by
  induction t generalizing before around with
  | done => rfl
  | emit e more ih =>
      rw [heard, bracketed, List.length_cons, List.length_cons, ih before around]
  | within c inner more ihinner ihmore =>
      rw [heard, bracketed, List.length_append, List.length_append, ihinner (some c) (some c),
        ihmore none around]

theorem heard_eq_bracketed_iff (t : Telling) (h : before = around ∨ before = none) :
    t.heard before = t.bracketed around ↔
      (before ≠ around → t.IsSilent) ∧ t.ReturnsLast around.isSome := by
  induction t generalizing before around with
  | done => simp [heard, bracketed, IsSilent, ReturnsLast]
  | emit e more ih =>
      rw [heard, bracketed, List.cons.injEq, ih h, Prod.mk.injEq, IsSilent, ReturnsLast]
      constructor
      · rintro ⟨⟨rfl, -⟩, -, hreturns⟩
        exact ⟨fun hne => hne rfl, hreturns⟩
      · rintro ⟨hsame, hreturns⟩
        have heq : before = around := Classical.not_not.1 hsame
        exact ⟨⟨heq, rfl⟩, fun hne => absurd heq hne, hreturns⟩
  | within c inner more ihinner ihmore =>
      -- Both sides tell the same number of events in the course of `c`. After it the thread stands in
      -- no course, whatever is around.
      have hsplit : (within c inner more).heard before = (within c inner more).bracketed around ↔
          inner.heard (some c) = inner.bracketed (some c) ∧
            more.heard none = more.bracketed around := by
        constructor
        · intro heq
          exact List.append_inj heq (inner.length_heard ..)
        · rintro ⟨hinner, hmore⟩
          rw [heard, bracketed, hinner, hmore]
      have hreturned : (none ≠ around → more.IsSilent) ↔ (around.isSome → more.IsSilent) := by
        cases around <;> simp
      rw [hsplit, ihinner (.inl rfl), ihmore (.inr rfl), hreturned, IsSilent, ReturnsLast]
      constructor
      · rintro ⟨⟨-, hinner⟩, hsilent, hmore⟩
        refine ⟨fun hne => hsilent ?_, hinner, hsilent, hmore⟩
        obtain rfl := h.resolve_left hne
        exact Option.isSome_iff_ne_none.2 hne.symm
      · rintro ⟨-, hinner, hsilent, hmore⟩
        exact ⟨⟨fun hne => absurd rfl hne, hinner⟩, hsilent, hmore⟩

theorem IsFlat.returnsLast {t : Telling} (h : t.IsFlat inFile) : t.ReturnsLast inFile := by
  induction t generalizing inFile with
  | done => trivial
  | emit e more ih => exact ih h
  | within c inner more ihinner ihmore =>
      obtain ⟨rfl, hinner, hmore⟩ := h
      exact ⟨ihinner hinner, by simp, ihmore hmore⟩

end Courses

end Telling

namespace Journal

open Attribution

def collected (j : Journal) (path : Path) : List Event :=
  match j.collector with
  | some c => c.events path
  | none => []

def uncollected (j : Journal) : Journal := { j with collector := none }

structure Hears (j after : Journal) (xs : List Attribution) : Prop where
  delivered : after.uncollected = (xs.map tagged).foldl deliver j.uncollected
  collected : ∀ path, after.collected path =
    j.collected path ++ Attribution.collected path.parts xs
  named : ∀ x ∈ xs, ∀ c, x.1 = some c →
    (tagged x).context.lookup "file" = some c.path.display ∧
      (tagged x).context.lookup "file_id" = some (toString c.id)

theorem uncollected_deliver (j : Journal) (e : Event) :
    (j.deliver e).uncollected = j.uncollected.deliver e := by
  obtain ⟨environment, installed, service, collector, outputs⟩ := j
  cases service <;> rfl

theorem uncollected_emit {j : Journal} (h : j.preferences.fileContext = true) (x : Attribution) :
    (j.emit x.1 x.2).uncollected = j.uncollected.deliver (tagged x) := by
  obtain ⟨context, e⟩ := x
  cases context with
  | none => exact j.uncollected_deliver e
  | some c =>
      rw [emit_some, tagged_some h]
      split <;> exact j.uncollected_deliver _

end Journal

namespace CollectorEntry

open Attribution

theorem recorded_emit {p : LoggingPreferences} (h : p.fileContext = true) (parts : List PathPart)
    (x : Attribution) :
    recorded parts ((Act.emit x.2).entries p x.1) = Attribution.collected parts [x] := by
  obtain ⟨context, e⟩ := x
  cases context with
  | none => rfl
  | some c =>
      have hentries : (Act.emit e).entries p (some c) =
          if (tagged (some c, e)).isError || (tagged (some c, e)).isWarning then
            [⟨c.path, some (tagged (some c, e))⟩] else [] := by
        have hkept : (Act.emit e).entries p (some c) =
            (c.kept p e).map fun e => ⟨c.path, some e⟩ := rfl
        rw [hkept, tagged_some h, FileContext.kept]
        split <;> rfl
      rw [hentries, Attribution.collected]
      by_cases habout : c.path.parts = parts <;> split <;>
        simp_all [recorded, isAbout, Attribution.isAbout]

theorem recorded_acts {p : LoggingPreferences} (h : p.fileContext = true) (parts : List PathPart)
    (t : Telling) (before : Option FileContext) :
    recorded parts (Act.entriesAll p before t.acts) =
      Attribution.collected parts (t.heard before) := by
  induction t generalizing before with
  | done => rfl
  | emit e more ih =>
      have hentries : Act.entriesAll p before (Telling.emit e more).acts =
          (Act.emit e).entries p before ++ Act.entriesAll p before more.acts := rfl
      rw [hentries, recorded_append, recorded_emit h parts (before, e), ih, ← collected_append]
      rfl
  | within c inner more ihinner ihmore =>
      have hentries : Act.entriesAll p before (Telling.within c inner more).acts =
          ⟨c.path, none⟩ :: (Act.entriesAll p (some c) inner.acts ++
            Act.entriesAll p none more.acts) := by
        have hleave (context : Option FileContext) : Act.leave.entries p context = [] := by
          cases context <;> rfl
        have hcourse : Act.entriesAll p (some c) (inner.acts ++ .leave :: more.acts) = _ :=
          Act.entriesAll_append ..
        rw [Act.entriesAll, hleave] at hcourse
        rw [Telling.acts, Act.within, List.cons_append, List.cons_append, List.append_assoc]
        exact congrArg (List.cons _) hcourse
      have hfile : recorded parts [⟨c.path, none⟩] = [] := by
        by_cases habout : c.path.parts = parts <;> simp [recorded, isAbout, habout]
      rw [hentries, ← List.singleton_append, recorded_append, recorded_append, hfile, ihinner,
        ihmore, Telling.heard, collected_append, List.nil_append]

end CollectorEntry

namespace Telling

open Attribution Collector CollectorCall CollectorEntry FileRecord

variable {t : Telling} {j : Journal} {calls : List CollectorCall}

theorem uncollected_acts (h : j.preferences.fileContext = true) (t : Telling)
    (before : Option FileContext) :
    (Act.applyAll t.acts (before, j)).2.uncollected =
      ((t.heard before).map tagged).foldl Journal.deliver j.uncollected := by
  induction t generalizing before j with
  | done => rfl
  | emit e more ih =>
      have hstep : Act.applyAll (emit e more).acts (before, j) =
          Act.applyAll more.acts (before, j.emit before e) := rfl
      rw [hstep, ih (by rwa [Journal.preferences_emit]), Journal.uncollected_emit h (before, e)]
      rfl
  | within c inner more ihinner ihmore =>
      have hpreferences : (Act.applyAll inner.acts (some c, j.recordFile c.path)).2.preferences =
          j.preferences := Act.applyAll_preferences ..
      have hinner := ihinner (j := j.recordFile c.path) h (some c)
      rw [acts, Act.applyAll_append, Act.applyAll_within, ihmore (by rwa [hpreferences]), hinner,
        heard, List.map_append, List.foldl_append]
      rfl

theorem collected_acts (hcollector : j.collector = some (run calls))
    (hnotes : j.preferences.fileContext = true) (t : Telling) (path : Path)
    (hroom : (j.collected path ++ Attribution.collected path.parts (t.heard none)).length ≤
      Limits.logging.maxEventsPerFile) :
    (Act.applyAll t.acts (none, j)).2.collected path =
      j.collected path ++ Attribution.collected path.parts (t.heard none) := by
  have hbefore : j.collected path = kept (recorded path.parts (sinceClear calls)) := by
    rw [Journal.collected, hcollector, run_eq]
    exact events_enterAll ..
  have hafter : (Act.applyAll t.acts (none, j)).2.collector =
      some (empty.enterAll (sinceClear calls ++ Act.entriesAll j.preferences none t.acts)) := by
    rw [Act.applyAll_collector, hcollector, run_eq, enterAll_append]
    rfl
  rw [hbefore] at hroom ⊢
  rw [Journal.collected, hafter]
  exact (events_enterAll ..).trans (by
    rw [recorded_append, recorded_acts hnotes, kept_append hroom])

theorem turn_eq_none (t : Telling) (before : Option FileContext) (j : Journal) :
    ∀ x ∈ t.turns (before, j), x.2 = none := by
  induction t generalizing before j with
  | done => simp [turns]
  | emit e more ih => exact ih before (j.emit before e)
  | within c inner more ihinner ihmore =>
      rw [turns, List.forall_mem_cons, List.forall_mem_append, Act.applyAll_within]
      exact ⟨rfl, ihinner (some c) (j.recordFile c.path), ihmore none _⟩

theorem turns_restore_iff (t : Telling) (before : Option FileContext) (j : Journal) :
    (∀ x ∈ t.turns (before, j), x.2 = x.1) ↔ t.IsFlat before.isSome := by
  induction t generalizing before j with
  | done => simp [turns, IsFlat]
  | emit e more ih => exact ih before (j.emit before e)
  | within c inner more ihinner ihmore =>
      have henter : (Act.enter c).apply (before, j) = (some c, j.recordFile c.path) := rfl
      rw [turns, List.forall_mem_cons, List.forall_mem_append, Act.applyAll_within, henter,
        ihinner, IsFlat]
      cases before with
      | none =>
          rw [ihmore]
          simp
      | some d => simp

def IsBracketed (t : Telling) (j : Journal) : Prop :=
  j.Hears (Act.applyAll t.acts (none, j)).2 (t.bracketed none) ∧
    ∀ x ∈ t.turns (none, j), x.2 = x.1

theorem hears_acts (t : Telling) (j : Journal) (calls : List CollectorCall)
    (hcollector : j.collector = some (run calls)) (hnotes : j.preferences.fileContext = true)
    (hroom : ∀ path, (j.collected path ++
      Attribution.collected path.parts (t.heard none)).length ≤ Limits.logging.maxEventsPerFile) :
    j.Hears (Act.applyAll t.acts (none, j)).2 (t.heard none) ∧
      (∀ x ∈ t.turns (none, j), x.2 = none) ∧
      (t.heard none = t.bracketed none ↔ t.ReturnsLast false) ∧
      (t.IsBracketed j ↔ t.IsFlat false) := by
  have hheard : j.Hears (Act.applyAll t.acts (none, j)).2 (t.heard none) := by
    refine ⟨uncollected_acts hnotes t none,
      fun path => collected_acts hcollector hnotes t path (hroom path), ?_⟩
    rintro ⟨context, e⟩ - c rfl
    exact ⟨lookup_file, lookup_id⟩
  have hreturns : t.heard none = t.bracketed none ↔ t.ReturnsLast false := by
    rw [t.heard_eq_bracketed_iff (.inl rfl)]
    simp
  refine ⟨hheard, t.turn_eq_none none j, hreturns, ?_⟩
  constructor
  · rintro ⟨-, hrestored⟩
    exact (t.turns_restore_iff none j).1 hrestored
  · intro hflat
    rw [IsBracketed, ← hreturns.2 hflat.returnsLast]
    exact ⟨hheard, (t.turns_restore_iff none j).2 hflat⟩

def nested : Telling :=
  .within ⟨.ofString "a.rv", 1⟩
    (.within ⟨.ofString "b.rv", 2⟩ (.emit (.error "E022" "in b") .done)
      (.emit (.error "E022" "in a") .done))
    .done

theorem hears_acts_nested :
    let j := Journal.remembering []
    let b : FileContext := ⟨.ofString "b.rv", 2⟩
    let told : List Attribution := [(some b, .error "E022" "in b"), (none, .error "E022" "in a")]
    j.collector = some (run []) ∧ j.preferences.fileContext = true ∧
      j.Hears (Act.applyAll nested.acts (none, j)).2 told ∧ ¬nested.IsBracketed j := by
  intro j b told
  have hcollector : j.collector = some (run []) := rfl
  have hnotes : j.preferences.fileContext = true := by decide
  have hroom (path : Path) : (j.collected path ++
      Attribution.collected path.parts (nested.heard none)).length ≤
        Limits.logging.maxEventsPerFile := by
    have hlength := length_collected_le path.parts (nested.heard none)
    have hfew : (nested.heard none).length ≤ Limits.logging.maxEventsPerFile := by decide
    exact Nat.le_trans hlength hfew
  obtain ⟨hheard, -, -, hflat⟩ := hears_acts nested j [] hcollector hnotes hroom
  have hnested : ¬nested.IsFlat false := by simp [nested, IsFlat]
  exact ⟨hcollector, hnotes, hheard, hnested ∘ hflat.1⟩

/-- The event told after the return is not collected under the file around it. -/
theorem nested_unbracketed :
    let j := Journal.remembering []
    let a : FileContext := ⟨.ofString "a.rv", 1⟩
    let after := Act.applyAll nested.acts (none, j)
    ¬j.Hears after.2 (nested.bracketed none) ∧ after.2.collected a.path = [] ∧
      nested.turns (none, j) = [(none, none), (some a, none)] := by
  intro j a after
  have hcollected : after.2.collected a.path = [] :=
    List.length_eq_zero_iff.1 (by decide +kernel)
  have hown : (Attribution.collected a.path.parts (nested.bracketed none)).length = 1 := by
    decide +kernel
  refine ⟨fun hhears => ?_, hcollected, rfl⟩
  have hpath := hhears.collected a.path
  rw [hcollected] at hpath
  rw [(List.append_eq_nil_iff.1 hpath.symm).2] at hown
  exact Nat.zero_ne_one hown

end Telling

end Lexing
