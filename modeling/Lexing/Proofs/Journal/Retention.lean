import Lexing.Journal.Logger
import Lexing.Proofs.Text.Clamping

namespace Lexing

structure AreNewest (room : Nat) (logged kept : List Event) : Prop where
  isSuffix : kept <:+ logged
  length_eq : kept.length = min logged.length room

theorem AreNewest.eq_drop {room : Nat} {logged kept : List Event} (h : AreNewest room logged kept) :
    kept = logged.drop (logged.length - room) := by
  have hdrop := List.suffix_iff_eq_drop.1 h.isSuffix
  rw [h.length_eq] at hdrop
  rwa [show logged.length - min logged.length room = logged.length - room by omega] at hdrop

namespace Logger

variable {room : Nat} {logged : List Event} {kept : Array Event}

theorem toList_remember_of_lt (h : kept.size < room) (e : Event) :
    (remember room kept e).toList = kept.toList ++ [e] := by
  rw [remember, if_pos h, Array.toList_push]

theorem toList_remember_of_eq (h : kept.size = room) (e : Event) :
    (remember room kept e).toList = kept.toList.tail ++ [e] := by
  have hfull : ¬kept.size < room := Nat.not_lt.2 (Nat.le_of_eq h.symm)
  have hnewer : (kept.extract 1 kept.size).toList = kept.toList.tail := by
    rw [Array.toList_extract, List.extract_eq_take_drop, List.drop_one]
    exact List.take_of_length_le (by simp)
  rw [remember, if_neg hfull, ← h, Nat.sub_self, Array.toList_push, hnewer]

theorem areNewest_remember (hroom : 0 < room) (h : AreNewest room logged kept.toList) (e : Event) :
    AreNewest room (logged ++ [e]) (remember room kept e).toList := by
  obtain ⟨⟨older, rfl⟩, hlength⟩ := h
  rw [List.length_append, Array.length_toList] at hlength
  rcases Nat.lt_or_ge kept.size room with hfits | hfull
  · -- As long as there is room, nothing has been lost.
    obtain rfl : older = [] := List.length_eq_zero_iff.1 (by omega)
    rw [toList_remember_of_lt hfits, List.nil_append]
    refine ⟨List.suffix_refl _, ?_⟩
    rw [List.length_append, Array.length_toList, List.length_singleton]
    omega
  · have hsize : kept.size = room := by omega
    rw [toList_remember_of_eq hsize]
    rw [← Array.length_toList] at hsize
    obtain ⟨oldest, newer, hkept⟩ := List.exists_cons_of_length_pos (hsize ▸ hroom)
    rw [hkept, List.length_cons] at hsize
    rw [hkept, List.tail_cons]
    refine ⟨⟨older ++ [oldest], by simp⟩, ?_⟩
    simp only [List.length_append, List.length_cons, List.length_nil]
    omega

/-- Threads log in the order in which they hold the lock of the logger. -/
def after (l : Logger) (es : List Event) : Logger := es.foldl (fun l e => (l.log e).2) l

theorem areNewest_foldl (hroom : 0 < room) (logged : List Event) :
    AreNewest room logged (logged.foldl (remember room) #[]).toList := by
  induction logged using List.reverseRecOn with
  | nil => exact ⟨List.suffix_refl [], (Nat.zero_min room).symm⟩
  | append_singleton logged e ih =>
      rw [List.foldl_append]
      exact areNewest_remember hroom ih e

theorem after_memory (kept : Array Event) (logged : List Event) : (memory kept).after logged =
    .memory (logged.foldl (remember Limits.logging.maxCollection) kept) := by
  induction logged generalizing kept with
  | nil => rfl
  | cons e logged ih => exact ih (remember Limits.logging.maxCollection kept e)

theorem remembered_after (logged : List Event) : ((memory #[]).after logged).remembered =
    logged.drop (logged.length - Limits.logging.maxCollection) := by
  rw [after_memory]
  exact (areNewest_foldl (by decide) logged).eq_drop

theorem hasError_after (h : logged.length ≤ Limits.logging.maxCollection) (code : String) :
    ((memory #[]).after logged).hasError code ↔ ∃ e ∈ logged, e.isError ∧ e.code = code := by
  rw [hasError, remembered_after, Nat.sub_eq_zero_of_le h, List.drop_zero]
  simp

theorem counts_add_up (l : Logger) : l.counts.total =
    l.counts.errors + l.counts.warnings + l.counts.info +
      l.remembered.countP (·.level == .debug) := by
  simp only [counts]
  induction l.remembered with
  | nil => rfl
  | cons e es ih =>
      simp only [List.length_cons, List.countP_cons, ih, Event.isError, Event.isWarning,
        Event.isInfo]
      cases e.level <;> simp <;> omega

theorem critical_counts_le (l : Logger) : l.counts.critical ≤ l.counts.errors :=
  List.countP_mono_left fun _ _ h => (Bool.and_eq_true_iff.1 h).1

end Logger

namespace Event

inductive Form where
  | leveled (level : Level) (code : String)
  | error (code : String)
  | warning
  | info
  | success (code : String)
  | debug

def Form.event (message : String) : Form → Event
  | leveled level code => .of level code message
  | error code => .error code message
  | warning => .warning message
  | info => .info message
  | success code => .success code message
  | debug => .debug message

theorem Form.message_event (message : String) (f : Form) :
    (f.event message).message = clampMessage message := by
  cases f <;> rfl

theorem clampMessage_clampMessage (message : String) :
    clampMessage (clampMessage message) = clampMessage message := by
  rw [clampMessage, clampMessage, String.toList_ofList, Text.clamp_clamp]

end Event

theorem Logger.memory_retains (logged : List Event) (message : String) (f : Event.Form) :
    (∃ kept, (memory #[]).after logged = .memory kept ∧
        AreNewest Limits.logging.maxCollection logged kept.toList) ∧
      Text.Clamps Limits.logging.maxMessage message (f.event message).message ∧
      Event.clampMessage (f.event message).message = (f.event message).message := by
  have hroom : 0 < Limits.logging.maxCollection := by decide
  refine ⟨⟨_, after_memory #[] logged, areNewest_foldl hroom logged⟩, ?_, ?_⟩
  · rw [f.message_event]
    exact Text.clamps_clamp Limits.logging.maxMessage message
  · rw [f.message_event, Event.clampMessage_clampMessage]

end Lexing
