import Mathlib.Data.List.Dedup
import Mathlib.Data.List.Induction
import Lexing.Proofs.Journal.Collecting

namespace Lexing

namespace FileRecord

def kept (es : List Event) : List Event :=
  if es.length ≤ Limits.logging.maxEventsPerFile then es
  else es.take Limits.logging.maxEventsPerFile ++ [overflow]

variable {r : FileRecord} {es : List Event}

theorem isWarning_overflow : overflow.isWarning = true := rfl

theorem isError_overflow : overflow.isError = false := rfl

theorem length_kept (es : List Event) :
    (kept es).length = min es.length (Limits.logging.maxEventsPerFile + 1) := by
  unfold kept
  split
  · omega
  · rw [List.length_append, List.length_take, List.length_singleton]
    omega

theorem kept_append {old new : List Event}
    (h : (kept old ++ new).length ≤ Limits.logging.maxEventsPerFile) :
    kept (old ++ new) = kept old ++ new := by
  rw [List.length_append, length_kept] at h
  have hfits : old.length + new.length ≤ Limits.logging.maxEventsPerFile := by omega
  rw [kept, if_pos (by rwa [List.length_append]), kept, if_pos (by omega)]

theorem any_isError_kept (es : List Event) :
    (kept es).any (·.isError) = (es.take Limits.logging.maxEventsPerFile).any (·.isError) := by
  unfold kept
  split
  · next hfew => rw [List.take_of_length_le hfew]
  · simp [isError_overflow]

theorem any_isWarning_kept (es : List Event) :
    (kept es).any (·.isWarning) =
      (decide (Limits.logging.maxEventsPerFile < es.length) || es.any (·.isWarning)) := by
  unfold kept
  split
  · next hfew => simp [Nat.not_lt.2 hfew]
  · next hmany => simp [isWarning_overflow, Nat.not_le.1 hmany]

theorem clean_kept (es : List Event) :
    (!(kept es).any (·.isError) && !(kept es).any (·.isWarning)) =
      decide (es.length ≤ Limits.logging.maxEventsPerFile ∧
        ∀ e ∈ es, e.isError = false ∧ e.isWarning = false) := by
  rw [any_isError_kept, any_isWarning_kept, Bool.eq_iff_iff]
  rcases Nat.lt_or_ge Limits.logging.maxEventsPerFile es.length with hmany | hfew
  · simp [hmany, Nat.not_le.2 hmany]
  · simp [hfew, Nat.not_lt.2 hfew, List.take_of_length_le hfew, forall_and]

theorem events_add (h : r.events.toList = kept es) (e : Event) :
    (r.add e).events.toList = kept (es ++ [e]) := by
  have hlength : (es ++ [e]).length = es.length + 1 := by simp
  have hsize : r.events.size = min es.length (Limits.logging.maxEventsPerFile + 1) := by
    rw [← Array.length_toList, h, length_kept]
  rcases Nat.lt_trichotomy es.length Limits.logging.maxEventsPerFile with hless | hfull | hover
  · have hroom : r.events.size < Limits.logging.maxEventsPerFile := by omega
    rw [kept, if_pos (Nat.le_of_lt hless)] at h
    rw [add, if_pos hroom, Array.toList_push, h, kept, if_pos (by omega)]
  · have hroom : ¬r.events.size < Limits.logging.maxEventsPerFile := by omega
    rw [kept, if_pos (Nat.le_of_eq hfull)] at h
    rw [add, if_neg hroom, if_pos (by omega), Array.toList_push, h, kept, if_neg (by omega),
      ← hfull, List.take_left]
  · rw [kept, if_neg (Nat.not_le.2 hover)] at h
    rw [add, if_neg (by omega), if_neg (by omega), h, kept, if_neg (by omega),
      List.take_append_of_le_length (Nat.le_of_lt hover)]

end FileRecord

namespace CollectorEntry

open FileRecord

variable {xs : List CollectorEntry} {x : CollectorEntry} {r : FileRecord}

def recorded (parts : List PathPart) (xs : List CollectorEntry) : List Event :=
  (xs.filter (isAbout parts)).filterMap (·.event?)

def files (xs : List CollectorEntry) : List (List PathPart) := (xs.map (·.path.parts)).dedup

theorem recorded_append (parts : List PathPart) (xs ys : List CollectorEntry) :
    recorded parts (xs ++ ys) = recorded parts xs ++ recorded parts ys := by
  simp [recorded]

theorem record?_concat (xs : List CollectorEntry) (x : CollectorEntry) :
    record? (xs ++ [x]) = some (x.change ((record? xs).getD (.of x.path))) := by
  cases xs with
  | nil => rfl
  | cons y xs => simp [record?]

theorem record?_eq_none : record? xs = none ↔ xs = [] := by
  cases xs <;> simp [record?]

theorem events_change {es : List Event} (h : r.events.toList = kept es) (x : CollectorEntry) :
    (x.change r).events.toList = kept (es ++ x.event?.toList) := by
  unfold change
  cases x.event? with
  | none => simpa using h
  | some e => exact events_add h e

theorem events_record? (h : record? xs = some r) :
    r.events.toList = kept (xs.filterMap (·.event?)) := by
  induction xs using List.reverseRecOn generalizing r with
  | nil => nomatch h
  | append_singleton xs x ih =>
      rw [record?_concat] at h
      obtain rfl := Option.some.inj h
      have hbefore : ((record? xs).getD (.of x.path)).events.toList =
          kept (xs.filterMap (·.event?)) := by
        cases hxs : record? xs with
        | some s => exact ih hxs
        | none =>
            cases xs with
            | nil => rfl
            | cons y ys => nomatch hxs
      rw [events_change hbefore, List.filterMap_append]
      congr 2

end CollectorEntry

namespace Collector

open CollectorEntry FileRecord

def IsSorted (rs : List FileRecord) : Prop :=
  rs.Pairwise fun r s => Path.compareParts r.parts s.parts = .lt

section Upsert

variable {p : Path} {a b : List PathPart} {f : FileRecord → FileRecord} {r : FileRecord}
  {rs : List FileRecord}

theorem parts_of_mem_upsert (hf : ∀ r, (f r).parts = r.parts) (h : r ∈ upsert p a f rs) :
    r.parts = a ∨ ∃ s ∈ rs, s.parts = r.parts := by
  induction rs with
  | nil =>
      obtain rfl := List.mem_singleton.1 h
      exact .inl (hf _)
  | cons s rs ih =>
      rw [upsert] at h
      split at h
      · rcases List.mem_cons.1 h with rfl | h
        · exact .inl (hf _)
        · exact .inr ⟨r, h, rfl⟩
      · rcases List.mem_cons.1 h with rfl | h
        · exact .inr ⟨s, List.mem_cons_self, (hf s).symm⟩
        · exact .inr ⟨r, List.mem_cons_of_mem s h, rfl⟩
      · rcases List.mem_cons.1 h with rfl | h
        · exact .inr ⟨r, List.mem_cons_self, rfl⟩
        · refine (ih h).imp_right ?_
          rintro ⟨t, ht, hparts⟩
          exact ⟨t, List.mem_cons_of_mem s ht, hparts⟩

theorem IsSorted.upsert (hf : ∀ r, (f r).parts = r.parts) (h : IsSorted rs) :
    IsSorted (upsert p a f rs) := by
  induction rs with
  | nil => exact List.pairwise_singleton _ _
  | cons s rs ih =>
      obtain ⟨hs, hrs⟩ := List.pairwise_cons.1 h
      rw [Collector.upsert]
      split
      · next hlt =>
          refine List.pairwise_cons.2 ⟨List.forall_mem_cons.2 ⟨?_, fun t ht => ?_⟩, h⟩
          · rwa [hf]
          · rw [hf]
            exact Std.TransCmp.lt_trans hlt (hs t ht)
      · exact List.pairwise_cons.2 ⟨fun t ht => by rw [hf]; exact hs t ht, hrs⟩
      · next hgt =>
          refine List.pairwise_cons.2 ⟨fun t ht => ?_, ih hrs⟩
          rcases parts_of_mem_upsert hf ht with hparts | ⟨u, hu, hparts⟩
          · rw [hparts]
            exact Std.OrientedCmp.lt_of_gt hgt
          · exact hparts ▸ hs u hu

theorem parts_ne_of_lt (h : Path.compareParts a b = .lt) : b ≠ a := by
  rintro rfl
  have hself : Path.compareParts b b = .eq := Std.ReflCmp.compare_self
  rw [hself] at h
  nomatch h

theorem IsSorted.find?_of_mem (h : IsSorted rs) (hr : r ∈ rs) :
    rs.find? (·.parts == r.parts) = some r := by
  induction rs with
  | nil => nomatch hr
  | cons s rs ih =>
      obtain ⟨hs, hrs⟩ := List.pairwise_cons.1 h
      rcases List.mem_cons.1 hr with rfl | hmem
      · simp
      · have hne := parts_ne_of_lt (hs r hmem)
        rw [List.find?_cons_of_neg (by simpa using hne.symm), ih hrs hmem]

theorem find?_upsert (hf : ∀ r, (f r).parts = r.parts) (h : IsSorted rs) :
    (upsert p a f rs).find? (·.parts == b) =
      if a = b then some (f ((rs.find? (·.parts == b)).getD ⟨p, a, #[]⟩))
      else rs.find? (·.parts == b) := by
  induction rs with
  | nil => by_cases hab : a = b <;> simp [upsert, hf, hab]
  | cons s rs ih =>
      obtain ⟨hs, hrs⟩ := List.pairwise_cons.1 h
      rw [upsert]
      split
      · next hlt =>
          have hnone : (s :: rs).find? (·.parts == a) = none := by
            rw [List.find?_eq_none, List.forall_mem_cons]
            refine ⟨by simpa using parts_ne_of_lt hlt, fun t ht => ?_⟩
            simpa using parts_ne_of_lt (Std.TransCmp.lt_trans hlt (hs t ht))
          by_cases hab : a = b
          · subst hab
            simp [hf, hnone]
          · rw [List.find?_cons_of_neg (by simpa [hf] using hab), if_neg hab]
      · next heq =>
          obtain rfl := Std.LawfulEqCmp.eq_of_compare heq
          by_cases hab : s.parts = b <;> simp [hf, hab]
      · next hgt =>
          have hne : a ≠ s.parts := parts_ne_of_lt (Std.OrientedCmp.lt_of_gt hgt)
          by_cases hsb : s.parts = b
          · subst hsb
            simp [hne]
          · have hskip (ts : List FileRecord) :
                (s :: ts).find? (·.parts == b) = ts.find? (·.parts == b) :=
              List.find?_cons_of_neg (by simpa using hsb)
            rw [hskip, hskip, ih hrs]

end Upsert

section Entries

variable {xs : List CollectorEntry} {r : FileRecord}

theorem isSorted_enterAll (xs : List CollectorEntry) : IsSorted (empty.enterAll xs).records := by
  induction xs using List.reverseRecOn with
  | nil => exact List.Pairwise.nil
  | append_singleton xs x ih =>
      rw [enterAll_append, enterAll, List.foldl_cons, List.foldl_nil, enter_eq]
      exact ih.upsert x.change_parts

theorem find?_enterAll (xs : List CollectorEntry) (parts : List PathPart) :
    (empty.enterAll xs).records.find? (·.parts == parts) = record? (xs.filter (isAbout parts)) := by
  induction xs using List.reverseRecOn with
  | nil => rfl
  | append_singleton xs x ih =>
      rw [enterAll_append, enterAll, List.foldl_cons, List.foldl_nil, enter_eq,
        find?_upsert x.change_parts (isSorted_enterAll xs), ih, List.filter_append]
      by_cases habout : x.path.parts = parts
      · rw [if_pos habout, List.filter_cons_of_pos (by simpa [isAbout] using habout),
          List.filter_nil, record?_concat]
        rfl
      · rw [if_neg habout, List.filter_cons_of_neg (by simpa [isAbout] using habout),
          List.filter_nil, List.append_nil]

theorem events_enterAll (xs : List CollectorEntry) (path : Path) :
    (empty.enterAll xs).events path = kept (recorded path.parts xs) := by
  rw [events, find?, find?_enterAll]
  cases h : record? (xs.filter (isAbout path.parts)) with
  | some r => exact events_record? h
  | none =>
      rw [recorded, record?_eq_none.1 h]
      rfl

theorem events_of_mem (hr : r ∈ (empty.enterAll xs).records) :
    r.events.toList = kept (recorded r.parts xs) := by
  have hfind := (isSorted_enterAll xs).find?_of_mem hr
  rw [find?_enterAll] at hfind
  exact events_record? hfind

theorem perm_files (xs : List CollectorEntry) :
    ((empty.enterAll xs).records.map (·.parts)).Perm (files xs) := by
  have hnodup : ((empty.enterAll xs).records.map (·.parts)).Nodup :=
    List.pairwise_map.2 ((isSorted_enterAll xs).imp fun hlt => (parts_ne_of_lt hlt).symm)
  refine (List.perm_ext_iff_of_nodup hnodup (List.nodup_dedup _)).2 fun parts => ?_
  have hfind : parts ∈ (empty.enterAll xs).records.map (·.parts) ↔
      ((empty.enterAll xs).records.find? (·.parts == parts)).isSome := by
    simp [List.find?_isSome]
  rw [hfind, find?_enterAll, Option.isSome_iff_ne_none, ne_eq, record?_eq_none, List.mem_dedup]
  simp [List.filter_eq_nil_iff, isAbout]

theorem perm_kept (xs : List CollectorEntry) :
    ((empty.enterAll xs).records.map (·.events.toList)).Perm
      ((files xs).map fun parts => kept (recorded parts xs)) := by
  have hevents : (empty.enterAll xs).records.map (·.events.toList) =
      ((empty.enterAll xs).records.map (·.parts)).map fun parts => kept (recorded parts xs) := by
    rw [List.map_map]
    exact List.map_congr_left fun r hr => events_of_mem hr
  rw [hevents]
  exact (perm_files xs).map _

end Entries

end Collector

namespace CollectorSummary

open FileRecord

def count (s : CollectorSummary) (es : List Event) : CollectorSummary :=
  let errors := (es.filter (·.isError)).length
  let warnings := (es.filter (·.isWarning)).length
  { total := s.total + 1
    failed := s.failed + if 0 < errors then 1 else 0
    withWarnings := s.withWarnings + if errors = 0 ∧ 0 < warnings then 1 else 0
    successful := s.successful + if errors = 0 ∧ warnings = 0 then 1 else 0
    errors := s.errors + errors
    warnings := s.warnings + warnings }

def tally (files : List (List Event)) : CollectorSummary where
  total := files.length
  successful := files.countP fun es => !es.any (·.isError) && !es.any (·.isWarning)
  failed := files.countP fun es => es.any (·.isError)
  withWarnings := files.countP fun es => !es.any (·.isError) && es.any (·.isWarning)
  errors := files.flatten.countP (·.isError)
  warnings := files.flatten.countP (·.isWarning)

theorem tally_concat (files : List (List Event)) (es : List Event) :
    tally (files ++ [es]) = (tally files).count es := by
  have hany (p : Event → Bool) : es.any p = decide (0 < (es.filter p).length) := by
    rw [Bool.eq_iff_iff, List.any_eq_true, decide_eq_true_eq, List.length_filter_pos_iff]
  simp only [tally, count, List.length_append, List.countP_append, List.flatten_append,
    List.countP_singleton, hany]
  simp [List.countP_eq_length_filter, Nat.pos_iff_ne_zero]

theorem tally_perm {files others : List (List Event)} (h : files.Perm others) :
    tally files = tally others := by
  simp only [tally, h.length_eq, h.countP_eq, h.flatten.countP_eq]

theorem summary_eq (c : Collector) : c.summary = tally (c.records.map (·.events.toList)) := by
  have hfold : c.summary = (c.records.map (·.events.toList)).foldl count ⟨0, 0, 0, 0, 0, 0⟩ := by
    rw [List.foldl_map]
    rfl
  rw [hfold]
  generalize c.records.map (·.events.toList) = files
  induction files using List.reverseRecOn with
  | nil => rfl
  | append_singleton files es ih =>
      rw [List.foldl_append, List.foldl_cons, List.foldl_nil, ih, tally_concat]

theorem partition_tally (files : List (List Event)) :
    (tally files).failed + (tally files).withWarnings + (tally files).successful =
      (tally files).total := by
  induction files with
  | nil => rfl
  | cons es files ih =>
      simp only [tally, List.countP_cons, List.length_cons] at ih ⊢
      cases es.any (·.isError) <;> cases es.any (·.isWarning) <;> simp <;> omega

structure SumsUp (s : CollectorSummary) (files : List (List PathPart))
    (told : List PathPart → List Event) : Prop where
  total : s.total = files.length
  partition : s.failed + s.withWarnings + s.successful = s.total
  errors : s.errors = (files.flatMap fun file => kept (told file)).countP (·.isError)
  warnings : s.warnings = (files.flatMap fun file => kept (told file)).countP (·.isWarning)
  failed : s.failed = files.countP fun file =>
    ((told file).take Limits.logging.maxEventsPerFile).any (·.isError)
  withWarnings : s.withWarnings = files.countP fun file =>
    !((told file).take Limits.logging.maxEventsPerFile).any (·.isError) &&
      (decide (Limits.logging.maxEventsPerFile < (told file).length) ||
        (told file).any (·.isWarning))
  successful : s.successful = files.countP fun file =>
    (told file).length ≤ Limits.logging.maxEventsPerFile ∧
      ∀ e ∈ told file, e.isError = false ∧ e.isWarning = false

theorem sumsUp_tally (files : List (List PathPart)) (told : List PathPart → List Event) :
    SumsUp (tally (files.map fun file => kept (told file))) files told where
  total := List.length_map _
  partition := partition_tally _
  errors := rfl
  warnings := rfl
  failed := by
    simp only [tally, List.countP_map, Function.comp_def, any_isError_kept]
  withWarnings := by
    simp only [tally, List.countP_map, Function.comp_def, any_isError_kept, any_isWarning_kept]
  successful := by
    simp only [tally, List.countP_map, Function.comp_def, clean_kept]

end CollectorSummary

/-- Threads call in the order in which they hold the lock of the collector. -/
inductive CollectorCall where
  | record (entry : CollectorEntry)
  | clear

namespace CollectorCall

def entry? : CollectorCall → Option CollectorEntry
  | .record x => some x
  | .clear => none

def sinceClear (calls : List CollectorCall) : List CollectorEntry :=
  ((calls.reverse.takeWhile fun call => call.entry?.isSome).filterMap entry?).reverse

theorem sinceClear_record (calls : List CollectorCall) (x : CollectorEntry) :
    sinceClear (calls ++ [.record x]) = sinceClear calls ++ [x] := by
  simp [sinceClear, entry?]

theorem sinceClear_clear (calls : List CollectorCall) : sinceClear (calls ++ [.clear]) = [] := by
  simp [sinceClear, entry?]

end CollectorCall

namespace Collector

open CollectorCall CollectorEntry CollectorSummary FileRecord

def call (c : Collector) : CollectorCall → Collector
  | .record x => c.enter x
  | .clear => .empty

def run (calls : List CollectorCall) : Collector := calls.foldl call .empty

theorem run_eq (calls : List CollectorCall) : run calls = empty.enterAll (sinceClear calls) := by
  induction calls using List.reverseRecOn with
  | nil => rfl
  | append_singleton calls call ih =>
      rw [run, List.foldl_append, List.foldl_cons, List.foldl_nil, ← run, ih]
      cases call with
      | record x =>
          rw [sinceClear_record, enterAll_append]
          rfl
      | clear =>
          rw [sinceClear_clear]
          rfl

theorem run_collects (calls : List CollectorCall) :
    (∀ path, (run calls).events path = kept (recorded path.parts (sinceClear calls))) ∧
      (overflow.isWarning ∧ ¬overflow.isError) ∧
      SumsUp (run calls).summary (files (sinceClear calls))
        fun file => recorded file (sinceClear calls) := by
  rw [run_eq]
  refine ⟨events_enterAll _, ⟨isWarning_overflow, by simp [isError_overflow]⟩, ?_⟩
  rw [summary_eq, tally_perm (perm_kept _)]
  exact sumsUp_tally _ _

end Collector

end Lexing
