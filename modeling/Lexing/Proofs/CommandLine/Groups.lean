import Lexing.CommandLine.Options
import Mathlib.Data.List.Induction
import Mathlib.Data.List.Perm.Basic

namespace Lexing.CommandLine

def IsOption (word : String) : Prop :=
  (∃ s : Switch, word = s.word) ∨ ∃ s : Setting, word = s.word

theorem Switch.ofWord?_word (s : Switch) : ofWord? s.word = some s := by cases s <;> decide

theorem Switch.ofWord?_eq_some {s : Switch} {word : String} (h : ofWord? word = some s) :
    word = s.word := by
  have hword := List.find?_some h
  simpa using (beq_iff_eq.1 hword).symm

theorem Switch.ofWord?_setting (s : Setting) : ofWord? s.word = none := by cases s <;> decide

theorem Setting.ofWord?_word (s : Setting) : ofWord? s.word = some s := by cases s <;> decide

theorem Setting.ofWord?_eq_some {s : Setting} {word : String} (h : ofWord? word = some s) :
    word = s.word := by
  have hword := List.find?_some h
  simpa using (beq_iff_eq.1 hword).symm

theorem ofWord?_eq_none {word : String} (h : ¬IsOption word) :
    Switch.ofWord? word = none ∧ Setting.ofWord? word = none := by
  obtain ⟨hswitch, hsetting⟩ := not_or.1 h
  exact ⟨Option.eq_none_iff_forall_ne_some.2 fun s hs => hswitch ⟨s, Switch.ofWord?_eq_some hs⟩,
    Option.eq_none_iff_forall_ne_some.2 fun s hs => hsetting ⟨s, Setting.ofWord?_eq_some hs⟩⟩

section Groups

theorem groups_switch (s : Switch) (more : List String) :
    groups (s.word :: more) = .switch s :: groups more := by
  cases more <;> simp [groups, Switch.ofWord?_word]

theorem groups_setting (s : Setting) (value : String) (more : List String) :
    groups (s.word :: value :: more) = .setting s value :: groups more := by
  simp [groups, Switch.ofWord?_setting, Setting.ofWord?_word]

theorem groups_incomplete (s : Setting) : groups [s.word] = [.incomplete s] := by
  simp [groups, Switch.ofWord?_setting, Setting.ofWord?_word]

theorem groups_unknown {word : String} (h : ¬IsOption word) (more : List String) :
    groups (word :: more) = .unknown word :: groups more := by
  obtain ⟨hswitch, hsetting⟩ := ofWord?_eq_none h
  cases more <;> simp [groups, hswitch, hsetting]

def Group.words : Group → List String
  | .switch s => [s.word]
  | .setting s value => [s.word, value]
  | .incomplete s => [s.word]
  | .unknown word => [word]

structure FallInto (arguments : List String) (gs : List Group) : Prop where
  words_eq : arguments = gs.flatMap Group.words
  unknown : ∀ word, .unknown word ∈ gs → ¬IsOption word
  incomplete : ∀ before s after, gs = before ++ .incomplete s :: after → after = []

namespace FallInto

variable {arguments : List String} {g : Group} {gs : List Group}

theorem nil : FallInto [] [] where
  words_eq := rfl
  unknown _ h := nomatch h
  incomplete before s after h := by simp at h

theorem tail (h : FallInto arguments (g :: gs)) : FallInto (gs.flatMap Group.words) gs where
  words_eq := rfl
  unknown word hmem := h.unknown word (List.mem_cons_of_mem g hmem)
  incomplete before s after hgs := h.incomplete (g :: before) s after (by rw [hgs]; rfl)

theorem cons (g : Group) (h : FallInto arguments gs)
    (hunknown : ∀ word, g = .unknown word → ¬IsOption word)
    (hincomplete : ∀ s, g ≠ .incomplete s) : FallInto (g.words ++ arguments) (g :: gs) where
  words_eq := by rw [List.flatMap_cons, ← h.words_eq]
  unknown word hmem := (List.mem_cons.1 hmem).elim (fun heq => hunknown word heq.symm)
    (h.unknown word)
  incomplete before s after hgs := by
    cases before with
    | nil => exact absurd (List.cons.inj hgs).1 (hincomplete s)
    | cons b before => exact h.incomplete before s after (List.cons.inj hgs).2

theorem groups_eq (h : FallInto arguments gs) : groups arguments = gs := by
  rw [h.words_eq]
  induction gs generalizing arguments with
  | nil => rfl
  | cons g gs ih =>
      have hmore := ih h.tail
      rw [List.flatMap_cons]
      cases g with
      | switch s => exact (groups_switch s _).trans (congrArg _ hmore)
      | setting s value => exact (groups_setting s value _).trans (congrArg _ hmore)
      | incomplete s =>
          obtain rfl := h.incomplete [] s gs rfl
          exact groups_incomplete s
      | unknown word =>
          have hword := h.unknown word List.mem_cons_self
          exact (groups_unknown hword _).trans (congrArg _ hmore)

end FallInto

theorem fallInto_groups (arguments : List String) : FallInto arguments (groups arguments) := by
  -- By the number of arguments: a setting takes two of them at once.
  match arguments with
  | [] => exact .nil
  | word :: more =>
      by_cases hoption : IsOption word
      · rcases hoption with ⟨s, rfl⟩ | ⟨s, rfl⟩
        · rw [groups_switch]
          exact .cons (.switch s) (fallInto_groups more) (by simp) (by simp)
        · cases more with
          | nil =>
              rw [groups_incomplete]
              refine ⟨rfl, by simp, fun before t after h => ?_⟩
              have hlength := congrArg List.length h
              simp only [List.length_append, List.length_cons, List.length_nil] at hlength
              exact List.length_eq_zero_iff.1 (by omega)
          | cons value more =>
              rw [groups_setting]
              exact .cons (.setting s value) (fallInto_groups more) (by simp) (by simp)
      · rw [groups_unknown hoption]
        refine .cons (.unknown word) (fallInto_groups more) (fun unknown h => ?_) (by simp)
        obtain rfl := Group.unknown.inj h
        exact hoption
termination_by arguments.length

theorem groups_eq_iff {arguments : List String} {gs : List Group} :
    groups arguments = gs ↔ FallInto arguments gs :=
  ⟨fun h => h ▸ fallInto_groups arguments, FallInto.groups_eq⟩

end Groups

namespace Group

def value? (s : Setting) : Group → Option String
  | .setting t value => if t = s then some value else none
  | _ => none

def option? : Group → Option (Switch ⊕ Setting)
  | .switch s => some (.inl s)
  | .setting s _ => some (.inr s)
  | _ => none

structure Reorders (gs hs : List Group) : Prop where
  perm : gs.Perm hs
  filter_eq : ∀ o, gs.filter (·.option? = some o) = hs.filter (·.option? = some o)

theorem filterMap_value?_filter (s : Setting) (gs : List Group) :
    (gs.filter (·.option? = some (.inr s))).filterMap (value? s) = gs.filterMap (value? s) := by
  rw [List.filterMap_filter]
  congr 1
  funext g
  cases g with
  | setting t value => by_cases hts : t = s <;> simp [option?, value?, hts]
  | _ => simp [option?, value?]

theorem Reorders.filterMap_value? {gs hs : List Group} (h : Reorders gs hs) (s : Setting) :
    gs.filterMap (value? s) = hs.filterMap (value? s) := by
  rw [← filterMap_value?_filter, h.filter_eq, filterMap_value?_filter]

theorem Reorders.fallInto {arguments : List String} {gs hs : List Group} (h : Reorders gs hs)
    (hgs : FallInto arguments gs) (hvalues : ∀ s, .incomplete s ∉ gs) :
    FallInto (hs.flatMap words) hs where
  words_eq := rfl
  unknown word hmem := hgs.unknown word (h.perm.mem_iff.2 hmem)
  incomplete before s after hhs := by
    refine absurd (h.perm.mem_iff.2 ?_) (hvalues s)
    rw [hhs]
    exact List.mem_append_right _ List.mem_cons_self

end Group

def WritesCount (value : String) (n : Nat) : Prop :=
  ∃ digits, (value.toList = digits ∨ value.toList = '+' :: digits) ∧ digits ≠ [] ∧
    (∀ c ∈ digits, c.isDigit) ∧ Numeral.natOfDigits digits = n ∧ n < Nat.pow 2 64

theorem readCount_eq_some_iff {value : String} {n : Nat} :
    readCount value = some n ↔ WritesCount value n := by
  have hread (digits : List Char) :
      (if (digits.isEmpty || !digits.all Char.isDigit) = true then none
        else if Numeral.natOfDigits digits < Nat.pow 2 64 then
          some (Numeral.natOfDigits digits) else none) = some n ↔
        digits ≠ [] ∧ (∀ c ∈ digits, c.isDigit) ∧ Numeral.natOfDigits digits = n ∧
          n < Nat.pow 2 64 := by
    simp only [Option.ite_none_left_eq_some, Option.ite_none_right_eq_some, Option.some.injEq,
      Bool.or_eq_true, List.isEmpty_iff, Bool.not_eq_true', not_or, Bool.not_eq_false,
      List.all_eq_true]
    constructor
    · rintro ⟨⟨hne, hdigits⟩, hlt, rfl⟩
      exact ⟨hne, hdigits, rfl, hlt⟩
    · rintro ⟨hne, hdigits, rfl, hlt⟩
      exact ⟨⟨hne, hdigits⟩, hlt, rfl⟩
  have hsign : ¬Char.isDigit '+' := by decide
  unfold readCount WritesCount
  split
  · next cs htext =>
      rw [htext]
      constructor
      · intro h
        exact ⟨cs, .inr rfl, (hread cs).1 h⟩
      · rintro ⟨digits, rfl | hcs, h⟩
        · exact absurd (h.2.1 '+' List.mem_cons_self) hsign
        · obtain rfl := (List.cons.inj hcs).2
          exact (hread cs).2 h
  · next htext =>
      constructor
      · intro h
        exact ⟨_, .inl rfl, (hread _).1 h⟩
      · rintro ⟨digits, rfl | hcs, h⟩
        · exact (hread _).2 h
        · exact absurd hcs (htext digits)

namespace Options

def latest (gs : List Group) : Options where
  json := .switch .json ∈ gs
  quiet := .switch .quiet ∈ gs
  config := (gs.filterMap (·.value? .config)).getLast?
  logFile := (gs.filterMap (·.value? .logFile)).getLast?
  threads := ((gs.filterMap (·.value? .threads)).filterMap readCount).getLast?.map (max 1)
  sequential := .switch .sequential ∈ gs
  noRecursive := .switch .noRecursive ∈ gs
  maxFiles := ((gs.filterMap (·.value? .maxFiles)).filterMap readCount).getLast?
  failFast := .switch .failFast ∈ gs

theorem latest_concat (gs : List Group) (g : Group) :
    latest (gs ++ [g]) = (latest gs).take g := by
  cases g with
  | switch s => cases s <;> simp [latest, take, set, Group.value?]
  | setting s value =>
      cases s with
      | config => simp [latest, take, give, Group.value?]
      | logFile => simp [latest, take, give, Group.value?]
      | threads =>
          cases hcount : readCount value <;> simp [latest, take, give, Group.value?, hcount]
      | maxFiles =>
          cases hcount : readCount value <;> simp [latest, take, give, Group.value?, hcount]
  | incomplete s => simp [latest, take, Group.value?]
  | unknown word => simp [latest, take, Group.value?]

theorem ofGroups_eq (gs : List Group) : ofGroups gs = latest gs := by
  induction gs using List.reverseRecOn with
  | nil => rfl
  | append_singleton gs g ih => rw [latest_concat, ← ih, ofGroups, List.foldl_concat, ofGroups]

theorem latest_eq_of_reorders {gs hs : List Group} (h : Group.Reorders gs hs) :
    latest gs = latest hs := by
  simp only [latest, h.filterMap_value?, h.perm.mem_iff]

def walk (arguments : Array String) (i : Nat) (o : Options) : Option Options :=
  if i < arguments.size then
    match arguments[i]? with
    | none => none
    | some word =>
        match Switch.ofWord? word, Setting.ofWord? word with
        | some s, _ => walk arguments (i + 1) (o.set s)
        | none, some s =>
            match arguments[i + 1]? with
            | none => some o
            | some value => walk arguments (i + 2) (o.give s value)
        | none, none => walk arguments (i + 1) o
  else
    some o
termination_by arguments.size - i

theorem drop_toList {arguments : Array String} {i : Nat} {word : String}
    (h : arguments[i]? = some word) :
    arguments.toList.drop i = word :: arguments.toList.drop (i + 1) := by
  rw [← Array.getElem?_toList] at h
  obtain ⟨hi, rfl⟩ := List.getElem?_eq_some_iff.1 h
  exact List.drop_eq_getElem_cons hi

theorem walk_eq (arguments : Array String) (i : Nat) (o : Options) :
    walk arguments i o = some ((groups (arguments.toList.drop i)).foldl take o) := by
  fun_induction walk arguments i o with
  | case1 i o hi hnone => simp [Array.getElem?_eq_getElem hi] at hnone
  | case2 i o hi word hword s hs ih =>
      obtain rfl := Switch.ofWord?_eq_some hs
      rw [ih, drop_toList hword, groups_switch]
      rfl
  | case3 i o hi word hword s hs hswitch hnone =>
      obtain rfl := Setting.ofWord?_eq_some hs
      have hlast : arguments.toList.drop (i + 1) = [] :=
        List.drop_of_length_le (Array.getElem?_eq_none_iff.1 hnone)
      rw [drop_toList hword, hlast, groups_incomplete]
      rfl
  | case4 i o hi word hword s hs hswitch value hvalue ih =>
      obtain rfl := Setting.ofWord?_eq_some hs
      rw [ih, drop_toList hword, drop_toList hvalue, groups_setting]
      rfl
  | case5 i o hi word hword hsetting hswitch ih =>
      have hunknown : ¬IsOption word := by
        rintro (⟨s, rfl⟩ | ⟨s, rfl⟩)
        · simp [Switch.ofWord?_word] at hswitch
        · simp [Setting.ofWord?_word] at hsetting
      rw [ih, drop_toList hword, groups_unknown hunknown]
      rfl
  | case6 i o hi =>
      rw [List.drop_of_length_le (by simpa using hi)]
      rfl

theorem workers_batchSettings (o : Options) (p : Preferences) :
    (o.batchSettings p).workers = if o.sequential then 1
      else max 1 (min (o.threads.getD p.batch.workerThreads) Limits.batch.maxThreads) := by
  cases hsequential : o.sequential with
  | true =>
      have hthreads : (o.batchSettings p).threads = 1 := by simp [batchSettings, hsequential]
      rw [BatchSettings.workers, hthreads]
      rfl
  | false =>
      have hthreads : (o.batchSettings p).threads =
          o.threads.getD (BatchSettings.ofPreferences p).threads := by
        simp [batchSettings, hsequential]
      rw [BatchSettings.workers, hthreads]
      cases o.threads with
      | some n => rfl
      | none =>
          change max 1 (min (max 1 (min p.batch.workerThreads Limits.batch.maxThreads))
            Limits.batch.maxThreads) = max 1 (min p.batch.workerThreads Limits.batch.maxThreads)
          omega

theorem ofArguments_reads (arguments : List String) (p : Preferences) :
    let gs := groups arguments
    let o := ofArguments arguments
    (∀ hs, FallInto arguments hs ↔ hs = gs) ∧
      walk arguments.toArray 0 default = some o ∧
      o = latest gs ∧
      (∀ value n, readCount value = some n ↔ WritesCount value n) ∧
      (∀ hs, (∀ s, .incomplete s ∉ gs) → Group.Reorders gs hs →
        ofArguments (hs.flatMap Group.words) = o) ∧
      (o.batchSettings p).workers =
        if .switch .sequential ∈ gs then 1
        else max 1 (min ((latest gs).threads.getD p.batch.workerThreads)
          Limits.batch.maxThreads) := by
  intro gs o
  have hlatest : o = latest gs := ofGroups_eq gs
  refine ⟨fun hs => ?_, ?_, hlatest, fun value n => readCount_eq_some_iff,
    fun hs hvalues hreorders => ?_, ?_⟩
  · rw [← groups_eq_iff, eq_comm]
  · rw [walk_eq]
    rfl
  · have hgroups := (hreorders.fallInto (fallInto_groups arguments) hvalues).groups_eq
    rw [ofArguments, hgroups, ofGroups_eq, hlatest, latest_eq_of_reorders hreorders]
  · rw [workers_batchSettings, hlatest]
    simp [latest]

theorem ofArguments_reads_reordered :
    let arguments := ["--threads", "--json", "--threads", "+0", "--quiet", "--max-files", "x"]
    let hs : List Group := [.switch .quiet, .setting .maxFiles "x", .setting .threads "--json",
      .setting .threads "+0"]
    (∀ s, .incomplete s ∉ groups arguments) ∧ Group.Reorders (groups arguments) hs ∧
      (ofArguments (hs.flatMap Group.words)).threads = some 1 := by
  intro arguments hs
  have hvalues : ∀ s, .incomplete s ∉ groups arguments := by
    intro s
    cases s <;> decide
  have hreorders : Group.Reorders (groups arguments) hs := by
    refine ⟨by decide, fun o => ?_⟩
    rcases o with s | s <;> cases s <;> decide
  obtain ⟨-, -, -, -, hreordered, -⟩ :=
    ofArguments_reads arguments (.ofEnvironment [])
  refine ⟨hvalues, hreorders, ?_⟩
  rw [hreordered hs hvalues hreorders]
  decide

end Options

end Lexing.CommandLine
