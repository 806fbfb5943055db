import Lexing.Scan.Comments
import Mathlib.Data.List.DropRight
import Mathlib.Data.List.TakeWhile

namespace Lexing.Comments

structure IsDelimiter (s : String) : Prop where
  ne_nil : s.toList ≠ []
  head : ∀ c ∈ s.toList.head?, Text.isBlank c = false
  last : ∀ c ∈ s.toList.getLast?, Text.isBlank c = false

theorem isDelimiter_iff {s : String} :
    IsDelimiter s ↔ s.toList ≠ [] ∧ s.toList.head?.any Text.isBlank = false ∧
      s.toList.getLast?.any Text.isBlank = false := by
  rw [Option.any_eq_false, Option.any_eq_false]
  exact ⟨fun ⟨hne, hhead, hlast⟩ => ⟨hne, hhead, hlast⟩,
    fun ⟨hne, hhead, hlast⟩ => ⟨hne, hhead, hlast⟩⟩

instance (s : String) : Decidable (IsDelimiter s) := decidable_of_iff' _ isDelimiter_iff

def Pads (s : String) (cs : List Char) : Prop :=
  ∃ left right, (∀ c ∈ left, Text.isBlank c) ∧ (∀ c ∈ right, Text.isBlank c) ∧
    cs = left ++ s.toList ++ right

inductive Lists : List String → List Char → Prop
  | blank {cs : List Char} : (∀ c ∈ cs, Text.isBlank c) → Lists [] cs
  | entry {s : String} {cs : List Char} : IsDelimiter s → ',' ∉ s.toList → Pads s cs → Lists [s] cs
  | comma {ss ts : List String} {cs ds : List Char} : Lists ss cs → Lists ts ds →
      Lists (ss ++ ts) (cs ++ ',' :: ds)

section Trim

variable {left right cs : List Char}

theorem trim_eq (cs : List Char) :
    trim cs = (cs.dropWhile Text.isBlank).rdropWhile Text.isBlank :=
  rfl

theorem trim_eq_nil : trim cs = [] ↔ ∀ c ∈ cs, Text.isBlank c := by
  rw [trim_eq, List.rdropWhile_eq_nil_iff]
  constructor
  · intro h c hc
    rw [← List.takeWhile_append_dropWhile (p := Text.isBlank) (l := cs), List.mem_append] at hc
    exact hc.elim List.mem_takeWhile_imp (h c)
  · intro h c hc
    exact h c ((List.dropWhile_suffix _).subset hc)

theorem pads_trim (cs : List Char) : Pads (String.ofList (trim cs)) cs := by
  refine ⟨cs.takeWhile Text.isBlank, (cs.dropWhile Text.isBlank).rtakeWhile Text.isBlank,
    fun c => List.mem_takeWhile_imp, fun c => List.mem_rtakeWhile_imp, ?_⟩
  rw [String.toList_ofList, trim_eq, List.append_assoc, List.rdropWhile_append_rtakeWhile,
    List.takeWhile_append_dropWhile]

theorem isDelimiter_trim (h : trim cs ≠ []) : IsDelimiter (String.ofList (trim cs)) := by
  constructor
  · rwa [String.toList_ofList]
  · intro c hc
    rw [String.toList_ofList, Option.mem_def] at hc
    obtain ⟨more, hmore⟩ := List.rdropWhile_prefix Text.isBlank (cs.dropWhile Text.isBlank)
    have hhead := List.head?_dropWhile_not Text.isBlank cs
    rw [← hmore, ← trim_eq, List.head?_append_of_ne_nil _ h, hc] at hhead
    simpa using hhead
  · intro c hc
    rw [String.toList_ofList, Option.mem_def, List.getLast?_eq_some_getLast h] at hc
    obtain rfl := Option.some.inj hc
    have hlast := List.rdropWhile_last_not Text.isBlank (cs.dropWhile Text.isBlank) h
    exact Bool.eq_false_iff.2 hlast

theorem trim_of_pads {s : String} (hs : IsDelimiter s) (h : Pads s cs) : trim cs = s.toList := by
  obtain ⟨left, right, hleft, hright, rfl⟩ := h
  have hdrop : (left ++ s.toList ++ right).dropWhile Text.isBlank = s.toList ++ right := by
    obtain ⟨c, more, hcons⟩ := List.exists_cons_of_ne_nil hs.ne_nil
    have hc : Text.isBlank c = false := hs.head c (by simp [hcons])
    rw [List.append_assoc, List.dropWhile_append_of_pos hleft, hcons, List.cons_append,
      List.dropWhile_cons_of_neg (by simp [hc])]
  have hlast : s.toList.rdropWhile Text.isBlank = s.toList := by
    refine List.rdropWhile_eq_self_iff.2 fun hne => ?_
    simpa using hs.last _ (List.getLast?_eq_some_getLast hne)
  rw [trim_eq, hdrop, List.rdropWhile, List.reverse_append,
    List.dropWhile_append_of_pos fun c hc => hright c (List.mem_reverse.1 hc)]
  exact hlast

end Trim

section Line

variable {cs ds : List Char}

theorem splitCommas_ne_nil (cs : List Char) : splitCommas cs ≠ [] := by
  cases cs with
  | nil => simp [splitCommas]
  | cons c cs =>
      rw [splitCommas]
      split
      · simp
      · split <;> simp

theorem splitCommas_of_not_mem (h : ',' ∉ cs) : splitCommas cs = [cs] := by
  induction cs with
  | nil => rfl
  | cons c cs ih =>
      obtain ⟨hc, hcs⟩ := not_or.1 (List.mem_cons.not.1 h)
      rw [splitCommas, if_neg (Ne.symm hc), ih hcs]

theorem splitCommas_append (cs ds : List Char) :
    splitCommas (cs ++ ',' :: ds) = splitCommas cs ++ splitCommas ds := by
  induction cs with
  | nil => simp [splitCommas]
  | cons c cs ih =>
      rw [List.cons_append, splitCommas, splitCommas, ih]
      by_cases hc : c = ','
      · simp [hc]
      · obtain ⟨piece, pieces, hpieces⟩ := List.exists_cons_of_ne_nil (splitCommas_ne_nil cs)
        simp [hc, hpieces]

def entryOf (piece : List Char) : List String :=
  if (trim piece).isEmpty then [] else [String.ofList (trim piece)]

def entriesOf (cs : List Char) : List String := (splitCommas cs).flatMap entryOf

theorem readLine_eq (setting : String) : readLine setting = entriesOf setting.toList := by
  rw [readLine, entriesOf]
  induction splitCommas setting.toList with
  | nil => rfl
  | cons piece pieces ih =>
      rw [List.map_cons, List.flatMap_cons, ← ih, entryOf, List.filter_cons]
      cases (trim piece).isEmpty <;> simp

theorem entriesOf_of_not_mem (h : ',' ∉ cs) : entriesOf cs = entryOf cs := by
  simp [entriesOf, splitCommas_of_not_mem h]

theorem entriesOf_append (cs ds : List Char) :
    entriesOf (cs ++ ',' :: ds) = entriesOf cs ++ entriesOf ds := by
  rw [entriesOf, splitCommas_append, List.flatMap_append]
  rfl

theorem comma_not_mem_of_blank (h : ∀ c ∈ cs, Text.isBlank c) : ',' ∉ cs := by
  intro hmem
  exact absurd (h ',' hmem) (by decide)

theorem Pads.comma_not_mem {s : String} (hs : ',' ∉ s.toList) (h : Pads s cs) : ',' ∉ cs := by
  obtain ⟨left, right, hleft, hright, rfl⟩ := h
  simp [comma_not_mem_of_blank hleft, comma_not_mem_of_blank hright, hs]

theorem Pads.subset {s : String} (h : Pads s cs) : s.toList ⊆ cs := by
  obtain ⟨left, right, -, -, rfl⟩ := h
  intro c hc
  simp [hc]

theorem lists_entryOf (h : ',' ∉ cs) : Lists (entryOf cs) cs := by
  unfold entryOf
  split
  · next hempty => exact .blank (trim_eq_nil.1 (List.isEmpty_iff.1 hempty))
  · next hne =>
      have hpads := pads_trim cs
      exact .entry (isDelimiter_trim (by simpa using hne)) (fun hc => h (hpads.subset hc)) hpads

theorem lists_entriesOf (cs : List Char) : Lists (entriesOf cs) cs := by
  by_cases hcomma : ',' ∈ cs
  · obtain ⟨before, after, hcs⟩ := List.append_of_mem hcomma
    have hlength : cs.length = before.length + (after.length + 1) := by simp [hcs]
    rw [hcs, entriesOf_append]
    exact .comma (lists_entriesOf before) (lists_entriesOf after)
  · rw [entriesOf_of_not_mem hcomma]
    exact lists_entryOf hcomma
termination_by cs.length
decreasing_by all_goals omega

theorem Lists.entriesOf_eq {ss : List String} (h : Lists ss cs) : entriesOf cs = ss := by
  induction h with
  | blank hblank =>
      rw [entriesOf_of_not_mem (comma_not_mem_of_blank hblank), entryOf, trim_eq_nil.2 hblank]
      rfl
  | @entry s cs hs hcomma hpads =>
      have htrim := trim_of_pads hs hpads
      rw [entriesOf_of_not_mem (hpads.comma_not_mem hcomma), entryOf, htrim,
        if_neg (by simpa using hs.ne_nil), String.ofList_toList]
  | comma _ _ ihs iht => rw [entriesOf_append, ihs, iht]

theorem readLine_eq_iff {setting : String} {ss : List String} :
    readLine setting = ss ↔ Lists ss setting.toList := by
  rw [readLine_eq]
  constructor
  · rintro rfl
    exact lists_entriesOf _
  · exact Lists.entriesOf_eq

theorem Lists.isDelimiter {ss : List String} (h : Lists ss cs) :
    ∀ s ∈ ss, IsDelimiter s ∧ ',' ∉ s.toList := by
  induction h with
  | blank => simp
  | entry hs hcomma => simpa using ⟨hs, hcomma⟩
  | comma _ _ ihs iht =>
      intro s hs
      exact (List.mem_append.1 hs).elim (ihs s) (iht s)

theorem pads_self (s : String) : Pads s s.toList := ⟨[], [], by simp, by simp, by simp⟩

theorem lists_intercalate {ss : List String} (h : ∀ s ∈ ss, IsDelimiter s ∧ ',' ∉ s.toList) :
    Lists ss ([','].intercalate (ss.map String.toList)) := by
  induction ss with
  | nil => exact .blank (by simp)
  | cons s ss ih =>
      obtain ⟨⟨hs, hcomma⟩, hmore⟩ := List.forall_mem_cons.1 h
      have hentry : Lists [s] s.toList := .entry hs hcomma (pads_self s)
      cases ss with
      | nil => simpa using hentry
      | cons t ts =>
          rw [List.map_cons, List.map_cons, List.intercalate_cons_cons]
          simpa using hentry.comma (ih hmore)

end Line

section Block

variable {text opening closing : String} {before after : List Char}

def GivesBlock (opening closing : String) (cs : List Char) : Prop :=
  IsDelimiter opening ∧ ',' ∉ opening.toList ∧ IsDelimiter closing ∧
    ∃ before after, Pads opening before ∧ Pads closing after ∧ cs = before ++ ',' :: after

theorem readBlock_of_not_mem (h : ',' ∉ text.toList) : readBlock text = none := by
  have hdrop : text.toList.dropWhile (· != ',') = [] := by
    rw [List.dropWhile_eq_nil_iff]
    intro c hc
    have hne : c ≠ ',' := fun heq => h (heq ▸ hc)
    simpa using hne
  rw [readBlock]
  simp only [hdrop]

theorem readBlock_of_append (htext : text.toList = before ++ ',' :: after) (h : ',' ∉ before) :
    readBlock text =
      if (trim before).isEmpty || (trim after).isEmpty then none
      else some (String.ofList (trim before), String.ofList (trim after)) := by
  have hpass : ∀ c ∈ before, (c != ',') = true := by
    intro c hc
    have hne : c ≠ ',' := fun heq => h (heq ▸ hc)
    simpa using hne
  have htake : text.toList.takeWhile (· != ',') = before := by
    rw [htext, List.takeWhile_append_of_pos hpass]
    simp
  have hdrop : text.toList.dropWhile (· != ',') = ',' :: after := by
    rw [htext, List.dropWhile_append_of_pos hpass]
    simp
  rw [readBlock]
  simp only [htake, hdrop]

theorem exists_first_comma {cs : List Char} (h : ',' ∈ cs) :
    ∃ before after, cs = before ++ ',' :: after ∧ ',' ∉ before := by
  obtain ⟨before, after, rfl, hbefore⟩ := List.eq_append_cons_of_mem h
  exact ⟨before, after, rfl, hbefore⟩

theorem readBlock_eq_some_iff :
    readBlock text = some (opening, closing) ↔ GivesBlock opening closing text.toList := by
  constructor
  · intro hread
    by_cases hcomma : ',' ∈ text.toList
    · obtain ⟨before, after, htext, hbefore⟩ := exists_first_comma hcomma
      rw [readBlock_of_append htext hbefore] at hread
      split at hread
      · contradiction
      · next hne =>
          obtain ⟨rfl, rfl⟩ := Prod.mk.inj (Option.some.inj hread)
          simp only [Bool.or_eq_true, List.isEmpty_iff, not_or] at hne
          exact ⟨isDelimiter_trim hne.1, fun hc => hbefore ((pads_trim before).subset hc),
            isDelimiter_trim hne.2, before, after, pads_trim before, pads_trim after, htext⟩
    · rw [readBlock_of_not_mem hcomma] at hread
      contradiction
  · rintro ⟨hopening, hcomma, hclosing, before, after, hbefore, hafter, htext⟩
    rw [readBlock_of_append htext (hbefore.comma_not_mem hcomma), trim_of_pads hopening hbefore,
      trim_of_pads hclosing hafter]
    simp [hopening.ne_nil, hclosing.ne_nil]

theorem isSome_readBlock_iff :
    (readBlock text).isSome ↔
      ∃ before after, text.toList = before ++ ',' :: after ∧ ',' ∉ before ∧
        (∃ c ∈ before, ¬Text.isBlank c) ∧ ∃ c ∈ after, ¬Text.isBlank c := by
  have hblank (cs : List Char) : ¬trim cs = [] ↔ ∃ c ∈ cs, ¬Text.isBlank c := by
    rw [trim_eq_nil]
    push Not
    rfl
  constructor
  · intro hsome
    by_cases hcomma : ',' ∈ text.toList
    · obtain ⟨before, after, htext, hbefore⟩ := exists_first_comma hcomma
      refine ⟨before, after, htext, hbefore, ?_⟩
      rw [readBlock_of_append htext hbefore] at hsome
      rw [← hblank, ← hblank]
      simpa using hsome
    · rw [readBlock_of_not_mem hcomma] at hsome
      contradiction
  · rintro ⟨before, after, htext, hbefore, hopens, hcloses⟩
    rw [readBlock_of_append htext hbefore]
    simp [(hblank before).2 hopens, (hblank after).2 hcloses]

theorem GivesBlock.again (h : GivesBlock opening closing text.toList) :
    readBlock (opening ++ "," ++ closing) = some (opening, closing) := by
  obtain ⟨hopening, hcomma, hclosing, -⟩ := h
  refine readBlock_eq_some_iff.2 ⟨hopening, hcomma, hclosing, opening.toList, closing.toList,
    pads_self opening, pads_self closing, by simp⟩

end Block

theorem settings_read_back (text : String) (ss : List String)
    (h : ∀ s ∈ ss, IsDelimiter s ∧ ',' ∉ s.toList) :
    (∀ items, readLine text = items ↔ Lists items text.toList) ∧
      (∀ s ∈ readLine text, IsDelimiter s ∧ ',' ∉ s.toList) ∧
      readLine (",".intercalate ss) = ss ∧
      ((readBlock text).isSome ↔
        ∃ before after, text.toList = before ++ ',' :: after ∧ ',' ∉ before ∧
          (∃ c ∈ before, ¬Text.isBlank c) ∧ ∃ c ∈ after, ¬Text.isBlank c) ∧
      (∀ opening closing,
        readBlock text = some (opening, closing) ↔ GivesBlock opening closing text.toList) ∧
      ∀ opening closing, readBlock text = some (opening, closing) →
        readBlock (opening ++ "," ++ closing) = some (opening, closing) := by
  refine ⟨fun items => readLine_eq_iff, (readLine_eq_iff.1 rfl).isDelimiter, ?_,
    isSome_readBlock_iff, fun opening closing => readBlock_eq_some_iff,
    fun opening closing hread => (readBlock_eq_some_iff.1 hread).again⟩
  rw [readLine_eq_iff, String.toList_intercalate]
  exact lists_intercalate h

theorem settings_read_back_slashes :
    let text := "\u00a0/* ,, */\u2003"
    let ss := ["#", "//", "--\u3000|"]
    (∀ s ∈ ss, IsDelimiter s ∧ ',' ∉ s.toList) ∧
      readLine text = ["/*", "*/"] ∧ readLine (",".intercalate ss) = ss ∧
      readBlock text = some ("/*", ", */") ∧ readBlock "/*,, */" = some ("/*", ", */") := by
  intro text ss
  have hss : ∀ s ∈ ss, IsDelimiter s ∧ ',' ∉ s.toList := by decide
  obtain ⟨-, -, hjoin, -, -, hagain⟩ := settings_read_back text ss hss
  have hblock : readBlock text = some ("/*", ", */") := by decide
  exact ⟨hss, by decide, hjoin, hblock, hagain _ _ hblock⟩

end Lexing.Comments
