import Lexing.Journal.Collector
import Lexing.Proofs.Files.Paths

namespace Lexing

namespace FileRecord

@[simp]
theorem add_parts (r : FileRecord) (e : Event) : (r.add e).parts = r.parts := by
  simp only [add]
  split
  · rfl
  · split <;> rfl

end FileRecord

structure CollectorEntry where
  path : Path
  event? : Option Event

namespace CollectorEntry

def change (x : CollectorEntry) (r : FileRecord) : FileRecord := x.event?.elim r r.add

@[simp]
theorem change_parts (x : CollectorEntry) (r : FileRecord) : (x.change r).parts = r.parts := by
  unfold change
  cases x.event? <;> simp

def isAbout (parts : List PathPart) (x : CollectorEntry) : Bool := x.path.parts = parts

def SameByFile (xs ys : List CollectorEntry) : Prop :=
  ∀ parts, xs.filter (isAbout parts) = ys.filter (isAbout parts)

def record? : List CollectorEntry → Option FileRecord
  | [] => none
  | x :: xs => some ((x :: xs).foldl (fun r y => y.change r) (.of x.path))

theorem record?_cons (path : Path) (es : List Event) :
    record? (⟨path, none⟩ :: es.map fun e => ⟨path, some e⟩) =
      some (es.foldl FileRecord.add (.of path)) := by
  rw [record?, List.foldl_cons, List.foldl_map]
  rfl

theorem foldl_change_parts (xs : List CollectorEntry) (r : FileRecord) :
    (xs.foldl (fun r x => x.change r) r).parts = r.parts := by
  induction xs generalizing r with
  | nil => rfl
  | cons x xs ih => rw [List.foldl_cons, ih, change_parts]

theorem parts_of_record? {path : Path} {xs : List CollectorEntry} {r : FileRecord}
    (hpath : ∀ x ∈ xs, x.path = path) (h : record? xs = some r) : r.parts = path.parts := by
  cases xs with
  | nil => contradiction
  | cons x xs =>
      obtain rfl := Option.some.inj h
      rw [foldl_change_parts, ← hpath x List.mem_cons_self]
      rfl

end CollectorEntry

namespace Collector

open CollectorEntry

def enter (c : Collector) : CollectorEntry → Collector
  | ⟨path, none⟩ => c.recordFile path
  | ⟨path, some e⟩ => c.recordEvent path e

def enterAll (c : Collector) (xs : List CollectorEntry) : Collector := xs.foldl enter c

theorem enter_eq (c : Collector) (x : CollectorEntry) :
    c.enter x = ⟨upsert x.path x.path.parts x.change c.records⟩ := by
  obtain ⟨path, event?⟩ := x
  cases event? <;> rfl

theorem enterAll_append (c : Collector) (xs ys : List CollectorEntry) :
    c.enterAll (xs ++ ys) = (c.enterAll xs).enterAll ys :=
  List.foldl_append

theorem map_enterAll_append (start : Option Collector) (xs ys : List CollectorEntry) :
    start.map (·.enterAll (xs ++ ys)) = (start.map (·.enterAll xs)).map (·.enterAll ys) := by
  rw [Option.map_map]
  congr 1
  funext c
  exact c.enterAll_append xs ys

theorem map_enterAll_nil (start : Option Collector) : start.map (·.enterAll []) = start := by
  cases start <;> rfl

variable {p q : Path} {a b : List PathPart} {f g : FileRecord → FileRecord} {c : Collector}
  {x y : CollectorEntry} {xs ys : List CollectorEntry}

theorem upsert_comm (hf : ∀ r, (f r).parts = r.parts) (hg : ∀ r, (g r).parts = r.parts)
    (hab : Path.compareParts a b = .lt) (rs : List FileRecord) :
    upsert p a f (upsert q b g rs) = upsert q b g (upsert p a f rs) := by
  have hba : Path.compareParts b a = .gt := Std.OrientedCmp.gt_of_lt hab
  induction rs with
  | nil => simp [upsert, hf, hg, hab, hba]
  | cons r rs ih =>
      cases hb : Path.compareParts b r.parts with
      | lt =>
          have ha := Std.TransCmp.lt_trans hab hb
          simp [upsert, hf, hg, hab, hba, ha, hb]
      | eq =>
          have ha : Path.compareParts a r.parts = .lt :=
            Std.LawfulEqCmp.eq_of_compare hb ▸ hab
          simp [upsert, hf, hg, hba, ha, hb]
      | gt =>
          cases ha : Path.compareParts a r.parts with
          | lt => simp [upsert, hf, hba, ha, hb]
          | eq => simp [upsert, hf, ha, hb]
          | gt => simp [upsert, ha, hb, ih]

theorem enter_comm (h : x.path.parts ≠ y.path.parts) :
    (c.enter x).enter y = (c.enter y).enter x := by
  simp only [enter_eq, Collector.mk.injEq]
  cases hxy : Path.compareParts x.path.parts y.path.parts with
  | lt => rw [upsert_comm x.change_parts y.change_parts hxy]
  | eq => exact absurd (Std.LawfulEqCmp.eq_of_compare hxy) h
  | gt =>
      have hyx := Std.OrientedCmp.lt_of_gt hxy
      rw [upsert_comm y.change_parts x.change_parts hyx]

theorem enterAll_move (h : ∀ y ∈ xs, y.path.parts ≠ x.path.parts) :
    c.enterAll (xs ++ x :: ys) = c.enterAll (x :: (xs ++ ys)) := by
  induction xs generalizing c with
  | nil => rfl
  | cons y xs ih =>
      obtain ⟨hy, hmore⟩ := List.forall_mem_cons.1 h
      have hmove : c.enterAll (y :: xs ++ x :: ys) = (c.enter y).enterAll (x :: (xs ++ ys)) :=
        ih hmore
      have hswap : (c.enter y).enterAll (x :: (xs ++ ys)) =
          ((c.enter x).enter y).enterAll (xs ++ ys) := by
        rw [← enter_comm hy]
        rfl
      rw [hmove, hswap]
      rfl

theorem enterAll_eq_of_sameByFile (h : SameByFile xs ys) (c : Collector) :
    c.enterAll xs = c.enterAll ys := by
  -- By the first list. Its first entry is also the first one about this file in the other list,
  -- where all that stands before it is about other files.
  induction xs generalizing ys c with
  | nil =>
      cases ys with
      | nil => rfl
      | cons y ys =>
          have hy := h y.path.parts
          simp [isAbout] at hy
  | cons x xs ih =>
      have hx := h x.path.parts
      rw [List.filter_cons_of_pos (by simp [isAbout])] at hx
      obtain ⟨before, after, rfl, hbefore, -, hafter⟩ := List.filter_eq_cons_iff.1 hx.symm
      rw [enterAll_move fun y hy => by simpa [isAbout] using hbefore y hy]
      refine ih (c := c.enter x) fun parts => ?_
      have hparts := h parts
      rw [List.filter_append] at hparts ⊢
      by_cases habout : isAbout parts x
      · obtain rfl : x.path.parts = parts := by simpa [isAbout] using habout
        rw [List.filter_eq_nil_iff.2 hbefore, hafter, List.nil_append]
      · rwa [List.filter_cons_of_neg habout, List.filter_cons_of_neg habout] at hparts

theorem upsert_of_gt {rs : List FileRecord} (h : ∀ r ∈ rs, Path.compareParts r.parts a = .lt)
    (more : List FileRecord) : upsert p a f (rs ++ more) = rs ++ upsert p a f more := by
  induction rs with
  | nil => rfl
  | cons r rs ih =>
      obtain ⟨hr, hmore⟩ := List.forall_mem_cons.1 h
      have hgt : Path.compareParts a r.parts = .gt := Std.OrientedCmp.gt_of_lt hr
      rw [List.cons_append, upsert, hgt, ih hmore, List.cons_append]

theorem enterAll_last {r : FileRecord}
    (hlast : ∀ s ∈ c.records, Path.compareParts s.parts r.parts = .lt)
    (hr : ∀ x ∈ xs, x.path.parts = r.parts) :
    (⟨c.records ++ [r]⟩ : Collector).enterAll xs =
      ⟨c.records ++ [xs.foldl (fun r x => x.change r) r]⟩ := by
  induction xs generalizing r with
  | nil => rfl
  | cons x xs ih =>
      obtain ⟨hx, hmore⟩ := List.forall_mem_cons.1 hr
      have hself : Path.compareParts r.parts r.parts = .eq := Std.ReflCmp.compare_self
      have henter : (⟨c.records ++ [r]⟩ : Collector).enter x = ⟨c.records ++ [x.change r]⟩ := by
        rw [enter_eq, hx, upsert_of_gt hlast, upsert, hself]
      have hrest := ih (r := x.change r) (by simpa using hlast) (by simpa using hmore)
      rw [← henter] at hrest
      exact hrest

theorem enterAll_of_gt {path : Path}
    (hlast : ∀ r ∈ c.records, Path.compareParts r.parts path.parts = .lt)
    (hpath : ∀ x ∈ xs, x.path = path) : c.enterAll xs = ⟨c.records ++ (record? xs).toList⟩ := by
  cases xs with
  | nil => simp [record?, enterAll]
  | cons x xs =>
      obtain ⟨rfl, hmore⟩ := List.forall_mem_cons.1 hpath
      have henter : c.enter x = ⟨c.records ++ [x.change (.of x.path)]⟩ := by
        rw [enter_eq, ← List.append_nil c.records, upsert_of_gt hlast, List.append_nil]
        rfl
      have hrest : (⟨c.records ++ [x.change (.of x.path)]⟩ : Collector).enterAll xs = _ :=
        enterAll_last (by simpa [FileRecord.of] using hlast) fun y hy => by
          simp [hmore y hy, FileRecord.of]
      rw [← henter] at hrest
      exact hrest

theorem enterAll_flatMap {α : Type} {pathOf : α → Path} {entriesOf : α → List CollectorEntry}
    {files : List α}
    (hsorted : files.Pairwise fun f g => Path.compareParts (pathOf f).parts (pathOf g).parts = .lt)
    (hpath : ∀ f ∈ files, ∀ x ∈ entriesOf f, x.path = pathOf f)
    (hlast : ∀ r ∈ c.records, ∀ f ∈ files, Path.compareParts r.parts (pathOf f).parts = .lt) :
    c.enterAll (files.flatMap entriesOf) =
      ⟨c.records ++ files.filterMap fun f => record? (entriesOf f)⟩ := by
  induction files generalizing c with
  | nil => simp [enterAll]
  | cons f files ih =>
      obtain ⟨hf, hfiles⟩ := List.pairwise_cons.1 hsorted
      obtain ⟨hfirst, hmore⟩ := List.forall_mem_cons.1 hpath
      rw [List.flatMap_cons, enterAll_append,
        enterAll_of_gt (fun r hr => hlast r hr f List.mem_cons_self) hfirst, ih hfiles hmore,
        List.append_assoc]
      · cases hrecord : record? (entriesOf f) <;> simp [hrecord]
      · intro r hr g hg
        rcases List.mem_append.1 hr with hr | hr
        · exact hlast r hr g (List.mem_cons_of_mem f hg)
        · rw [parts_of_record? hfirst (Option.mem_toList.1 hr)]
          exact hf g hg

end Collector

end Lexing
