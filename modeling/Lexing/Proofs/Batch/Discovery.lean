import Lexing.Batch.Discovery
import Lexing.Proofs.Files.Names

namespace Lexing

namespace Path

variable {path p : Path} {name other : EntryName}

theorem IsBelow.of_join (h : IsPlain name) (hp : IsBelow (path.join ⟨name⟩) p) :
    IsBelow path p := by
  obtain ⟨names, hnames, rfl⟩ := hp
  exact ⟨name :: names, List.forall_mem_cons.2 ⟨h, hnames⟩, rfl⟩

theorem isBelow_self (path : Path) : IsBelow path path := ⟨[], by simp, rfl⟩

theorem IsBelow.name_eq (hpath : path.bytes ≠ []) (hname : IsPlain name) (hother : IsPlain other)
    (hp : IsBelow (path.join ⟨name⟩) p) (hq : IsBelow (path.join ⟨other⟩) p) : name = other := by
  obtain ⟨names, hnames, rfl⟩ := hp
  obtain ⟨others, hothers, hjoin⟩ := hq
  have hparts : (path.joinAll (name :: names)).parts = (path.joinAll (other :: others)).parts :=
    congrArg parts hjoin
  rw [parts_joinAll hpath (List.forall_mem_cons.2 ⟨hname, hnames⟩),
    parts_joinAll hpath (List.forall_mem_cons.2 ⟨hother, hothers⟩), List.append_cancel_left_eq]
    at hparts
  exact PathPart.name.inj (List.cons.inj hparts).1

end Path

namespace Discovery

def Adds (distinct : Prop) (path : Path) (names : List EntryName) (found after : Array Path) :
    Prop :=
  ∃ new, after.toList = found.toList ++ new ∧ (distinct → new.Nodup) ∧
    ∀ p ∈ new, ∃ name ∈ names, Path.IsBelow (path.join ⟨name⟩) p

namespace Adds

variable {distinct inner rest : Prop} {path : Path} {name : EntryName} {names : List EntryName}
  {found more after : Array Path}

theorem refl (distinct : Prop) (path : Path) (names : List EntryName) (found : Array Path) :
    Adds distinct path names found found :=
  ⟨[], by simp, fun _ => List.nodup_nil, by simp⟩

theorem keep (distinct : Prop) (path : Path) (name : EntryName) (found : Array Path) :
    Adds distinct path [name] found (keep (path.join ⟨name⟩) found) := by
  unfold Discovery.keep
  split
  · refine ⟨[path.join ⟨name⟩], by simp, fun _ => by simp, ?_⟩
    simpa using Path.isBelow_self _
  · exact refl ..

theorem weaken (h : Adds inner path [name] found after) (hinner : distinct → inner) :
    Adds distinct path (name :: names) found after := by
  obtain ⟨new, hafter, hnodup, hbelow⟩ := h
  refine ⟨new, hafter, fun hd => hnodup (hinner hd), fun p hp => ?_⟩
  obtain ⟨other, hother, hbelow⟩ := hbelow p hp
  exact ⟨other, List.mem_cons.2 (.inl (List.mem_singleton.1 hother)), hbelow⟩

theorem folder (h : Adds inner (path.join ⟨name⟩) names found after)
    (hnames : ∀ name ∈ names, Path.IsPlain name) : Adds inner path [name] found after := by
  obtain ⟨new, hafter, hnodup, hbelow⟩ := h
  refine ⟨new, hafter, hnodup, fun p hp => ⟨name, List.mem_singleton_self name, ?_⟩⟩
  obtain ⟨other, hother, hbelow⟩ := hbelow p hp
  exact hbelow.of_join (hnames other hother)

theorem cons (hfirst : Adds inner path [name] found more) (hrest : Adds rest path names more after)
    (hplain : ∀ other ∈ name :: names, Path.IsPlain other)
    (hdistinct : distinct → path.bytes ≠ [] ∧ name ∉ names ∧ inner ∧ rest) :
    Adds distinct path (name :: names) found after := by
  obtain ⟨new, hmore, hnodup, hbelow⟩ := hfirst
  obtain ⟨later, hafter, hlater, hlaterBelow⟩ := hrest
  have hnew : ∀ p ∈ new, Path.IsBelow (path.join ⟨name⟩) p := by
    intro p hp
    obtain ⟨other, hother, hbelow⟩ := hbelow p hp
    rwa [List.mem_singleton.1 hother] at hbelow
  refine ⟨new ++ later, by rw [hafter, hmore, List.append_assoc], fun hd => ?_, fun p hp => ?_⟩
  · obtain ⟨hpath, hname, hinner, hrest⟩ := hdistinct hd
    refine List.nodup_append.2 ⟨hnodup hinner, hlater hrest, ?_⟩
    rintro p hp q hq rfl
    obtain ⟨other, hother, hq⟩ := hlaterBelow p hq
    have heq := (hnew p hp).name_eq hpath (hplain name List.mem_cons_self)
      (hplain other (List.mem_cons_of_mem name hother)) hq
    exact hname (heq ▸ hother)
  · rcases List.mem_append.1 hp with hp | hp
    · exact ⟨name, List.mem_cons_self, hnew p hp⟩
    · obtain ⟨other, hother, hbelow⟩ := hlaterBelow p hp
      exact ⟨other, List.mem_cons_of_mem name hother, hbelow⟩

end Adds

structure IsDistinctAt (path : Path) (place : Place) (entries : List (EntryName × Node)) :
    Prop where
  path_ne_nil : path.bytes ≠ []
  place : place.Holds Node.IsDistinct
  entries : (Node.folder entries).IsDistinct

namespace IsDistinctAt

variable {path : Path} {place reached : Place} {name : EntryName} {node : Node}
  {entries inner : List (EntryName × Node)}

theorem tail (h : IsDistinctAt path place ((name, node) :: entries)) :
    IsDistinctAt path place entries :=
  ⟨h.path_ne_nil, h.place, h.entries.tail⟩

theorem name_not_mem (h : IsDistinctAt path place ((name, node) :: entries)) :
    name ∉ entries.map Prod.fst :=
  (List.nodup_cons.1 h.entries.nodup).1

theorem join (h : IsDistinctAt path place entries) (hname : Path.IsPlain name)
    (hreached : reached.Holds Node.IsDistinct) (hinner : (Node.folder inner).IsDistinct) :
    IsDistinctAt (path.join ⟨name⟩) reached inner :=
  ⟨Path.join_ne_nil h.path_ne_nil hname, hreached, hinner⟩

end IsDistinctAt

theorem plain_of_isNamed {entries : List (EntryName × Node)} (h : (Node.folder entries).IsNamed) :
    ∀ name ∈ entries.map Prod.fst, Path.IsPlain name :=
  List.forall_mem_map.2 fun _ he => h.plain he

theorem Adds.entry {inner : Prop} {path : Path} {place : Place} {name : EntryName} {node : Node}
    {rest : List (EntryName × Node)} {found more after : Array Path}
    (hentries : (Node.folder ((name, node) :: rest)).IsNamed)
    (hfirst : Adds inner path [name] found more)
    (hrest : Adds (IsDistinctAt path place rest) path (rest.map Prod.fst) more after)
    (hinner : IsDistinctAt path place ((name, node) :: rest) → inner) :
    Adds (IsDistinctAt path place ((name, node) :: rest)) path
      (((name, node) :: rest).map Prod.fst) found after :=
  hfirst.cons hrest (plain_of_isNamed hentries) fun h =>
    ⟨h.path_ne_nil, h.name_not_mem, hinner h, h.tail⟩

theorem Adds.folderIf {inner : Prop} {path : Path} {name : EntryName} {names : List EntryName}
    {found visited : Array Path} (recursive : Bool)
    (h : Adds inner (path.join ⟨name⟩) names found visited)
    (hnames : ∀ name ∈ names, Path.IsPlain name) :
    Adds inner path [name] found (if recursive then visited else found) := by
  split
  · exact h.folder hnames
  · exact .refl ..

theorem adds_visit (recursive : Bool) (links : Nat) (path : Path) {place : Place}
    {entries : List (EntryName × Node)} (found : Array Path) (hplace : place.Holds Node.IsNamed)
    (hentries : (Node.folder entries).IsNamed) :
    Adds (IsDistinctAt path place entries) path (entries.map Prod.fst) found
      (visit recursive links path place entries found) := by
  fun_induction visit recursive links path place entries found with
  | case1 => exact .refl ..
  | case2 _ _ _ _ _ _ _ _ _ ih =>
      exact .entry hentries (.refl True ..) (ih hplace hentries.tail) fun _ => trivial
  | case3 => exact (Adds.keep True ..).weaken fun _ => trivial
  | case4 _ _ _ _ _ _ _ _ _ _ _ ih =>
      exact .entry hentries (.keep True ..) (ih hplace hentries.tail) fun _ => trivial
  | case5 links path place found name rest below _ inner more _ ihinner ih =>
      have hinner : (Node.folder inner).IsNamed := hentries.inner List.mem_cons_self
      have hfirst := (ihinner (hplace.down hinner name) hinner).folderIf recursive
        (plain_of_isNamed hinner)
      refine .entry hentries hfirst (ih hplace hentries.tail) fun h => ?_
      have hfolder := h.entries.inner List.mem_cons_self
      exact h.join (hentries.plain List.mem_cons_self) (h.place.down hfolder name) hfolder
  | case6 _ _ _ _ _ _ _ _ ih =>
      exact .entry hentries (.refl True ..) (ih hplace hentries.tail) fun _ => trivial
  | case7 _ _ _ _ _ _ _ _ ih =>
      exact .entry hentries (.refl True ..) (ih hplace hentries.tail) fun _ => trivial
  | case8 => exact (Adds.keep True ..).weaken fun _ => trivial
  | case9 _ _ _ _ _ _ _ _ _ _ _ _ _ _ _ _ ih =>
      exact .entry hentries (.keep True ..) (ih hplace hentries.tail) fun _ => trivial
  | case10 path place found name rest below _ target fewer n inner above left hwalk more _ ihinner
      ih =>
      have hreached := Path.holds_of_walk Node.IsNamed.hereditary hplace hwalk
      have hfirst := (ihinner hreached hreached.node).folderIf recursive
        (plain_of_isNamed hreached.node)
      refine .entry hentries hfirst (ih hplace hentries.tail) fun h => ?_
      have hdistinct := Path.holds_of_walk Node.IsDistinct.hereditary h.place hwalk
      exact h.join (hentries.plain List.mem_cons_self) hdistinct hdistinct.node
  | case11 _ _ _ _ _ _ _ _ _ _ _ ih =>
      exact .entry hentries (.refl True ..) (ih hplace hentries.tail) fun _ => trivial

theorem isBelow_of_mem_visit {recursive : Bool} {links : Nat} {path p : Path} {place : Place}
    {entries : List (EntryName × Node)} (hplace : place.Holds Node.IsNamed)
    (hentries : (Node.folder entries).IsNamed)
    (h : p ∈ visit recursive links path place entries #[]) : Path.IsBelow path p := by
  obtain ⟨new, hvisit, -, hbelow⟩ :=
    adds_visit recursive links path #[] hplace hentries
  have hp : p ∈ new := by
    rw [← Array.mem_toList_iff, hvisit] at h
    simpa using h
  obtain ⟨name, hname, hbelow⟩ := hbelow p hp
  exact hbelow.of_join (plain_of_isNamed hentries name hname)

theorem sublist_of_find {s : FileSystem} {b : BatchSettings} {directory : Path} {files : List Path}
    (h : (find s b directory).1 = .ok files) :
    ∃ name entries above links,
      s.find? directory = some (⟨name, .folder entries, above⟩, links) ∧
      files.Sublist (Path.inOrder id
        (visit b.recursive links directory ⟨name, .folder entries, above⟩ entries #[]).toList) := by
  unfold find at h
  split at h
  · next name entries above links hfind =>
      refine ⟨name, entries, above, links, hfind, ?_⟩
      dsimp only at h
      split at h
      · contradiction
      split at h
      · contradiction
      split at h
      · split at h
        · obtain rfl := Except.ok.inj h
          exact List.take_sublist ..
        · obtain rfl := Except.ok.inj h
          exact List.Sublist.refl _
      · obtain rfl := Except.ok.inj h
        exact List.Sublist.refl _
  · contradiction

theorem sorted_of_find {s : FileSystem} {b : BatchSettings} {directory : Path} {files : List Path}
    (h : (find s b directory).1 = .ok files) : Path.Sorted id files := by
  obtain ⟨_, _, _, _, -, hfiles⟩ := sublist_of_find h
  exact List.Pairwise.sublist hfiles (Path.sorted_inOrder id _)

theorem eq_of_parts_of_find {s : FileSystem} {b : BatchSettings} {directory : Path}
    {files : List Path} (hnamed : s.root.IsNamed) (h : (find s b directory).1 = .ok files) :
    ∀ p ∈ files, ∀ q ∈ files, p.parts = q.parts → p = q := by
  obtain ⟨name, entries, above, links, hfind, hfiles⟩ := sublist_of_find h
  have hplace := FileSystem.holds_of_find? Node.IsNamed.hereditary hnamed hfind
  have hbelow : ∀ p ∈ files, Path.IsBelow directory p := by
    intro p hp
    have hvisit := (Path.perm_inOrder id _).mem_iff.1 (hfiles.subset hp)
    exact isBelow_of_mem_visit hplace hplace.node (Array.mem_toList_iff.1 hvisit)
  intro p hp q hq
  exact (hbelow p hp).eq_of_parts (FileSystem.bytes_ne_nil_of_find? hfind) (hbelow q hq)

theorem nodup_of_find {s : FileSystem} {b : BatchSettings} {directory : Path} {files : List Path}
    (hnamed : s.root.IsNamed) (hdistinct : s.root.IsDistinct)
    (h : (find s b directory).1 = .ok files) : files.Nodup := by
  obtain ⟨name, entries, above, links, hfind, hfiles⟩ := sublist_of_find h
  have hplace := FileSystem.holds_of_find? Node.IsNamed.hereditary hnamed hfind
  have hapart := FileSystem.holds_of_find? Node.IsDistinct.hereditary hdistinct hfind
  refine hfiles.nodup ((Path.perm_inOrder id _).nodup_iff.2 ?_)
  obtain ⟨new, hvisit, hnodup, -⟩ :=
    adds_visit b.recursive links directory #[] hplace hplace.node
  rw [hvisit]
  exact hnodup ⟨FileSystem.bytes_ne_nil_of_find? hfind, hapart, hapart.node⟩

theorem staysPut_find (s : FileSystem) (b : BatchSettings) (directory : Path) :
    ∀ a ∈ (find s b directory).2, a.staysPut := by
  unfold find
  split
  · dsimp only
    split
    · exact List.forall_mem_singleton.2 rfl
    split
    · exact List.forall_mem_singleton.2 rfl
    · refine List.forall_mem_append.2 ⟨List.forall_mem_cons.2 ⟨rfl, ?_⟩,
        List.forall_mem_singleton.2 rfl⟩
      split
      · split
        · exact List.forall_mem_singleton.2 rfl
        · simp
      · simp
  · exact List.forall_mem_singleton.2 rfl

theorem staysPut_accept (s : FileSystem) (files : List Path) :
    ∀ a ∈ (accept s files).2, a.staysPut := by
  refine List.forall_mem_append.2 ⟨?_, List.forall_mem_map.2 fun _ _ => rfl⟩
  split
  · simp
  · exact List.forall_mem_singleton.2 rfl

theorem accept_eq_filter (s : FileSystem) (files : List Path) :
    (accept s files).1 = files.filter fun p => (check s p).isNone := by
  rw [← List.filterMap_eq_filter, accept, List.filterMap_map]
  rfl

theorem accept_sublist (s : FileSystem) (files : List Path) : (accept s files).1.Sublist files := by
  rw [accept_eq_filter]
  exact List.filter_sublist

theorem sorted_accept {s : FileSystem} {b : BatchSettings} {directory : Path} {files : List Path}
    (h : (find s b directory).1 = .ok files) : Path.Sorted id (accept s files).1 :=
  List.Pairwise.sublist (accept_sublist s files) (sorted_of_find h)

theorem nodup_accept {s : FileSystem} {b : BatchSettings} {directory : Path} {files : List Path}
    (hnamed : s.root.IsNamed) (hdistinct : s.root.IsDistinct)
    (h : (find s b directory).1 = .ok files) : (accept s files).1.Nodup :=
  (accept_sublist s files).nodup (nodup_of_find hnamed hdistinct h)

theorem eq_of_parts_accept {s : FileSystem} {b : BatchSettings} {directory : Path}
    {files : List Path} (hnamed : s.root.IsNamed) (h : (find s b directory).1 = .ok files) :
    ∀ p ∈ (accept s files).1, ∀ q ∈ (accept s files).1, p.parts = q.parts → p = q := by
  have hsubset := (accept_sublist s files).subset
  exact fun p hp q hq => eq_of_parts_of_find hnamed h p (hsubset hp) q (hsubset hq)

end Discovery

end Lexing
