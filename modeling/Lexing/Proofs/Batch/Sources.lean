import Lexing.Proofs.Batch.Discovery
import Lexing.Proofs.Files.Listing

namespace Lexing

namespace Discovery

def IsSourceName (name : EntryName) : Prop :=
  ∃ stem r v, stem ≠ [] ∧ name = stem ++ [Path.dot, r, v] ∧
    (r = 0x72 ∨ r = 0x52) ∧ (v = 0x76 ∨ v = 0x56)

theorem isSource_join {path : Path} {name : EntryName} (hpath : path.bytes ≠ [])
    (hname : Path.IsPlain name) : isSource (path.join ⟨name⟩) = true ↔ IsSourceName name := by
  have hletter : ∀ {r v : UInt8}, (r = 0x72 ∨ r = 0x52) → (v = 0x76 ∨ v = 0x56) →
      Path.dot ∉ [r, v] := by
    rintro r v (rfl | rfl) (rfl | rfl) <;> decide
  simp only [isSource_iff, Path.extension?, Path.fileName?_join hpath hname, Option.bind_some,
    Path.extensionOf?_eq_some]
  constructor
  · rintro ⟨r, v, ⟨stem, hstem, hsplit, -⟩, hr, hv⟩
    exact ⟨stem, r, v, hstem, hsplit, hr, hv⟩
  · rintro ⟨stem, r, v, hstem, hsplit, hr, hv⟩
    exact ⟨r, v, ⟨stem, hstem, hsplit, hletter hr hv⟩, hr, hv⟩

def IsSourceOf (recursive : Bool) (directory : Path) (tree : Node) (p : Path) : Prop :=
  ∃ folders name, tree.HasFile (folders ++ [name]) ∧ IsSourceName name ∧
    (recursive = false → folders = []) ∧ p = directory.joinAll (folders ++ [name])

structure IsListing (recursive : Bool) (directory : Path) (tree : Node) (all : List Path) :
    Prop where
  mem_iff : ∀ p, p ∈ all ↔ IsSourceOf recursive directory tree p
  sorted : all.Pairwise fun p q => p.compare q = .lt

def IsReachable (directory : Path) (tree : Node) : Prop :=
  ∀ names, tree.HasFile names → (directory.joinAll names).isTooLong = false

def sources (recursive : Bool) (path : Path) (tree : Node) : List Path :=
  (tree.files.filter fun names =>
    (recursive || names.length == 1) && isSource (path.joinAll names)).map path.joinAll

section Sources

variable {recursive : Bool} {path directory p : Path} {name : EntryName} {node tree : Node}
  {inner rest entries : List (EntryName × Node)}

theorem sources_cons : sources recursive path (.folder ((name, node) :: rest)) =
    ((node.files.filter fun names => (recursive || names.length == 0) &&
      isSource ((path.join ⟨name⟩).joinAll names)).map (path.join ⟨name⟩).joinAll) ++
      sources recursive path (.folder rest) := by
  have hfiles : (Node.folder ((name, node) :: rest)).files =
      node.files.map (name :: ·) ++ (Node.folder rest).files := rfl
  rw [sources, hfiles, List.filter_append, List.map_append, List.filter_map, List.map_map]
  congr 1
  refine congrArg (List.map _) (List.filter_congr fun names _ => ?_)
  simp [Path.joinAll]

theorem sources_file (contents : Contents) :
    sources recursive path (.folder ((name, .file contents) :: rest)) =
      (if isSource (path.join ⟨name⟩) then [path.join ⟨name⟩] else []) ++
        sources recursive path (.folder rest) := by
  rw [sources_cons]
  cases hsource : isSource (path.join ⟨name⟩) <;> simp [Node.files, Path.joinAll, hsource]

theorem sources_folder :
    sources recursive path (.folder ((name, .folder inner) :: rest)) =
      (if recursive then sources recursive (path.join ⟨name⟩) (.folder inner) else []) ++
        sources recursive path (.folder rest) := by
  rw [sources_cons]
  congr 1
  cases recursive with
  | true => simp [sources]
  | false =>
      have hnone : ∀ names ∈ (Node.folder inner).files, names ≠ [] := by
        intro names hnames
        obtain ⟨e, -, more, rfl, -⟩ := Node.mem_files_folder.1 hnames
        exact List.cons_ne_nil _ _
      refine List.map_eq_nil_iff.2 (List.filter_eq_nil_iff.2 fun names hnames => ?_)
      simp [hnone names hnames]

theorem mem_sources (hdirectory : directory.bytes ≠ []) (htree : (Node.folder entries).IsTree) :
    p ∈ sources recursive directory (.folder entries) ↔
      IsSourceOf recursive directory (.folder entries) p := by
  have hname {folders : List EntryName} {name : EntryName}
      (hfile : (Node.folder entries).HasFile (folders ++ [name])) :
      isSource (directory.joinAll (folders ++ [name])) = true ↔ IsSourceName name := by
    have hplain := hfile.plain htree.named
    rw [List.forall_mem_append, List.forall_mem_singleton] at hplain
    have hjoin : directory.joinAll (folders ++ [name]) =
        (directory.joinAll folders).join ⟨name⟩ := List.foldl_append
    rw [hjoin]
    exact isSource_join (Path.joinAll_ne_nil hdirectory hplain.1) hplain.2
  simp only [sources, List.mem_map, List.mem_filter, Node.mem_files_iff, Bool.and_eq_true,
    Bool.or_eq_true, beq_iff_eq]
  constructor
  · rintro ⟨names, ⟨hfile, hwhere, hsource⟩, rfl⟩
    obtain rfl | ⟨folders, name, rfl⟩ := List.eq_nil_or_concat names
    · nomatch hfile
    · rw [List.concat_eq_append] at *
      refine ⟨folders, name, hfile, (hname hfile).1 hsource, fun htop => ?_, rfl⟩
      simpa [htop] using hwhere
  · rintro ⟨folders, name, hfile, hsource, htop, rfl⟩
    refine ⟨_, ⟨hfile, ?_, (hname hfile).2 hsource⟩, rfl⟩
    cases recursive with
    | true => exact .inl rfl
    | false => exact .inr (by simp [htop rfl])

theorem IsSourceOf.isBelow (htree : tree.IsTree) (h : IsSourceOf recursive directory tree p) :
    Path.IsBelow directory p := by
  obtain ⟨folders, name, hfile, -, -, rfl⟩ := h
  exact ⟨_, hfile.plain htree.named, rfl⟩

theorem nodup_sources (hdirectory : directory.bytes ≠ []) (htree : tree.IsTree) :
    (sources recursive directory tree).Nodup := by
  refine List.Nodup.map_on (fun names hnames others hothers heq => ?_)
    ((Node.nodup_files htree.distinct).filter _)
  have hplain {names : List EntryName} (hnames : names ∈ tree.files) :
      ∀ name ∈ names, Path.IsPlain name := (Node.mem_files_iff.1 hnames).plain htree.named
  exact Path.joinAll_inj hdirectory (hplain (List.mem_of_mem_filter hnames))
    (hplain (List.mem_of_mem_filter hothers)) (congrArg Path.parts heq)

end Sources

def Gathers (all : List Path) (found after : Array Path) : Prop :=
  ∃ new, after.toList = found.toList ++ new ∧ new.Sublist all ∧
    (after.size ≤ Limits.batch.maxFiles → new = all)

namespace Gathers

variable {xs ys : List Path} {found more after : Array Path}

theorem refl (found : Array Path) : Gathers [] found found := ⟨[], by simp, .slnil, fun _ => rfl⟩

theorem size_le (h : Gathers xs found after) : found.size ≤ after.size := by
  obtain ⟨new, hafter, -, -⟩ := h
  have hsize := congrArg List.length hafter
  simp only [Array.length_toList, List.length_append] at hsize
  omega

theorem append (h : Gathers xs found more) (h' : Gathers ys more after) :
    Gathers (xs ++ ys) found after := by
  have hmore := h'.size_le
  obtain ⟨new, hfound, hnew, hall⟩ := h
  obtain ⟨later, hafter, hlater, hrest⟩ := h'
  refine ⟨new ++ later, by rw [hafter, hfound, List.append_assoc], hnew.append hlater, fun hfew => ?_⟩
  rw [hall (Nat.le_trans hmore hfew), hrest hfew]

theorem stop (h : Gathers xs found after) (hmany : Limits.batch.maxFiles < after.size) :
    Gathers (xs ++ ys) found after := by
  obtain ⟨new, hafter, hnew, -⟩ := h
  exact ⟨new, hafter, hnew.trans (List.sublist_append_left xs ys), fun hfew => by omega⟩

theorem keep (path : Path) (found : Array Path) :
    Gathers (if isSource path then [path] else []) found (keep path found) := by
  unfold Discovery.keep
  split
  · exact ⟨[path], by simp, .refl _, fun _ => rfl⟩
  · exact refl found

end Gathers

theorem gathers_visit (recursive : Bool) (links : Nat) (path : Path) {place : Place}
    {entries : List (EntryName × Node)} (found : Array Path)
    (htree : (Node.folder entries).IsTree) (hreach : IsReachable path (.folder entries)) :
    Gathers (sources recursive path (.folder entries)) found
      (visit recursive links path place entries found) := by
  have htail {path : Path} {e : EntryName × Node} {rest : List (EntryName × Node)}
      (hreach : IsReachable path (.folder (e :: rest))) : IsReachable path (.folder rest) := by
    intro names hfile
    obtain ⟨other, hother, more, rfl, hinner⟩ := Node.hasFile_folder.1 hfile
    exact hreach _ (.entry (List.mem_cons_of_mem e hother) hinner)
  have hbelow {path : Path} {name : EntryName} {node : Node} {rest : List (EntryName × Node)}
      (hreach : IsReachable path (.folder ((name, node) :: rest))) :
      IsReachable (path.join ⟨name⟩) node := fun names hfile =>
    hreach (name :: names) (.entry List.mem_cons_self hfile)
  fun_induction visit recursive links path place entries found with
  | case1 => exact .refl _
  | case2 links path place found name node rest below hlong ih =>
      -- The path of a folder that is too long is too long for all files in it.
      have hnone : node.files = [] := by
        refine List.eq_nil_iff_forall_not_mem.2 fun names hnames => ?_
        have hfile := Node.mem_files_iff.1 hnames
        have hle := Path.length_le_joinAll (p := below)
          (hfile.plain (htree.inner List.mem_cons_self).named)
        have hshort := hbelow hreach names hfile
        simp only [Path.isTooLong, decide_eq_true_eq, decide_eq_false_iff_not] at hlong hshort
        exact hshort (Nat.lt_of_lt_of_le hlong hle)
      rw [sources_cons, hnone]
      exact ih htree.tail (htail hreach)
  | case3 links path place found name rest below _ contents more hover =>
      rw [sources_file]
      simp only [overflows, Bool.and_eq_true, decide_eq_true_eq] at hover
      exact (Gathers.keep below found).stop hover.2
  | case4 links path place found name rest below _ contents more _ ih =>
      rw [sources_file]
      exact (Gathers.keep below found).append (ih htree.tail (htail hreach))
  | case5 links path place found name rest below _ inner more _ ihinner ih =>
      rw [sources_folder]
      refine (?_ : Gathers _ found more).append (ih htree.tail (htail hreach))
      cases recursive with
      | true => exact ihinner (htree.inner List.mem_cons_self) (hbelow hreach)
      | false => exact .refl found
  | case6 links path place found name rest below _ ih =>
      rw [sources_cons]
      exact ih htree.tail (htail hreach)
  | _ => cases (htree.inner List.mem_cons_self).linkless

section Find

variable {recursive : Bool} {s : FileSystem} {b : BatchSettings} {directory : Path}
  {name : EntryName} {entries : List (EntryName × Node)} {above : List (EntryName × Node)}
  {links : Nat} {tree : Node} {all others : List Path}

theorem isListing_inOrder (hdirectory : directory.bytes ≠ []) (htree : (Node.folder entries).IsTree) :
    IsListing recursive directory (.folder entries)
      (Path.inOrder id (sources recursive directory (.folder entries))) := by
  have hperm := Path.perm_inOrder id (sources recursive directory (.folder entries))
  have hmem (p : Path) : p ∈ Path.inOrder id (sources recursive directory (.folder entries)) ↔
      IsSourceOf recursive directory (.folder entries) p :=
    hperm.mem_iff.trans (mem_sources hdirectory htree)
  refine ⟨hmem, ?_⟩
  have hnodup := hperm.nodup_iff.2 (nodup_sources hdirectory htree)
  refine (List.pairwise_and_iff.2 ⟨Path.sorted_inOrder id _, hnodup⟩).imp_of_mem ?_
  rintro p q hp hq ⟨hle, hne⟩
  change Path.compareParts p.parts q.parts = .lt
  -- Two paths below the same folder with the same parts are one path.
  cases hcompare : Path.compareParts p.parts q.parts with
  | lt => rfl
  | eq =>
      have hparts := Std.LawfulEqCmp.eq_of_compare hcompare
      exact absurd (((hmem p).1 hp |>.isBelow htree).eq_of_parts hdirectory
        ((hmem q).1 hq |>.isBelow htree) hparts) hne
  | gt => simp [hcompare] at hle

theorem isListing_of_perm {all : List Path} (hdirectory : directory.bytes ≠ [])
    (htree : (Node.folder entries).IsTree)
    (hperm : all.Perm (sources recursive directory (.folder entries)))
    (hsorted : all.Pairwise fun p q => p.compare q = .lt) :
    IsListing recursive directory (.folder entries) all where
  mem_iff _ := hperm.mem_iff.trans (mem_sources hdirectory htree)
  sorted := hsorted

theorem IsListing.nodup (h : IsListing recursive directory tree all) : all.Nodup := by
  refine h.sorted.imp fun {p q} hlt => ?_
  rintro rfl
  have hself : Path.compareParts p.parts p.parts = .eq := Std.ReflCmp.compare_self
  rw [Path.compare, hself] at hlt
  contradiction

theorem IsListing.eq (h : IsListing recursive directory tree all)
    (h' : IsListing recursive directory tree others) : all = others := by
  have hperm : all.Perm others := (List.perm_ext_iff_of_nodup h.nodup h'.nodup).2 fun p =>
    (h.mem_iff p).trans (h'.mem_iff p).symm
  refine hperm.eq_of_pairwise (fun p q _ _ hpq hqp => ?_) h.sorted h'.sorted
  have hswap : Path.compareParts q.parts p.parts = .gt := Std.OrientedCmp.gt_of_lt hpq
  rw [Path.compare, hswap] at hqp
  contradiction

def cut (limit : Option Nat) (files : List Path) : List Path :=
  match limit with
  | some n => files.take n
  | none => files

theorem find_eq (hfind : s.find? directory = some (⟨name, .folder entries, above⟩, links)) :
    (find s b directory).1 =
      let found := visit b.recursive links directory ⟨name, .folder entries, above⟩ entries #[]
      if found.isEmpty then .error (.noFilesFound directory.display)
      else if Limits.batch.maxFiles < found.size then
        .error (.tooManyFiles found.size Limits.batch.maxFiles)
      else .ok (cut b.fileLimit (Path.inOrder id found.toList)) := by
  unfold find
  rw [hfind]
  dsimp only
  split
  · rfl
  split
  · rfl
  cases b.fileLimit with
  | none => rfl
  | some limit =>
      dsimp only [cut]
      split
      · rfl
      · next hfew => rw [List.take_of_length_le (Nat.le_of_not_lt hfew)]

theorem find_of_listing
    (hfind : s.find? directory = some (⟨name, .folder entries, above⟩, links))
    (htree : (Node.folder entries).IsTree) (hreach : IsReachable directory (.folder entries))
    (hall : IsListing b.recursive directory (.folder entries) all) :
    (all = [] → (find s b directory).1 = .error (.noFilesFound directory.display)) ∧
    (all ≠ [] → all.length ≤ Limits.batch.maxFiles →
      (find s b directory).1 = .ok (cut b.fileLimit all)) ∧
    (Limits.batch.maxFiles < all.length → ∃ count, Limits.batch.maxFiles < count ∧
      count ≤ all.length ∧
      (find s b directory).1 = .error (.tooManyFiles count Limits.batch.maxFiles)) := by
  have hdirectory := FileSystem.bytes_ne_nil_of_find? hfind
  obtain rfl := hall.eq (isListing_inOrder hdirectory htree)
  have hlength := (Path.perm_inOrder id (sources b.recursive directory (.folder entries))).length_eq
  rw [find_eq hfind]
  have hgathers : Gathers _ _
      (visit b.recursive links directory ⟨name, .folder entries, above⟩ entries #[]) :=
    gathers_visit b.recursive links directory #[] htree hreach
  obtain ⟨new, hfound, hsublist, hcomplete⟩ := hgathers
  generalize visit b.recursive links directory ⟨name, .folder entries, above⟩ entries #[] = found
    at *
  obtain rfl : found.toList = new := by simpa using hfound
  have hle := hsublist.length_le
  rw [Array.length_toList] at hle
  have hsame (hfew : found.size ≤ Limits.batch.maxFiles) :
      found.size = (sources b.recursive directory (.folder entries)).length := by
    rw [← hcomplete hfew, Array.length_toList]
  have hempty : found.isEmpty = true ↔ found.size = 0 := by simp
  dsimp only
  refine ⟨fun hnil => ?_, fun hne hfew => ?_, fun hmany => ?_⟩
  · rw [hnil, List.length_nil] at hlength
    rw [if_pos (hempty.2 (by omega))]
  · have hpos := List.length_pos_iff.2 hne
    have hcount : found.size ≤ Limits.batch.maxFiles := by omega
    have hsize := hsame hcount
    rw [if_neg fun h => absurd (hempty.1 h) (by omega), if_neg (Nat.not_lt.2 hcount),
      hcomplete hcount]
  · have hover : Limits.batch.maxFiles < found.size := by
      by_contra hfew
      have hsize := hsame (Nat.le_of_not_lt hfew)
      omega
    refine ⟨found.size, hover, by omega, ?_⟩
    rw [if_neg fun h => absurd (hempty.1 h) (by omega), if_pos hover]

section Rearranged

variable {other : Node}

theorem IsReachable.rearranged (h : IsReachable directory tree) (horder : tree.Rearranged other) :
    IsReachable directory other :=
  fun names hfile => h names (horder.hasFile_iff.2 hfile)

theorem IsListing.rearranged (h : IsListing recursive directory tree all)
    (horder : tree.Rearranged other) : IsListing recursive directory other all where
  mem_iff p := by
    rw [h.mem_iff]
    exact exists₂_congr fun folders name => and_congr_left' horder.hasFile_iff
  sorted := h.sorted

end Rearranged

def SameAnswer (a b : Except BatchError (List Path)) : Prop :=
  a = b ∨ ∃ m n limit, a = .error (.tooManyFiles m limit) ∧ b = .error (.tooManyFiles n limit)

structure Discovers (s : FileSystem) (b : BatchSettings) (directory : Path)
    (entries : List (EntryName × Node)) (all : List Path) : Prop where
  listing : IsListing b.recursive directory (.folder entries) all
  none_iff : (find s b directory).1 = .error (.noFilesFound directory.display) ↔ all = []
  found : 1 ≤ all.length → all.length ≤ Limits.batch.maxFiles →
    (find s b directory).1 = .ok (cut b.fileLimit all)
  tooMany : Limits.batch.maxFiles < all.length → b.fileLimit = none →
    ∃ count, Limits.batch.maxFiles + 1 ≤ count ∧ count ≤ all.length ∧
      (find s b directory).1 = .error (.tooManyFiles count Limits.batch.maxFiles)
  unordered : ∀ s' name others above links,
    s'.find? directory = some (⟨name, .folder others, above⟩, links) →
    (Node.folder entries).Rearranged (.folder others) →
      SameAnswer (find s b directory).1 (find s' b directory).1

theorem find_discovers (hfind : s.find? directory = some (⟨name, .folder entries, above⟩, links))
    (htree : (Node.folder entries).IsTree) (hreach : IsReachable directory (.folder entries)) :
    ∃ all, Discovers s b directory entries all := by
  have hall : IsListing b.recursive directory (.folder entries) _ :=
    isListing_inOrder (FileSystem.bytes_ne_nil_of_find? hfind) htree
  generalize Path.inOrder id (sources b.recursive directory (.folder entries)) = all at hall
  obtain ⟨hnone, hfew, hmany⟩ := find_of_listing hfind htree hreach hall
  refine ⟨all, hall, ⟨fun hempty => ?_, hnone⟩, fun hpos => hfew (List.length_pos_iff.1 hpos),
    fun hover _ => hmany hover, fun s' _ _ _ _ hfind' horder => ?_⟩
  · by_contra hne
    rcases Nat.lt_or_ge Limits.batch.maxFiles all.length with hover | hfit
    · obtain ⟨count, -, -, hanswer⟩ := hmany hover
      rw [hempty] at hanswer
      nomatch hanswer
    · rw [hfew hne hfit] at hempty
      nomatch hempty
  · obtain ⟨hnone', hfew', hmany'⟩ := find_of_listing hfind' (htree.rearranged horder)
      (hreach.rearranged horder) (hall.rearranged horder)
    by_cases hne : all = []
    · exact .inl ((hnone hne).trans (hnone' hne).symm)
    rcases Nat.lt_or_ge Limits.batch.maxFiles all.length with hover | hfit
    · obtain ⟨m, -, -, hm⟩ := hmany hover
      obtain ⟨n, -, -, hn⟩ := hmany' hover
      exact .inr ⟨m, n, _, hm, hn⟩
    · exact .inl ((hfew hne hfit).trans (hfew' hne hfit).symm)

theorem find?_root (entries : List (EntryName × Node)) :
    (⟨.folder entries, []⟩ : FileSystem).find? (.ofString "/") =
      some (⟨[], .folder entries, []⟩, Path.linkLimit) := by
  have hroot : Path.ofString "/" = ⟨[Path.slash]⟩ := by decide +kernel
  have hpieces : (⟨[Path.slash]⟩ : Path).pieces = [[], []] := by decide
  rw [hroot, FileSystem.find?, if_neg (by decide)]
  simp only [FileSystem.base, hpieces]
  simp [Path.walk, Node.isFolder, Path.isIdle, Place.ofRoot, Except.toOption]

theorem isReachable_root (hshort : ∀ names ∈ (Node.folder entries).files,
    (Path.joinAll (.ofString "/") names).isTooLong = false) :
    IsReachable (.ofString "/") (.folder entries) :=
  fun names hfile => hshort names (Node.mem_files_iff.2 hfile)

theorem find_root (htree : (Node.folder entries).IsTree)
    (hshort : ∀ names ∈ (Node.folder entries).files,
      (Path.joinAll (.ofString "/") names).isTooLong = false)
    (hperm : all.Perm (sources b.recursive (.ofString "/") (.folder entries)))
    (hsorted : all.Pairwise fun p q => p.compare q = .lt) (hne : all ≠ [])
    (hfew : all.length ≤ Limits.batch.maxFiles) :
    (find ⟨.folder entries, []⟩ b (.ofString "/")).1 = .ok (cut b.fileLimit all) := by
  have hfind := find?_root entries
  have hall := isListing_of_perm (FileSystem.bytes_ne_nil_of_find? hfind) htree hperm hsorted
  exact (find_of_listing hfind htree (isReachable_root hshort) hall).2.1 hne hfew

theorem find_discovers_folder :
    let entries : List (EntryName × Node) :=
      [([0x62, 0x2e, 0x52, 0x56], .file (.text "x")),
        ([0x61], .folder [([0x2e, 0x72, 0x76], .file (.text "")),
          ([0x63, 0x2e, 0x72, 0x76], .file (.text "y"))])]
    let s : FileSystem := ⟨.folder entries, []⟩
    let b := BatchSettings.ofPreferences (.ofEnvironment [])
    let directory : Path := .ofString "/"
    s.find? directory = some (⟨[], .folder entries, []⟩, Path.linkLimit) ∧
      (Node.folder entries).IsTree ∧ IsReachable directory (.folder entries) ∧
      (∃ all, Discovers s b directory entries all) ∧
      (find s b directory).1 =
        .ok [.ofString "/a/c.rv", .ofString "/b.RV"] := by
  intro entries s b directory
  have hfind := find?_root entries
  have htree : (Node.folder entries).IsTree := by
    simp only [entries, Node.isTree_folder, Node.isTree_file, List.forall_mem_cons,
      List.not_mem_nil, IsEmpty.forall_iff, implies_true, and_true, true_and, List.map_cons]
    decide
  have hshort : ∀ names ∈ (Node.folder entries).files,
      (directory.joinAll names).isTooLong = false := by decide +kernel
  have hreach := isReachable_root hshort
  exact ⟨hfind, htree, hreach, find_discovers hfind htree hreach,
    find_root htree hshort (by decide +kernel) (by decide +kernel) (by simp) (by decide)⟩

end Find

end Discovery

end Lexing
