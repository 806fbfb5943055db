import Lexing.Proofs.Batch.Sources

namespace Lexing

namespace Discovery

theorem find_limited {s : FileSystem} {b : BatchSettings} {directory : Path} {name : EntryName}
    {entries above : List (EntryName × Node)} {links limit : Nat} {all : List Path}
    (hfind : s.find? directory = some (⟨name, .folder entries, above⟩, links))
    (htree : (Node.folder entries).IsTree) (hreach : IsReachable directory (.folder entries))
    (hall : IsListing b.recursive directory (.folder entries) all) (hsome : all ≠ [])
    (hlimit : b.fileLimit = some limit) :
    ((find s b directory).1 = .ok (all.take (min limit all.length)) ↔
      all.length ≤ Limits.batch.maxFiles) ∧
    (Limits.batch.maxFiles < all.length → ∃ count, Limits.batch.maxFiles < count ∧
      count ≤ all.length ∧
      (find s b directory).1 = .error (.tooManyFiles count Limits.batch.maxFiles)) := by
  obtain ⟨-, hfew, hmany⟩ := find_of_listing hfind htree hreach hall
  refine ⟨⟨fun hfound => ?_, fun hfit => ?_⟩, hmany⟩
  · by_contra hover
    obtain ⟨count, -, -, hanswer⟩ := hmany (Nat.lt_of_not_le hover)
    rw [hfound] at hanswer
    nomatch hanswer
  · rw [hfew hsome hfit, hlimit, cut, ← List.take_eq_take_min]

theorem find_limited_two :
    let entries : List (EntryName × Node) :=
      [([0x62, 0x2e, 0x72, 0x76], .file (.text "x")), ([0x61, 0x2e, 0x72, 0x76], .file (.text "y"))]
    let s : FileSystem := ⟨.folder entries, []⟩
    let b : BatchSettings :=
      { BatchSettings.ofPreferences (.ofEnvironment []) with fileLimit := some 1 }
    let directory : Path := .ofString "/"
    let all : List Path := [.ofString "/a.rv", .ofString "/b.rv"]
    s.find? directory = some (⟨[], .folder entries, []⟩, Path.linkLimit) ∧
      (Node.folder entries).IsTree ∧ IsReachable directory (.folder entries) ∧
      IsListing b.recursive directory (.folder entries) all ∧ all ≠ [] ∧ b.fileLimit = some 1 ∧
      ((find s b directory).1 = .ok (all.take (min 1 all.length)) ↔
        all.length ≤ Limits.batch.maxFiles) ∧
      (Limits.batch.maxFiles < all.length → ∃ count, Limits.batch.maxFiles < count ∧
        count ≤ all.length ∧
        (find s b directory).1 = .error (.tooManyFiles count Limits.batch.maxFiles)) := by
  intro entries s b directory all
  have hfind := find?_root entries
  have htree : (Node.folder entries).IsTree :=
    Node.isTree_of_files (by decide) (by decide) (by decide)
  have hreach : IsReachable directory (.folder entries) := isReachable_root (by decide +kernel)
  have hall : IsListing b.recursive directory (.folder entries) all :=
    isListing_of_perm (FileSystem.bytes_ne_nil_of_find? hfind) htree (by decide +kernel)
      (by decide +kernel)
  exact ⟨hfind, htree, hreach, hall, by simp [all], rfl,
    find_limited hfind htree hreach hall (by simp [all]) rfl⟩

def digit (n : Nat) : UInt8 := .ofNat (0x30 + n % 10)

def numbered (n : Nat) : EntryName :=
  [digit (n / 10000), digit (n / 1000), digit (n / 100), digit (n / 10), digit n, Path.dot, 0x72,
    0x76]

theorem toNat_digit (n : Nat) : (digit n).toNat = 0x30 + n % 10 := by
  rw [digit, UInt8.toNat_ofNat']
  omega

theorem numbered_injOn {m n : Nat} (hm : m < 100000) (hn : n < 100000)
    (h : numbered m = numbered n) : m = n := by
  have hdigit {a b : Nat} (h : digit a = digit b) : a % 10 = b % 10 := by
    have hnat := congrArg UInt8.toNat h
    rw [toNat_digit, toNat_digit] at hnat
    omega
  simp only [numbered, List.cons.injEq, and_true] at h
  obtain ⟨h1, h2, h3, h4, h5⟩ := h
  have := hdigit h1
  have := hdigit h2
  have := hdigit h3
  have := hdigit h4
  have := hdigit h5
  omega

theorem isPlain_numbered (n : Nat) : Path.IsPlain (numbered n) := by
  have hslash (k : Nat) : Path.slash ≠ digit k := by
    intro h
    have hnat := congrArg UInt8.toNat h
    rw [toNat_digit] at hnat
    have hvalue : Path.slash.toNat = 0x2f := rfl
    omega
  refine ⟨by simp [numbered], by simp [numbered], by simp [numbered], ?_⟩
  simp only [numbered, List.mem_cons, hslash, false_or, List.not_mem_nil, or_false]
  decide

theorem isSourceName_numbered (n : Nat) : IsSourceName (numbered n) :=
  ⟨[digit (n / 10000), digit (n / 1000), digit (n / 100), digit (n / 10), digit n], 0x72, 0x76,
    by simp, rfl, .inl rfl, .inl rfl⟩

def crowd : List (EntryName × Node) :=
  (List.range (Limits.batch.maxFiles + 1)).map fun n => (numbered n, .file (.text ""))

theorem isTree_crowd : (Node.folder crowd).IsTree := by
  have hplain : ∀ e ∈ crowd, Path.IsPlain e.1 :=
    List.forall_mem_map.2 fun n _ => isPlain_numbered n
  have hnodup : (crowd.map Prod.fst).Nodup := by
    rw [crowd, List.map_map]
    refine List.Nodup.map_on (fun m hm n hn h => ?_) List.nodup_range
    have hm := List.mem_range.1 hm
    have hn := List.mem_range.1 hn
    have hmax : Limits.batch.maxFiles = 10000 := rfl
    exact numbered_injOn (by omega) (by omega) h
  exact Node.isTree_folder.2 ⟨hplain, hnodup, List.forall_mem_map.2 fun _ _ => Node.isTree_file _⟩

theorem isReachable_crowd : IsReachable (.ofString "/") (.folder crowd) := by
  intro names hfile
  obtain ⟨e, he, more, rfl, hmore⟩ := Node.hasFile_folder.1 hfile
  obtain ⟨n, -, rfl⟩ := List.mem_map.1 he
  cases hmore
  have hroot : (Path.ofString "/").bytes = [Path.slash] := by decide +kernel
  have hlength : ((Path.ofString "/").joinAll [numbered n]).bytes.length = 9 := by
    simp only [Path.joinAll, List.foldl_cons, List.foldl_nil, Path.join, hroot,
      (isPlain_numbered n).isAbsolute_eq]
    rfl
  simp [Path.isTooLong, hlength, Path.byteLimit]

theorem length_sources_files (recursive : Bool) {path : Path} {names : List EntryName}
    (h : ∀ name ∈ names, isSource (path.join ⟨name⟩) = true) (contents : Contents) :
    (sources recursive path (.folder (names.map fun name => (name, .file contents)))).length =
      names.length := by
  induction names with
  | nil => rfl
  | cons name names ih =>
      obtain ⟨hname, hnames⟩ := List.forall_mem_cons.1 h
      rw [List.map_cons, sources_file, if_pos hname, List.length_append, ih hnames,
        List.length_singleton, List.length_cons, Nat.add_comm]

/-- A limit of three does not help where there is one file too many, although the answer's own
recommendation is to set a limit. -/
theorem find_crowd :
    let s : FileSystem := ⟨.folder crowd, []⟩
    let b : BatchSettings :=
      { BatchSettings.ofPreferences (.ofEnvironment []) with fileLimit := some 3 }
    let directory : Path := .ofString "/"
    let error : BatchError := .tooManyFiles (Limits.batch.maxFiles + 1) Limits.batch.maxFiles
    (Node.folder crowd).IsTree ∧ IsReachable directory (.folder crowd) ∧
      3 ≤ Limits.batch.maxFiles ∧
      (∃ all, IsListing b.recursive directory (.folder crowd) all ∧
        all.length = Limits.batch.maxFiles + 1 ∧
        (find s b directory).1 ≠ .ok (all.take (min 3 all.length))) ∧
      (find s b directory).1 = .error error ∧
      Registry.action error.code = "Use --max-files or split the directory" := by
  intro s b directory error
  have hfind := find?_root crowd
  have hdirectory := FileSystem.bytes_ne_nil_of_find? hfind
  have hall : IsListing b.recursive directory (.folder crowd) _ :=
    isListing_inOrder hdirectory isTree_crowd
  have hlength : (Path.inOrder id (sources b.recursive directory (.folder crowd))).length =
      Limits.batch.maxFiles + 1 := by
    have hsource : ∀ name ∈ (List.range (Limits.batch.maxFiles + 1)).map numbered,
        isSource (directory.join ⟨name⟩) = true := List.forall_mem_map.2 fun n _ =>
      (isSource_join hdirectory (isPlain_numbered n)).2 (isSourceName_numbered n)
    have hfiles := length_sources_files b.recursive hsource (.text "")
    rw [List.map_map, List.length_map, List.length_range] at hfiles
    rw [(Path.perm_inOrder id _).length_eq]
    exact hfiles
  generalize Path.inOrder id (sources b.recursive directory (.folder crowd)) = all at hall hlength
  obtain ⟨-, -, hmany⟩ := find_of_listing hfind isTree_crowd isReachable_crowd hall
  obtain ⟨count, hmore, hle, hanswer⟩ := hmany (by omega)
  obtain rfl : count = Limits.batch.maxFiles + 1 := by omega
  refine ⟨isTree_crowd, isReachable_crowd, by decide, ⟨all, hall, hlength, fun hfound => ?_⟩,
    hanswer, by decide +kernel⟩
  rw [hfound] at hanswer
  nomatch hanswer

end Discovery

end Lexing
