import Lexing.Proofs.Files.Names
import Mathlib.Data.List.Nodup

namespace Lexing

namespace Node

inductive HasFile : Node → List EntryName → Prop
  | here (contents : Contents) : HasFile (.file contents) []
  | entry {entries : List (EntryName × Node)} {name : EntryName} {node : Node}
      {names : List EntryName} : (name, node) ∈ entries → HasFile node names →
      HasFile (.folder entries) (name :: names)

mutual

def files : Node → List (List EntryName)
  | .file _ => [[]]
  | .folder entries => filesIn entries
  | .link _ => []
  | .device => []

def filesIn : List (EntryName × Node) → List (List EntryName)
  | [] => []
  | (name, node) :: rest => node.files.map (name :: ·) ++ filesIn rest

end

inductive IsLinkless : Node → Prop
  | file (contents : Contents) : IsLinkless (.file contents)
  | folder {entries : List (EntryName × Node)} : (∀ e ∈ entries, IsLinkless e.2) →
      IsLinkless (.folder entries)
  | device : IsLinkless .device

structure IsTree (n : Node) : Prop where
  named : n.IsNamed
  distinct : n.IsDistinct
  linkless : n.IsLinkless

inductive Rearranged : Node → Node → Prop
  | order {entries others : List (EntryName × Node)} : entries.Perm others →
      Rearranged (.folder entries) (.folder others)
  | inside {before after : List (EntryName × Node)} {name : EntryName} {node other : Node} :
      Rearranged node other →
      Rearranged (.folder (before ++ (name, node) :: after))
        (.folder (before ++ (name, other) :: after))
  | refl (n : Node) : Rearranged n n
  | trans {n m o : Node} : Rearranged n m → Rearranged m o → Rearranged n o

section

variable {entries : List (EntryName × Node)} {name : EntryName} {names : List EntryName}
  {n m : Node}

theorem hasFile_folder : (Node.folder entries).HasFile names ↔
    ∃ e ∈ entries, ∃ more, names = e.1 :: more ∧ e.2.HasFile more := by
  constructor
  · rintro (_ | ⟨hentry, hfile⟩)
    exact ⟨_, hentry, _, rfl, hfile⟩
  · rintro ⟨e, hentry, more, rfl, hfile⟩
    exact .entry hentry hfile

theorem filesIn_eq (entries : List (EntryName × Node)) :
    filesIn entries = entries.flatMap fun e => e.2.files.map (e.1 :: ·) := by
  induction entries with
  | nil => rfl
  | cons e rest ih => rw [filesIn, ih, List.flatMap_cons]

theorem mem_files_folder : names ∈ (Node.folder entries).files ↔
    ∃ e ∈ entries, ∃ more, names = e.1 :: more ∧ more ∈ e.2.files := by
  rw [files, filesIn_eq, List.mem_flatMap]
  refine exists_congr fun e => and_congr_right fun _ => ?_
  rw [List.mem_map]
  exact exists_congr fun more => by rw [and_comm, eq_comm]

theorem mem_files_iff : names ∈ n.files ↔ n.HasFile names := by
  -- By the names: each one leads to an entry, in which the others lead on.
  induction names generalizing n with
  | nil =>
      cases n with
      | file contents => exact iff_of_true (List.mem_singleton_self []) (.here contents)
      | folder entries => simp [mem_files_folder, hasFile_folder]
      | link target => exact iff_of_false List.not_mem_nil nofun
      | device => exact iff_of_false List.not_mem_nil nofun
  | cons name names ih =>
      cases n with
      | file contents => exact iff_of_false (by simp [files]) nofun
      | folder entries => simp only [mem_files_folder, hasFile_folder, List.cons.injEq, ih,
          and_assoc, exists_eq_left', exists_and_left]
      | link target => exact iff_of_false List.not_mem_nil nofun
      | device => exact iff_of_false List.not_mem_nil nofun

theorem nodup_files (h : n.IsDistinct) : n.files.Nodup := by
  induction h with
  | file contents => exact List.nodup_singleton []
  | folder hnames _ ih =>
      rw [files, filesIn_eq, List.nodup_flatMap]
      refine ⟨fun e he => (ih e he).map fun _ _ heq => List.tail_eq_of_cons_eq heq, ?_⟩
      refine (List.pairwise_map.1 hnames).imp fun {e other} hne names he hother => ?_
      obtain ⟨_, -, rfl⟩ := List.mem_map.1 he
      obtain ⟨_, -, hcons⟩ := List.mem_map.1 hother
      exact hne (List.head_eq_of_cons_eq hcons).symm
  | link target => exact List.nodup_nil
  | device => exact List.nodup_nil

theorem HasFile.plain (h : n.HasFile names) (hnamed : n.IsNamed) :
    ∀ name ∈ names, Path.IsPlain name := by
  induction h with
  | here contents => simp
  | entry hentry _ ih =>
      exact List.forall_mem_cons.2 ⟨hnamed.plain hentry, ih (hnamed.inner hentry)⟩

@[simp]
theorem isTree_file (contents : Contents) : (Node.file contents).IsTree :=
  ⟨.file contents, .file contents, .file contents⟩

theorem isTree_folder : (Node.folder entries).IsTree ↔
    (∀ e ∈ entries, Path.IsPlain e.1) ∧ (entries.map Prod.fst).Nodup ∧ ∀ e ∈ entries, e.2.IsTree := by
  constructor
  · rintro ⟨hnamed, hdistinct, _ | hlinkless⟩
    exact ⟨fun _ he => hnamed.plain he, hdistinct.nodup,
      fun e he => ⟨hnamed.inner he, hdistinct.inner he, hlinkless e he⟩⟩
  · rintro ⟨hplain, hnodup, hinner⟩
    exact ⟨.folder hplain fun e he => (hinner e he).named,
      .folder hnodup fun e he => (hinner e he).distinct,
      .folder fun e he => (hinner e he).linkless⟩

theorem isTree_of_files (hplain : ∀ e ∈ entries, Path.IsPlain e.1)
    (hnodup : (entries.map Prod.fst).Nodup) (hfiles : ∀ e ∈ entries, e.2.isFile) :
    (Node.folder entries).IsTree := by
  refine isTree_folder.2 ⟨hplain, hnodup, fun e he => ?_⟩
  have hfile := hfiles e he
  unfold isFile at hfile
  split at hfile
  · next contents hcontents => exact hcontents ▸ isTree_file contents
  · contradiction

theorem IsTree.inner {e : EntryName × Node} (h : (Node.folder entries).IsTree) (he : e ∈ entries) :
    e.2.IsTree :=
  (isTree_folder.1 h).2.2 e he

theorem IsTree.tail {e : EntryName × Node} (h : (Node.folder (e :: entries)).IsTree) :
    (Node.folder entries).IsTree := by
  obtain ⟨hplain, hnodup, hinner⟩ := isTree_folder.1 h
  exact isTree_folder.2 ⟨fun _ he => hplain _ (List.mem_cons_of_mem e he), (List.nodup_cons.1 hnodup).2,
    fun _ he => hinner _ (List.mem_cons_of_mem e he)⟩

theorem IsTree.rearranged (h : n.IsTree) (hnm : Rearranged n m) : m.IsTree := by
  induction hnm with
  | order hperm =>
      obtain ⟨hplain, hnodup, hinner⟩ := isTree_folder.1 h
      exact isTree_folder.2 ⟨fun e he => hplain e (hperm.mem_iff.2 he),
        (hperm.map Prod.fst).nodup_iff.1 hnodup, fun e he => hinner e (hperm.mem_iff.2 he)⟩
  | inside _ ih =>
      obtain ⟨hplain, hnodup, hinner⟩ := isTree_folder.1 h
      simp only [List.forall_mem_append, List.forall_mem_cons] at hplain hinner
      refine isTree_folder.2 ⟨?_, by simpa using hnodup, ?_⟩
      · simpa only [List.forall_mem_append, List.forall_mem_cons] using hplain
      · simp only [List.forall_mem_append, List.forall_mem_cons]
        exact ⟨hinner.1, ih hinner.2.1, hinner.2.2⟩
  | refl n => exact h
  | trans _ _ ih ih' => exact ih' (ih h)

theorem Rearranged.hasFile_iff (h : Rearranged n m) : n.HasFile names ↔ m.HasFile names := by
  induction h generalizing names with
  | order hperm => simp only [hasFile_folder, hperm.mem_iff]
  | inside _ ih =>
      simp only [hasFile_folder, List.mem_append, List.mem_cons, or_and_right, exists_or,
        exists_eq_left, ih]
  | refl n => rfl
  | trans _ _ ih ih' => exact ih.trans ih'

end

end Node

end Lexing
