import Lexing.Files.Walk
import Lexing.Proofs.Files.Paths

namespace Lexing

inductive Node.IsNamed : Node → Prop
  | file (contents : Contents) : IsNamed (.file contents)
  | folder {entries : List (EntryName × Node)} : (∀ e ∈ entries, Path.IsPlain e.1) →
      (∀ e ∈ entries, IsNamed e.2) → IsNamed (.folder entries)
  | link (target : Path) : IsNamed (.link target)
  | device : IsNamed .device

inductive Node.IsDistinct : Node → Prop
  | file (contents : Contents) : IsDistinct (.file contents)
  | folder {entries : List (EntryName × Node)} : (entries.map Prod.fst).Nodup →
      (∀ e ∈ entries, IsDistinct e.2) → IsDistinct (.folder entries)
  | link (target : Path) : IsDistinct (.link target)
  | device : IsDistinct .device

def Node.Hereditary (P : Node → Prop) : Prop :=
  ∀ entries, P (.folder entries) → ∀ e ∈ entries, P e.2

namespace Node.IsNamed

variable {entries : List (EntryName × Node)} {e : EntryName × Node}

theorem hereditary : Hereditary IsNamed := by
  rintro entries (_ | ⟨-, hinner⟩)
  exact hinner

theorem plain (h : (Node.folder entries).IsNamed) (he : e ∈ entries) : Path.IsPlain e.1 := by
  cases h with
  | folder hplain _ => exact hplain e he

theorem inner (h : (Node.folder entries).IsNamed) (he : e ∈ entries) : e.2.IsNamed :=
  hereditary entries h e he

theorem tail (h : (Node.folder (e :: entries)).IsNamed) : (Node.folder entries).IsNamed :=
  .folder (fun _ he => h.plain (List.mem_cons_of_mem _ he))
    fun _ he => h.inner (List.mem_cons_of_mem _ he)

end Node.IsNamed

namespace Node.IsDistinct

variable {entries : List (EntryName × Node)} {e : EntryName × Node}

theorem hereditary : Hereditary IsDistinct := by
  rintro entries (_ | ⟨-, hinner⟩)
  exact hinner

theorem inner (h : (Node.folder entries).IsDistinct) (he : e ∈ entries) : e.2.IsDistinct :=
  hereditary entries h e he

theorem nodup (h : (Node.folder entries).IsDistinct) : (entries.map Prod.fst).Nodup := by
  cases h with
  | folder hnodup _ => exact hnodup

theorem tail (h : (Node.folder (e :: entries)).IsDistinct) : (Node.folder entries).IsDistinct :=
  .folder (List.nodup_cons.1 h.nodup).2 fun _ he => h.inner (List.mem_cons_of_mem _ he)

end Node.IsDistinct

variable {P : Node → Prop}

theorem Node.Hereditary.entry? (hP : Hereditary P) {n inner : Node} {name : EntryName} (h : P n)
    (hentry : n.entry? name = some inner) : P inner := by
  cases n with
  | folder entries =>
      obtain ⟨before, after, hentries, -⟩ := List.lookup_eq_some_iff.1 hentry
      have hmem : (name, inner) ∈ (Node.folder entries).entries := by simp [hentries]
      exact hP entries h _ hmem
  | _ => simp [Node.entry?, Node.entries] at hentry

structure Place.Holds (P : Node → Prop) (p : Place) : Prop where
  node : P p.node
  above : ∀ e ∈ p.above, P e.2

namespace Place.Holds

variable {p : Place}

theorem up (h : p.Holds P) : p.up.Holds P := by
  unfold Place.up
  split
  · exact h
  · next habove =>
      have hall := h.above
      rw [habove] at hall
      obtain ⟨hnode, hmore⟩ := List.forall_mem_cons.1 hall
      exact ⟨hnode, hmore⟩

theorem down (h : p.Holds P) {node : Node} (hnode : P node) (name : EntryName) :
    (p.down name node).Holds P :=
  ⟨hnode, List.forall_mem_cons.2 ⟨h.node, h.above⟩⟩

theorem ofRoot {root : Node} (h : P root) : (Place.ofRoot root).Holds P :=
  ⟨h, by simp [Place.ofRoot]⟩

theorem root (h : p.Holds P) : p.root.Holds P := by
  unfold Place.root
  split
  · exact h
  · next hlast => exact ofRoot (h.above _ (List.mem_of_getLast? hlast))

end Place.Holds

theorem Path.holds_of_walk (hP : Node.Hereditary P) {links left : Nat} {start place : Place}
    {todo : List (List UInt8)} (h : start.Holds P)
    (hwalk : walk links start todo = .ok (place, left)) : place.Holds P := by
  fun_induction walk links start todo with
  | case1 start links =>
      obtain ⟨rfl, -⟩ := Prod.mk.inj (Except.ok.inj hwalk)
      exact h
  | case2 => contradiction
  | case3 links start piece rest _ _ ih => exact ih h hwalk
  | case4 links start rest _ _ ih => exact ih h.up hwalk
  | case5 => contradiction
  | case6 => contradiction
  | case7 => contradiction
  | case8 start piece rest _ _ _ target hentry links _ ih =>
      refine ih ?_ hwalk
      split
      · exact h.root
      · exact h
  | case9 links start piece rest _ _ _ node _ hentry ih =>
      exact ih (h.down (hP.entry? h.node hentry) _) hwalk

theorem FileSystem.holds_of_find? (hP : Node.Hereditary P) {s : FileSystem} {path : Path}
    {found : Place × Nat} (h : P s.root) (hfind : s.find? path = some found) : found.1.Holds P := by
  unfold find? at hfind
  split at hfind
  · contradiction
  · cases hwalk : Path.walk Path.linkLimit (.ofRoot s.root) (s.base path ++ path.pieces) with
    | error e => simp [hwalk, Except.toOption] at hfind
    | ok reached =>
        obtain rfl : reached = found := by simpa [hwalk, Except.toOption] using hfind
        exact Path.holds_of_walk hP (.ofRoot h) hwalk

theorem FileSystem.bytes_ne_nil_of_find? {s : FileSystem} {path : Path} {found : Place × Nat}
    (hfind : s.find? path = some found) : path.bytes ≠ [] := by
  intro hnil
  simp [find?, hnil] at hfind

end Lexing
