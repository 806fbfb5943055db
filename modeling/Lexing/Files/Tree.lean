import Lexing.Files.Path

namespace Lexing

inductive Contents where
  | text (s : String)
  | raw (bytes : List UInt8)
  | sparse (size : Nat)
  deriving Repr, Inhabited

namespace Contents

def size : Contents → Nat
  | .text s => s.utf8ByteSize
  | .raw bytes => bytes.length
  | .sparse n => n

def text? : Contents → Option String
  | .text s => some s
  | .raw bytes => Text.ofBytes? bytes
  | .sparse n => some ("".pushn '\x00' n)

def append (c : Contents) (added : String) : Contents :=
  match c with
  | .text s => .text (s ++ added)
  | .raw bytes => .raw (bytes ++ added.toUTF8.toList)
  | .sparse n => if added.isEmpty then .sparse n else .text ("".pushn '\x00' n ++ added)

@[simp]
theorem append_empty (c : Contents) : c.append "" = c := by
  cases c with
  | text s => simp [append]
  | raw bytes => simp [append]
  | sparse n => simp [append]

end Contents

abbrev EntryName := List UInt8

inductive Node where
  | file (contents : Contents)
  | folder (entries : List (EntryName × Node))
  | link (target : Path)
  | device
  deriving Repr, Inhabited

namespace Node

def isFile : Node → Bool
  | .file _ => true
  | _ => false

def isFolder : Node → Bool
  | .folder _ => true
  | _ => false

def entries : Node → List (EntryName × Node)
  | .folder entries => entries
  | _ => []

def entry? (n : Node) (name : EntryName) : Option Node := n.entries.lookup name

def changeAt (change : Node → Node) : List EntryName → Node → Node
  | [], node => change node
  | name :: more, .folder entries =>
      .folder (entries.map fun entry =>
        if entry.1 == name then (name, changeAt change more entry.2) else entry)
  | _ :: _, node => node

def withEntry (name : EntryName) (added : Node) : Node → Node
  | .folder entries => .folder ((name, added) :: entries)
  | node => node

end Node

structure Place where
  name : EntryName
  node : Node
  above : List (EntryName × Node)
  deriving Repr, Inhabited

namespace Place

def ofRoot (root : Node) : Place := ⟨[], root, []⟩

def names (p : Place) : List EntryName :=
  match p.above with
  | [] => []
  | _ :: _ => ((p.name :: (p.above.map (·.1)).dropLast)).reverse

def up (p : Place) : Place :=
  match p.above with
  | [] => p
  | (name, node) :: above => ⟨name, node, above⟩

def down (p : Place) (name : EntryName) (node : Node) : Place :=
  ⟨name, node, (p.name, p.node) :: p.above⟩

def root (p : Place) : Place :=
  match p.above.getLast? with
  | none => p
  | some (_, node) => ofRoot node

end Place

end Lexing
