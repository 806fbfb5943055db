import Lexing.Text.Utf8

namespace Lexing

structure Path where
  bytes : List UInt8
  deriving DecidableEq, Repr, Inhabited

inductive PathPart where
  | root
  | here
  | parent
  | name (bytes : List UInt8)
  deriving DecidableEq, Repr

namespace PathPart

def compareBytes : List UInt8 → List UInt8 → Ordering
  | [], [] => .eq
  | [], _ :: _ => .lt
  | _ :: _, [] => .gt
  | a :: as, b :: bs => if a < b then .lt else if b < a then .gt else compareBytes as bs

def rank : PathPart → Nat
  | .root => 0
  | .here => 1
  | .parent => 2
  | .name _ => 3

protected def compare : PathPart → PathPart → Ordering
  | .name a, .name b => compareBytes a b
  | p, q => Ord.compare p.rank q.rank

end PathPart

namespace Path

def slash : UInt8 := 0x2f

def dot : UInt8 := 0x2e

def ofString (s : String) : Path := ⟨s.toUTF8.toList⟩

def text? (p : Path) : Option String := Text.ofBytes? p.bytes

def display (p : Path) : String := Text.ofBytesLossy p.bytes

def split (bs : List UInt8) : List (List UInt8) :=
  bs.foldr (fun b pieces =>
    if b = slash then [] :: pieces
    else match pieces with
      | piece :: more => (b :: piece) :: more
      | [] => [[b]]) [[]]

def partOf (piece : List UInt8) : Option PathPart :=
  if piece = [] ∨ piece = [dot] then none
  else if piece = [dot, dot] then some .parent
  else some (.name piece)

def parts (p : Path) : List PathPart :=
  match p.bytes, split p.bytes with
  | [], _ => []
  | b :: _, first :: more =>
      if b = slash then .root :: more.filterMap partOf
      else (if first = [dot] then [.here] else (partOf first).toList) ++ more.filterMap partOf
  | _, [] => []

def compareParts : List PathPart → List PathPart → Ordering
  | [], [] => .eq
  | [], _ :: _ => .lt
  | _ :: _, [] => .gt
  | a :: as, b :: bs => (a.compare b).then (compareParts as bs)

protected def compare (p q : Path) : Ordering := compareParts p.parts q.parts

def inOrder {α : Type} (pathOf : α → Path) (items : List α) : List α :=
  ((items.map fun x => ((pathOf x).parts, x)).mergeSort fun a b =>
    compareParts a.1 b.1 != .gt).map (·.2)

def isAbsolute (p : Path) : Bool := p.bytes.head? == some slash

def join (p q : Path) : Path :=
  if q.isAbsolute || p.bytes.isEmpty then q
  else if p.bytes.getLast? = some slash then ⟨p.bytes ++ q.bytes⟩
  else ⟨p.bytes ++ slash :: q.bytes⟩

def fileName? (p : Path) : Option (List UInt8) :=
  match p.parts.getLast? with
  | some (.name bytes) => some bytes
  | _ => none

def extensionOf? (name : List UInt8) : Option (List UInt8) :=
  let after := (name.reverse.takeWhile (· != dot)).reverse
  if after.length + 1 < name.length then some after else none

def extension? (p : Path) : Option (List UInt8) := p.fileName?.bind extensionOf?

end Path

end Lexing
