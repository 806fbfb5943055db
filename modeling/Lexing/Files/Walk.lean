import Lexing.Files.Tree

namespace Lexing

inductive PathError where
  | missing
  | taken
  | blocked
  deriving DecidableEq, Repr

inductive Spot where
  | taken (place : Place)
  | free (folder : Place) (name : EntryName)
  deriving Repr

namespace Path

def linkLimit : Nat := 40

def byteLimit : Nat := 4095

def isTooLong (p : Path) : Bool := byteLimit < p.bytes.length

def pieces (p : Path) : List (List UInt8) := split p.bytes

def isIdle (piece : List UInt8) : Bool := piece == [] || piece == [dot]

def steps (p : Path) : List (List UInt8) := p.pieces.filter (!isIdle ·)

def walk (links : Nat) (start : Place) (todo : List (List UInt8)) :
    Except PathError (Place × Nat) :=
  match todo with
  | [] => .ok (start, links)
  | piece :: rest =>
      if !start.node.isFolder then .error .blocked
      else if isIdle piece then walk links start rest
      else if piece = [dot, dot] then walk links start.up rest
      else match start.node.entry? piece with
        | none => .error .missing
        | some (.link target) =>
            match links with
            | 0 => .error .blocked
            | links + 1 =>
                if target.bytes.isEmpty then .error .missing
                else walk links (if target.isAbsolute then start.root else start)
                  (target.pieces ++ rest)
        | some node => walk links (start.down piece node) rest
termination_by (links, todo.length)

def isName (piece : List UInt8) : Bool :=
  !isIdle piece && piece != [dot, dot] && piece.length ≤ 255 && !piece.contains 0

def spot (links : Nat) (start : Place) (todo : List (List UInt8)) : Except PathError Spot :=
  match todo.getLast? with
  | none => .error .blocked
  | some name =>
      match walk links start todo.dropLast with
      | .error error => .error error
      | .ok (folder, left) =>
          if !isName name || !folder.node.isFolder then .error .blocked
          else match folder.node.entry? name with
            | none => .ok (.free folder name)
            | some (.link target) =>
                match links with
                | 0 => .error .blocked
                | fewer + 1 =>
                    if left = 0 then .error .blocked
                    else spot (min (left - 1) fewer)
                      (if target.isAbsolute then folder.root else folder) target.pieces
            | some node => .ok (.taken (folder.down name node))
termination_by links

end Path

structure FileSystem where
  root : Node
  working : List EntryName
  deriving Repr

namespace FileSystem

def workingPath (s : FileSystem) : Path :=
  ⟨s.working.flatMap fun name => Path.slash :: name⟩

def base (s : FileSystem) (p : Path) : List EntryName := if p.isAbsolute then [] else s.working

def find? (s : FileSystem) (p : Path) : Option (Place × Nat) :=
  if p.bytes.isEmpty || p.isTooLong then none
  else (Path.walk Path.linkLimit (.ofRoot s.root) (s.base p ++ p.pieces)).toOption

def node? (s : FileSystem) (p : Path) : Option Node := (s.find? p).map (·.1.node)

def exists? (s : FileSystem) (p : Path) : Bool := (s.find? p).isSome

def isFile (s : FileSystem) (p : Path) : Bool := (s.node? p).any (·.isFile)

def isFolder (s : FileSystem) (p : Path) : Bool := (s.node? p).any (·.isFolder)

def leadsTo (s : FileSystem) (p : Path) (place : Place) : Bool :=
  (s.find? p).any fun found => found.1.names == place.names

def contents? (s : FileSystem) (p : Path) : Option Contents :=
  match s.node? p with
  | some (.file contents) => some contents
  | _ => none

def text? (s : FileSystem) (p : Path) : Option String :=
  match s.node? p with
  | some (.file contents) => contents.text?
  | some .device => some ""
  | _ => none

def canonical (p : Place) : Path := ⟨p.names.flatMap fun name => Path.slash :: name⟩

end FileSystem

end Lexing
