import Lexing.Files.Walk

namespace Lexing

namespace FileSystem

private def change (s : FileSystem) (names : List EntryName) (f : Node → Node) : FileSystem :=
  { s with root := s.root.changeAt f names }

def addAt (s : FileSystem) (node : Node) (pieces : List (List UInt8)) :
    Except PathError FileSystem :=
  match pieces.getLast? with
  | none => .error .taken
  | some name =>
      match Path.walk Path.linkLimit (.ofRoot s.root) pieces.dropLast with
      | .error error => .error error
      | .ok (folder, _) =>
          if !folder.node.isFolder then .error .blocked
          else if name = [Path.dot, Path.dot] ∨ (folder.node.entry? name).isSome then .error .taken
          else if !Path.isName name then .error .blocked
          else .ok (s.change folder.names (.withEntry name node))

private def ensureFolder (s : FileSystem) (pieces : List (List UInt8)) :
    Except PathError FileSystem :=
  match s.addAt (.folder []) pieces with
  | .error .taken =>
      match Path.walk Path.linkLimit (.ofRoot s.root) pieces with
      | .ok (place, _) => if place.node.isFolder then .ok s else .error .taken
      | .error _ => .error .taken
  | made => made

def makeFolders (s : FileSystem) : List (List UInt8) → Except PathError FileSystem
  | [] => .ok s
  | last :: before =>
      let pieces := (last :: before).reverse
      match s.ensureFolder pieces with
      | .error .missing => do (← s.makeFolders before).ensureFolder pieces
      | made => made

private def makeParents (s : FileSystem) (p : Path) : Except PathError FileSystem :=
  s.makeFolders (p.steps.reverse.drop 1 ++ (s.base p).reverse)

private def changeFile (s : FileSystem) (p : Path) (f : Contents → Contents) :
    Except PathError FileSystem :=
  if p.isTooLong then .error .blocked
  else match Path.spot Path.linkLimit (.ofRoot s.root) (s.base p ++ p.pieces) with
    | .ok (.taken place) =>
        if place.node.isFolder then .error .blocked
        else .ok (s.change place.names fun
          | .file contents => .file (f contents)
          | node => node)
    | .ok (.free folder name) =>
        .ok (s.change folder.names (.withEntry name (.file (f (.text "")))))
    | .error error => .error error

def append (s : FileSystem) (p : Path) (text : String) : Except PathError FileSystem :=
  s.changeFile p (·.append text)

def touch (s : FileSystem) (p : Path) : Except PathError FileSystem := do
  if p.isTooLong then .error .blocked else (← s.makeParents p).append p ""

private def replaceAt (s : FileSystem) (node : Node) (pieces : List (List UInt8)) :
    Except PathError FileSystem :=
  match s.addAt node pieces with
  | .error .taken =>
      match pieces.getLast?, Path.walk Path.linkLimit (.ofRoot s.root) pieces.dropLast with
      | some name, .ok (folder, _) =>
          .ok (s.change (folder.names ++ [name]) fun
            | .folder entries => .folder entries
            | _ => node)
      | _, _ => .error .taken
  | made => made

def put (s : FileSystem) (p : Path) (node : Node) : Except PathError FileSystem :=
  match node with
  | .file contents => do (← s.makeParents p).changeFile p fun _ => contents
  | .folder _ => s.makeFolders (s.base p ++ p.steps).reverse
  | .link _ | .device => do (← s.makeParents p).replaceAt node (s.base p ++ p.steps)

private def standardFolders : List (EntryName × Node) :=
  [("dev".toUTF8.toList, .folder [("null".toUTF8.toList, .device)]),
    ("tmp".toUTF8.toList, .folder [])]

def empty (working : List EntryName) : FileSystem :=
  let s : FileSystem := ⟨.folder standardFolders, working⟩
  (s.makeFolders working.reverse).toOption.getD s

end FileSystem

end Lexing
