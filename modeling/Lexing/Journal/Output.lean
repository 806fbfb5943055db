import Lexing.Files.Creation

namespace Lexing

inductive Output where
  | standard (line : String)
  | error (line : String)
  | append (path : Path) (line : String)
  deriving DecidableEq, Repr

namespace Output

private def textOf (line? : Output → Option String) (outputs : List Output) : String :=
  outputs.foldl (fun text o => match line? o with
    | some line => text ++ line ++ "\n"
    | none => text) ""

def standardText : List Output → String :=
  textOf fun
    | .standard line => some line
    | _ => none

def errorText : List Output → String :=
  textOf fun
    | .error line => some line
    | _ => none

def textAt (s : FileSystem) (place : Place) : List Output → String :=
  textOf fun
    | .append path line => if s.leadsTo path place then some line else none
    | _ => none

end Output

def FileSystem.receive (s : FileSystem) (outputs : List Output) : FileSystem :=
  outputs.foldl (fun s o => match o with
    | .append path line => (s.append path (line ++ "\n")).toOption.getD s
    | _ => s) s

structure Disk where
  files : FileSystem
  logs : List Path
  deriving Repr

namespace Disk

instance : Coe FileSystem Disk := ⟨fun files => ⟨files, []⟩⟩

def added (d : Disk) (outputs : Unit → List Output) (place : Place) : String :=
  if d.logs.any (d.files.leadsTo · place) then Output.textAt d.files place (outputs ()) else ""

@[simp]
theorem added_files (s : FileSystem) (outputs : Unit → List Output) (place : Place) :
    (s : Disk).added outputs place = "" := rfl

end Disk

end Lexing
