import Lexing.CommandLine.Basic

namespace Lexing

structure DiskCopy where
  files : FileSystem
  folders : List String

namespace DiskCopy

def put (d : DiskCopy) (path : String) (node : Node) : DiskCopy :=
  { d with files := (d.files.put (.ofString path) node).toOption.getD d.files }

def addFile (d : DiskCopy) (path : String) (size : Nat) : IO DiskCopy := do
  if Limits.files.maxSize < size then
    return d.put path (.file (.sparse size))
  let bytes ← IO.FS.readBinFile path
  return d.put path (.file (match String.fromUTF8? bytes with
    | some text => .text text
    | none => .raw bytes.toList))

mutual

partial def add (d : DiskCopy) (named : Bool) (folder : String) : List String → IO DiskCopy
  | [] => d.addAll folder
  | name :: more => do
      let path := if folder == "/" then folder ++ name else s!"{folder}/{name}"
      try
        let target ← IO.FS.realPath path
        let real := target.toString
        let d := if real == path || name == ".." then d else d.put path (.link (.ofString real))
        if ← target.isDir then
          add (d.put real (.folder [])) named real more
        else if (← target.metadata).type == .other then
          return d.put real .device
        else
          let size := (← target.metadata).byteSize.toNat
          if named || [path, real].any fun p => Discovery.isSource (.ofString p) then
            d.addFile real size
          else
            return d.put real (.file (.sparse size))
      catch _ => return d

partial def addAll (d : DiskCopy) (folder : String) : IO DiskCopy := do
  if d.folders.contains folder then
    return d
  let d := { d with folders := folder :: d.folders }
  let entries ← (← IO.FS.realPath folder).readDir
  entries.foldlM (fun d entry => d.add false folder [entry.fileName]) d

end

def names (path : String) : List String :=
  (path.splitOn "/").filter fun name => name != "" && name != "."

def ofPaths (paths : List String) : IO DiskCopy := do
  let working := (← IO.currentDir).toString
  let start : DiskCopy := ⟨.empty (Path.ofString working).steps, []⟩
  paths.foldlM (fun d path =>
    d.add true (if path.startsWith "/" then "/" else working) (names path)) start

end DiskCopy

def readEnvironment : IO Environment := do
  let values ← Preferences.variables.mapM fun name => return (name, ← IO.getEnv name)
  return values.filterMap fun (name, value) => value.map (name, ·)

def Output.write : Output → IO Unit
  | .standard line => IO.println line
  | .error line => IO.eprintln line
  | .append path line => do
      (← IO.FS.Handle.mk path.display .append).putStrLn line

def CommandLine.runOnDisk (arguments : List String) : IO UInt32 := do
  let options := Options.ofArguments arguments.tail
  let copy ← DiskCopy.ofPaths
    (arguments.head?.toList ++ options.config.toList ++ options.logFile.toList)
  let exit := run copy.files (← readEnvironment) "raven-lex" arguments
  for path in options.logFile.toList do
    if exit.files.isFile (.ofString path) then
      let parent := "/".intercalate (path.splitOn "/").dropLast
      unless parent.isEmpty do IO.FS.createDirAll parent
      let _ ← IO.FS.Handle.mk path .append
  exit.outputs.forM Output.write
  return exit.code.toUInt32

end Lexing

def main (arguments : List String) : IO UInt32 := Lexing.CommandLine.runOnDisk arguments
