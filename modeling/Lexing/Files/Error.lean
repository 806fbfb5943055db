import Lexing.Files.Path
import Lexing.Text.Quoted

namespace Lexing

inductive FileError where
  | notFound (path : String)
  | invalidExtension (extension : Option String)
  | tooLarge (size limit : Nat)
  | empty
  | permissionDenied (path : String)
  | invalidEncoding (path : String)
  | unreadable (message : String)
  | invalidPath (path : String)
  | tooManyLines (lines limit : Nat)
  deriving DecidableEq, Repr

namespace FileError

def code : FileError → String
  | .notFound _ => "E005"
  | .invalidExtension _ => "E006"
  | .tooLarge _ _ => "E007"
  | .empty => "E008"
  | .permissionDenied _ => "E009"
  | .invalidEncoding _ => "E010"
  | .unreadable _ => "E011"
  | .invalidPath _ => "E012"
  | .tooManyLines _ _ => "E013"

private def found : Option String → String
  | some extension => s!"Some({Text.quote extension})"
  | none => "None"

def message : FileError → String
  | .notFound path => s!"File not found: {path}"
  | .invalidExtension extension =>
      s!"Invalid file extension: expected .rv, found {found extension}"
  | .tooLarge size limit => s!"File too large: {size} bytes (max: {limit})"
  | .empty => "File is empty"
  | .permissionDenied path => s!"Permission denied: {path}"
  | .invalidEncoding path => s!"Invalid UTF-8 encoding in file: {path}"
  | .unreadable message => s!"I/O error reading file: {message}"
  | .invalidPath path => s!"Invalid file path: {path}"
  | .tooManyLines lines limit => s!"File exceeds maximum line count: {lines} (max: {limit})"

end FileError

end Lexing
