import Lexing.Journal.Basic
import Lexing.Token.Keyword
import Lexing.Token.Symbol

namespace Lexing

namespace Opening

def fileCodes : List String :=
  ["E005", "E006", "E007", "E008", "E009", "E010", "E011", "E012", "E013", "I006"]

def lexicalCodes : List String :=
  ["E020", "E021", "E022", "E023", "E024", "E025", "E026", "E027", "E028", "E029"]

def fileRemarks : Except String (List Act) := do
  let f := Limits.files
  Registry.demand Registry.isKnown
    (fun code => s!"File processor code {code} not found in metadata registry") fileCodes
  return [.detail ((Event.debug "File processor compile-time configuration loaded").noteAll [
    ("max_file_size", toString f.maxSize),
    ("large_file_threshold", toString f.largeThreshold),
    ("max_line_count", toString f.maxLines)])]

def lexicalRemarks : Except String (List Act) := do
  let l := Limits.lexical
  Registry.demand Registry.isKnown
    (fun code => s!"Lexical error code {code} not found in metadata registry") lexicalCodes
  return [.detail ((Event.debug "Lexical tables initialized").noteAll [
    ("keywords", toString Keyword.all.length), ("operators", toString Symbol.all.length),
    ("max_string_size", toString l.maxString),
    ("max_identifier_length", toString l.maxIdentifier),
    ("max_comment_length", toString l.maxComment),
    ("max_token_count", toString l.maxTokens)])]

def remarks : Except String (List Act) := do return (← fileRemarks) ++ (← lexicalRemarks)

def check : Except String Unit := do
  Registry.demand Registry.isDescribed
    (fun code => s!"Lexical error code {code} has no description") lexicalCodes
  Limits.lexical.check

theorem exists_remarks : ∃ told, remarks = .ok told := ⟨_, rfl⟩

theorem check_eq_ok : check = .ok () := by rfl

end Opening

end Lexing
