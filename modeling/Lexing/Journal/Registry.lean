namespace Lexing

inductive Severity where
  | critical
  | high
  | medium
  | low
  deriving DecidableEq, Repr

namespace Severity

def name : Severity → String
  | .critical => "Critical"
  | .high => "High"
  | .medium => "Medium"
  | .low => "Low"

def rank : Severity → Nat
  | .critical => 0
  | .high => 1
  | .medium => 2
  | .low => 3

end Severity

structure CodeEntry where
  code : String
  category : String
  severity : Severity
  recoverable : Bool
  halts : Bool
  description : String
  action : String
  deriving DecidableEq, Repr

namespace Registry

private def fatal (code category : String) (severity : Severity) (description action : String) :
    CodeEntry := ⟨code, category, severity, false, true, description, action⟩

private def lexical (code : String) (severity : Severity) (description action : String) :
    CodeEntry := ⟨code, "Lexical", severity, true, false, description, action⟩

private def success (code description action : String) : CodeEntry :=
  ⟨code, "Success", .low, true, false, description, action⟩

def entries : List CodeEntry := [
  fatal "ERR001" "System" .critical
    "Critical internal system error" "File a bug report with the failing input",
  fatal "ERR002" "System" .critical
    "Logging or runtime initialization failed" "Check environment configuration and restart",
  fatal "ERR003" "System" .high
    "Runtime configuration could not be loaded" "Fix the configuration file or RAVEN_* variables",
  fatal "E005" "FileProcessing" .high "Source file not found" "Check the path and try again",
  fatal "E006" "FileProcessing" .medium
    "Source file has the wrong extension" "Rename the file to use the .rv extension",
  fatal "E007" "FileProcessing" .high
    "Source file exceeds the configured size limit" "Split the file or raise max_file_size",
  fatal "E008" "FileProcessing" .low "Source file is empty" "Add source text to the file",
  fatal "E009" "FileProcessing" .high
    "Permission denied reading source file" "Check file permissions",
  fatal "E010" "FileProcessing" .high
    "Source file is not valid UTF-8" "Re-encode the file as UTF-8",
  fatal "E011" "FileProcessing" .high
    "I/O error while reading source file" "Check disk health and retry",
  fatal "E012" "FileProcessing" .medium
    "Invalid source path" "Provide a path to a regular file",
  fatal "E013" "FileProcessing" .medium
    "Source file has too many lines" "Split the file or raise max_line_count",
  lexical "E020" .medium
    "Unrecognized character" "Remove the character or quote it inside a string",
  lexical "E021" .medium
    "Unterminated string literal" "Add the closing quote before the end of the line",
  lexical "E022" .medium
    "Malformed number literal" "Use digits with at most one decimal point followed by digits",
  lexical "E023" .medium "Identifier exceeds maximum length" "Use a shorter name",
  lexical "E024" .medium "String literal exceeds maximum size" "Split the literal",
  lexical "E025" .medium
    "Invalid escape sequence in string literal" "Use one of \\n \\t \\r \\0 \\\\ \\\" \\'",
  lexical "E026" .low "Comment exceeds maximum length" "Shorten the comment",
  fatal "E027" "Lexical" .high "Token count exceeds maximum" "Split the source file",
  lexical "E028" .medium "Unterminated block comment" "Close the block comment",
  fatal "E029" "Lexical" .critical
    "Token requested after the end-of-input sentinel" "Stop scanning once end has been produced",
  fatal "E030" "Lexical" .critical
    "Token payload does not match its kind" "Construct tokens through the scanner",
  fatal "B001" "Batch" .high "Batch directory not found" "Check the directory path",
  fatal "B002" "Batch" .low
    "No source files found in directory" "Check the directory contains .rv files",
  fatal "B003" "Batch" .medium
    "Too many files in batch" "Use --max-files or split the directory",
  fatal "B004" "Batch" .high
    "I/O error during directory traversal" "Check directory permissions",
  fatal "B005" "Batch" .critical
    "Batch worker thread failed" "Re-run sequentially to isolate the failing file",
  success "I001" "Operation completed successfully" "None",
  success "I004" "System initialization completed" "None",
  success "I006" "File processed successfully" "None",
  success "I007" "File validation passed" "None",
  success "I020" "Tokenization completed" "Hand the token stream to the parser",
  success "I021" "Token stream validation passed" "None",
  success "I030" "Batch file discovery completed" "None",
  success "I031" "Batch processing completed" "None"]

def find? (code : String) : Option CodeEntry := entries.find? fun e => e.code == code

def severity (code : String) : Severity := ((find? code).map (·.severity)).getD .medium

def isRecoverable (code : String) : Bool := ((find? code).map (·.recoverable)).getD true

def halts (code : String) : Bool := ((find? code).map (·.halts)).getD false

def noDescription : String := "Unknown error"

def description (code : String) : String := ((find? code).map (·.description)).getD noDescription

def noAction : String := "No specific action available"

def action (code : String) : String := ((find? code).map (·.action)).getD noAction

def category (code : String) : String := ((find? code).map (·.category)).getD "Unknown"

def isKnown (code : String) : Bool := (find? code).isSome

def isDescribed (code : String) : Bool := description code != noDescription

def demand (p : String → Bool) (complaint : String → String) (codes : List String) :
    Except String Unit :=
  match codes.find? fun code => !p code with
  | some code => .error (complaint code)
  | none => .ok ()

end Registry

end Lexing
