import Lexing.Text.Lowercase

namespace Lexing

inductive Level where
  | error
  | warning
  | info
  | debug
  deriving DecidableEq, Repr

namespace Level

def rank : Level → Nat
  | .error => 0
  | .warning => 1
  | .info => 2
  | .debug => 3

def passes (level threshold : Level) : Bool := level.rank ≤ threshold.rank

def label : Level → String
  | .error => "ERROR"
  | .warning => "WARN"
  | .info => "INFO"
  | .debug => "DEBUG"

def word : Level → String
  | .error => "error"
  | .warning => "warning"
  | .info => "info"
  | .debug => "debug"

def title : Level → String
  | .error => "Error"
  | .warning => "Warning"
  | .info => "Info"
  | .debug => "Debug"

def all : List Level := [.error, .warning, .info, .debug]

def ofWord? (s : String) : Option Level := all.find? fun level => level.word == s

def ofSetting? (s : String) : Option Level :=
  match Text.lower s with
  | "0" => some .error
  | "warn" | "1" => some .warning
  | "2" => some .info
  | "3" => some .debug
  | word => ofWord? word

end Level

end Lexing
