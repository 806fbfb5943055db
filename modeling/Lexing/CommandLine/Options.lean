import Lexing.Batch.Settings

namespace Lexing

namespace CommandLine

inductive Switch where
  | json
  | quiet
  | sequential
  | noRecursive
  | failFast
  deriving DecidableEq, Repr

namespace Switch

def all : List Switch := [.json, .quiet, .sequential, .noRecursive, .failFast]

def word : Switch → String
  | .json => "--json"
  | .quiet => "--quiet"
  | .sequential => "--sequential"
  | .noRecursive => "--no-recursive"
  | .failFast => "--fail-fast"

def ofWord? (word : String) : Option Switch := all.find? fun s => s.word == word

end Switch

inductive Setting where
  | config
  | logFile
  | threads
  | maxFiles
  deriving DecidableEq, Repr

namespace Setting

def all : List Setting := [.config, .logFile, .threads, .maxFiles]

def word : Setting → String
  | .config => "--config"
  | .logFile => "--log-file"
  | .threads => "--threads"
  | .maxFiles => "--max-files"

def ofWord? (word : String) : Option Setting := all.find? fun s => s.word == word

end Setting

inductive Group where
  | switch (s : Switch)
  | setting (s : Setting) (value : String)
  | incomplete (s : Setting)
  | unknown (word : String)
  deriving DecidableEq, Repr

def groups : List String → List Group
  | [] => []
  | [word] =>
      match Switch.ofWord? word, Setting.ofWord? word with
      | some s, _ => [.switch s]
      | none, some s => [.incomplete s]
      | none, none => [.unknown word]
  | word :: value :: more =>
      match Switch.ofWord? word, Setting.ofWord? word with
      | some s, _ => .switch s :: groups (value :: more)
      | none, some s => .setting s value :: groups more
      | none, none => .unknown word :: groups (value :: more)

structure Options where
  json : Bool
  quiet : Bool
  config : Option String
  logFile : Option String
  threads : Option Nat
  sequential : Bool
  noRecursive : Bool
  maxFiles : Option Nat
  failFast : Bool
  deriving DecidableEq, Repr

namespace Options

def default : Options := ⟨false, false, none, none, none, false, false, none, false⟩

def set (o : Options) : Switch → Options
  | .json => { o with json := true }
  | .quiet => { o with quiet := true }
  | .sequential => { o with sequential := true }
  | .noRecursive => { o with noRecursive := true }
  | .failFast => { o with failFast := true }

def give (o : Options) (s : Setting) (value : String) : Options :=
  match s with
  | .config => { o with config := some value }
  | .logFile => { o with logFile := some value }
  | .threads => match readCount value with
      | some n => { o with threads := some (max 1 n) }
      | none => o
  | .maxFiles => match readCount value with
      | some n => { o with maxFiles := some n }
      | none => o

def take (o : Options) : Group → Options
  | .switch s => o.set s
  | .setting s value => o.give s value
  | .incomplete _ | .unknown _ => o

def ofGroups (gs : List Group) : Options := gs.foldl take default

def ofArguments (arguments : List String) : Options := ofGroups (groups arguments)

def batchSettings (o : Options) (p : Preferences) : BatchSettings :=
  let b := BatchSettings.ofPreferences p
  { b with
    threads := if o.sequential then 1 else o.threads.getD b.threads
    recursive := b.recursive && !o.noRecursive
    failFast := b.failFast || o.failFast
    fileLimit := o.maxFiles
    progress := !o.quiet && !o.json }

end Options

def Group.warning? : Group → Option String
  | .switch _ => none
  | .setting s value =>
      if (s = .threads ∨ s = .maxFiles) ∧ (readCount value).isNone then
        some s!"Warning: Invalid number '{value}' for {s.word}"
      else
        none
  | .incomplete s => some s!"Warning: {s.word} requires a value"
  | .unknown word => some s!"Warning: Unknown option '{word}'"

end CommandLine

end Lexing
