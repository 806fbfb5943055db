import Lexing.Toml.Scalar

namespace Lexing.Toml

open Reader

def skipLines : Nat → Reader Unit
  | 0 => failure
  | fuel + 1 => do
      skipSpaces
      skipComment
      if ← acceptLineEnd then skipLines fuel

private def splitLast (key : List String) : Option (List String × String) :=
  key.getLast?.map fun last => (key.dropLast, last)

def Entries.give (entries : Entries) (header key : List String) (v : Value) : Option Entries := do
  let (path, last) ← splitLast key
  Entries.change false header .opened entries fun origin inner =>
    Entries.change true path origin inner (Entries.assign last (!path.isEmpty) v)

private def enter (depth : Nat) : Reader Nat :=
  if depth + 1 < depthLimit then return depth + 1 else failure

mutual

def readValue (size depth : Nat) : Nat → Reader Value
  | 0 => failure
  | fuel + 1 => do
      match ← peek with
      | some '"' => return .text (← readString size)
      | some '\'' => return .text (← readString size)
      | some '[' =>
          drop 1
          let depth ← enter depth
          return .list (← readItems size depth fuel [])
      | some '\x7b' =>
          drop 1
          let depth ← enter depth
          skipSpaces
          if ← accept "\x7d" then return .table []
          return .table (Node.toFields (← readFields size depth fuel []))
      | _ => readBare

def readItems (size depth : Nat) : Nat → List Value → Reader (List Value)
  | 0, _ => failure
  | fuel + 1, read => do
      skipLines size
      if ← accept "]" then return read.reverse
      let v ← readValue size depth fuel
      skipLines size
      if ← accept "," then
        readItems size depth fuel (v :: read)
      else
        expect "]"
        return (v :: read).reverse

def readFields (size depth : Nat) : Nat → Entries → Reader Entries
  | 0, _ => failure
  | fuel + 1, entries => do
      let key ← readKey size
      expect "="
      skipSpaces
      let v ← readValue size depth fuel
      skipSpaces
      let entries ← liftM (entries.give [] key v)
      if ← accept "," then
        readFields size depth fuel entries
      else
        expect "\x7d"
        return entries

end

def readLines (size : Nat) : Nat → List String → Entries → Reader Entries
  | 0, _, _ => failure
  | fuel + 1, header, entries => do
      skipLines size
      match ← peek with
      | none => return entries
      | some '[' =>
          let isItem ← accept "[["
          unless isItem do drop 1
          let key ← readKey size
          expect (if isItem then "]]" else "]")
          finishLine
          let (path, last) ← liftM (splitLast key)
          let step := if isItem then Entries.openItem last else Entries.openTable last
          let entries ← liftM (Entries.change false path .opened entries step)
          readLines size fuel key entries
      | some _ =>
          let key ← readKey size
          expect "="
          skipSpaces
          let v ← readValue size 0 size
          finishLine
          let entries ← liftM (entries.give header key v)
          readLines size fuel header entries

def read? (document : String) : Option Value :=
  let cs := match document.toList with
    | '\ufeff' :: cs => cs
    | cs => cs
  let size := cs.length + 1
  ((readLines size size [] []).run cs).map fun result => .table (Node.toFields result.1)

end Lexing.Toml
