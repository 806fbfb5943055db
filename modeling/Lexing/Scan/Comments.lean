import Lexing.Text.Classes

namespace Lexing

structure Comments where
  line : List String
  block : Option (String × String)
  deriving DecidableEq, Repr, Inhabited

namespace Comments

def splitCommas : List Char → List (List Char)
  | [] => [[]]
  | c :: cs =>
      if c = ',' then
        [] :: splitCommas cs
      else
        match splitCommas cs with
        | piece :: pieces => (c :: piece) :: pieces
        | [] => [[c]]

def trim (cs : List Char) : List Char :=
  ((cs.dropWhile Text.isBlank).reverse.dropWhile Text.isBlank).reverse

def readLine (setting : String) : List String :=
  (((splitCommas setting.toList).map trim).filter fun piece => !piece.isEmpty).map String.ofList

def readBlock (setting : String) : Option (String × String) :=
  let before := setting.toList.takeWhile (· != ',')
  match setting.toList.dropWhile (· != ',') with
  | [] => none
  | _ :: after =>
      let opening := trim before
      let closing := trim after
      if opening.isEmpty || closing.isEmpty then
        none
      else
        some (String.ofList opening, String.ofList closing)

end Comments

end Lexing
