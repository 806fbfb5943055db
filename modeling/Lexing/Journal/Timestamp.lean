namespace Lexing

namespace Timestamp

private def padded (width n : Nat) : String :=
  let digits := toString n
  "".pushn '0' (width - digits.length) ++ digits

/-- Year, month and day of a day counted from the first day of 1970. Years are taken to begin in
March, so that leap days come last. -/
def civil (day : Int) : Int × Nat × Nat :=
  let shifted := day + 719468
  let era := Int.fdiv shifted 146097
  let dayOfEra := (shifted - era * 146097).toNat
  let yearOfEra := (dayOfEra - dayOfEra / 1460 + dayOfEra / 36524 - dayOfEra / 146096) / 365
  let dayOfYear := dayOfEra - (365 * yearOfEra + yearOfEra / 4 - yearOfEra / 100)
  let shiftedMonth := (5 * dayOfYear + 2) / 153
  let dayOfMonth := dayOfYear - (153 * shiftedMonth + 2) / 5 + 1
  let month := if shiftedMonth < 10 then shiftedMonth + 3 else shiftedMonth - 9
  let year := (yearOfEra : Int) + era * 400
  (if month ≤ 2 then year + 1 else year, month, dayOfMonth)

private def yearText (year : Int) : String :=
  match year with
  | .ofNat y => if y ≤ 9999 then padded 4 y else "+" ++ toString y
  | .negSucc y => "-" ++ padded 4 (y + 1)

def write (millis : Int) : String :=
  let day := Int.fdiv millis 86400000
  let rest := (millis - day * 86400000).toNat
  let (year, month, dayOfMonth) := civil day
  let seconds := rest / 1000
  let date := s!"{yearText year}-{padded 2 month}-{padded 2 dayOfMonth}"
  let time :=
    s!"{padded 2 (seconds / 3600)}:{padded 2 (seconds / 60 % 60)}:{padded 2 (seconds % 60)}"
  s!"{date}T{time}.{padded 3 (rest % 1000)}Z"

end Timestamp

end Lexing
