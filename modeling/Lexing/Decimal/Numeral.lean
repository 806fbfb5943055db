import Lexing.Decimal.Binary64

namespace Lexing

/-- `digits * 10 ^ power` -/
structure Numeral where
  digits : Nat
  power : Int
  deriving DecidableEq, Repr

namespace Numeral

def digitValue (c : Char) : Nat := c.toNat - '0'.toNat

def natOfDigits (cs : List Char) : Nat :=
  cs.foldl (fun n c => 10 * n + digitValue c) 0

def ofParts (whole fraction : List Char) : Numeral :=
  ⟨natOfDigits (whole ++ fraction), -fraction.length⟩

/-- The magnitude nearest to the numeral, `none` when it is out of range. The first two cases
decide numerals so far out that their powers of ten are not worth computing. -/
def magnitude? (n : Numeral) : Option Magnitude :=
  match n.power with
  | .ofNat p =>
      if n.digits = 0 then some .zero
      else if 400 < p then none
      else Magnitude.ofRatio? (n.digits * Nat.pow 10 p) 1
  | .negSucc p =>
      if 400 + Nat.log2 n.digits < p then some .zero
      else Magnitude.ofRatio? n.digits (Nat.pow 10 (p + 1))

def value (negative : Bool) (n : Numeral) : Binary64 :=
  match n.magnitude? with
  | some x => .finite negative x
  | none => .infinite negative

private def signOf : List Char → Bool × List Char
  | '-' :: cs => (true, cs)
  | '+' :: cs => (false, cs)
  | cs => (false, cs)

private def isExponentMark (c : Char) : Bool := c == 'e' || c == 'E'

private def readPower : List Char → Option Int
  | [] => some 0
  | c :: cs =>
      let (negative, ds) := signOf cs
      if isExponentMark c && !ds.isEmpty && ds.all Char.isDigit then
        some (if negative then -(natOfDigits ds : Int) else natOfDigits ds)
      else
        none

private def readUnsigned (cs : List Char) : Option Numeral :=
  let whole := cs.takeWhile Char.isDigit
  let (fraction, rest) :=
    match cs.dropWhile Char.isDigit with
    | '.' :: more => (more.takeWhile Char.isDigit, more.dropWhile Char.isDigit)
    | rest => ([], rest)
  if whole.isEmpty && fraction.isEmpty then
    none
  else
    (readPower rest).map fun p =>
      ⟨natOfDigits (whole ++ fraction), p - (fraction.length : Int)⟩

def read? (cs : List Char) : Option Binary64 :=
  let (negative, rest) := signOf cs
  let word := rest.map Char.toLower
  if word == "inf".toList || word == "infinity".toList then
    some (.infinite negative)
  else if word == "nan".toList then
    some .nan
  else
    (readUnsigned rest).map (value negative)

private theorem toLower_of_isDigit {c : Char} (h : c.isDigit) : c.toLower = c := by
  simp only [Char.isDigit, Bool.and_eq_true, decide_eq_true_eq] at h
  have hupper : ¬ (c.val ≥ 'A'.val ∧ c.val ≤ 'Z'.val) := by
    rintro ⟨hupper, -⟩
    have hle := UInt32.le_trans hupper h.2
    contradiction
  exact dif_neg hupper

private theorem readUnsigned_of_isDigit {whole fraction : List Char} (hne : whole ≠ [])
    (hw : ∀ c ∈ whole, c.isDigit) (hf : ∀ c ∈ fraction, c.isDigit) :
    readUnsigned (if fraction.isEmpty then whole else whole ++ '.' :: fraction) =
      some (ofParts whole fraction) := by
  have hrun {cs : List Char} (h : ∀ c ∈ cs, c.isDigit) :
      cs.takeWhile Char.isDigit = cs ∧ cs.dropWhile Char.isDigit = [] := by
    have htake : (cs ++ []).takeWhile Char.isDigit = _ := List.takeWhile_append_of_pos h
    have hdrop : (cs ++ []).dropWhile Char.isDigit = _ := List.dropWhile_append_of_pos h
    exact ⟨by simpa using htake, by simpa using hdrop⟩
  cases fraction with
  | nil => simp [readUnsigned, hrun hw, hne, readPower, ofParts]
  | cons f fs =>
      have htake : (whole ++ '.' :: f :: fs).takeWhile Char.isDigit = whole := by
        rw [List.takeWhile_append_of_pos hw]
        simp
      have hdrop : (whole ++ '.' :: f :: fs).dropWhile Char.isDigit = '.' :: f :: fs := by
        rw [List.dropWhile_append_of_pos hw]
        rfl
      simp [readUnsigned, htake, hdrop, hrun hf, readPower, ofParts]

theorem read?_of_isDigit {whole fraction : List Char} (hne : whole ≠ [])
    (hw : ∀ c ∈ whole, c.isDigit) (hf : ∀ c ∈ fraction, c.isDigit) :
    read? (if fraction.isEmpty then whole else whole ++ '.' :: fraction) =
      some (value false (ofParts whole fraction)) := by
  have hparts := readUnsigned_of_isDigit hne hw hf
  obtain ⟨c, rest, htext, hc⟩ : ∃ c rest,
      (if fraction.isEmpty then whole else whole ++ '.' :: fraction) = c :: rest ∧ c.isDigit := by
    obtain ⟨c, ds, rfl⟩ := List.exists_cons_of_ne_nil hne
    have hc := hw c List.mem_cons_self
    split
    · exact ⟨c, ds, rfl, hc⟩
    · exact ⟨c, ds ++ '.' :: fraction, rfl, hc⟩
  rw [htext] at hparts ⊢
  have hsign : signOf (c :: rest) = (false, c :: rest) := by
    unfold signOf
    split <;> simp_all
  have hword (d : Char) (ds : List Char) (hd : ¬ d.isDigit) :
      ((c :: rest).map Char.toLower == d :: ds) = false := by
    rw [List.map_cons, toLower_of_isDigit hc, List.cons_beq_cons, Bool.and_eq_false_iff]
    exact .inl (by simpa using ne_of_apply_ne Char.isDigit (by simp [hc, hd]))
  have hinf : "inf".toList = 'i' :: ['n', 'f'] := rfl
  have hinfinity : "infinity".toList = 'i' :: ['n', 'f', 'i', 'n', 'i', 't', 'y'] := rfl
  have hnan : "nan".toList = 'n' :: ['a', 'n'] := rfl
  simp only [read?, hsign, hinf, hinfinity, hnan, hword _ _ (by decide : ¬ 'i'.isDigit),
    hword _ _ (by decide : ¬ 'n'.isDigit), Bool.or_self, Bool.false_eq_true, if_false, hparts,
    Option.map_some]

end Numeral

end Lexing
