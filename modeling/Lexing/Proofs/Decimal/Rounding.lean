import Lexing.Decimal.Numeral
import Mathlib.Algebra.Order.Field.Basic
import Mathlib.Algebra.Order.Ring.Abs
import Mathlib.Data.Nat.Cast.Order.Field
import Mathlib.Data.Rat.Cast.Order
import Mathlib.Tactic.Linarith

namespace Lexing

structure IsRounded (t : ℚ) (m : Nat) : Prop where
  near : |t - m| ≤ 1 / 2
  even : |t - m| = 1 / 2 → m % 2 = 0

namespace IsRounded

variable {t : ℚ} {m n : Nat}

theorem of_lt (h : |t - m| < 1 / 2) : IsRounded t m := ⟨h.le, fun heq => absurd heq h.ne⟩

theorem one_le_add (t : ℚ) (h : n ≠ m) : 1 ≤ |t - m| + |t - n| := by
  have hgap : (1 : ℚ) ≤ |(n : ℚ) - m| := by
    have hne : (n : Int) - m ≠ 0 := by omega
    exact_mod_cast Int.one_le_abs hne
  have htriangle := abs_sub (t - m) (t - n)
  rw [sub_sub_sub_cancel_left] at htriangle
  linarith

theorem nearest (h : IsRounded t m) (n : Nat) :
    |t - m| ≤ |t - n| ∧ (n ≠ m → |t - n| = |t - m| → m % 2 = 0) := by
  have hnear := h.near
  constructor
  · by_cases hn : n = m
    · rw [hn]
    · have hadd := one_le_add t hn
      linarith
  · intro hn htie
    have hadd := one_le_add t hn
    exact h.even (by linarith)

theorem down {q : Nat} {f : ℚ} (hpos : 0 ≤ f) (h : f < 1 / 2) : IsRounded (q + f) q := by
  refine of_lt ?_
  rwa [add_sub_cancel_left, abs_of_nonneg hpos]

theorem up {q : Nat} {f : ℚ} (h : 1 / 2 < f) (hle : f ≤ 1) : IsRounded (q + f) (q + 1) := by
  refine of_lt ?_
  rw [Nat.cast_add, Nat.cast_one, add_sub_add_left_eq_sub, abs_of_nonpos (by linarith)]
  linarith

theorem half (q : Nat) : IsRounded (q + 1 / 2) (q + q % 2) := by
  rcases Nat.mod_two_eq_zero_or_one q with hq | hq
  · rw [hq]
    refine ⟨?_, fun _ => hq⟩
    rw [Nat.add_zero, add_sub_cancel_left, abs_of_nonneg (by norm_num)]
  · rw [hq]
    refine ⟨?_, fun _ => by omega⟩
    rw [Nat.cast_add, Nat.cast_one, add_sub_add_left_eq_sub, abs_of_nonpos (by norm_num)]
    norm_num

theorem eq_iff (h : IsRounded t m) (hle : m ≤ n) (heven : n % 2 = 0) :
    m = n ↔ (n : ℚ) - 1 / 2 ≤ t := by
  obtain ⟨hleft, hright⟩ := abs_le.1 h.near
  constructor
  · rintro rfl
    linarith
  · intro hge
    have hgap : (n : ℚ) ≤ (m + 1 : Nat) := by
      push_cast
      linarith
    have hgap := Nat.cast_le.1 hgap
    by_contra hne
    obtain rfl : n = m + 1 := by omega
    push_cast at hge
    have hodd := h.even (by rw [abs_of_nonneg] <;> linarith)
    omega

end IsRounded

theorem isRounded_roundQuotient (num : Nat) {den : Nat} (hden : 0 < den) :
    IsRounded (num / den) (roundQuotient num den) := by
  have hpos : (0 : ℚ) < den := by exact_mod_cast hden
  have hsplit : (num : ℚ) / den = (num / den : Nat) + (num % den : Nat) / den := by
    have hjoin : (num : ℚ) = den * (num / den : Nat) + (num % den : Nat) := by
      exact_mod_cast (Nat.div_add_mod num den).symm
    rw [div_eq_iff hpos.ne', add_mul, div_mul_cancel₀ _ hpos.ne', mul_comm]
    exact hjoin
  have hrest := Nat.mod_lt num hden
  rw [hsplit]
  simp only [roundQuotient]
  generalize num / den = q, num % den = r at hrest
  have hnonneg : (0 : ℚ) ≤ r / den := by positivity
  rcases Nat.lt_trichotomy (2 * r) den with hlow | hhalf | hhigh
  · rw [if_pos hlow]
    refine .down hnonneg ?_
    rw [div_lt_iff₀ hpos]
    have : (2 : ℚ) * r < den := by exact_mod_cast hlow
    linarith
  · have heq : (r : ℚ) / den = 1 / 2 := by
      rw [div_eq_iff hpos.ne']
      have : (2 : ℚ) * r = den := by exact_mod_cast hhalf
      linarith
    rw [if_neg (by omega), if_neg (by omega), heq]
    exact .half q
  · rw [if_neg (by omega), if_pos hhigh]
    refine .up ?_ ?_
    · rw [lt_div_iff₀ hpos]
      have : (den : ℚ) < 2 * r := by exact_mod_cast hhigh
      linarith
    · rw [div_le_one hpos]
      exact_mod_cast hrest.le

theorem roundQuotient_mul_right (num den : Nat) {k : Nat} (hk : 0 < k) :
    roundQuotient (num * k) (den * k) = roundQuotient num den := by
  have hless (a b : Nat) : 2 * (a * k) < b * k ↔ 2 * a < b := by
    rw [← Nat.mul_assoc, Nat.mul_lt_mul_right hk]
  have hmore (a b : Nat) : b * k < 2 * (a * k) ↔ b < 2 * a := by
    rw [← Nat.mul_assoc, Nat.mul_lt_mul_right hk]
  simp only [roundQuotient, Nat.mul_div_mul_right _ _ hk, Nat.mul_mod_mul_right, hless, hmore]

structure IsScale (v : ℚ) (e : Nat) : Prop where
  lt : v < 2 ^ (e + 53)
  le : e = 0 ∨ 2 ^ (e + 52) ≤ v

namespace Magnitude

theorem isScale_scale (num : Nat) {den : Nat} (hden : 0 < den) :
    IsScale (num / den) (scale num den) := by
  have hpos : (0 : ℚ) < den := by exact_mod_cast hden
  generalize he : scale num den = e
  rw [scale] at he
  constructor
  · have hlog : num / den < 2 ^ (e + 53) :=
      Nat.lt_log2_self.trans_le (Nat.pow_le_pow_right (by decide) (by omega))
    rw [Nat.div_lt_iff_lt_mul hden] at hlog
    rw [div_lt_iff₀ hpos]
    exact_mod_cast hlog
  · by_cases hzero : e = 0
    · exact .inl hzero
    · right
      have hne : num / den ≠ 0 := by
        intro hquotient
        rw [hquotient, Nat.log2_zero] at he
        omega
      have hlog : 2 ^ (e + 52) ≤ num / den := by
        rw [show e + 52 = (num / den).log2 by omega]
        exact Nat.log2_self_le hne
      calc (2 : ℚ) ^ (e + 52) ≤ (num / den : Nat) := by exact_mod_cast hlog
        _ ≤ num / den := Nat.cast_div_le

theorem checked?_eq_some {m e : Nat} {x : Magnitude} (h : checked? m e = some x) :
    x.significand = m ∧ x.exponent = e := by
  unfold checked? at h
  split at h
  · obtain rfl := Option.some.inj h
    exact ⟨rfl, rfl⟩
  · contradiction

theorem checked?_eq_none {m e : Nat} :
    checked? m e = none ↔ ¬ (m < 2 ^ 53 ∧ e ≤ 2045 ∧ (2 ^ 52 ≤ m ∨ e = 0)) := by
  unfold checked?
  split <;> simp_all

def nearest? (num den : Nat) : Option Magnitude :=
  let e := scale num den
  let m := roundQuotient num (den * Nat.pow 2 e)
  if m = Nat.pow 2 53 then checked? (Nat.pow 2 52) (e + 1) else checked? m e

theorem ofRatio?_eq (num den : Nat) : ofRatio? num den = nearest? (num * Nat.pow 2 1074) den := rfl

theorem units_grid (x : Magnitude) (e : Nat) :
    (∃ n, x.units = n * 2 ^ e) ∨ x.units < 2 ^ (e + 52) ∧ e ≠ 0 := by
  rcases Nat.lt_or_ge x.exponent e with hlt | hge
  · right
    have hsignificand : x.significand < 2 ^ 53 := x.significand_lt
    refine ⟨?_, by omega⟩
    calc x.units = x.significand * 2 ^ x.exponent := rfl
      _ < 2 ^ 53 * 2 ^ x.exponent := Nat.mul_lt_mul_of_pos_right hsignificand (Nat.two_pow_pos _)
      _ = 2 ^ (x.exponent + 53) := by rw [← Nat.pow_add, Nat.add_comm]
      _ ≤ 2 ^ (e + 52) := Nat.pow_le_pow_right (by decide) (by omega)
  · left
    refine ⟨x.significand * 2 ^ (x.exponent - e), ?_⟩
    rw [Nat.mul_assoc, ← Nat.pow_add, Nat.sub_add_cancel hge]
    rfl

end Magnitude

section

variable {v : ℚ} {e m : Nat} {x : Magnitude}

theorem IsScale.nearest (he : IsScale v e) (hm : IsRounded (v / 2 ^ e) m)
    (hx : x.units = m * 2 ^ e) (y : Magnitude) :
    |v - x.units| ≤ |v - y.units| ∧
      (y.units ≠ x.units → |v - y.units| = |v - x.units| → m % 2 = 0) := by
  have hpow : (0 : ℚ) < 2 ^ e := by positivity
  have hscale (n : Nat) : |v - (n * 2 ^ e : Nat)| = |v / 2 ^ e - n| * 2 ^ e := by
    rw [← abs_of_pos hpow, ← abs_mul, abs_of_pos hpow, sub_mul, div_mul_cancel₀ _ hpow.ne']
    push_cast
    rfl
  rcases y.units_grid e with ⟨n, hn⟩ | ⟨hlow, hne⟩
  · obtain ⟨hle, htie⟩ := hm.nearest n
    rw [hx, hn, hscale, hscale]
    refine ⟨mul_le_mul_of_nonneg_right hle hpow.le, fun hunits heq => ?_⟩
    refine htie ?_ (mul_right_cancel₀ hpow.ne' heq)
    rintro rfl
    exact hunits rfl
  -- Below the grid there is nothing near: its least number with 53 bits lies between.
  · have hleast : (2 : ℚ) ^ (e + 52) ≤ v := he.le.resolve_left hne
    have hlow : (y.units : ℚ) < 2 ^ (e + 52) := by exact_mod_cast hlow
    have hle := mul_le_mul_of_nonneg_right (hm.nearest (2 ^ 52)).1 hpow.le
    rw [← hscale, ← hscale, ← hx] at hle
    have hcast : ((2 ^ 52 * 2 ^ e : Nat) : ℚ) = 2 ^ (e + 52) := by
      rw [← Nat.pow_add, Nat.add_comm, Nat.cast_pow, Nat.cast_ofNat]
    rw [hcast, abs_of_nonneg (sub_nonneg.2 hleast)] at hle
    have hlt : |v - x.units| < |v - y.units| := by
      rw [abs_of_pos (by linarith : 0 < v - y.units)]
      linarith
    exact ⟨hlt.le, fun _ heq => absurd heq hlt.ne'⟩

theorem IsScale.significand_le (he : IsScale v e) (hm : IsRounded (v / 2 ^ e) m) :
    m ≤ 2 ^ 53 ∧ (e = 0 ∨ 2 ^ 52 ≤ m) := by
  have hpow : (0 : ℚ) < 2 ^ e := by positivity
  obtain ⟨hleft, hright⟩ := abs_le.1 hm.near
  constructor
  · have hlt : v / 2 ^ e < 2 ^ 53 := by
      rw [div_lt_iff₀ hpow, ← pow_add, Nat.add_comm]
      exact he.lt
    have hm : (m : ℚ) < (2 ^ 53 + 1 : Nat) := by
      push_cast
      linarith
    have := Nat.cast_lt.1 hm
    omega
  · refine he.le.imp_right fun hle => ?_
    have hge : 2 ^ 52 ≤ v / 2 ^ e := by
      rw [le_div_iff₀ hpow, ← pow_add, Nat.add_comm]
      exact hle
    have hm : ((2 ^ 52 : Nat) : ℚ) < (m + 1 : Nat) := by
      push_cast
      linarith
    have := Nat.cast_lt.1 hm
    omega

end

namespace Magnitude

variable {num den : Nat} {x : Magnitude}

theorem isRounded_scaled (num : Nat) (hden : 0 < den) (e : Nat) :
    IsRounded ((num / den : ℚ) / 2 ^ e) (roundQuotient num (den * Nat.pow 2 e)) := by
  have hround := isRounded_roundQuotient num (Nat.mul_pos hden (Nat.two_pow_pos e))
  rwa [Nat.cast_mul, Nat.cast_pow, ← div_div] at hround

theorem word_mod_two (x : Magnitude) : x.word % 2 = x.significand % 2 := by
  simp only [word, Nat.pow_eq]
  omega

theorem nearest?_eq_some (hden : 0 < den) (h : nearest? num den = some x) :
    ∃ e m, IsScale (num / den) e ∧ IsRounded ((num / den : ℚ) / 2 ^ e) m ∧
      x.units = m * 2 ^ e ∧ (m % 2 = 0 → x.word % 2 = 0) := by
  refine ⟨_, _, isScale_scale num hden, isRounded_scaled num hden _, ?_⟩
  simp only [nearest?] at h
  split at h
  · next hcarry =>
      obtain ⟨hsignificand, hexponent⟩ := checked?_eq_some h
      rw [word_mod_two, units, hsignificand, hexponent, hcarry]
      refine ⟨?_, fun _ => rfl⟩
      simp only [Nat.pow_eq, Nat.pow_succ _ (scale num den)]
      omega
  · obtain ⟨hsignificand, hexponent⟩ := checked?_eq_some h
    rw [word_mod_two, units, hsignificand, hexponent]
    exact ⟨rfl, id⟩

/-- Half-way between the largest magnitude and the one that would come next. -/
def overflow : ℚ := (2 ^ 53 - 1 / 2) * 2 ^ 2045

theorem nearest?_eq_none_iff_scale (hden : 0 < den) :
    nearest? num den = none ↔ 2045 < scale num den ∨ scale num den = 2045 ∧
      roundQuotient num (den * Nat.pow 2 (scale num den)) = 2 ^ 53 := by
  have hscale := isScale_scale num hden
  obtain ⟨hle, hnormal⟩ := hscale.significand_le (isRounded_scaled num hden _)
  simp only [nearest?, Nat.pow_eq] at hle hnormal ⊢
  split
  · rw [checked?_eq_none]
    omega
  · rw [checked?_eq_none]
    omega

theorem overflow_le_iff {v : ℚ} {e m : Nat} (he : IsScale v e) (hm : IsRounded (v / 2 ^ e) m) :
    overflow ≤ v ↔ 2045 < e ∨ e = 2045 ∧ m = 2 ^ 53 := by
  have hpow : (0 : ℚ) < 2 ^ 2045 := by positivity
  rcases Nat.lt_trichotomy e 2045 with hlt | heq | hgt
  · have hv : v < 2 ^ 52 * 2 ^ 2045 := by
      rw [← pow_add]
      exact he.lt.trans_le (pow_le_pow_right₀ (by norm_num) (by omega))
    have hv : v < overflow := by
      refine hv.trans_le (mul_le_mul_of_nonneg_right ?_ hpow.le)
      norm_num
    exact iff_of_false (not_le.2 hv) (by omega)
  · obtain ⟨hle, -⟩ := he.significand_le hm
    have hiff := hm.eq_iff hle rfl
    rw [Nat.cast_pow, Nat.cast_ofNat, le_div_iff₀ (by positivity), heq] at hiff
    rw [overflow, ← hiff]
    omega
  · have hv : 2 ^ 53 * 2 ^ 2045 ≤ v := by
      rw [← pow_add]
      exact (pow_le_pow_right₀ (by norm_num) (by omega)).trans (he.le.resolve_left (by omega))
    have hv : overflow ≤ v := by
      refine (mul_le_mul_of_nonneg_right ?_ hpow.le).trans hv
      norm_num
    exact iff_of_true hv (.inl hgt)

theorem nearest?_eq_none (hden : 0 < den) :
    nearest? num den = none ↔ overflow ≤ (num / den : ℚ) := by
  rw [nearest?_eq_none_iff_scale hden,
    overflow_le_iff (isScale_scale num hden) (isRounded_scaled num hden _)]

theorem nearest?_mul_right (num den : Nat) {k : Nat} (hk : 0 < k) :
    nearest? (num * k) (den * k) = nearest? num den := by
  simp only [nearest?, scale, Nat.mul_div_mul_right _ _ hk, Nat.mul_right_comm den k,
    roundQuotient_mul_right _ _ hk]
  rfl

theorem nearest?_congr {num' den' : Nat} (hden : 0 < den) (hden' : 0 < den')
    (h : (num / den : ℚ) = num' / den') : nearest? num den = nearest? num' den' := by
  have hcross : num * den' = num' * den := by
    rw [div_eq_div_iff (by exact_mod_cast hden.ne') (by exact_mod_cast hden'.ne')] at h
    exact_mod_cast h
  rw [← nearest?_mul_right num den hden', ← nearest?_mul_right num' den' hden, hcross,
    Nat.mul_comm den]

theorem units_mono {num' den' : Nat} {y : Magnitude} (hden : 0 < den) (hden' : 0 < den')
    (hx : nearest? num den = some x) (hy : nearest? num' den' = some y)
    (h : (num / den : ℚ) ≤ num' / den') : x.units ≤ y.units := by
  rcases h.eq_or_lt with heq | hlt
  · rw [nearest?_congr hden hden' heq, hy] at hx
    rw [Option.some.inj hx]
  obtain ⟨e, m, he, hm, hunits, -⟩ := nearest?_eq_some hden hx
  obtain ⟨e', m', he', hm', hunits', -⟩ := nearest?_eq_some hden' hy
  by_contra hgt
  have hgt : (y.units : ℚ) < x.units := by exact_mod_cast not_le.1 hgt
  have hleft := (he.nearest hm hunits y).1
  have hright := (he'.nearest hm' hunits' x).1
  -- The first quotient is not below the middle of the two, and the second not above it.
  have hfirst : ((x.units : ℚ) + y.units) / 2 ≤ num / den := by
    rcases abs_cases ((num / den : ℚ) - x.units) with ⟨hx, _⟩ | ⟨hx, _⟩ <;>
      rcases abs_cases ((num / den : ℚ) - y.units) with ⟨hy, _⟩ | ⟨hy, _⟩ <;> linarith
  have hsecond : (num' / den' : ℚ) ≤ (x.units + y.units) / 2 := by
    rcases abs_cases ((num' / den' : ℚ) - x.units) with ⟨hx, _⟩ | ⟨hx, _⟩ <;>
      rcases abs_cases ((num' / den' : ℚ) - y.units) with ⟨hy, _⟩ | ⟨hy, _⟩ <;> linarith
  linarith

theorem nearest?_of_le (hden : 0 < den) (h : 2 * num ≤ den) : nearest? num den = some zero := by
  have hdiv : num / den = 0 := Nat.div_eq_of_lt (by omega)
  have hmod : num % den = num := Nat.mod_eq_of_lt (by omega)
  have hround : roundQuotient num den = 0 := by
    simp only [roundQuotient, hdiv, hmod]
    split
    · rfl
    · rw [if_neg (by omega)]
  have hscale : scale num den = 0 := by rw [scale, hdiv, Nat.log2_zero]
  simp only [nearest?, hscale, Nat.pow_eq, Nat.pow_zero, Nat.mul_one, hround]
  rfl

theorem nearest?_of_log2_lt {digits k p : Nat} (h : digits.log2 + k + 2 ≤ 3 * p) :
    nearest? (digits * Nat.pow 2 k) (Nat.pow 10 p) = some zero := by
  refine nearest?_of_le (Nat.pow_pos (by decide)) ?_
  simp only [Nat.pow_eq]
  calc 2 * (digits * 2 ^ k) ≤ 2 * (2 ^ (digits.log2 + 1) * 2 ^ k) := by
        gcongr
        exact Nat.lt_log2_self.le
    _ = 2 ^ (digits.log2 + 1 + k + 1) := by rw [← Nat.pow_add, ← Nat.pow_succ']
    _ ≤ 2 ^ (3 * p) := Nat.pow_le_pow_right (by decide) (by omega)
    _ = 8 ^ p := by rw [Nat.pow_mul]
    _ ≤ 10 ^ p := Nat.pow_le_pow_left (by decide) _

end Magnitude

namespace Numeral

theorem magnitude?_ofParts (whole fraction : List Char) :
    (ofParts whole fraction).magnitude? =
      Magnitude.nearest? (natOfDigits (whole ++ fraction) * Nat.pow 2 1074)
        (Nat.pow 10 fraction.length) := by
  generalize hdigits : natOfDigits (whole ++ fraction) = digits
  cases hlength : fraction.length with
  | zero =>
      have hparts : ofParts whole fraction = ⟨digits, .ofNat 0⟩ := by
        rw [ofParts, hdigits, hlength]
        rfl
      rw [hparts]
      simp only [magnitude?]
      split
      · next hzero =>
          simp only [hzero, Nat.zero_mul]
          exact (Magnitude.nearest?_of_le (by decide) (by decide)).symm
      · rw [if_neg (by decide), show Nat.pow 10 0 = 1 from rfl, Nat.mul_one,
          Magnitude.ofRatio?_eq]
  | succ p =>
      have hparts : ofParts whole fraction = ⟨digits, .negSucc p⟩ := by
        rw [ofParts, hdigits, hlength]
        rfl
      rw [hparts]
      simp only [magnitude?]
      split
      · next hfar =>
          have hpow : digits.log2 + 1074 + 2 ≤ 3 * (p + 1) := by omega
          exact (Magnitude.nearest?_of_log2_lt hpow).symm
      · rfl

end Numeral

end Lexing
