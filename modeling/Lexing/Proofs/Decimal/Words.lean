import Lexing.Proofs.Decimal.Rounding
import Mathlib.Tactic.FieldSimp
import Mathlib.Tactic.Ring

namespace Lexing

/-- The number that 64 bits denote by their sign, their eleven bits of exponent and their 52 bits of
fraction. Infinities and what is no number denote none. -/
def denoted? (word : Nat) : Option ℚ :=
  let sign : ℚ := (-1) ^ (word / 2 ^ 63)
  let exponent : Nat := word / 2 ^ 52 % 2 ^ 11
  let fraction : ℚ := (word % 2 ^ 52 : Nat) / 2 ^ 52
  if exponent = 2 ^ 11 - 1 then none
  else if exponent = 0 then some (sign * fraction * 2 ^ (-1022 : ℤ))
  else some (sign * (1 + fraction) * 2 ^ ((exponent : ℤ) - 1023))

namespace Magnitude

variable {num den : Nat} {x y : Magnitude} {v d : ℚ} {word : Nat}

def real (x : Magnitude) : ℚ := x.units / 2 ^ 1074

theorem real_nonneg (x : Magnitude) : 0 ≤ x.real := by
  rw [real]
  positivity

theorem two_pow_1074 : (2 : ℚ) ^ 1074 = 2 ^ 52 * 2 ^ 1022 := by rw [← pow_add]

theorem subnormal_eq (fraction : ℚ) :
    fraction / 2 ^ 52 * 2 ^ (-1022 : ℤ) = fraction / 2 ^ 1074 := by
  rw [two_pow_1074, zpow_neg, ← div_eq_mul_inv, div_div]
  rfl

theorem normal_eq (fraction : ℚ) (exponent : Nat) :
    (1 + fraction / 2 ^ 52) * 2 ^ ((exponent + 1 : Nat) - 1023 : ℤ) =
      (2 ^ 52 + fraction) * 2 ^ exponent / 2 ^ 1074 := by
  have hshift : ((exponent + 1 : Nat) - 1023 : ℤ) = exponent - (1022 : Nat) := by omega
  have hpow : (0 : ℚ) < 2 ^ 1022 := by positivity
  rw [two_pow_1074, hshift, zpow_sub₀ two_ne_zero, zpow_natCast, zpow_natCast]
  generalize (2 : ℚ) ^ 1022 = p at hpow
  field_simp

theorem denoted?_word (x : Magnitude) (sign : Nat) :
    denoted? (sign * 2 ^ 63 + x.word) = some ((-1) ^ sign * x.real) := by
  have hlt := x.significand_lt
  have hle := x.exponent_le
  have hnormal := x.normal
  simp only [word, real, units, Nat.pow_eq] at hlt hnormal ⊢
  generalize x.significand = m, x.exponent = e at hlt hle hnormal
  rcases Nat.lt_or_ge m (2 ^ 52) with hlow | hhigh
  · obtain rfl : e = 0 := by omega
    have hsign : (sign * 2 ^ 63 + (0 * 2 ^ 52 + m)) / 2 ^ 63 = sign := by omega
    have hexponent : (sign * 2 ^ 63 + (0 * 2 ^ 52 + m)) / 2 ^ 52 % 2 ^ 11 = 0 := by omega
    have hfraction : (sign * 2 ^ 63 + (0 * 2 ^ 52 + m)) % 2 ^ 52 = m := by omega
    simp only [denoted?, hsign, hexponent, hfraction]
    rw [if_neg (by norm_num), if_pos trivial, mul_assoc, subnormal_eq, Nat.pow_zero, Nat.mul_one]
  · obtain ⟨fraction, rfl⟩ := Nat.exists_eq_add_of_le hhigh
    have hsign : (sign * 2 ^ 63 + (e * 2 ^ 52 + (2 ^ 52 + fraction))) / 2 ^ 63 = sign := by omega
    have hexponent :
        (sign * 2 ^ 63 + (e * 2 ^ 52 + (2 ^ 52 + fraction))) / 2 ^ 52 % 2 ^ 11 = e + 1 := by omega
    have hfraction :
        (sign * 2 ^ 63 + (e * 2 ^ 52 + (2 ^ 52 + fraction))) % 2 ^ 52 = fraction := by omega
    simp only [denoted?, hsign, hexponent, hfraction]
    rw [if_neg (by omega), if_neg (by omega), mul_assoc, normal_eq]
    push_cast
    rfl

theorem exists_word_eq (h : word / 2 ^ 52 % 2 ^ 11 ≠ 2 ^ 11 - 1) :
    ∃ y : Magnitude, word / 2 ^ 63 * 2 ^ 63 + y.word = word := by
  have hfield : word / 2 ^ 52 % 2 ^ 11 < 2 ^ 11 - 1 := by omega
  by_cases hzero : word / 2 ^ 52 % 2 ^ 11 = 0
  · refine ⟨⟨word % 2 ^ 52, 0, ?_, by omega, .inr rfl⟩, ?_⟩
    · simp only [Nat.pow_eq]
      omega
    · simp only [Magnitude.word, Nat.pow_eq]
      omega
  · refine ⟨⟨2 ^ 52 + word % 2 ^ 52, word / 2 ^ 52 % 2 ^ 11 - 1, ?_, by omega, .inl ?_⟩, ?_⟩
    · simp only [Nat.pow_eq]
      omega
    · simp only [Nat.pow_eq]
      omega
    · simp only [Magnitude.word, Nat.pow_eq]
      omega

theorem exists_of_denoted? (hword : word < 2 ^ 64) (h : denoted? word = some d) :
    ∃ y : Magnitude, d = y.real ∨ d = -y.real := by
  have hfinite : word / 2 ^ 52 % 2 ^ 11 ≠ 2 ^ 11 - 1 := by
    intro hfield
    rw [denoted?, if_pos hfield] at h
    contradiction
  obtain ⟨y, hy⟩ := exists_word_eq hfinite
  have hdenoted := y.denoted?_word (word / 2 ^ 63)
  rw [hy, h] at hdenoted
  obtain rfl := Option.some.inj hdenoted
  refine ⟨y, ?_⟩
  rcases (by omega : word / 2 ^ 63 = 0 ∨ word / 2 ^ 63 = 1) with hsign | hsign
  · exact .inl (by rw [hsign, pow_zero, one_mul])
  · exact .inr (by rw [hsign, pow_one, neg_one_mul])

end Magnitude

def IsNearest (v : ℚ) (word : Nat) : Prop :=
  ∃ d, denoted? word = some d ∧ ∀ other < 2 ^ 64, ∀ d', denoted? other = some d' →
    |v - d| ≤ |v - d'| ∧ (d' ≠ d → |v - d'| = |v - d| → word % 2 = 0)

inductive Rounds (v : ℚ) : Option Binary64 → Prop
  | nearest (b : Binary64) (word : Nat) : v < 2 ^ 1024 - 2 ^ 970 → b.word? = some word →
      word < 2 ^ 63 → IsNearest v word → (v ≤ 2 ^ (-1075 : ℤ) → word = 0) → Rounds v (some b)
  | tooLarge : 2 ^ 1024 - 2 ^ 970 ≤ v → Rounds v none

def Binary64.real? (b : Binary64) : Option ℚ := b.word?.bind denoted?

def Below (p q : Option Binary64) : Prop :=
  ∀ b ∈ q, ∃ a ∈ p, ∃ d ∈ a.real?, ∃ e ∈ b.real?, d ≤ e

namespace Magnitude

variable {num den num' den' : Nat} {x y : Magnitude} {v v' : ℚ}

theorem word_finite (x : Magnitude) : (Binary64.finite false x).word? = some x.word := by
  simp [Binary64.word?]

theorem real?_finite (x : Magnitude) : (Binary64.finite false x).real? = some x.real := by
  rw [Binary64.real?, word_finite, Option.bind_some]
  simpa using x.denoted?_word 0

theorem word_lt (x : Magnitude) : x.word < 2 ^ 63 := by
  have hlt := x.significand_lt
  have hle := x.exponent_le
  simp only [word, Nat.pow_eq] at hlt ⊢
  omega

theorem isNearest_word (hv : 0 ≤ v) (h : ∀ y : Magnitude, |v - x.real| ≤ |v - y.real| ∧
    (y.real ≠ x.real → |v - y.real| = |v - x.real| → x.word % 2 = 0)) : IsNearest v x.word := by
  refine ⟨x.real, by simpa using x.denoted?_word 0, fun other hother d' hd' => ?_⟩
  obtain ⟨y, rfl | rfl⟩ := exists_of_denoted? hother hd'
  · exact h y
  by_cases hzero : y.real = 0
  · simpa [hzero] using h y
  -- Below zero there is nothing nearer than zero.
  · have hle := (h zero).1
    have hpos := lt_of_le_of_ne y.real_nonneg (Ne.symm hzero)
    have hnone : zero.real = 0 := by simp [real, units, zero]
    rw [hnone, sub_zero, abs_of_nonneg hv] at hle
    have hlt : |v - x.real| < |v - -y.real| := by
      rw [sub_neg_eq_add, abs_of_pos (by linarith : 0 < v + y.real)]
      linarith
    exact ⟨hlt.le, fun _ heq => absurd heq hlt.ne'⟩

theorem nearest?_real (hden : 0 < den) (hv : (num / den : ℚ) = v * 2 ^ 1074)
    (h : nearest? num den = some x) (y : Magnitude) : |v - x.real| ≤ |v - y.real| ∧
      (y.real ≠ x.real → |v - y.real| = |v - x.real| → x.word % 2 = 0) := by
  obtain ⟨e, m, he, hm, hunits, heven⟩ := nearest?_eq_some hden h
  obtain ⟨hle, htie⟩ := he.nearest hm hunits y
  have hpow : (0 : ℚ) < 2 ^ 1074 := by positivity
  have hscale (z : Magnitude) : |(num / den : ℚ) - z.units| = |v - z.real| * 2 ^ 1074 := by
    rw [hv, real, ← abs_of_pos hpow, ← abs_mul, abs_of_pos hpow, sub_mul,
      div_mul_cancel₀ _ hpow.ne']
  rw [hscale, hscale] at hle htie
  refine ⟨le_of_mul_le_mul_right hle hpow, fun hne heq => heven (htie ?_ (by rw [heq]))⟩
  exact fun heq => hne (by rw [real, real, heq])

theorem overflow_eq : overflow = (2 ^ 1024 - 2 ^ 970) * 2 ^ 1074 := by
  have hlarge : (2 : ℚ) ^ 2045 = 2 ^ 971 * 2 ^ 1074 := by rw [← pow_add]
  have hhalf : (2 : ℚ) ^ 971 = 2 ^ 970 * 2 := by rw [← pow_succ]
  have hwhole : (2 : ℚ) ^ 1024 = 2 ^ 53 * 2 ^ 971 := by rw [← pow_add]
  rw [overflow, hlarge, hwhole, hhalf]
  generalize (2 : ℚ) ^ 970 = p, (2 : ℚ) ^ 1074 = q
  ring

theorem rounds_nearest? (hden : 0 < den) (hv : (num / den : ℚ) = v * 2 ^ 1074) :
    Rounds v ((nearest? num den).map (.finite false)) := by
  have hpow : (0 : ℚ) < 2 ^ 1074 := by positivity
  have hnone : nearest? num den = none ↔ 2 ^ 1024 - 2 ^ 970 ≤ v := by
    rw [nearest?_eq_none hden, hv, overflow_eq, mul_le_mul_iff_left₀ hpow]
  cases h : nearest? num den with
  | none => exact .tooLarge (hnone.1 h)
  | some x =>
      have hlt : v < 2 ^ 1024 - 2 ^ 970 := by
        rw [← not_le, ← hnone, h]
        simp
      have hnonneg : 0 ≤ v := by
        have hquotient : (0 : ℚ) ≤ num / den := div_nonneg num.cast_nonneg den.cast_nonneg
        rw [hv] at hquotient
        exact (mul_nonneg_iff_of_pos_right hpow).1 hquotient
      refine .nearest _ x.word hlt x.word_finite x.word_lt
        (isNearest_word hnonneg (nearest?_real hden hv h)) fun hsmall => ?_
      have hhalf : (num / den : ℚ) ≤ 1 / 2 := by
        have hle := mul_le_mul_of_nonneg_right hsmall hpow.le
        rw [← hv, ← zpow_natCast, ← zpow_add₀ two_ne_zero] at hle
        simpa using hle
      have htwice : 2 * num ≤ den := by
        rw [div_le_iff₀ (by exact_mod_cast hden)] at hhalf
        have : (2 * num : ℚ) ≤ den := by linarith
        exact_mod_cast this
      rw [nearest?_of_le hden htwice] at h
      obtain rfl := Option.some.inj h
      rfl

theorem below_nearest? (hden : 0 < den) (hden' : 0 < den') (h : (num / den : ℚ) ≤ num' / den') :
    Below ((nearest? num den).map (.finite false)) ((nearest? num' den').map (.finite false)) := by
  intro b hb
  obtain ⟨y, hy, rfl⟩ := Option.map_eq_some_iff.1 hb
  obtain ⟨x, hx⟩ : ∃ x, nearest? num den = some x := by
    rw [← Option.ne_none_iff_exists', ne_eq, nearest?_eq_none hden]
    intro hlarge
    have hnone := (nearest?_eq_none hden').2 (hlarge.trans h)
    rw [hy] at hnone
    contradiction
  refine ⟨.finite false x, by rw [hx]; rfl, x.real, x.real?_finite, y.real, y.real?_finite, ?_⟩
  have hunits := units_mono hden hden' hx hy h
  rw [real, real]
  gcongr

end Magnitude

end Lexing
