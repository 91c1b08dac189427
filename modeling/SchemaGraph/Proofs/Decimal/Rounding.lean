import Mathlib.Algebra.Order.Field.Power
import Mathlib.Tactic.FieldSimp
import Mathlib.Tactic.Linarith
import Mathlib.Tactic.Positivity
import Mathlib.Tactic.Ring
import Mathlib.Tactic.SplitIfs
import SchemaGraph.Decimal.Binary64

/-! Rounding of quotients to floating-point numbers. Whatever lies between the middles to the two
neighbours of a number is rounded to it, the middles themselves if its significand is even. -/

namespace SchemaGraph.Binary64

namespace Ratio

def toRat (a : Ratio) : ℚ := a.num / a.den

def Positive (a : Ratio) : Prop := 0 < a.num ∧ 0 < a.den

variable {a b : Ratio}

theorem toRat_mul (a b : Ratio) : (a.mul b).toRat = a.toRat * b.toRat := by
  unfold toRat mul
  push_cast
  exact mul_div_mul_comm ..

theorem toRat_div (a b : Ratio) : (a.div b).toRat = a.toRat / b.toRat := by
  unfold toRat div
  push_cast
  exact (div_div_div_eq ..).symm

theorem toRat_power (b : Nat) (e : Int) : (power b e).toRat = (b : ℚ) ^ e := by
  cases e with
  | ofNat e => simp [toRat, power]
  | negSucc e => simp [toRat, power, zpow_negSucc]

theorem Positive.mul (ha : a.Positive) (hb : b.Positive) : (a.mul b).Positive :=
  ⟨Nat.mul_pos ha.1 hb.1, Nat.mul_pos ha.2 hb.2⟩

theorem Positive.div (ha : a.Positive) (hb : b.Positive) : (a.div b).Positive :=
  ⟨Nat.mul_pos ha.1 hb.2, Nat.mul_pos ha.2 hb.1⟩

theorem positive_power {b : Nat} (hb : 0 < b) (e : Int) : (power b e).Positive := by
  cases e with
  | ofNat e => exact ⟨Nat.pow_pos hb, Nat.one_pos⟩
  | negSucc e => exact ⟨Nat.one_pos, Nat.pow_pos hb⟩

theorem positive_natural {n : Nat} (hn : 0 < n) : (⟨n, 1⟩ : Ratio).Positive := ⟨hn, Nat.one_pos⟩

theorem Positive.toRat_pos (ha : a.Positive) : 0 < a.toRat :=
  div_pos (Nat.cast_pos.2 ha.1) (Nat.cast_pos.2 ha.2)

theorem toRat_lt_natCast_iff (ha : 0 < a.den) {n : ℕ} : a.toRat < n ↔ a.num < a.den * n := by
  unfold toRat
  rw [div_lt_iff₀ (Nat.cast_pos.2 ha), mul_comm]
  exact_mod_cast Iff.rfl

end Ratio

/-! The nearest natural -/

structure IsNearest (x : ℚ) (n : ℕ) : Prop where
  low : (n : ℚ) - 1 / 2 ≤ x
  high : x ≤ n + 1 / 2
  odd : n % 2 = 1 → (n : ℚ) - 1 / 2 < x ∧ x < n + 1 / 2

section Nearest

variable {x : ℚ} {m n : ℕ}

theorem IsNearest.le_succ (hm : IsNearest x m) (hn : IsNearest x n) : m ≤ n + 1 := by
  have hle : (m : ℚ) ≤ n + 1 := by linarith [hm.low, hn.high]
  exact_mod_cast hle

theorem IsNearest.unique (hm : IsNearest x m) (hn : IsNearest x n) : m = n := by
  have hupper := hm.le_succ hn
  have hlower := hn.le_succ hm
  -- Two in a row would both be ties, and one of them odd.
  have hnext : ∀ {k : ℕ}, IsNearest x k → ¬IsNearest x (k + 1) := by
    intro k hk hk'
    have hlow := hk'.low
    have hodd' := hk'.odd
    push_cast at hlow hodd'
    rcases Nat.mod_two_eq_zero_or_one k with heven | hodd
    · have hlt := (hodd' (by omega)).1
      linarith [hk.high]
    · have hlt := (hk.odd hodd).2
      linarith
  rcases Nat.lt_trichotomy m n with hlt | heq | hlt
  · obtain rfl : n = m + 1 := by omega
    exact absurd hn (hnext hm)
  · exact heq
  · obtain rfl : m = n + 1 := by omega
    exact absurd hm (hnext hn)

theorem IsNearest.le_of_le (h : IsNearest x m) (hx : x ≤ n) : m ≤ n := by
  have hlt : (m : ℚ) < n + 1 := by linarith [h.low]
  have hlt : m < n + 1 := by exact_mod_cast hlt
  omega

theorem IsNearest.ge_of_ge (h : IsNearest x m) (hx : (n : ℚ) ≤ x) : n ≤ m := by
  have hlt : (n : ℚ) < m + 1 := by linarith [h.high]
  have hlt : n < m + 1 := by exact_mod_cast hlt
  omega

theorem Ratio.toRat_eq_div_add_mod {a : Ratio} (hden : 0 < a.den) :
    a.toRat = (a.num / a.den : ℕ) + (a.num % a.den : ℕ) / (a.den : ℚ) := by
  have hpos : (0 : ℚ) < a.den := Nat.cast_pos.2 hden
  have hnum : (a.num : ℚ) = a.den * (a.num / a.den : ℕ) + (a.num % a.den : ℕ) := by
    exact_mod_cast (Nat.div_add_mod a.num a.den).symm
  unfold Ratio.toRat
  field_simp
  rw [hnum]

theorem half_lt_div_iff {r d : ℕ} (hd : 0 < d) :
    (2 * r < d ↔ (r : ℚ) / d < 1 / 2) ∧ (d < 2 * r ↔ 1 / 2 < (r : ℚ) / d) := by
  have hpos : (0 : ℚ) < d := Nat.cast_pos.2 hd
  rw [div_lt_iff₀ hpos, lt_div_iff₀ hpos, ← @Nat.cast_lt ℚ, ← @Nat.cast_lt ℚ, Nat.cast_mul,
    Nat.cast_two]
  refine ⟨⟨fun h => ?_, fun h => ?_⟩, ⟨fun h => ?_, fun h => ?_⟩⟩ <;> linarith

theorem isNearest_roundHalfEven {a : Ratio} (hden : 0 < a.den) :
    IsNearest a.toRat a.roundHalfEven := by
  have hrest : 0 ≤ ((a.num % a.den : ℕ) : ℚ) / a.den := by positivity
  have hrest' : ((a.num % a.den : ℕ) : ℚ) / a.den < 1 := by
    rw [div_lt_one (Nat.cast_pos.2 hden)]
    exact_mod_cast Nat.mod_lt _ hden
  obtain ⟨hless, hmore⟩ := half_lt_div_iff (r := a.num % a.den) hden
  rw [Ratio.toRat_eq_div_add_mod hden]
  unfold Ratio.roundHalfEven
  simp only [hless, hmore]
  generalize ((a.num % a.den : ℕ) : ℚ) / a.den = f at *
  generalize a.num / a.den = q
  split_ifs with h1 h2 h3
  · exact ⟨by linarith, by linarith, fun _ => ⟨by linarith, by linarith⟩⟩
  · refine ⟨?_, ?_, fun _ => ⟨?_, ?_⟩⟩ <;> push_cast <;> linarith
  · exact ⟨by linarith, by linarith, fun hodd => by omega⟩
  · refine ⟨?_, ?_, fun hodd => by omega⟩ <;> push_cast <;> linarith

theorem roundHalfEven_eq {a : Ratio} (hden : 0 < a.den) (h : IsNearest a.toRat n) :
    a.roundHalfEven = n :=
  (isNearest_roundHalfEven hden).unique h

end Nearest

/-! Numbers -/

theorem two_zpow_pos (e : Int) : (0 : ℚ) < 2 ^ e := zpow_pos two_pos e

theorem two_zpow_add (e f : Int) : (2 : ℚ) ^ (e + f) = 2 ^ e * 2 ^ f := zpow_add₀ two_ne_zero e f

theorem two_zpow_steps (e : Int) : (2 : ℚ) ^ (e + 1) = 2 * 2 ^ e ∧
    (2 : ℚ) ^ (e - 1) = 2 ^ e / 2 ∧ (2 : ℚ) ^ (e - 2) = 2 ^ e / 4 := by
  refine ⟨?_, ?_, ?_⟩
  · rw [two_zpow_add, zpow_one, mul_comm]
  · rw [sub_eq_add_neg, two_zpow_add]
    norm_num
    ring
  · rw [sub_eq_add_neg, two_zpow_add]
    norm_num
    ring

theorem toRat_ratio (m : Nat) (e : Int) : (ratio m e).toRat = m * 2 ^ e := by
  rw [ratio, Ratio.toRat_mul, Ratio.toRat_power]
  simp [Ratio.toRat]

theorem positive_ratio {m : Nat} (hm : 0 < m) (e : Int) : (ratio m e).Positive :=
  (Ratio.positive_natural hm).mul (Ratio.positive_power two_pos e)

theorem leadingBit_cast : (leadingBit : ℚ) = 2 ^ (52 : Int) := by
  norm_num [leadingBit]

theorem log2_bounds {n : Nat} (hn : 0 < n) :
    (2 : ℚ) ^ (n.log2 : Int) ≤ n ∧ (n : ℚ) < 2 * 2 ^ (n.log2 : Int) := by
  rw [zpow_natCast]
  constructor
  · exact_mod_cast Nat.log2_self_le hn.ne'
  · rw [← pow_succ']
    exact_mod_cast Nat.lt_log2_self

theorem toRat_bounds {a : Ratio} (ha : a.Positive) {e : Int}
    (he : (a.num.log2 : Int) - a.den.log2 - 52 = e) :
    leadingBit * (2 : ℚ) ^ e / 2 < a.toRat ∧ a.toRat < 2 * (leadingBit * (2 : ℚ) ^ e) := by
  obtain ⟨hnumlow, hnumhigh⟩ := log2_bounds ha.1
  obtain ⟨hdenlow, hdenhigh⟩ := log2_bounds ha.2
  have hweight : (2 : ℚ) ^ (a.num.log2 : Int) = leadingBit * 2 ^ e * 2 ^ (a.den.log2 : Int) := by
    rw [leadingBit_cast, ← two_zpow_add, ← two_zpow_add]
    congr 1
    omega
  have hpos : (0 : ℚ) < a.den := Nat.cast_pos.2 ha.2
  have hunit : (0 : ℚ) < leadingBit * 2 ^ e := by
    rw [leadingBit_cast]
    positivity
  unfold Ratio.toRat
  rw [lt_div_iff₀ hpos, div_lt_iff₀ hpos]
  constructor <;> nlinarith

theorem exists_unitExponent_eq {a : Ratio} (ha : a.Positive) :
    ∃ e : Int, leadingBit * (2 : ℚ) ^ e ≤ a.toRat ∧ a.toRat < 2 * leadingBit * (2 : ℚ) ^ e ∧
      unitExponent a = max leastExponent e := by
  unfold unitExponent
  generalize he : (a.num.log2 : Int) - a.den.log2 - 52 = e
  obtain ⟨habove, hbelow⟩ := toRat_bounds ha he
  have hscaled := ha.div (Ratio.positive_power two_pos e)
  have hless : (a.div (.power 2 e)).num < (a.div (.power 2 e)).den * leadingBit ↔
      a.toRat < leadingBit * 2 ^ e := by
    rw [← Ratio.toRat_lt_natCast_iff hscaled.2, Ratio.toRat_div, Ratio.toRat_power]
    exact div_lt_iff₀ (two_zpow_pos e)
  simp only [hless]
  split
  · rename_i hlt
    obtain ⟨-, hhalf, -⟩ := two_zpow_steps e
    refine ⟨e - 1, ?_, ?_, rfl⟩ <;> rw [hhalf] <;> linarith
  · rename_i hge
    exact ⟨e, not_lt.1 hge, by linarith, rfl⟩

/-! What rounds to a number -/

/-- How far down the middle to the next smaller number is. The first number of a binade is nearer to
it, as those below have half the distance from one another. -/
def gapBelow (m : Nat) (e : Int) : ℚ :=
  if m = leadingBit ∧ leastExponent < e then 2 ^ (e - 2) else 2 ^ (e - 1)

structure RoundsTo (m : Nat) (e : Int) (x : ℚ) : Prop where
  low : m * 2 ^ e - gapBelow m e ≤ x
  high : x ≤ m * 2 ^ e + 2 ^ (e - 1)
  odd : m % 2 = 1 → m * 2 ^ e - gapBelow m e < x ∧ x < m * 2 ^ e + 2 ^ (e - 1)

/-- A significand of 53 bits, or one of fewer bits if the weight cannot be less. -/
structure Canonical (m : Nat) (e : Int) : Prop where
  significand : m < 2 * leadingBit
  least : leastExponent ≤ e
  greatest : e ≤ greatestExponent
  normal : leadingBit ≤ m ∨ e = leastExponent

variable {m : Nat} {e : Int} {a : Ratio}

theorem Canonical.add_one_le (h : Canonical m e) : (m : ℚ) + 1 ≤ 2 * leadingBit := by
  exact_mod_cast h.significand

theorem Canonical.leadingBit_le (h : Canonical m e) (he : leastExponent < e) : leadingBit ≤ m :=
  h.normal.resolve_right he.ne'

theorem gapBelow_le (m : Nat) (e : Int) : gapBelow m e ≤ 2 ^ (e - 1) := by
  obtain ⟨-, hhalf, hquarter⟩ := two_zpow_steps e
  have hpos := two_zpow_pos e
  unfold gapBelow
  split
  · rw [hhalf, hquarter]
    linarith
  · exact le_rfl

theorem IsNearest.scaled (hm : (m - 1 / 2 : ℚ) * 2 ^ e ≤ a.toRat)
    (hm' : a.toRat ≤ (m + 1 / 2 : ℚ) * 2 ^ e)
    (hodd : m % 2 = 1 → (m - 1 / 2 : ℚ) * 2 ^ e < a.toRat ∧ a.toRat < (m + 1 / 2 : ℚ) * 2 ^ e) :
    IsNearest (a.div (.power 2 e)).toRat m := by
  have hpos := two_zpow_pos e
  rw [Ratio.toRat_div, Ratio.toRat_power]
  refine ⟨(le_div_iff₀ hpos).2 hm, (div_le_iff₀ hpos).2 hm', fun h => ?_⟩
  exact ⟨(lt_div_iff₀ hpos).2 (hodd h).1, (div_lt_iff₀ hpos).2 (hodd h).2⟩

section Unit

variable (ha : a.Positive) {n : Nat} {u : Int} (hunit : unitExponent a = u)
  (hn : IsNearest (a.div (.power 2 u)).toRat n) (negative : Bool)
include ha hunit hn

theorem ofRatio_eq (hne : n ≠ 2 * leadingBit) : ofRatio negative a =
    if greatestExponent < u then .infinite negative else .finite negative n u := by
  have hround := roundHalfEven_eq (ha.div (Ratio.positive_power two_pos u)).2 hn
  rw [ofRatio, if_neg ha.1.ne', hunit]
  simp only [hround, if_neg hne]

theorem ofRatio_eq_of_carry (heq : n = 2 * leadingBit) : ofRatio negative a =
    if greatestExponent < u + 1 then .infinite negative
    else .finite negative leadingBit (u + 1) := by
  have hround := roundHalfEven_eq (ha.div (Ratio.positive_power two_pos u)).2 hn
  rw [ofRatio, if_neg ha.1.ne', hunit]
  simp only [hround, if_pos heq]

end Unit

theorem RoundsTo.lt_top {x : ℚ} (h : RoundsTo m e x) (hc : Canonical m e) :
    x < 2 * leadingBit * 2 ^ e := by
  obtain ⟨-, hhalf, -⟩ := two_zpow_steps e
  have hpos := two_zpow_pos e
  have hm := hc.add_one_le
  have hhigh := h.high
  rw [hhalf] at hhigh
  nlinarith

theorem RoundsTo.eq_leadingBit {x : ℚ} (h : RoundsTo m e x) (hm : leadingBit ≤ m)
    (hx : x < leadingBit * 2 ^ e) : m = leadingBit := by
  obtain ⟨-, hhalf, -⟩ := two_zpow_steps e
  have hpos := two_zpow_pos e
  refine le_antisymm (not_lt.1 fun hmore => ?_) hm
  have hmore : (leadingBit : ℚ) + 1 ≤ m := by exact_mod_cast hmore
  have hgap := gapBelow_le m e
  have hlow := h.low
  rw [hhalf] at hgap
  nlinarith

/-- A binade that is not the one of the number can only be the one below its first number. -/
theorem RoundsTo.unitExponent_or (h : RoundsTo m e a.toRat) (hc : Canonical m e) (ha : a.Positive) :
    unitExponent a = e ∨ m = leadingBit ∧ unitExponent a = e - 1 ∧
      (2 * leadingBit - 1 / 2 : ℚ) * 2 ^ (e - 1) ≤ a.toRat ∧ a.toRat < leadingBit * 2 ^ e := by
  obtain ⟨E, hlow, hhigh, hunit⟩ := exists_unitExponent_eq ha
  obtain ⟨hdouble, hhalf, hquarter⟩ := two_zpow_steps e
  have hpos := two_zpow_pos e
  have hone : (1 : ℚ) ≤ leadingBit := by norm_num [leadingBit]
  have hle : E ≤ e := by
    have htop := h.lt_top hc
    have hpowers : (2 : ℚ) ^ E < 2 ^ (e + 1) := by
      rw [hdouble]
      nlinarith
    exact Int.lt_add_one_iff.1 ((zpow_lt_zpow_iff_right₀ one_lt_two).1 hpowers)
  rcases eq_or_ne (max leastExponent E) e with heq | hne
  · exact .inl (hunit.trans heq)
  · have hleast := hc.least
    have hnormal := hc.leadingBit_le (by omega)
    have hbelow : a.toRat < leadingBit * 2 ^ e := by
      have hpowers : (2 : ℚ) ^ E ≤ 2 ^ (e - 1) := zpow_le_zpow_right₀ one_le_two (by omega)
      rw [hhalf] at hpowers
      nlinarith
    have hfirst := h.eq_leadingBit hnormal hbelow
    have hgap : gapBelow m e = 2 ^ e / 4 := by
      rw [gapBelow, if_pos ⟨hfirst, by omega⟩, hquarter]
    have hnear := h.low
    rw [hgap, hfirst] at hnear
    have hlast : e - 1 ≤ E := by
      refine not_lt.1 fun hfar => ?_
      have hpowers : (2 : ℚ) ^ E ≤ 2 ^ (e - 2) := zpow_le_zpow_right₀ one_le_two (by omega)
      rw [hquarter] at hpowers
      nlinarith
    refine .inr ⟨hfirst, ?_, ?_, hbelow⟩
    · rw [hunit]
      omega
    · rw [hhalf]
      linarith

theorem RoundsTo.ofRatio_eq (h : RoundsTo m e a.toRat) (hc : Canonical m e) (ha : a.Positive)
    (negative : Bool) : ofRatio negative a = .finite negative m e := by
  obtain ⟨-, hhalf, hquarter⟩ := two_zpow_steps e
  have hpos := two_zpow_pos e
  rcases h.unitExponent_or hc ha with hunit | ⟨hfirst, hunit, hlow, hhigh⟩
  · have hgap := gapBelow_le m e
    have hnearest : IsNearest (a.div (.power 2 e)).toRat m := by
      have hlow := h.low
      have hhigh := h.high
      have hodd := h.odd
      rw [hhalf] at hgap hhigh hodd
      refine .scaled (by linarith) (by linarith) fun hm => ⟨?_, ?_⟩
      · linarith [(hodd hm).1]
      · linarith [(hodd hm).2]
    rw [Binary64.ofRatio_eq ha hunit hnearest negative hc.significand.ne,
      if_neg (not_lt.2 hc.greatest)]
  · -- From just below the binade the quotient is rounded up into it.
    have hnearest : IsNearest (a.div (.power 2 (e - 1))).toRat (2 * leadingBit) := by
      refine .scaled ?_ ?_ fun hodd => by omega
      · push_cast
        exact hlow
      · push_cast
        rw [hhalf]
        linarith
    rw [ofRatio_eq_of_carry ha hunit hnearest negative rfl, hfirst, sub_add_cancel,
      if_neg (not_lt.2 hc.greatest)]

/-! Decimals -/

theorem ten_zpow_pos (e : Int) : (0 : ℚ) < 10 ^ e := zpow_pos (by norm_num) e

theorem length_toDigits_spec {n : Nat} (hn : n ≠ 0) :
    (10 : ℚ) ^ (((Nat.toDigits 10 n).length : Int) - 1) ≤ n ∧
      (n : ℚ) < 10 ^ ((Nat.toDigits 10 n).length : Int) := by
  have hten : 1 < 10 := by decide
  have hlength : 0 < (Nat.toDigits 10 n).length := Nat.length_toDigits_pos
  have hhigh := (Nat.length_toDigits_le_iff hten hlength).1 le_rfl
  obtain ⟨k, hk⟩ : ∃ k, (Nat.toDigits 10 n).length = k + 1 :=
    ⟨_, (Nat.succ_pred_eq_of_pos hlength).symm⟩
  have hlow : 10 ^ k ≤ n := by
    rcases Nat.eq_zero_or_pos k with rfl | hpos
    · exact Nat.pos_of_ne_zero hn
    · refine not_lt.1 fun hlt => ?_
      have hle := (Nat.length_toDigits_le_iff hten hpos).2 hlt
      omega
  rw [hk] at hhigh ⊢
  refine ⟨?_, by rw [zpow_natCast]; exact_mod_cast hhigh⟩
  rw [show ((k + 1 : ℕ) : Int) - 1 = k by omega, zpow_natCast]
  exact_mod_cast hlow

section Decimal

variable {digits : Nat} {exponent : Int}

theorem toRat_decimal (digits : Nat) (exponent : Int) :
    (Ratio.mul ⟨digits, 1⟩ (.power 10 exponent)).toRat = digits * 10 ^ exponent := by
  rw [Ratio.toRat_mul, Ratio.toRat_power]
  simp [Ratio.toRat]

theorem positive_decimal (hdigits : digits ≠ 0) (exponent : Int) :
    (Ratio.mul ⟨digits, 1⟩ (.power 10 exponent)).Positive :=
  (Ratio.positive_natural (Nat.pos_of_ne_zero hdigits)).mul
    (Ratio.positive_power (by decide) exponent)

/-! The numbers are looked at between these two powers of ten only. -/

theorem two_mul_ten_zpow_lt : (2 : ℚ) * 10 ^ (-400 : Int) < 2 ^ leastExponent := by
  have hnat : 2 * 2 ^ 1074 < 10 ^ 400 := by decide +kernel
  have hrat : (2 : ℚ) * 2 ^ 1074 < 10 ^ 400 := by exact_mod_cast hnat
  show (2 : ℚ) * 10 ^ (-((400 : ℕ) : Int)) < 2 ^ (-((1074 : ℕ) : Int))
  rw [zpow_neg, zpow_neg, zpow_natCast, zpow_natCast, ← div_eq_mul_inv, ← one_div,
    div_lt_div_iff₀ (by positivity) (by positivity), one_mul]
  exact hrat

theorem greatest_lt_ten_zpow :
    2 * leadingBit * (2 : ℚ) ^ greatestExponent < 10 ^ (400 : Int) := by
  have hnat : 2 * leadingBit * 2 ^ 971 < 10 ^ 400 := by decide +kernel
  show 2 * leadingBit * (2 : ℚ) ^ ((971 : ℕ) : Int) < 10 ^ ((400 : ℕ) : Int)
  rw [zpow_natCast, zpow_natCast]
  exact_mod_cast hnat

theorem RoundsTo.size_bounds (h : RoundsTo m e (digits * 10 ^ exponent)) (hc : Canonical m e)
    (hm : m ≠ 0) (hdigits : digits ≠ 0) :
    -400 ≤ ((Nat.toDigits 10 digits).length : Int) + exponent ∧
      ((Nat.toDigits 10 digits).length : Int) + exponent ≤ 400 := by
  obtain ⟨hlow, hhigh⟩ := length_toDigits_spec hdigits
  have hten := ten_zpow_pos exponent
  have hpos := two_zpow_pos e
  obtain ⟨-, hhalf, -⟩ := two_zpow_steps e
  have hone : (1 : ℚ) ≤ m := by exact_mod_cast Nat.one_le_iff_ne_zero.2 hm
  have hmany := hc.add_one_le
  have hgap := gapBelow_le m e
  have hnear := h.low
  have hfar := h.high
  rw [hhalf] at hgap hfar
  constructor
  · refine not_lt.1 fun hsmall => ?_
    have hpowers : (10 : ℚ) ^ (((Nat.toDigits 10 digits).length : Int) + exponent) ≤
        10 ^ (-400 : Int) := zpow_le_zpow_right₀ (by norm_num) (by omega)
    rw [zpow_add₀ (by norm_num)] at hpowers
    have hunit : (2 : ℚ) ^ leastExponent ≤ 2 ^ e := zpow_le_zpow_right₀ (by norm_num) hc.least
    have hleast := two_mul_ten_zpow_lt
    nlinarith
  · refine not_lt.1 fun hlarge => ?_
    have hpowers : (10 : ℚ) ^ (400 : Int) ≤
        10 ^ (((Nat.toDigits 10 digits).length : Int) - 1 + exponent) :=
      zpow_le_zpow_right₀ (by norm_num) (by omega)
    rw [zpow_add₀ (by norm_num)] at hpowers
    have hunit : (2 : ℚ) ^ e ≤ 2 ^ greatestExponent :=
      zpow_le_zpow_right₀ (by norm_num) hc.greatest
    have hgreatest := greatest_lt_ten_zpow
    nlinarith

theorem RoundsTo.ofDecimal_eq (h : RoundsTo m e (digits * 10 ^ exponent)) (hc : Canonical m e)
    (hm : m ≠ 0) (hdigits : digits ≠ 0) (negative : Bool) :
    ofDecimal negative digits exponent = .finite negative m e := by
  obtain ⟨hlow, hhigh⟩ := h.size_bounds hc hm hdigits
  rw [← toRat_decimal] at h
  rw [ofDecimal, if_neg (by omega), if_neg (by omega)]
  exact h.ofRatio_eq hc (positive_decimal hdigits exponent) negative

end Decimal

def IsCanonical : Binary64 → Prop
  | .finite _ m e => Canonical m e
  | .infinite _ => True

theorem isCanonical_zero (negative : Bool) : (zero negative).IsCanonical :=
  ⟨by decide, le_rfl, by decide, .inr rfl⟩

theorem isCanonical_ofRatio (negative : Bool) (ha : a.Positive) :
    (ofRatio negative a).IsCanonical := by
  obtain ⟨E, hlow, hhigh, hunit⟩ := exists_unitExponent_eq ha
  have hscaled := ha.div (Ratio.positive_power two_pos (unitExponent a))
  have hnearest := isNearest_roundHalfEven hscaled.2
  have hvalue : (a.div (.power 2 (unitExponent a))).toRat = a.toRat / 2 ^ unitExponent a := by
    rw [Ratio.toRat_div, Ratio.toRat_power, Nat.cast_two]
  have hpos := two_zpow_pos (unitExponent a)
  have hmost : (a.div (.power 2 (unitExponent a))).roundHalfEven ≤ 2 * leadingBit := by
    refine hnearest.le_of_le ?_
    have hpowers : (2 : ℚ) ^ E ≤ 2 ^ unitExponent a :=
      zpow_le_zpow_right₀ (by norm_num) (by omega)
    have hleading : (0 : ℚ) < leadingBit := by norm_num [leadingBit]
    rw [hvalue, div_le_iff₀ hpos]
    push_cast
    nlinarith
  have hleast : leastExponent ≤ unitExponent a := by omega
  rcases eq_or_ne (a.div (.power 2 (unitExponent a))).roundHalfEven (2 * leadingBit) with heq | hne
  · rw [ofRatio_eq_of_carry ha rfl hnearest negative heq]
    split
    · trivial
    · rename_i hgreatest
      exact ⟨by decide, by omega, not_lt.1 hgreatest, .inl le_rfl⟩
  · rw [ofRatio_eq ha rfl hnearest negative hne]
    split
    · trivial
    · rename_i hgreatest
      refine ⟨lt_of_le_of_ne hmost hne, hleast, not_lt.1 hgreatest, ?_⟩
      rcases eq_or_ne (unitExponent a) leastExponent with hfirst | hnormal
      · exact .inr hfirst
      · obtain rfl : E = unitExponent a := by omega
        refine .inl (hnearest.ge_of_ge ?_)
        rw [hvalue, le_div_iff₀ hpos]
        exact hlow

theorem isCanonical_ofDecimal (negative : Bool) (digits : Nat) (exponent : Int) :
    (ofDecimal negative digits exponent).IsCanonical := by
  unfold ofDecimal
  dsimp only
  split
  · exact isCanonical_zero negative
  · rename_i hsome
    split
    · trivial
    · exact isCanonical_ofRatio negative (positive_decimal (by omega) exponent)

end SchemaGraph.Binary64
