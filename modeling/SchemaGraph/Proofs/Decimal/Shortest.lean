import Mathlib.Data.Nat.Cast.Field
import Mathlib.Data.Nat.Cast.Order.Field
import SchemaGraph.Decimal.Shortest
import SchemaGraph.Proofs.Decimal.Rounding

/-! Shortest decimals round to the number they are made from. Seventeen digits are always enough:
the grid is then finer than the interval of what rounds to the number. -/

namespace SchemaGraph.Decimal

open Binary64

def Within (closed : Bool) (distance limit : ℚ) : Prop :=
  if closed then distance ≤ limit else distance < limit

theorem Within.le {closed : Bool} {distance limit : ℚ} (h : Within closed distance limit) :
    distance ≤ limit := by
  cases closed with
  | true => exact h
  | false => exact le_of_lt h

theorem le_of_not_within {closed : Bool} {distance limit : ℚ} (h : ¬Within closed distance limit) :
    limit ≤ distance := by
  cases closed with
  | true => exact le_of_lt (not_le.1 h)
  | false => exact not_lt.1 h

section Grid

variable {value below above step : Ratio}

def nearEnough (closed : Bool) (gap : Nat) (limit v : Ratio) : Bool :=
  if closed then gap * limit.den ≤ limit.num * v.den else gap * limit.den < limit.num * v.den

theorem nearEnough_iff (closed : Bool) {limit v : Ratio} (hlimit : limit.Positive)
    (hstep : step.Positive) (hv : 0 < v.den) (gap : Nat) :
    nearEnough closed gap (limit.div step) v = true ↔
      Within closed (gap / v.den * step.toRat) limit.toRat := by
  have hden : (0 : ℚ) < (limit.div step).den := Nat.cast_pos.2 (hlimit.div hstep).2
  have hpos : (0 : ℚ) < v.den := Nat.cast_pos.2 hv
  have hvalue : limit.toRat / step.toRat = (limit.div step).num / (limit.div step).den :=
    (Ratio.toRat_div ..).symm
  unfold nearEnough Within
  cases closed
  · simp only [Bool.false_eq_true, if_false, decide_eq_true_eq]
    rw [← lt_div_iff₀ hstep.toRat_pos, hvalue, div_lt_div_iff₀ hpos hden]
    exact_mod_cast Iff.rfl
  · simp only [if_true, decide_eq_true_eq]
    rw [← le_div_iff₀ hstep.toRat_pos, hvalue, div_le_div_iff₀ hpos hden]
    exact_mod_cast Iff.rfl

theorem toRat_sub_grid (hvalue : value.Positive) (hstep : step.Positive) :
    let v := value.div step
    value.toRat - (v.num / v.den : ℕ) * step.toRat =
        (v.num % v.den : ℕ) / v.den * step.toRat ∧
      (v.num / v.den + 1 : ℕ) * step.toRat - value.toRat =
        (v.den - v.num % v.den : ℕ) / v.den * step.toRat := by
  intro v
  have hden : 0 < v.den := (hvalue.div hstep).2
  have hpos : (0 : ℚ) < v.den := Nat.cast_pos.2 hden
  have hscaled : value.toRat = v.num / v.den * step.toRat := by
    have hdiv : v.num / v.den = value.toRat / step.toRat := Ratio.toRat_div ..
    rw [hdiv, div_mul_cancel₀ _ hstep.toRat_pos.ne']
  have hsplit : (v.num : ℚ) / v.den = (v.num / v.den : ℕ) + (v.num % v.den : ℕ) / v.den :=
    Ratio.toRat_eq_div_add_mod hden
  have hrest : ((v.den - v.num % v.den : ℕ) : ℚ) / v.den = 1 - (v.num % v.den : ℕ) / v.den := by
    rw [Nat.cast_sub (Nat.mod_lt _ hden).le, sub_div, div_self hpos.ne']
  rw [hrest, hscaled, hsplit]
  push_cast
  constructor <;> ring

theorem onGrid_eq (tie : Tie) (closed : Bool) (value below above : Ratio) (k : Int) :
    let v := value.div (.power 10 k)
    let q := v.num / v.den
    let r := v.num % v.den
    let low := nearEnough closed r (below.div (.power 10 k)) v
    let high := nearEnough closed (v.den - r) (above.div (.power 10 k)) v
    (onGrid tie closed value below above k = none → low = false ∧ high = false) ∧
      ∀ d, onGrid tie closed value below above k = some d →
        d = ⟨q, k⟩ ∧ low = true ∨ d = ⟨q + 1, k⟩ ∧ high = true := by
  intro v q r low high
  unfold onGrid
  extract_lets step v' q' r' within
  have hquotient : q' = q := rfl
  have hlow : within r' below = low := rfl
  have hhigh : within (v'.den - r') above = high := rfl
  rw [hquotient, hlow, hhigh]
  clear_value low high q r'
  cases low <;> cases high <;> cases tie <;> grind

/-- Only a neighbour of the value is taken, only if it is near enough, and one is if one can be. -/
theorem onGrid_spec (tie : Tie) (closed : Bool) (hvalue : value.Positive) (hbelow : below.Positive)
    (habove : above.Positive) (k : Int) :
    ∃ q : ℕ, q * 10 ^ k ≤ value.toRat ∧ value.toRat ≤ (q + 1 : ℕ) * 10 ^ k ∧
      (onGrid tie closed value below above k = none →
        ¬Within closed (value.toRat - q * 10 ^ k) below.toRat ∧
          ¬Within closed ((q + 1 : ℕ) * 10 ^ k - value.toRat) above.toRat) ∧
      ∀ d, onGrid tie closed value below above k = some d →
        d = ⟨q, k⟩ ∧ Within closed (value.toRat - q * 10 ^ k) below.toRat ∨
          d = ⟨q + 1, k⟩ ∧ Within closed ((q + 1 : ℕ) * 10 ^ k - value.toRat) above.toRat := by
  have hstep : (Ratio.power 10 k).Positive := Ratio.positive_power (by decide) k
  have hunit : (Ratio.power 10 k).toRat = 10 ^ k := Ratio.toRat_power 10 k
  have hden := (hvalue.div hstep).2
  have hten := ten_zpow_pos k
  obtain ⟨hlow, hhigh⟩ := toRat_sub_grid hvalue hstep
  obtain ⟨hnone, hsome⟩ := onGrid_eq tie closed value below above k
  simp only [← Bool.not_eq_true, nearEnough_iff closed hbelow hstep hden,
    nearEnough_iff closed habove hstep hden, ← hlow, ← hhigh] at hnone hsome
  rw [hunit] at hlow hhigh hnone hsome
  refine ⟨(value.div (.power 10 k)).num / (value.div (.power 10 k)).den, ?_, ?_, hnone, hsome⟩
  · rw [← sub_nonneg, hlow]
    positivity
  · rw [← sub_nonneg, hhigh]
    positivity

end Grid

theorem ten_pow_leadingExponent_le {a : Ratio} (ha : a.Positive) :
    (10 : ℚ) ^ leadingExponent a ≤ a.toRat := by
  have hpos : (0 : ℚ) < a.den := Nat.cast_pos.2 ha.2
  unfold leadingExponent
  split
  · rename_i hle
    have hwhole : a.num / a.den ≠ 0 := (Nat.div_pos hle ha.2).ne'
    refine (length_toDigits_spec hwhole).1.trans ?_
    exact Nat.cast_div_le
  · -- The places after the point until the first digit that is not zero.
    have hlt : (a.den - 1) / a.num < 10 ^ (Nat.toDigits 10 ((a.den - 1) / a.num)).length :=
      (Nat.length_toDigits_le_iff (by decide) Nat.length_toDigits_pos).1 le_rfl
    have hden : a.den ≤ 10 ^ (Nat.toDigits 10 ((a.den - 1) / a.num)).length * a.num := by
      have hlt := (Nat.div_lt_iff_lt_mul ha.1).1 hlt
      omega
    rw [zpow_neg, zpow_natCast, Ratio.toRat, ← one_div, div_le_div_iff₀ (by positivity) hpos,
      one_mul, mul_comm]
    exact_mod_cast hden

theorem leadingExponent_ge {a : Ratio} (ha : a.Positive) (h : (10 : ℚ) ^ 18 ≤ a.toRat) :
    18 ≤ leadingExponent a := by
  have hnum : 10 ^ 18 * a.den ≤ a.num := by
    rw [Ratio.toRat, le_div_iff₀ (Nat.cast_pos.2 ha.2)] at h
    exact_mod_cast h
  have hwhole : 10 ^ 18 ≤ a.num / a.den := (Nat.le_div_iff_mul_le ha.2).2 hnum
  have hlong : 18 < (Nat.toDigits 10 (a.num / a.den)).length := by
    refine not_le.1 fun hshort => ?_
    exact absurd ((Nat.length_toDigits_le_iff (by decide) (by decide)).1 hshort) (not_lt.2 hwhole)
  rw [leadingExponent, if_pos (by omega)]
  omega

theorem ten_pow_trailingZeros_dvd (n : Nat) :
    10 ^ ((Nat.toDigits 10 n).reverse.takeWhile (· = '0')).length ∣ n := by
  induction n using Nat.strongRecOn with
  | ind n ih =>
    by_cases hn : n < 10
    · rw [Nat.toDigits_of_lt_base hn]
      by_cases hzero : n = 0
      · rw [hzero]
        exact dvd_zero _
      · have hdigit : n.digitChar ≠ '0' := fun h => hzero (Nat.digitChar_eq_zero.1 h)
        simp [hdigit]
    · rw [Nat.toDigits_of_base_le (by decide) (not_lt.1 hn), List.reverse_append]
      by_cases hlast : n % 10 = 0
      · have hdvd := Nat.mul_dvd_mul_right (ih (n / 10) (by omega)) 10
        rw [Nat.div_mul_cancel (Nat.dvd_of_mod_eq_zero hlast), ← pow_succ] at hdvd
        simpa [hlast] using hdvd
      · have hdigit : (n % 10).digitChar ≠ '0' := fun h => hlast (Nat.digitChar_eq_zero.1 h)
        simp [hdigit]

def Scientific.toRat (d : Scientific) : ℚ := d.digits * 10 ^ d.exponent

theorem toRat_stripZeros (d : Scientific) : (stripZeros d).toRat = d.toRat := by
  have hdvd := ten_pow_trailingZeros_dvd d.digits
  unfold stripZeros Scientific.toRat
  dsimp only
  generalize ((Nat.toDigits 10 d.digits).reverse.takeWhile (· = '0')).length = z at *
  have hcast : ((d.digits / 10 ^ z : ℕ) : ℚ) = d.digits / 10 ^ z := by
    rw [Nat.cast_div hdvd (by positivity)]
    norm_num
  show ((d.digits / 10 ^ z : ℕ) : ℚ) * _ = _
  rw [hcast, zpow_add₀ (by norm_num), zpow_natCast]
  field_simp

section Number

variable {m : Nat} {e : Int}

theorem exists_limits (m : Nat) (e : Int) : ∃ below : Ratio, below.Positive ∧
    below.toRat = gapBelow m e ∧ (if m = leadingBit ∧ leastExponent < e then ratio 1 (e - 2)
      else ratio 1 (e - 1)) = below := by
  refine ⟨_, ?_, ?_, rfl⟩
  · split <;> exact positive_ratio one_pos _
  · unfold gapBelow
    split
    all_goals
      rw [toRat_ratio, Nat.cast_one, one_mul]

/-- The seventeenth grid is finer than the interval is wide. -/
theorem ten_pow_lt_width (hc : Canonical m e) (hm : m ≠ 0) :
    (10 : ℚ) ^ (leadingExponent (ratio m e) - 16) < gapBelow m e + 2 ^ (e - 1) := by
  have hlead := ten_pow_leadingExponent_le (positive_ratio (Nat.pos_of_ne_zero hm) e)
  obtain ⟨-, hhalf, hquarter⟩ := two_zpow_steps e
  have hpos := two_zpow_pos e
  have hstep : (10 : ℚ) ^ (leadingExponent (ratio m e) - 16) * 10 ^ 16 =
      10 ^ leadingExponent (ratio m e) := by
    rw [← zpow_natCast, ← zpow_add₀ (by norm_num)]
    norm_num
  rw [toRat_ratio] at hlead
  have hmany := hc.add_one_le
  have hbits : (leadingBit : ℚ) = 4503599627370496 := by norm_num [leadingBit]
  rw [hbits] at hmany
  unfold gapBelow
  split
  · rename_i hfirst
    obtain ⟨rfl, -⟩ := hfirst
    rw [hbits] at hlead
    rw [hhalf, hquarter]
    nlinarith
  · rw [hhalf]
    nlinarith

theorem roundsTo_of_onGrid {tie : Tie} {below : Ratio} {k : Int} {d : Scientific} (hm : m ≠ 0)
    (hbelow : below.Positive) (hgap : below.toRat = gapBelow m e)
    (h : onGrid tie (m % 2 = 0) (ratio m e) below (ratio 1 (e - 1)) k = some d) :
    RoundsTo m e d.toRat := by
  obtain ⟨q, hlow, hhigh, -, hsome⟩ := onGrid_spec tie (m % 2 = 0)
    (positive_ratio (Nat.pos_of_ne_zero hm) e) hbelow (positive_ratio one_pos (e - 1)) k
  rw [toRat_ratio, toRat_ratio, Nat.cast_one, one_mul, hgap] at hsome
  rw [toRat_ratio] at hlow hhigh
  have hhalf := two_zpow_pos (e - 1)
  have hbelow := hgap ▸ hbelow.toRat_pos
  have hstrict : ∀ {distance limit : ℚ}, Within (decide (m % 2 = 0)) distance limit →
      m % 2 = 1 → distance < limit := by
    intro distance limit hwithin hodd
    rwa [Within, if_neg (by simp [hodd])] at hwithin
  rcases hsome d h with ⟨rfl, hwithin⟩ | ⟨rfl, hwithin⟩
  · refine ⟨?_, ?_, fun hodd => ⟨?_, ?_⟩⟩ <;> unfold Scientific.toRat
    · linarith [hwithin.le]
    · linarith
    · linarith [hstrict hwithin hodd]
    · linarith
  · refine ⟨?_, ?_, fun hodd => ⟨?_, ?_⟩⟩ <;> unfold Scientific.toRat
    · linarith
    · linarith [hwithin.le]
    · linarith
    · linarith [hstrict hwithin hodd]

theorem roundsTo_shortest (tie : Tie) (hc : Canonical m e) (hm : m ≠ 0) :
    RoundsTo m e (shortest tie m e).toRat := by
  obtain ⟨below, hbelow, hgap, hlimits⟩ := exists_limits m e
  unfold shortest
  simp only [hlimits]
  split
  · rename_i d hd
    obtain ⟨k, -, hk⟩ := List.exists_of_findSome?_eq_some hd
    rw [toRat_stripZeros]
    exact roundsTo_of_onGrid hm hbelow hgap hk
  · -- The seventeenth grid cannot have been without a decimal.
    rename_i hnone
    have hmem : leadingExponent (ratio m e) - 16 ∈ (List.range 17).map fun (n : Nat) =>
        leadingExponent (ratio m e) - (n : Int) := List.mem_map.2 ⟨16, by decide, rfl⟩
    have hlast := List.findSome?_eq_none_iff.1 hnone _ hmem
    obtain ⟨q, -, -, hfar, -⟩ := onGrid_spec tie (m % 2 = 0)
      (positive_ratio (Nat.pos_of_ne_zero hm) e) hbelow (positive_ratio one_pos (e - 1))
      (leadingExponent (ratio m e) - 16)
    obtain ⟨hlow, hhigh⟩ := hfar hlast
    have hwidth := ten_pow_lt_width hc hm
    have hlow := le_of_not_within hlow
    have hhigh := le_of_not_within hhigh
    rw [hgap] at hlow
    rw [toRat_ratio 1, Nat.cast_one, one_mul] at hhigh
    push_cast at hhigh
    linarith

theorem digits_shortest_ne_zero (tie : Tie) (hc : Canonical m e) (hm : m ≠ 0) :
    (shortest tie m e).digits ≠ 0 := by
  intro hzero
  have hlow := (roundsTo_shortest tie hc hm).low
  have hgap := gapBelow_le m e
  obtain ⟨-, hhalf, -⟩ := two_zpow_steps e
  have hpos := two_zpow_pos e
  have hone : (1 : ℚ) ≤ m := by exact_mod_cast Nat.one_le_iff_ne_zero.2 hm
  rw [Scientific.toRat, hzero, Nat.cast_zero, zero_mul] at hlow
  rw [hhalf] at hgap
  nlinarith

theorem ofDecimal_shortest (tie : Tie) (hc : Canonical m e) (hm : m ≠ 0) (negative : Bool) :
    ofDecimal negative (shortest tie m e).digits (shortest tie m e).exponent =
      .finite negative m e :=
  (roundsTo_shortest tie hc hm).ofDecimal_eq hc hm (digits_shortest_ne_zero tie hc hm) negative

/-! Whole numbers -/

theorem two_pow_le_iff (hc : Canonical m e) : (2 : ℚ) ^ 63 ≤ m * 2 ^ e ↔ 11 ≤ e := by
  have hpos := two_zpow_pos e
  constructor
  · intro hbig
    by_contra hsmall
    have hweight : (2 : ℚ) ^ e ≤ 2 ^ (10 : Int) := zpow_le_zpow_right₀ one_le_two (by omega)
    have hmany := hc.add_one_le
    norm_num [leadingBit] at hmany hweight hbig
    nlinarith
  · intro hlarge
    have hweight : (2 : ℚ) ^ (11 : Int) ≤ 2 ^ e := zpow_le_zpow_right₀ one_le_two hlarge
    have hfull := hc.leadingBit_le (lt_of_lt_of_le (by decide) hlarge)
    calc (2 : ℚ) ^ 63 = leadingBit * 2 ^ (11 : Int) := by norm_num [leadingBit]
      _ ≤ m * 2 ^ e := mul_le_mul (by exact_mod_cast hfull) hweight (by positivity) (by positivity)

theorem exponent_of_onGrid {tie : Tie} {closed : Bool} {value below above : Ratio} {k : Int}
    {d : Scientific} (h : onGrid tie closed value below above k = some d) : d.exponent = k := by
  rcases (onGrid_eq tie closed value below above k).2 d h with ⟨rfl, -⟩ | ⟨rfl, -⟩ <;> rfl

theorem exponent_le_stripZeros (d : Scientific) : d.exponent ≤ (stripZeros d).exponent := by
  unfold stripZeros
  dsimp only
  omega

theorem exponent_shortest_nonneg (tie : Tie) (hc : Canonical m e)
    (hbig : (2 : ℚ) ^ 63 ≤ m * 2 ^ e) : 0 ≤ (shortest tie m e).exponent := by
  have hlarge := (two_pow_le_iff hc).1 hbig
  have hm : 0 < m := by
    refine Nat.pos_of_ne_zero fun hzero => ?_
    rw [hzero] at hbig
    norm_num at hbig
  have hlead : 18 ≤ leadingExponent (ratio m e) := by
    refine leadingExponent_ge (positive_ratio hm e) ?_
    rw [toRat_ratio]
    exact le_trans (by norm_num) hbig
  obtain ⟨below, -, -, hlimits⟩ := exists_limits m e
  unfold shortest
  simp only [hlimits]
  split
  · rename_i d hd
    obtain ⟨k, hk, hgrid⟩ := List.exists_of_findSome?_eq_some hd
    obtain ⟨n, hn, rfl⟩ := List.mem_map.1 hk
    have hplace := exponent_of_onGrid hgrid
    have hstrip := exponent_le_stripZeros d
    have hn := List.mem_range.1 hn
    omega
  · show 0 ≤ e
    omega

theorem shortest_lt (tie : Tie) (hc : Canonical m e) (hm : m ≠ 0)
    (hsmall : m * (2 : ℚ) ^ e < 2 ^ 63) : (shortest tie m e).toRat < 2 ^ 63 := by
  have hlow := mt (two_pow_le_iff hc).2 (not_le.2 hsmall)
  have hhigh := (roundsTo_shortest tie hc hm).high
  obtain ⟨-, hhalf, -⟩ := two_zpow_steps e
  have hpos := two_zpow_pos e
  have hweight : (2 : ℚ) ^ e ≤ 2 ^ (10 : Int) := zpow_le_zpow_right₀ one_le_two (by omega)
  have hmany := hc.add_one_le
  rw [hhalf] at hhigh
  norm_num [leadingBit] at hmany hweight ⊢
  nlinarith

theorem middle_le_shortest (tie : Tie) (hc : Canonical m e) (hm : m ≠ 0) :
    ((m : ℚ) - 1 / 2) * 2 ^ e ≤ (shortest tie m e).toRat := by
  have hlow := (roundsTo_shortest tie hc hm).low
  have hgap := gapBelow_le m e
  obtain ⟨-, hhalf, -⟩ := two_zpow_steps e
  rw [hhalf] at hgap
  linarith

/-- The first of the numbers from there on is the only one that what lies below may round to. -/
theorem lt_shortest (tie : Tie) (hc : Canonical m e) (hm : m ≠ 0)
    (hbig : (2 : ℚ) ^ 63 ≤ m * 2 ^ e) : 2 ^ 63 < (shortest tie m e).toRat := by
  have hlarge := (two_pow_le_iff hc).1 hbig
  have hfull := hc.leadingBit_le (lt_of_lt_of_le (by decide) hlarge)
  by_cases hfirst : m = leadingBit ∧ e = 11
  · obtain ⟨rfl, rfl⟩ := hfirst
    have hcomputed : (shortest tie leadingBit 11).exponent = 3 ∧
        2 ^ 63 < (shortest tie leadingBit 11).digits * 10 ^ 3 := by
      cases tie <;> decide +kernel
    rw [Scientific.toRat, hcomputed.1]
    exact_mod_cast hcomputed.2
  · refine lt_of_lt_of_le ?_ (middle_le_shortest tie hc hm)
    have hone : (1 : ℚ) ≤ m := by exact_mod_cast Nat.one_le_iff_ne_zero.2 hm
    have hscaled : ∀ {low weight : ℚ}, 0 ≤ weight → low ≤ m → weight ≤ 2 ^ e →
        (low - 1 / 2) * weight ≤ (m - 1 / 2) * 2 ^ e := fun hnonneg hsignificand hweight =>
      mul_le_mul (sub_le_sub_right hsignificand _) hweight hnonneg (by linarith)
    -- A number after the first has a greater weight or a greater significand.
    rcases eq_or_lt_of_le hfull with heq | hlt
    · have hweight : (2 : ℚ) ^ (12 : Int) ≤ 2 ^ e := zpow_le_zpow_right₀ one_le_two (by omega)
      have hmany : (leadingBit : ℚ) ≤ m := by exact_mod_cast hfull
      refine lt_of_lt_of_le ?_ (hscaled (by positivity) hmany hweight)
      norm_num [leadingBit]
    · have hweight : (2 : ℚ) ^ (11 : Int) ≤ 2 ^ e := zpow_le_zpow_right₀ one_le_two hlarge
      have hmany : (leadingBit : ℚ) + 1 ≤ m := by exact_mod_cast hlt
      refine lt_of_lt_of_le ?_ (hscaled (by positivity) hmany hweight)
      norm_num [leadingBit]

end Number

end SchemaGraph.Decimal
