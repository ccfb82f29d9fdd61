import FrameGraph.Single
import Mathlib.Algebra.Order.Floor.Semifield
import Mathlib.Data.Int.Log
import Mathlib.Data.Rat.Floor
import Mathlib.Tactic.LinearCombination
import Mathlib.Tactic.Positivity

/-!
# Rounding of rational numbers

A rational number has a nearest one with a significand of 24 bits, the exponent
being unbounded; from the middle between two of them it is the one with the even
significand. `rounded` is defined by this alone: it has such a significand
(`exists_significand`), and no other number that has one is nearer
(`abs_sub_rounded_le`). In the range that the exponent
field covers, the arithmetic of single precision numbers is exact arithmetic with
the result rounded in this way: `Single.HasValue` relates a number to its value, and
there is one lemma for each operation.
-/
namespace FrameGraph

/-- The nearest whole number, from the middle the even one. -/
def roundEven (x : ℚ) : ℤ :=
  if Int.fract x < 1 / 2 then ⌊x⌋
  else if 1 / 2 < Int.fract x then ⌊x⌋ + 1
  else ⌊x⌋ + ⌊x⌋ % 2

/-- The distance of neighbouring numbers with a significand of 24 bits. -/
def binaryStep (x : ℚ) : ℚ := 2 ^ (Int.log 2 x - 23)

/-- The nearest number with a significand of 24 bits. -/
def rounded (x : ℚ) : ℚ := roundEven (x / binaryStep x) * binaryStep x

theorem binaryStep_pos (x : ℚ) : 0 < binaryStep x := zpow_pos (by norm_num) _

theorem log_mul_zpow {x : ℚ} (hx : 0 < x) (k : ℤ) :
    Int.log 2 (x * 2 ^ k) = Int.log 2 x + k := by
  have hpow : (0 : ℚ) < 2 ^ k := zpow_pos (by norm_num) k
  apply le_antisymm
  · have hlog := Int.lt_zpow_succ_log_self (R := ℚ) (b := 2) (by norm_num) x
    rw [← Int.lt_add_one_iff, ← Int.lt_zpow_iff_log_lt (by norm_num) (mul_pos hx hpow),
      add_right_comm, zpow_add₀ (by norm_num)]
    exact mul_lt_mul_of_pos_right hlog hpow
  · have hlog := Int.zpow_log_le_self (R := ℚ) (b := 2) (by norm_num) hx
    rw [← Int.zpow_le_iff_le_log (by norm_num) (mul_pos hx hpow), zpow_add₀ (by norm_num)]
    exact mul_le_mul_of_nonneg_right hlog hpow.le

/-- Powers of two do not meddle with rounding. -/
theorem rounded_mul_zpow {x : ℚ} (hx : 0 < x) (k : ℤ) :
    rounded (x * 2 ^ k) = rounded x * 2 ^ k := by
  have hpow : (2 : ℚ) ^ k ≠ 0 := zpow_ne_zero k (by norm_num)
  have hstep : binaryStep (x * 2 ^ k) = binaryStep x * 2 ^ k := by
    rw [binaryStep, log_mul_zpow hx, add_sub_right_comm, zpow_add₀ (by norm_num), binaryStep]
  rw [rounded, hstep, mul_div_mul_right _ _ hpow, ← mul_assoc, rounded]

theorem abs_sub_roundEven (x : ℚ) : |x - roundEven x| = min (Int.fract x) (1 - Int.fract x) := by
  have hfract := Int.self_sub_floor x
  have hpos := Int.fract_nonneg x
  have hless := Int.fract_lt_one x
  unfold roundEven
  split_ifs with hbelow habove
  · rw [hfract, abs_of_nonneg hpos, min_eq_left (by linarith)]
  · push_cast
    rw [← sub_sub, hfract, abs_of_neg (by linarith), min_eq_right (by linarith), neg_sub]
  · have hhalf : Int.fract x = 1 / 2 := le_antisymm (not_lt.mp habove) (not_lt.mp hbelow)
    rcases Int.emod_two_eq_zero_or_one ⌊x⌋ with heven | hodd
    · rw [heven, add_zero, hfract, hhalf]
      norm_num
    · rw [hodd]
      push_cast
      rw [← sub_sub, hfract, hhalf]
      norm_num

/-- No whole number is nearer. -/
theorem abs_sub_roundEven_le (x : ℚ) (n : ℤ) : |x - roundEven x| ≤ |x - n| := by
  rw [abs_sub_roundEven, ← abs_sub_round_eq_min]
  exact round_le x n

theorem abs_sub_rounded (x : ℚ) :
    |x - rounded x| = |x / binaryStep x - roundEven (x / binaryStep x)| * binaryStep x := by
  have hstep := binaryStep_pos x
  rw [← abs_of_pos hstep, ← abs_mul, abs_of_pos hstep, sub_mul, div_mul_cancel₀ x hstep.ne']
  rfl

theorem abs_sub_rounded_le_of_multiple (x : ℚ) (n : ℤ) :
    |x - rounded x| ≤ |x - n * binaryStep x| := by
  have hstep := binaryStep_pos x
  calc |x - rounded x| = |x / binaryStep x - roundEven (x / binaryStep x)| * binaryStep x :=
        abs_sub_rounded x
    _ ≤ |x / binaryStep x - n| * binaryStep x :=
        mul_le_mul_of_nonneg_right (abs_sub_roundEven_le _ n) hstep.le
    _ = |x - n * binaryStep x| := by
        rw [← abs_of_pos hstep, ← abs_mul, abs_of_pos hstep, sub_mul,
          div_mul_cancel₀ x hstep.ne']

theorem two_zpow_log_eq (x : ℚ) : (2 : ℚ) ^ Int.log 2 x = (2 ^ 23 : ℤ) * binaryStep x := by
  rw [binaryStep, Int.cast_pow, Int.cast_ofNat, ← zpow_natCast, ← zpow_add₀ (by norm_num)]
  congr 1
  omega

/-- No number with a significand of 24 bits is nearer. -/
theorem abs_sub_rounded_le {x : ℚ} (hx : 0 < x) {m : ℤ} (hm : m ≤ 2 ^ 24) (k : ℤ) :
    |x - rounded x| ≤ |x - m * 2 ^ k| := by
  rcases le_or_gt (Int.log 2 x - 23) k with hfine | hcoarse
  · obtain ⟨j, hj⟩ := Int.le.dest hfine
    have hmultiple : m * (2 : ℚ) ^ k = (m * 2 ^ j : ℤ) * binaryStep x := by
      rw [← hj, zpow_add₀ (by norm_num), binaryStep, zpow_natCast]
      push_cast
      ring
    rw [hmultiple]
    exact abs_sub_rounded_le_of_multiple x _
  · -- What has a smaller exponent lies below the power of two at the start of the binade.
    have hbinade := Int.zpow_log_le_self (R := ℚ) (b := 2) (by norm_num) hx
    have hsmall : m * (2 : ℚ) ^ k ≤ 2 ^ Int.log 2 x := by
      calc m * (2 : ℚ) ^ k ≤ 2 ^ 24 * 2 ^ k :=
            mul_le_mul_of_nonneg_right (by exact_mod_cast hm) (zpow_pos (by norm_num) k).le
        _ = 2 ^ (24 + k) := (zpow_add₀ (by norm_num) 24 k).symm
        _ ≤ 2 ^ Int.log 2 x := zpow_le_zpow_right₀ (by norm_num) (by omega)
    calc |x - rounded x| ≤ |x - (2 ^ 23 : ℤ) * binaryStep x| :=
          abs_sub_rounded_le_of_multiple x _
      _ = x - 2 ^ Int.log 2 x := by
          rw [← two_zpow_log_eq]
          exact abs_of_nonneg (sub_nonneg.mpr hbinade)
      _ ≤ x - m * 2 ^ k := sub_le_sub_left hsmall x
      _ ≤ |x - m * 2 ^ k| := le_abs_self _

theorem exists_significand (x : ℚ) :
    ∃ m k : ℤ, m ≤ 2 ^ 24 ∧ rounded x = m * 2 ^ k := by
  refine ⟨roundEven (x / binaryStep x), Int.log 2 x - 23, ?_, rfl⟩
  have hquotient : x / binaryStep x < (2 ^ 24 : ℤ) := by
    have hlog := Int.lt_zpow_succ_log_self (R := ℚ) (b := 2) (by norm_num) x
    rw [Nat.cast_ofNat, zpow_add_one₀ (by norm_num), two_zpow_log_eq] at hlog
    rw [div_lt_iff₀ (binaryStep_pos x)]
    push_cast at hlog ⊢
    linarith
  by_contra hlarge
  have hcast : ((2 ^ 24 : ℤ) : ℚ) < roundEven (x / binaryStep x) := by
    exact_mod_cast not_le.mp hlarge
  have hnearest := abs_sub_roundEven_le (x / binaryStep x) (2 ^ 24)
  rw [abs_of_neg (by linarith), abs_of_neg (by linarith)] at hnearest
  linarith

/-- Rounding changes a number by less than half of it, and not by much in fact. -/
theorem rounded_bounds {x : ℚ} (hx : 0 < x) : x ≤ 2 * rounded x ∧ rounded x ≤ 2 * x := by
  have hlarge : 2 * binaryStep x ≤ x := by
    have hlog := Int.zpow_log_le_self (R := ℚ) (b := 2) (by norm_num) hx
    rw [Nat.cast_ofNat, two_zpow_log_eq] at hlog
    push_cast at hlog
    linarith [binaryStep_pos x]
  have hnear : |x - rounded x| ≤ binaryStep x := by
    have hfract : |x / binaryStep x - roundEven (x / binaryStep x)| ≤ 1 := by
      rw [abs_sub_roundEven]
      exact (min_le_left _ _).trans (Int.fract_lt_one _).le
    rw [abs_sub_rounded]
    exact mul_le_of_le_one_left (binaryStep_pos x).le hfract
  obtain ⟨hbelow, habove⟩ := abs_le.mp hnear
  constructor
  · linarith
  · linarith

namespace Single

theorem nearestEven_add {den t : ℕ} (k : ℕ) (ht : t < den) :
    nearestEven (k * den + t) den =
      if 2 * t < den then k else if den < 2 * t then k + 1 else k + k % 2 := by
  have hquotient : (k * den + t) / den = k := by
    rw [Nat.mul_comm, Nat.mul_add_div (Nat.zero_lt_of_lt ht), Nat.div_eq_of_lt ht, Nat.add_zero]
  have hrest : (k * den + t) % den = t := by
    rw [Nat.mul_comm, Nat.mul_add_mod, Nat.mod_eq_of_lt ht]
  simp only [nearestEven, hquotient, hrest]

theorem roundEven_div (num : ℕ) {den : ℕ} (hden : 0 < den) :
    roundEven (num / den) = nearestEven num den := by
  have hpos : (0 : ℚ) < den := by exact_mod_cast hden
  have hfloor : ⌊(num : ℚ) / den⌋ = ((num / den : ℕ) : ℤ) := by
    have hfloor := Rat.floor_intCast_div_natCast num den
    rw [Int.cast_natCast] at hfloor
    exact hfloor
  have hbelow : Int.fract ((num : ℚ) / den) < 1 / 2 ↔ 2 * (num % den) < den := by
    rw [Int.fract_div_natCast_eq_div_natCast_mod, div_lt_div_iff₀ hpos (by norm_num)]
    norm_cast
    omega
  have habove : 1 / 2 < Int.fract ((num : ℚ) / den) ↔ den < 2 * (num % den) := by
    rw [Int.fract_div_natCast_eq_div_natCast_mod, div_lt_div_iff₀ (by norm_num) hpos]
    norm_cast
    omega
  simp only [roundEven, nearestEven, hbelow, habove, hfloor]
  split_ifs <;> simp

/-- Between two powers of two the distance of neighbours is constant. -/
theorem spacing_of_binade {units e : ℕ} (hlow : 2 ^ (23 + e) ≤ units)
    (hhigh : units < 2 ^ (24 + e)) : spacing units = 2 ^ e := by
  have hpos : units ≠ 0 := by
    have := Nat.two_pow_pos (23 + e)
    omega
  have hlog : units.log2 = 23 + e := (Nat.log2_eq_iff hpos).mpr ⟨hlow, by
    rwa [show 23 + e + 1 = 24 + e by omega]⟩
  unfold spacing
  split_ifs with hsmall
  · have hlt : 23 + e < 24 := (Nat.pow_lt_pow_iff_right (by norm_num)).mp (hlow.trans_lt hsmall)
    rw [show e = 0 by omega, pow_zero]
  · rw [hlog, Nat.add_sub_cancel_left]
    rfl

theorem exists_binade {units : ℕ} (h : 2 ^ 23 ≤ units) :
    ∃ e, 2 ^ (23 + e) ≤ units ∧ units < 2 ^ (24 + e) := by
  have hpos : units ≠ 0 := by omega
  have hlog : 23 ≤ units.log2 := (Nat.le_log2 hpos).mpr h
  refine ⟨units.log2 - 23, ?_, ?_⟩
  · rw [Nat.add_sub_cancel' hlog]
    exact Nat.log2_self_le hpos
  · rw [show 24 + (units.log2 - 23) = units.log2 + 1 by omega]
    exact Nat.lt_log2_self

/-- From the smallest magnitude with a full significand on, a ratio of units is
rounded as its value is. -/
theorem roundUnits_eq_rounded {num den : ℕ} (hden : 0 < den) (h : 2 ^ 23 ≤ num / den) :
    (roundUnits num den : ℚ) = rounded (num / den) := by
  obtain ⟨e, hlow, hhigh⟩ := exists_binade h
  have hspacing := spacing_of_binade hlow hhigh
  have hfloor : ⌊(num : ℚ) / den⌋₊ = num / den := Nat.floor_div_eq_div num den
  have hone : (1 : ℚ) ≤ num / den := by
    rw [← Nat.one_le_floor_iff, hfloor]
    omega
  have hlog : Int.log 2 ((num : ℚ) / den) = 23 + e := by
    rw [Int.log_of_one_le_right 2 hone, hfloor]
    have hpos : num / den ≠ 0 := by omega
    exact_mod_cast (Nat.log_eq_iff (.inr ⟨by norm_num, hpos⟩)).mpr ⟨hlow, by
      rwa [show 23 + e + 1 = 24 + e by omega]⟩
  have hstep : binaryStep (num / den) = ((2 ^ e : ℕ) : ℚ) := by
    rw [binaryStep, hlog, add_sub_cancel_left]
    norm_cast
  unfold roundUnits rounded
  simp only [hspacing, hstep]
  rw [div_div, ← Nat.cast_mul, roundEven_div num (Nat.mul_pos hden (Nat.two_pow_pos e))]
  push_cast
  rfl

theorem roundUnits_of_dvd {units : ℕ} (h : spacing units ∣ units) :
    roundUnits units 1 = units := by
  obtain ⟨k, hk⟩ := h
  have hnearest := nearestEven_add k (spacing_pos units)
  rw [Nat.add_zero, Nat.mul_comm, ← hk] at hnearest
  simp only [roundUnits, Nat.div_one, Nat.one_mul, hnearest, Nat.mul_zero, spacing_pos, if_true]
  rw [Nat.mul_comm, ← hk]

/-- A significand of 24 bits is kept, and so is the power of two behind it. -/
theorem roundUnits_mul_two_pow {a j : ℕ} (ha : 0 < a) (hle : a ≤ 2 ^ 24) (hj : 23 ≤ j) :
    roundUnits (a * 2 ^ j) 1 = a * 2 ^ j := by
  have hfull : 2 ^ 23 ≤ a * 2 ^ j :=
    (Nat.pow_le_pow_right (by norm_num) hj).trans (Nat.le_mul_of_pos_left _ ha)
  obtain ⟨e, hlow, hhigh⟩ := exists_binade hfull
  apply roundUnits_of_dvd
  rw [spacing_of_binade hlow hhigh]
  rcases Nat.lt_or_ge j e with hlt | hge
  · -- Only the power of two itself reaches the next binade.
    have htop : 2 ^ (24 + j) ≤ a * 2 ^ j :=
      (Nat.pow_le_pow_right (by norm_num) (by omega)).trans hlow
    rw [pow_add] at htop
    obtain rfl : a = 2 ^ 24 := le_antisymm hle (Nat.le_of_mul_le_mul_right htop (by positivity))
    rw [← pow_add] at hlow ⊢
    have := (Nat.pow_le_pow_iff_right (by norm_num)).mp hlow
    exact Nat.pow_dvd_pow 2 (by omega)
  · exact (Nat.pow_dvd_pow 2 hge).trans (Nat.dvd_mul_left _ _)

theorem rounded_natCast {n : ℕ} (hn : 0 < n) (hle : n ≤ 2 ^ 24) : rounded n = n := by
  have hfull : 2 ^ 23 ≤ n * 2 ^ 23 / 1 := by omega
  have hscaled : rounded (n * 2 ^ (23 : ℤ)) = n * 2 ^ (23 : ℤ) := by
    have hexact := roundUnits_eq_rounded Nat.one_pos hfull
    rw [roundUnits_mul_two_pow hn hle le_rfl, Nat.cast_one, div_one] at hexact
    exact_mod_cast hexact.symm
  have hpos : (0 : ℚ) < n := by exact_mod_cast hn
  rw [rounded_mul_zpow hpos] at hscaled
  exact mul_right_cancel₀ (zpow_ne_zero 23 (by norm_num)) hscaled

/-- A positive number with its value. -/
def HasValue (x : Single) (v : ℚ) : Prop :=
  ∃ units, x = .finite false units ∧ units = v * unitsPerOne

/-- Values from the least with a full significand up, well below the greatest. -/
def InRange (v : ℚ) : Prop := 2 ^ (-126 : ℤ) ≤ v ∧ v < 2 ^ (127 : ℤ)

theorem InRange.pos {v : ℚ} (h : InRange v) : 0 < v := (zpow_pos (by norm_num) _).trans_le h.1

theorem cast_two_pow (n : ℕ) : ((Nat.pow 2 n : ℕ) : ℚ) = 2 ^ (n : ℤ) := by
  rw [Nat.pow_eq, Nat.cast_pow, Nat.cast_ofNat, zpow_natCast]

theorem unitsPerOne_eq : (unitsPerOne : ℚ) = 2 ^ (149 : ℤ) := cast_two_pow 149

theorem unitsPerOne_pos : (0 : ℚ) < unitsPerOne := by
  rw [unitsPerOne_eq]
  positivity

theorem overflow_eq : overflow = 2 ^ 128 * unitsPerOne := by
  decide +kernel

/-- A ratio of units is rounded as its value is. -/
theorem hasValue_round {num den : ℕ} {v : ℚ} (hden : 0 < den)
    (hv : (num : ℚ) / den = v * unitsPerOne) (hrange : InRange v) :
    (round false num den).HasValue (rounded v) := by
  have hfloor : ⌊(num : ℚ) / den⌋₊ = num / den := Nat.floor_div_eq_div num den
  have hlow : 2 ^ 23 ≤ num / den := by
    rw [← hfloor, Nat.le_floor_iff (by positivity), hv]
    calc ((2 ^ 23 : ℕ) : ℚ) = 2 ^ (-126 : ℤ) * unitsPerOne := by
          rw [unitsPerOne_eq, ← zpow_add₀ (by norm_num)]
          norm_num
      _ ≤ v * unitsPerOne := mul_le_mul_of_nonneg_right hrange.1 unitsPerOne_pos.le
  have hround : (roundUnits num den : ℚ) = rounded v * unitsPerOne := by
    rw [roundUnits_eq_rounded hden hlow, hv, unitsPerOne_eq, rounded_mul_zpow hrange.pos]
  have hlt : roundUnits num den < overflow := by
    rw [overflow_eq, ← Nat.cast_lt (α := ℚ), hround, Nat.cast_mul]
    apply mul_lt_mul_of_pos_right _ unitsPerOne_pos
    calc rounded v ≤ 2 * v := (rounded_bounds hrange.pos).2
      _ < 2 * 2 ^ (127 : ℤ) := mul_lt_mul_of_pos_left hrange.2 (by norm_num)
      _ = ((2 ^ 128 : ℕ) : ℚ) := by norm_num
  exact ⟨roundUnits num den, by simp only [round, hlt, if_true], hround⟩

theorem hasValue_ofNat {n : ℕ} (hn : 0 < n) (hle : n ≤ 2 ^ 24) : (ofNat n).HasValue n := by
  have hcast : (n : ℚ) ≤ 2 ^ 24 := by exact_mod_cast hle
  have hone : (1 : ℚ) ≤ n := by exact_mod_cast hn
  have hrange : InRange n := ⟨le_trans (by norm_num) hone, hcast.trans_lt (by norm_num)⟩
  have hunits : ((n * unitsPerOne : ℕ) : ℚ) / (1 : ℕ) = n * unitsPerOne := by
    push_cast
    exact div_one _
  have hvalue := hasValue_round Nat.one_pos hunits hrange
  rwa [rounded_natCast hn hle] at hvalue

theorem hasValue_reciprocal {x : Single} {v : ℚ} (hx : x.HasValue v) (hrange : InRange (1 / v)) :
    x.reciprocal.HasValue (rounded (1 / v)) := by
  obtain ⟨a, rfl, ha⟩ := hx
  have hunits := unitsPerOne_pos
  have hv : 0 < v := one_div_pos.mp hrange.pos
  have hpos : 0 < a := by
    have : (0 : ℚ) < a := ha ▸ mul_pos hv hunits
    exact_mod_cast this
  simp only [reciprocal, hpos.ne', if_false]
  apply hasValue_round hpos _ hrange
  push_cast
  rw [ha]
  field_simp

theorem hasValue_mul {x y : Single} {u v : ℚ} (hx : x.HasValue u) (hy : y.HasValue v)
    (hrange : InRange (u * v)) : (x.mul y).HasValue (rounded (u * v)) := by
  obtain ⟨a, rfl, ha⟩ := hx
  obtain ⟨b, rfl, hb⟩ := hy
  have hunits := unitsPerOne_pos
  have hv : ((a * b : ℕ) : ℚ) / unitsPerOne = u * v * unitsPerOne := by
    push_cast
    rw [ha, hb]
    field_simp
  simp only [mul, bne_self_eq_false]
  exact hasValue_round (Nat.two_pow_pos 149) hv hrange

theorem truncateTo_of_hasValue {x : Single} {v : ℚ} (hx : x.HasValue v) (bound : ℕ) :
    x.truncateTo bound = min ⌊v⌋₊ bound := by
  obtain ⟨units, rfl, hv⟩ := hx
  rw [← mul_div_cancel_right₀ v unitsPerOne_pos.ne', ← hv, Nat.floor_div_eq_div]
  rfl

end Single
end FrameGraph
