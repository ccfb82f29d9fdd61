import FrameGraph.Buffer
import FrameGraph.Proofs.RationalRounding
import Mathlib.Data.Nat.Prime.Basic

/-!
# Divided sizes

A share of one part in `d` is the reciprocal of `d`, rounded; an axis of the
resolution is multiplied by it, and the product is rounded once more before its
whole part is taken. Where `d` divides the axis the quotient comes out again unless
the share was rounded down so far that the second rounding ends below it:
`Size.FallsShort` says for which quotients, and `Size.resolve_divided` that an axis
loses one pixel there and nothing anywhere else. No divisor up to forty falls short,
and no power of two.

The proofs count in the units in which the significand of the share is a whole
number. One part in `d` of `q * d` is then `q` whole parts and less than one spacing
more (`Single.roundUnits_above`) or less (`Single.roundUnits_below`).
-/
namespace FrameGraph

namespace Single

/-! ### Rounding near whole numbers -/

section
variable {units q m e t : ℕ}

theorem spacing_of_scaled (hlow : 2 ^ e * 2 ^ (23 + m) ≤ units)
    (hhigh : units < 2 ^ (e + 1) * 2 ^ (23 + m)) : spacing units = 2 ^ (e + m) := by
  apply spacing_of_binade
  · calc 2 ^ (23 + (e + m)) = 2 ^ e * 2 ^ (23 + m) := by ring
      _ ≤ units := hlow
  · calc units < 2 ^ (e + 1) * 2 ^ (23 + m) := hhigh
      _ = 2 ^ (24 + (e + m)) := by ring

/-- In the binades of a significand that is not full, a whole number is an even
multiple of the spacing. -/
theorem exists_even_multiple (he : e ≤ 22) (m : ℕ) :
    ∃ f, 0 < f ∧ 2 ^ (23 + m) = 2 * (f * 2 ^ (e + m)) := by
  refine ⟨2 ^ (22 - e), Nat.two_pow_pos _, ?_⟩
  rw [← pow_add, ← pow_succ']
  congr 1
  omega

/-- What is less than one spacing above a whole number keeps that whole part. -/
theorem roundUnits_above (hlow : 2 ^ e ≤ q) (hhigh : q < 2 ^ (e + 1)) (he : e ≤ 22)
    (ht : t < 2 ^ (e + m)) : roundUnits (q * 2 ^ (23 + m) + t) 1 / 2 ^ (23 + m) = q := by
  obtain ⟨f, hf, hscale⟩ := exists_even_multiple he m
  have hstep : 2 ^ (e + m) ≤ f * 2 ^ (e + m) := Nat.le_mul_of_pos_left _ hf
  have hnext : q * 2 ^ (23 + m) + 2 ^ (23 + m) ≤ 2 ^ (e + 1) * 2 ^ (23 + m) := by
    rw [← Nat.succ_mul]
    exact Nat.mul_le_mul_right _ hhigh
  have hspacing : spacing (q * 2 ^ (23 + m) + t) = 2 ^ (e + m) := by
    apply spacing_of_scaled
    · exact (Nat.mul_le_mul_right _ hlow).trans (Nat.le_add_right _ _)
    · omega
  have hmultiple : q * 2 ^ (23 + m) = 2 * q * f * 2 ^ (e + m) := by
    rw [hscale]
    ring
  have hround : roundUnits (q * 2 ^ (23 + m) + t) 1 = q * 2 ^ (23 + m) ∨
      roundUnits (q * 2 ^ (23 + m) + t) 1 = q * 2 ^ (23 + m) + 2 ^ (e + m) := by
    simp only [roundUnits, Nat.div_one, hspacing, Nat.one_mul]
    rw [hmultiple, nearestEven_add (2 * q * f) ht]
    split_ifs with hbelow habove
    · exact .inl rfl
    · exact .inr (Nat.succ_mul _ _)
    · left
      rw [Nat.mul_assoc 2 q f, Nat.mul_mod_right, Nat.add_zero]
  rcases hround with hdown | hup
  · rw [hdown, Nat.mul_div_cancel _ (Nat.two_pow_pos _)]
  · rw [hup]
    apply Nat.div_eq_of_lt_le
    · exact Nat.le_add_right _ _
    · rw [Nat.succ_mul]
      omega

/-- What is less than one spacing below a whole number is rounded to it, unless it is
more than half a spacing below. The spacing is the one of the binade that ends at the
number or goes on above it. -/
theorem roundUnits_below (hlow : 2 ^ e < q) (hhigh : q ≤ 2 ^ (e + 1)) (he : e ≤ 22)
    (hpos : 0 < t) (ht : t < 2 ^ (e + m)) :
    roundUnits (q * 2 ^ (23 + m) - t) 1 / 2 ^ (23 + m) =
      if 2 ^ (e + m) < 2 * t then q - 1 else q := by
  obtain ⟨f, hf, hscale⟩ := exists_even_multiple he m
  have hstep : 2 ^ (e + m) ≤ f * 2 ^ (e + m) := Nat.le_mul_of_pos_left _ hf
  obtain ⟨k, rfl⟩ : ∃ k, q = k + 1 := ⟨q - 1, by omega⟩
  have hsplit : (k + 1) * 2 ^ (23 + m) = k * 2 ^ (23 + m) + 2 ^ (23 + m) := Nat.succ_mul _ _
  have hspacing : spacing ((k + 1) * 2 ^ (23 + m) - t) = 2 ^ (e + m) := by
    apply spacing_of_scaled
    · have hbefore : 2 ^ e * 2 ^ (23 + m) ≤ k * 2 ^ (23 + m) :=
        Nat.mul_le_mul_right _ (Nat.le_of_lt_succ hlow)
      omega
    · have hlast := Nat.mul_le_mul_right (2 ^ (23 + m)) hhigh
      omega
  obtain ⟨n, hn⟩ : ∃ n, 2 * (k + 1) * f = n + 1 := Nat.exists_eq_succ_of_ne_zero (by positivity)
  have hmultiple : (k + 1) * 2 ^ (23 + m) = (n + 1) * 2 ^ (e + m) := by
    rw [hscale, ← hn]
    ring
  have hrest : (k + 1) * 2 ^ (23 + m) - t = n * 2 ^ (e + m) + (2 ^ (e + m) - t) := by
    rw [hmultiple, Nat.succ_mul]
    omega
  have hround : roundUnits ((k + 1) * 2 ^ (23 + m) - t) 1 =
      if 2 ^ (e + m) < 2 * t then n * 2 ^ (e + m) else (n + 1) * 2 ^ (e + m) := by
    have hodd : n % 2 = 1 := by
      rw [Nat.mul_assoc] at hn
      omega
    simp only [roundUnits, Nat.div_one, hspacing, Nat.one_mul]
    rw [hrest, nearestEven_add n (by omega), hodd]
    have hbelow : 2 * (2 ^ (e + m) - t) < 2 ^ (e + m) ↔ 2 ^ (e + m) < 2 * t := by omega
    simp only [hbelow]
    split_ifs <;> rfl
  rw [hround]
  split_ifs with hlost
  · apply Nat.div_eq_of_lt_le
    · have : (n + 1) * 2 ^ (e + m) = n * 2 ^ (e + m) + 2 ^ (e + m) := Nat.succ_mul _ _
      rw [Nat.add_sub_cancel]
      omega
    · have : (n + 1) * 2 ^ (e + m) = n * 2 ^ (e + m) + 2 ^ (e + m) := Nat.succ_mul _ _
      have := Nat.two_pow_pos (e + m)
      rw [Nat.add_sub_cancel]
      omega
  · rw [← hmultiple, Nat.mul_div_cancel _ (Nat.two_pow_pos _)]

/-- What is less than one has at most the whole part one after rounding. -/
theorem floor_rounded_le_one {x : ℚ} (hpos : 0 < x) (hlt : x < 1) : ⌊rounded x⌋₊ ≤ 1 := by
  have hnonneg : 0 ≤ rounded x := by linarith [(rounded_bounds hpos).1]
  rw [← Nat.lt_succ_iff, Nat.floor_lt hnonneg]
  push_cast
  linarith [(rounded_bounds hpos).2]

/-- What is scaled by a power of two is rounded as it would be in units. -/
theorem floor_rounded_div {a : ℕ} (ha : 2 ^ 23 ≤ a) (k : ℕ) :
    ⌊rounded (a / 2 ^ k)⌋₊ = roundUnits a 1 / 2 ^ k := by
  have hpos : (0 : ℚ) < a := by exact_mod_cast Nat.zero_lt_of_lt ha
  have hunits : rounded (a : ℚ) = roundUnits a 1 := by
    have hround := roundUnits_eq_rounded Nat.one_pos (ha.trans (Nat.div_one a).ge)
    rw [hround, Nat.cast_one, div_one]
  have hvalue : rounded (a / 2 ^ k) = (roundUnits a 1 : ℚ) / (2 ^ k : ℕ) := by
    have hscaled := rounded_mul_zpow hpos (-k)
    rw [zpow_neg, zpow_natCast, ← div_eq_mul_inv, ← div_eq_mul_inv, hunits] at hscaled
    rw [hscaled, Nat.cast_pow, Nat.cast_ofNat]
  rw [hvalue, Nat.floor_div_eq_div]

end

end Single

namespace Size

/-- What is left of one, divided by `d` to 24 significant bits. -/
def shareRest (d : ℕ) : ℕ := 2 ^ (23 + Nat.clog 2 d) % d

/-- The significand of the share of one part in `d`. -/
def shareSignificand (d : ℕ) : ℕ := Single.nearestEven (2 ^ (23 + Nat.clog 2 d)) d

/-- The whole part of an axis of `q * d`, multiplied by the share and rounded. -/
def wholePart (d q : ℕ) : ℕ :=
  Single.roundUnits (q * (shareSignificand d * d)) 1 / 2 ^ (23 + Nat.clog 2 d)

/-- The share was rounded down, and `q * d` times what it lacks is more than half
the distance from `q` down to its neighbour. -/
def FallsShort (d q : ℕ) : Prop :=
  2 ≤ q ∧ 2 * shareRest d < d ∧ 2 ^ (Nat.clog 2 d + Nat.clog 2 q) < 4 * q * shareRest d

instance decidableFallsShort (d q : ℕ) : Decidable (FallsShort d q) :=
  inferInstanceAs (Decidable (_ ∧ _ ∧ _))

/-- One part in `d` of an axis of `q * d`, in whole pixels. -/
def part (d q : ℕ) : ℕ := if FallsShort d q then q - 1 else q

section
variable {d q : ℕ}

theorem FallsShort.shareRest_pos (h : FallsShort d q) : 0 < shareRest d := by
  apply Nat.pos_of_ne_zero
  intro hzero
  have hlost := h.2.2
  rw [hzero, Nat.mul_zero] at hlost
  exact Nat.not_lt_zero _ hlost

@[simp] theorem part_one (d : ℕ) : part d 1 = 1 := if_neg fun h => Nat.not_succ_le_self 1 h.1

theorem one_le_part (hq : 0 < q) : 1 ≤ part d q := by
  unfold part
  split_ifs with h
  · have := h.1
    omega
  · exact hq

theorem part_eq_iff (hq : 0 < q) : part d q = q ↔ ¬FallsShort d q := by
  unfold part
  split_ifs with h
  · simp only [h, not_true, iff_false]
    omega
  · simp only [h, not_false_eq_true]

/-! ### The share -/

theorem clog_bounds (hd : 0 < d) : d ≤ 2 ^ Nat.clog 2 d ∧ 2 ^ Nat.clog 2 d < 2 * d := by
  refine ⟨Nat.le_pow_clog (by norm_num) d, ?_⟩
  rcases Nat.lt_or_ge 1 d with hlt | hle
  · have hpred := Nat.pow_pred_clog_lt_self (b := 2) (by norm_num) hlt
    have hpos := Nat.clog_pos (b := 2) (by norm_num) hlt
    obtain ⟨c, hc⟩ := Nat.exists_eq_succ_of_ne_zero hpos.ne'
    rw [hc, Nat.pred_succ] at hpred
    rw [hc, pow_succ]
    omega
  · obtain rfl : d = 1 := by omega
    rw [Nat.clog_one_right]
    norm_num

theorem le_share_quotient (hd : 0 < d) : 2 ^ 23 ≤ 2 ^ (23 + Nat.clog 2 d) / d := by
  rw [Nat.le_div_iff_mul_le hd, pow_add]
  exact Nat.mul_le_mul_left _ (clog_bounds hd).1

theorem le_shareSignificand (hd : 0 < d) : 2 ^ 23 ≤ shareSignificand d := by
  apply (le_share_quotient hd).trans
  simp only [shareSignificand, Single.nearestEven]
  split_ifs <;> omega

theorem rounded_reciprocal (hd : 0 < d) :
    rounded (1 / d) = shareSignificand d / 2 ^ (23 + Nat.clog 2 d) := by
  have hfull := le_share_quotient hd
  have hone : 2 ^ (23 + Nat.clog 2 d) / d < 2 ^ 24 := by
    have := (clog_bounds hd).2
    rw [Nat.div_lt_iff_lt_mul hd, pow_add]
    omega
  have hspacing : Single.spacing (2 ^ (23 + Nat.clog 2 d) / d) = 1 :=
    Single.spacing_of_binade (e := 0) hfull hone
  have hunits : Single.roundUnits (2 ^ (23 + Nat.clog 2 d)) d = shareSignificand d := by
    simp only [Single.roundUnits, hspacing, Nat.mul_one, shareSignificand]
  have hpos : (0 : ℚ) < 1 / d := by positivity
  rw [eq_div_iff (by positivity), ← zpow_natCast, ← rounded_mul_zpow hpos, ← hunits,
    Single.roundUnits_eq_rounded hd hfull, zpow_natCast]
  congr 1
  push_cast
  ring

/-- No share lies in the middle between two numbers. -/
theorem two_mul_shareRest_ne (hd : 0 < d) (hrest : 0 < shareRest d) : 2 * shareRest d ≠ d := by
  intro htie
  have hdiv : d ∣ 2 ^ (24 + Nat.clog 2 d) := by
    have hsplit := Nat.div_add_mod (2 ^ (23 + Nat.clog 2 d)) d
    refine ⟨2 * (2 ^ (23 + Nat.clog 2 d) / d) + 1, ?_⟩
    calc 2 ^ (24 + Nat.clog 2 d) = 2 * 2 ^ (23 + Nat.clog 2 d) := by ring
      _ = 2 * (d * (2 ^ (23 + Nat.clog 2 d) / d)) + 2 * shareRest d := by
          rw [← Nat.mul_add]
          exact congrArg (2 * ·) hsplit.symm
      _ = d * (2 * (2 ^ (23 + Nat.clog 2 d) / d) + 1) := by
          rw [htie]
          ring
  obtain ⟨j, -, rfl⟩ := (Nat.dvd_prime_pow Nat.prime_two).mp hdiv
  rw [shareRest, Nat.clog_pow 2 j (by norm_num), pow_add, Nat.mul_mod_left] at hrest
  exact Nat.lt_irrefl 0 hrest

theorem shareSignificand_of_below (hhalf : 2 * shareRest d < d) :
    shareSignificand d * d = 2 ^ (23 + Nat.clog 2 d) - shareRest d := by
  have hsplit := Nat.div_add_mod' (2 ^ (23 + Nat.clog 2 d)) d
  have hquotient : shareSignificand d = 2 ^ (23 + Nat.clog 2 d) / d := by
    simp only [shareSignificand, Single.nearestEven]
    exact if_pos hhalf
  rw [hquotient, shareRest]
  omega

theorem shareSignificand_of_above (hd : 0 < d) (hhalf : d < 2 * shareRest d) :
    shareSignificand d * d = 2 ^ (23 + Nat.clog 2 d) + (d - shareRest d) := by
  have hsplit := Nat.div_add_mod' (2 ^ (23 + Nat.clog 2 d)) d
  have hless := Nat.mod_lt (2 ^ (23 + Nat.clog 2 d)) hd
  have hquotient : shareSignificand d = 2 ^ (23 + Nat.clog 2 d) / d + 1 := by
    simp only [shareSignificand, Single.nearestEven]
    exact (if_neg (Nat.lt_asymm hhalf)).trans (if_pos hhalf)
  rw [hquotient, Nat.succ_mul, shareRest]
  omega

/-! ### One axis -/

/-- Less than half of `d`, taken `q` times, is less than half the product of the powers
of two above `q` and `d`. -/
theorem mul_lt_of_half {e t : ℕ} (hd : 0 < d) (hq : 0 < q) (hle : q ≤ 2 ^ (e + 1))
    (ht : 2 * t < d) : q * t < 2 ^ (e + Nat.clog 2 d) := by
  have hdouble : 2 * (q * t) < 2 * 2 ^ (e + Nat.clog 2 d) := by
    calc 2 * (q * t) = q * (2 * t) := Nat.mul_left_comm 2 q t
      _ < q * d := Nat.mul_lt_mul_of_pos_left ht hq
      _ ≤ 2 ^ (e + 1) * 2 ^ Nat.clog 2 d := Nat.mul_le_mul hle (clog_bounds hd).1
      _ = 2 * 2 ^ (e + Nat.clog 2 d) := by ring
  omega

theorem lt_of_three_le (hd : 3 ≤ d) (hmax : q * d ≤ 2 ^ 24) : q < 2 ^ 23 := by
  have := Nat.mul_le_mul_left q hd
  omega

theorem wholePart_of_exact (hq : 0 < q) (hd : 0 < d) (hmax : q * d ≤ 2 ^ 24)
    (hrest : shareRest d = 0) : wholePart d q = q := by
  have hsignificand := shareSignificand_of_below (d := d) (by omega)
  have hle : q ≤ 2 ^ 24 := (Nat.le_mul_of_pos_right q hd).trans hmax
  rw [wholePart, hsignificand, hrest, Nat.sub_zero,
    Single.roundUnits_mul_two_pow hq hle (by omega), Nat.mul_div_cancel _ (Nat.two_pow_pos _)]

theorem wholePart_of_above (hq : 0 < q) (hd : 0 < d) (hmax : q * d ≤ 2 ^ 24)
    (hhalf : d < 2 * shareRest d) : wholePart d q = q := by
  have hless : shareRest d < d := Nat.mod_lt _ hd
  have hsmall : q < 2 ^ 23 := lt_of_three_le (by omega) hmax
  have hlow := Nat.pow_log_le_self 2 hq.ne'
  have hhigh := Nat.lt_pow_succ_log_self (b := 2) (by norm_num) q
  have hexp : Nat.log 2 q ≤ 22 := Nat.le_of_lt_succ (Nat.log_lt_of_lt_pow hq.ne' hsmall)
  rw [wholePart, shareSignificand_of_above hd hhalf, Nat.mul_add]
  exact Single.roundUnits_above hlow hhigh hexp
    (mul_lt_of_half hd hq hhigh.le (by omega))

theorem wholePart_of_below (hq : 2 ≤ q) (hd : 0 < d) (hmax : q * d ≤ 2 ^ 24)
    (hrest : 0 < shareRest d) (hhalf : 2 * shareRest d < d) : wholePart d q = part d q := by
  obtain ⟨e, he⟩ : ∃ e, Nat.clog 2 q = e + 1 :=
    Nat.exists_eq_succ_of_ne_zero (Nat.clog_pos (by norm_num) hq).ne'
  have hsmall : q < 2 ^ 23 := lt_of_three_le (by omega) hmax
  have hlow : 2 ^ e < q := Nat.pow_lt_of_lt_clog (by omega)
  have hhigh : q ≤ 2 ^ (e + 1) := he ▸ Nat.le_pow_clog (by norm_num) q
  have hexp : e ≤ 22 := by
    have := (Nat.pow_lt_pow_iff_right (by norm_num)).mp (hlow.trans hsmall)
    omega
  have hpos : 0 < q * shareRest d := Nat.mul_pos (by omega) hrest
  have hlost : 2 ^ (e + Nat.clog 2 d) < 2 * (q * shareRest d) ↔ FallsShort d q := by
    have hdouble : 2 ^ (Nat.clog 2 d + Nat.clog 2 q) = 2 * 2 ^ (e + Nat.clog 2 d) := by
      rw [he]
      ring
    rw [FallsShort, hdouble, Nat.mul_assoc 4]
    omega
  rw [wholePart, shareSignificand_of_below hhalf, Nat.mul_sub,
    Single.roundUnits_below hlow hhigh hexp hpos (mul_lt_of_half hd (by omega) hhigh hhalf)]
  simp only [hlost, part]

theorem mul_rounded_reciprocal (hd : 0 < d) (q : ℕ) :
    ((q * d : ℕ) : ℚ) * rounded (1 / d) =
      (q * (shareSignificand d * d) : ℕ) / 2 ^ (23 + Nat.clog 2 d) := by
  rw [rounded_reciprocal hd]
  push_cast
  ring

theorem floor_share (hd : 0 < d) (hq : 0 < q) :
    ⌊rounded ((q * d : ℕ) * rounded (1 / d))⌋₊ = wholePart d q := by
  have hfull : 2 ^ 23 ≤ q * (shareSignificand d * d) :=
    calc 2 ^ 23 ≤ shareSignificand d := le_shareSignificand hd
      _ ≤ shareSignificand d * d := Nat.le_mul_of_pos_right _ hd
      _ ≤ q * (shareSignificand d * d) := Nat.le_mul_of_pos_left _ hq
  rw [mul_rounded_reciprocal hd, Single.floor_rounded_div hfull, wholePart]

/-- A share that was rounded down does not make a second pixel of one. -/
theorem wholePart_one_le (hd : 0 < d) (hrest : 0 < shareRest d) (hhalf : 2 * shareRest d < d) :
    wholePart d 1 ≤ 1 := by
  have hsignificand := le_shareSignificand hd
  have hpos : 0 < 1 * (shareSignificand d * d) := by positivity
  have hless : 1 * (shareSignificand d * d) < 2 ^ (23 + Nat.clog 2 d) := by
    rw [shareSignificand_of_below hhalf] at hpos ⊢
    omega
  rw [← floor_share hd Nat.one_pos, mul_rounded_reciprocal hd]
  apply Single.floor_rounded_le_one
  · positivity
  · rw [div_lt_one (by positivity)]
    exact_mod_cast hless

theorem max_wholePart (hd : 0 < d) (hq : 0 < q) (hmax : q * d ≤ 2 ^ 24) :
    max (wholePart d q) 1 = part d q := by
  rcases Nat.eq_zero_or_pos (shareRest d) with hrest | hrest
  · have hpart : part d q = q := (part_eq_iff hq).mpr fun h => hrest.not_gt h.shareRest_pos
    rw [wholePart_of_exact hq hd hmax hrest, hpart]
    exact Nat.max_eq_left hq
  rcases Nat.lt_trichotomy (2 * shareRest d) d with hbelow | htie | habove
  · -- A single pixel may be rounded away, but no axis is left empty.
    rcases Nat.lt_or_ge 1 q with hmany | hone
    · rw [wholePart_of_below hmany hd hmax hrest hbelow]
      exact Nat.max_eq_left (one_le_part hq)
    · obtain rfl : q = 1 := by omega
      rw [part_one]
      exact Nat.max_eq_right (wholePart_one_le hd hrest hbelow)
  · exact absurd htie (two_mul_shareRest_ne hd hrest)
  · have hpart : part d q = q := (part_eq_iff hq).mpr fun h => Nat.lt_asymm habove h.2.1
    rw [wholePart_of_above hq hd hmax habove, hpart]
    exact Nat.max_eq_left hq

/-! ### Single precision arithmetic -/

theorem reciprocal_bounds (hd : 0 < d) (hmax : d ≤ 2 ^ 24) :
    (1 : ℚ) / 2 ^ 24 ≤ 1 / d ∧ (1 : ℚ) / d ≤ 1 := by
  have hpos : (0 : ℚ) < d := by exact_mod_cast hd
  constructor
  · exact one_div_le_one_div_of_le hpos (by exact_mod_cast hmax)
  · exact (div_le_one hpos).mpr (by exact_mod_cast hd)

theorem inRange_reciprocal (hd : 0 < d) (hmax : d ≤ 2 ^ 24) : Single.InRange (1 / d) := by
  obtain ⟨hlow, hhigh⟩ := reciprocal_bounds hd hmax
  exact ⟨le_trans (by norm_num) hlow, hhigh.trans_lt (by norm_num)⟩

theorem rounded_reciprocal_bounds (hd : 0 < d) (hmax : d ≤ 2 ^ 24) :
    (1 : ℚ) / 2 ^ 25 ≤ rounded (1 / d) ∧ rounded (1 / d) ≤ 2 := by
  obtain ⟨hlow, hhigh⟩ := reciprocal_bounds hd hmax
  obtain ⟨hbelow, habove⟩ := rounded_bounds (inRange_reciprocal hd hmax).pos
  constructor
  · linarith
  · linarith

/-- The arithmetic of single precision numbers on an axis is exact arithmetic with two
roundings. -/
theorem scaleAxis_reciprocal {w : ℕ} (hd : 0 < d) (hdmax : d ≤ 2 ^ 24) (hw : 0 < w)
    (hwmax : w ≤ 2 ^ 24) :
    scaleAxis w (Single.ofNat d).reciprocal = ⌊rounded (w * rounded (1 / d))⌋₊ := by
  have hshare := inRange_reciprocal hd hdmax
  obtain ⟨hlow, hhigh⟩ := rounded_reciprocal_bounds hd hdmax
  have hwlow : (1 : ℚ) ≤ w := by exact_mod_cast hw
  have hwhigh : (w : ℚ) ≤ 2 ^ 24 := by exact_mod_cast hwmax
  have hproductLow : (1 : ℚ) / 2 ^ 25 ≤ w * rounded (1 / d) := by
    calc (1 : ℚ) / 2 ^ 25 ≤ rounded (1 / d) := hlow
      _ ≤ w * rounded (1 / d) := le_mul_of_one_le_left (le_trans (by norm_num) hlow) hwlow
  have hproductHigh : w * rounded (1 / d) ≤ 2 ^ 25 := by
    calc w * rounded (1 / d) ≤ 2 ^ 24 * 2 :=
          mul_le_mul hwhigh hhigh (le_trans (by norm_num) hlow) (by norm_num)
      _ = 2 ^ 25 := by norm_num
  have hproduct : Single.InRange (w * rounded (1 / d)) :=
    ⟨le_trans (by norm_num) hproductLow, hproductHigh.trans_lt (by norm_num)⟩
  have hvalue := Single.hasValue_mul (Single.hasValue_ofNat hw hwmax)
    (Single.hasValue_reciprocal (Single.hasValue_ofNat hd hdmax) hshare) hproduct
  have hlimit : ⌊rounded (w * rounded (1 / d))⌋₊ ≤ axisLimit := by
    apply le_trans (Nat.floor_le_of_le (n := 2 ^ 26) _) (by decide)
    push_cast
    linarith [(rounded_bounds hproduct.pos).2]
  rw [scaleAxis, Single.truncateTo_of_hasValue hvalue, Nat.min_eq_left hlimit]

/-- The axes go up to where single precision begins to skip whole numbers. -/
theorem max_scaleAxis_reciprocal {w : ℕ} (hd : 0 < d) (hw : 0 < w) (hmax : w ≤ 2 ^ 24)
    (hdvd : d ∣ w) :
    max (scaleAxis w (Single.ofNat d).reciprocal) 1 = part d (w / d) := by
  have hdmax : d ≤ 2 ^ 24 := (Nat.le_of_dvd hw hdvd).trans hmax
  have hproduct : w / d * d = w := Nat.div_mul_cancel hdvd
  have hquotient : 0 < w / d := Nat.div_pos (Nat.le_of_dvd hw hdvd) hd
  have hfloor := floor_share hd hquotient
  rw [hproduct] at hfloor
  rw [scaleAxis_reciprocal hd hdmax hw hmax, hfloor,
    max_wholePart hd hquotient (hproduct.trans_le hmax)]

/-! ### Both axes -/

theorem resolve_divided_eq (hd : 0 < d) (w h : ℕ) :
    (divided d).resolve ⟨w, h⟩ =
      ⟨max (scaleAxis w (Single.ofNat d).reciprocal) 1,
        max (scaleAxis h (Single.ofNat d).reciprocal) 1⟩ := by
  simp only [divided, resolve, Nat.max_eq_left hd, Extent.atLeastOne]

theorem resolve_divided_eq_part {w h : ℕ} (hd : 0 < d) (hw : 0 < w) (hwmax : w ≤ 2 ^ 24)
    (hh : 0 < h) (hhmax : h ≤ 2 ^ 24) (hdw : d ∣ w) (hdh : d ∣ h) :
    (divided d).resolve ⟨w, h⟩ = ⟨part d (w / d), part d (h / d)⟩ := by
  rw [resolve_divided_eq hd, max_scaleAxis_reciprocal hd hw hwmax hdw,
    max_scaleAxis_reciprocal hd hh hhmax hdh]

/-- Dividing a resolution whose axes are multiples of the divisor is two roundings, and
loses the last pixel of an axis exactly if the share falls short there. -/
theorem resolve_divided {w h : ℕ} (hd : 0 < d) (hw : 0 < w) (hwmax : w ≤ 2 ^ 24)
    (hh : 0 < h) (hhmax : h ≤ 2 ^ 24) (hdw : d ∣ w) (hdh : d ∣ h) :
    (divided d).resolve ⟨w, h⟩ =
        ⟨max ⌊rounded (w * rounded (1 / d))⌋₊ 1, max ⌊rounded (h * rounded (1 / d))⌋₊ 1⟩ ∧
      (divided d).resolve ⟨w, h⟩ = ⟨part d (w / d), part d (h / d)⟩ ∧
      ((divided d).resolve ⟨w, h⟩ = ⟨w / d, h / d⟩ ↔
        ¬FallsShort d (w / d) ∧ ¬FallsShort d (h / d)) := by
  have hparts := resolve_divided_eq_part hd hw hwmax hh hhmax hdw hdh
  refine ⟨?_, hparts, ?_⟩
  · have hdmax : d ≤ 2 ^ 24 := (Nat.le_of_dvd hw hdw).trans hwmax
    rw [resolve_divided_eq hd, scaleAxis_reciprocal hd hdmax hw hwmax,
      scaleAxis_reciprocal hd hdmax hh hhmax]
  · rw [hparts, Extent.mk.injEq, part_eq_iff (Nat.div_pos (Nat.le_of_dvd hw hdw) hd),
      part_eq_iff (Nat.div_pos (Nat.le_of_dvd hh hdh) hd)]

/-- One axis loses a pixel, the other does not. -/
theorem resolve_divided_fortyOne : (divided 41).resolve ⟨82, 123⟩ = ⟨1, 3⟩ :=
  (resolve_divided (by decide) (by decide) (by decide) (by decide) (by decide) (by decide)
    (by decide)).2.1.trans (by decide +kernel)

/-- A divided size is not always the quotient. -/
theorem not_forall_resolve_divided_eq : ¬∀ d w h : ℕ, 0 < d → 0 < w → w ≤ 2 ^ 24 → 0 < h →
    h ≤ 2 ^ 24 → d ∣ w → d ∣ h → (divided d).resolve ⟨w, h⟩ = ⟨w / d, h / d⟩ := by
  intro hall
  have hquotient := hall 41 82 82 (by decide) (by decide) (by decide) (by decide) (by decide)
    (by decide) (by decide)
  have hlost : (divided 41).resolve ⟨82, 82⟩ = ⟨1, 1⟩ := by decide +kernel
  rw [hlost] at hquotient
  exact absurd hquotient (by decide)

/-- A divisor that falls short anywhere does so at twice itself. -/
theorem FallsShort.two (h : FallsShort d q) : FallsShort d 2 := by
  obtain ⟨-, hhalf, hlost⟩ := h
  have hbound : 2 ^ Nat.clog 2 d * 2 ^ Nat.clog 2 q <
      4 * shareRest d * 2 ^ Nat.clog 2 q := by
    calc 2 ^ Nat.clog 2 d * 2 ^ Nat.clog 2 q = 2 ^ (Nat.clog 2 d + Nat.clog 2 q) :=
          (pow_add _ _ _).symm
      _ < 4 * q * shareRest d := hlost
      _ = 4 * shareRest d * q := by ring
      _ ≤ 4 * shareRest d * 2 ^ Nat.clog 2 q :=
          Nat.mul_le_mul_left _ (Nat.le_pow_clog (by norm_num) q)
  have hrest := Nat.lt_of_mul_lt_mul_right hbound
  refine ⟨le_rfl, hhalf, ?_⟩
  rw [Nat.clog_eq_one le_rfl le_rfl, pow_succ]
  omega

/-- Small divisors divide. Forty-one is the first that does not. -/
theorem resolve_divided_of_le_forty {w h : ℕ} (hd : 0 < d) (hsmall : d ≤ 40) (hw : 0 < w)
    (hwmax : w ≤ 2 ^ 24) (hh : 0 < h) (hhmax : h ≤ 2 ^ 24) (hdw : d ∣ w) (hdh : d ∣ h) :
    (divided d).resolve ⟨w, h⟩ = ⟨w / d, h / d⟩ := by
  have hnone : ∀ d ≤ 40, ¬FallsShort d 2 := by decide +kernel
  have hexact : ∀ q, part d q = q := fun q => if_neg fun hshort => hnone d hsmall hshort.two
  rw [resolve_divided_eq_part hd hw hwmax hh hhmax hdw hdh, hexact, hexact]

/-- Powers of two divide, as far as single precision counts. -/
theorem resolve_divided_two_pow {k w h : ℕ} (hw : 0 < w)
    (hwmax : w ≤ 2 ^ 24) (hh : 0 < h) (hhmax : h ≤ 2 ^ 24) (hdw : 2 ^ k ∣ w) (hdh : 2 ^ k ∣ h) :
    (divided (2 ^ k)).resolve ⟨w, h⟩ = ⟨w / 2 ^ k, h / 2 ^ k⟩ := by
  have hrest : shareRest (2 ^ k) = 0 := by
    rw [shareRest, Nat.clog_pow 2 k (by norm_num), pow_add, Nat.mul_mod_left]
  have hexact : ∀ q, part (2 ^ k) q = q := fun q => if_neg fun hshort =>
    hshort.shareRest_pos.ne' hrest
  rw [resolve_divided_eq_part (Nat.two_pow_pos k) hw hwmax hh hhmax hdw hdh, hexact, hexact]

end

end Size
end FrameGraph
