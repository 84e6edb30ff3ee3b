import CurrencyLedger.Money.FeePolicy
import Mathlib.Data.Rat.Floor

/-!
Fees follow one formula, `FeePolicy.charge`. The shortcuts for nothing, for a ratio of zero and for
a ratio of one agree with it (`fee_eq_charge`), so that fees are not negative and do not fall as the
amount grows is shown of the formula alone.
-/

namespace CurrencyLedger

/-- A fraction is the exact quotient, rounded down. -/
theorem Amount.fraction_eq_floor (magnitude : Int) (numerator denominator : Nat) :
    fraction magnitude numerator denominator = ⌊(magnitude * numerator / denominator : ℚ)⌋ := by
  rw [fraction, Int.fdiv_eq_ediv_of_nonneg _ (Int.natCast_nonneg _)]
  have hfloor := Rat.floor_intCast_div_natCast (magnitude * numerator) denominator
  push_cast at hfloor
  exact hfloor.symm

namespace Ratio

variable {r : Ratio}

/-- The part of an amount that a ratio is, rounded down. -/
def partOf (r : Ratio) (amount : Int) : Int :=
  ⌊(amount * r.parts / 10 ^ 9 : ℚ)⌋

theorem fraction_eq_partOf (r : Ratio) (amount : Int) :
    Amount.fraction amount r.parts scale = r.partOf amount := by
  rw [Amount.fraction_eq_floor, partOf]
  norm_num [scale]

theorem partOf_zero (r : Ratio) : r.partOf 0 = 0 := by
  simp [partOf]

theorem partOf_one (one : r.parts = scale) (amount : Int) : r.partOf amount = amount := by
  have hparts : (r.parts : ℚ) = 10 ^ 9 := by
    rw [one]
    norm_num [scale]
  rw [partOf, hparts, mul_div_cancel_right₀ _ (by norm_num), Int.floor_intCast]

theorem partOf_mono (r : Ratio) {x y : Int} (h : x ≤ y) : r.partOf x ≤ r.partOf y := by
  apply Int.floor_mono
  gcongr

end Ratio

namespace FeePolicy

variable {policy : FeePolicy} {minimum part : Int} {maximum : Option Int}

/-- Not below the minimum, and not above the maximum if there is one. -/
def clamp (minimum : Int) (maximum : Option Int) (part : Int) : Int :=
  match maximum with
  | some limit => min (max minimum part) limit
  | none => max minimum part

theorem cap_eq_clamp :
    cap maximum (if part < minimum then minimum else part) = clamp minimum maximum part := by
  cases maximum with
  | none => simp only [cap, clamp]; omega
  | some limit => simp only [cap, clamp]; omega

theorem clamp_mono (minimum : Int) (maximum : Option Int) {x y : Int} (h : x ≤ y) :
    clamp minimum maximum x ≤ clamp minimum maximum y := by
  cases maximum with
  | none => exact max_le_max_left minimum h
  | some limit => exact min_le_min_right limit (max_le_max_left minimum h)

theorem clamp_le {limit : Int} (h : limit ∈ maximum) : clamp minimum maximum part ≤ limit := by
  cases h
  exact min_le_right _ _

section bounds

variable (ordered : ∀ limit ∈ maximum, minimum ≤ limit)
include ordered

theorem minimum_le_clamp (part : Int) : minimum ≤ clamp minimum maximum part := by
  cases maximum with
  | none => exact le_max_left minimum part
  | some limit => exact le_min (le_max_left minimum part) (ordered limit rfl)

theorem clamp_of_le (h : part ≤ minimum) : clamp minimum maximum part = minimum := by
  cases maximum with
  | none => exact max_eq_left h
  | some limit =>
    have hlimit := ordered limit rfl
    rw [clamp, max_eq_left h, min_eq_left hlimit]

end bounds

theorem share_eq_clamp (r : Ratio) (minimum : Int) (maximum : Option Int) (amount : Int) :
    share r minimum maximum amount = clamp minimum maximum (r.partOf amount) := by
  rw [share, ← cap_eq_clamp]
  split
  · next one => rw [Ratio.partOf_one one]
  · rw [Ratio.fraction_eq_partOf]

/-- What a policy charges on an amount that is not negative. -/
def charge : FeePolicy → Int → Int
  | .nil, _ => 0
  | .fixed _ flat, _ => flat
  | .ratio _ r minimum maximum, amount =>
    if r.parts = 0 then 0 else clamp minimum maximum (r.partOf amount)

theorem charge_mono (policy : FeePolicy) {x y : Int} (h : x ≤ y) :
    policy.charge x ≤ policy.charge y := by
  cases policy with
  | nil => exact le_refl 0
  | fixed receiver flat => exact le_refl flat
  | ratio receiver r minimum maximum =>
    simp only [charge]
    split
    · exact le_refl 0
    · exact clamp_mono minimum maximum (r.partOf_mono h)

theorem check_fixed_eq_ok {receiver : Address} {flat : Int} :
    (fixed receiver flat).check = .ok () ↔ 0 ≤ flat := by
  simp only [check]
  split <;> simp <;> omega

theorem check_ratio_eq_ok {receiver : Address} {r : Ratio} :
    (ratio receiver r minimum maximum).check = .ok () ↔
      0 ≤ minimum ∧ ∀ limit ∈ maximum, minimum ≤ limit := by
  cases maximum with
  | none => simp only [check]; split <;> simp <;> omega
  | some limit => simp only [check]; split <;> (try split) <;> simp <;> omega

theorem charge_nonneg (valid : policy.check = .ok ()) (amount : Int) :
    0 ≤ policy.charge amount := by
  cases policy with
  | nil => exact le_refl 0
  | fixed receiver flat => exact check_fixed_eq_ok.1 valid
  | ratio receiver r minimum maximum =>
    obtain ⟨hmin, hmax⟩ := check_ratio_eq_ok.1 valid
    simp only [charge]
    split
    · exact le_refl 0
    · exact hmin.trans (minimum_le_clamp hmax _)

theorem fee_of_neg {amount : Int} (negative : amount < 0) :
    policy.fee amount = .error (.negativeAmount amount) :=
  if_pos negative

theorem fee_eq_charge (valid : policy.check = .ok ()) {amount : Int} (nonneg : 0 ≤ amount) :
    policy.fee amount = .ok (policy.charge amount) := by
  unfold fee
  rw [if_neg (Int.not_lt.2 nonneg)]
  cases policy with
  | nil => rfl
  | fixed receiver flat =>
    have hflat := check_fixed_eq_ok.1 valid
    simp only [charge, Except.ok.injEq]
    omega
  | ratio receiver r minimum maximum =>
    obtain ⟨hmin, hmax⟩ := check_ratio_eq_ok.1 valid
    simp only [charge]
    split
    · rfl
    · split
      · next hzero =>
        -- the part of nothing is zero, and zero is raised to the minimum
        rw [hzero, Ratio.partOf_zero, clamp_of_le hmax hmin]
      · rw [share_eq_clamp]

/-- There is a fee on every amount that is not negative. -/
theorem exists_fee (policy : FeePolicy) {amount : Int} (nonneg : 0 ≤ amount) :
    ∃ fee, policy.fee amount = .ok fee := by
  unfold FeePolicy.fee
  rw [if_neg (Int.not_lt.2 nonneg)]
  cases policy with
  | nil => exact ⟨_, rfl⟩
  | fixed receiver flat => exact ⟨_, rfl⟩
  | ratio receiver r minimum maximum =>
    dsimp only
    split
    · exact ⟨_, rfl⟩
    · split <;> exact ⟨_, rfl⟩

theorem nonneg_of_fee {amount fee : Int} (h : policy.fee amount = .ok fee) : 0 ≤ amount := by
  by_contra negative
  rw [fee_of_neg (Int.not_le.1 negative)] at h
  cases h

theorem exists_fee_error_iff {amount : Int} :
    (∃ e, policy.fee amount = .error e) ↔ amount < 0 := by
  constructor
  · rintro ⟨e, he⟩
    by_contra nonneg
    obtain ⟨fee, hfee⟩ := exists_fee policy (Int.not_lt.1 nonneg)
    rw [hfee] at he
    cases he
  · intro negative
    exact ⟨_, fee_of_neg negative⟩

theorem fee_nonneg {amount fee : Int} (valid : policy.check = .ok ())
    (h : policy.fee amount = .ok fee) : 0 ≤ fee := by
  rw [fee_eq_charge valid (nonneg_of_fee h)] at h
  cases h
  exact charge_nonneg valid amount

/-- A policy that names nobody to collect fees charges none. -/
theorem fee_eq_zero {amount fee : Int} (h : policy.fee amount = .ok fee)
    (hr : policy.receiver? = none) : fee = 0 := by
  cases policy with
  | nil =>
    rw [fee_eq_charge rfl (nonneg_of_fee h)] at h
    cases h
    rfl
  | fixed receiver flat => cases hr
  | ratio receiver r minimum maximum => cases hr

/-- Of a policy that is in order there is no fee on negative amounts only, and any other fee is what
the formula charges. It is not negative, and not less than on a smaller amount. A share charges its
minimum on nothing, always stays between its bounds, and for a ratio of one bounds the amount
itself. -/
theorem fee_formula (valid : policy.check = .ok ()) :
    (∀ x, (∃ e, policy.fee x = .error e) ↔ x < 0) ∧
    (∀ x, 0 ≤ x → policy.fee x = .ok (policy.charge x)) ∧
    (∀ x y, 0 ≤ x → x ≤ y → 0 ≤ policy.charge x ∧ policy.charge x ≤ policy.charge y) ∧
    ∀ receiver r minimum maximum, policy = .ratio receiver r minimum maximum → r.parts ≠ 0 →
      policy.fee 0 = .ok minimum ∧
      (∀ x, minimum ≤ policy.charge x ∧ ∀ limit ∈ maximum, policy.charge x ≤ limit) ∧
      (r.parts = Ratio.scale → ∀ x, policy.charge x = clamp minimum maximum x) := by
  refine ⟨fun x => exists_fee_error_iff, fun x => fee_eq_charge valid, ?_, ?_⟩
  · intro x y _ hle
    exact ⟨charge_nonneg valid x, policy.charge_mono hle⟩
  · rintro receiver r minimum maximum rfl hparts
    obtain ⟨hmin, hmax⟩ := check_ratio_eq_ok.1 valid
    have hcharge : ∀ x, (ratio receiver r minimum maximum).charge x =
        clamp minimum maximum (r.partOf x) := fun x => if_neg hparts
    refine ⟨?_, fun x => ?_, fun one x => ?_⟩
    · rw [fee_eq_charge valid (le_refl 0), hcharge, Ratio.partOf_zero, clamp_of_le hmax hmin]
    · rw [hcharge]
      exact ⟨minimum_le_clamp hmax _, fun limit => clamp_le⟩
    · rw [hcharge, Ratio.partOf_one one]

/-- A fortieth between two and a hundred. -/
theorem fee_formula_fortieth :
    ∃ policy : FeePolicy, policy.check = .ok () ∧ policy.fee 0 = .ok 2 ∧
      policy.fee 1039 = .ok 25 ∧ policy.fee 1000000 = .ok 100 ∧ policy.charge 1039 ≤ 100 := by
  let collector : Address := ⟨"collector", .native, by decide +kernel, by decide +kernel⟩
  let fortieth : Ratio := ⟨25000000, by decide⟩
  have valid : (ratio collector fortieth 2 (some 100)).check = .ok () := rfl
  obtain ⟨-, hfee, -, hratio⟩ := fee_formula valid
  obtain ⟨hzero, hbounds, -⟩ := hratio _ _ _ _ rfl (by decide)
  refine ⟨_, valid, hzero, ?_, ?_, (hbounds 1039).2 100 rfl⟩
  · rw [hfee 1039 (by decide)]
    decide +kernel
  · rw [hfee 1000000 (by decide)]
    decide +kernel

end FeePolicy

end CurrencyLedger
