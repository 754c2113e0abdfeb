import DsmStorage.RewardsBytes
import Mathlib.Data.Rat.Floor
import Mathlib.Data.Int.Log

/-! The fixed-point `Ratio` of six decimals: its constructor, `apply_to`, and the bincode form
that `#[derive(Deserialize)]` reads back. An `f64` is read as the rational it denotes, and an
`f64` product is that rational rounded to the nearest `f64`. -/
namespace DsmStorage.Rewards

/-! ### `f64` rounding and the cast to `u64` -/

/-- The integer nearest to `q ≥ 0`, ties to even. -/
def roundHalfEven (q : ℚ) : ℕ :=
  let n := ⌊q⌋₊
  if q-n < 1/2 then n else if 1/2 < q-n then n+1 else if n%2 = 0 then n else n+1

/-- The `f64` nearest to `x ≥ 0`, ties to even: `x` on the grid of its binade, whose step is
`2^(⌊log₂ x⌋-52)` and never below the subnormal step `2^-1074`. Values past the largest finite
`f64`, which would round to infinity, are not reached by the callers. -/
def roundF64 (x : ℚ) : ℚ :=
  let e : ℤ := max (Int.log 2 x-52) (-1074)
  roundHalfEven (x/2^e)*2^e

/-- `x as u64` for an `f64` `x`: toward zero, saturating at `0` and at `u64::MAX`. -/
def asU64 (x : ℚ) : ℕ := min ⌊x⌋₊ (2^64-1)

theorem asU64_of_lt {x : ℚ} (h : ⌊x⌋₊ < 2^64) : asU64 x = ⌊x⌋₊ := min_eq_left (by omega)

@[simp] theorem asU64_natCast (n : ℕ) : asU64 n = min n (2^64-1) := by
  rw [asU64, Nat.floor_natCast]

theorem roundHalfEven_bounds (q : ℚ) : ⌊q⌋₊ ≤ roundHalfEven q ∧ roundHalfEven q ≤ ⌊q⌋₊+1 := by
  unfold roundHalfEven
  dsimp only
  split_ifs <;> omega

/-- Rounding never passes an integer at or above `q`. -/
theorem roundHalfEven_le {q : ℚ} {M : ℕ} (h : q ≤ M) : roundHalfEven q ≤ M := by
  have hn : ⌊q⌋₊ ≤ M := Nat.floor_le_of_le h
  rcases hn.lt_or_eq with hlt | heq
  · exact (roundHalfEven_bounds q).2.trans hlt
  · have hq : q-⌊q⌋₊ < 1/2 := by rw [heq]; linarith
    unfold roundHalfEven
    dsimp only
    rw [if_pos hq]
    exact hn

/-- Below `2^53` the step of the `f64` grid is `2^-k` for some `k`, at most `1`: rounding keeps
`x ≥ 0` at or above `⌊x⌋`, less than two above it, and under every integer bound of `x`. -/
theorem roundF64_bounds {x : ℚ} {M : ℕ} (hx : 0 ≤ x) (hxM : x ≤ M) (hM : M < 2^53) :
    ⌊x⌋₊ ≤ roundF64 x ∧ roundF64 x < ⌊x⌋₊+2 ∧ roundF64 x ≤ M := by
  have hlog : Int.log 2 x ≤ 52 := by
    rcases hx.lt_or_eq with hpos | rfl
    · have h := (Int.zpow_log_le_self (show 1 < 2 by norm_num) hpos).trans_lt
        (hxM.trans_lt (show (M : ℚ) < (2 : ℚ)^(53 : ℤ) by exact_mod_cast hM))
      have := (zpow_lt_zpow_iff_right₀ (by norm_num : (1 : ℚ) < 2)).1 h
      omega
    · simp
  obtain ⟨k, hk⟩ : ∃ k : ℕ, max (Int.log 2 x-52) (-1074) = -k :=
    ⟨(-(max (Int.log 2 x-52) (-1074))).toNat, by omega⟩
  have hpow : (1 : ℚ) ≤ 2^k := one_le_pow₀ (by norm_num)
  unfold roundF64
  dsimp only
  rw [hk, zpow_neg, zpow_natCast, div_inv_eq_mul, ← div_eq_mul_inv]
  obtain ⟨hlo, hhi⟩ := roundHalfEven_bounds (x*2^k)
  have hfloor : ⌊x⌋₊*2^k ≤ ⌊x*2^k⌋₊ :=
    Nat.le_floor (by push_cast; exact mul_le_mul_of_nonneg_right (Nat.floor_le hx) (by linarith))
  have hup : (roundHalfEven (x*2^k) : ℚ) ≤ x*2^k+1 := by
    have := Nat.floor_le (mul_nonneg hx (by linarith : (0 : ℚ) ≤ 2^k))
    have : (roundHalfEven (x*2^k) : ℚ) ≤ ⌊x*2^k⌋₊+1 := by exact_mod_cast hhi
    linarith
  have hM' := roundHalfEven_le (show x*2^k ≤ ((M*2^k : ℕ) : ℚ) by
    push_cast; exact mul_le_mul_of_nonneg_right hxM (by linarith))
  have hx1 := Nat.lt_floor_add_one x
  refine ⟨?_, ?_, ?_⟩
  · rw [le_div_iff₀ (by linarith)]
    exact_mod_cast hfloor.trans hlo
  · rw [div_lt_iff₀ (by linarith)]
    have := mul_lt_mul_of_pos_right hx1 (by linarith : (0 : ℚ) < 2^k)
    linarith
  · rw [div_le_iff₀ (by linarith)]
    exact_mod_cast hM'

/-- `Ratio(u64)`: the share `raw / 10^6`. -/
structure Ratio where
  raw : UInt64
  deriving DecidableEq, Repr

/-- `Ratio::new`: the assertion `0 ≤ value ≤ 1` (its panic is `none`), then
`(value * 1_000_000.0) as u64`: the product rounded to an `f64`, then cast. -/
def Ratio.new (value : ℚ) : Option Ratio :=
  if 0 ≤ value ∧ value ≤ 1 then some ⟨UInt64.ofNat (asU64 (roundF64 (value*1000000)))⟩ else none

def Ratio.rawValue (r : Ratio) : UInt64 := r.raw

/-- `apply_to`: `(value as u128 * raw as u128) / 1_000_000`, exact in 128 bits, then `as u64`,
which keeps the low 64 bits. -/
def Ratio.applyTo (r : Ratio) (value : UInt64) : UInt64 :=
  UInt64.ofNat (value.toNat*r.raw.toNat/1000000)

/-- `Ratio` as bincode writes it: a newtype struct is its field. -/
def Ratio.serialize (r : Ratio) : Bytes := serializeU64 r.raw

/-- `Ratio` as the derived `Deserialize` reads it: any `u64`, with no range check. -/
def Ratio.deserialize : Reader Ratio := fun bs =>
  (deserializeU64 bs).map fun p => (⟨p.1⟩, p.2)

theorem uint64_toNat_ofNat (n : ℕ) : (UInt64.ofNat n).toNat = n%2^64 := by
  simp [UInt64.toNat, UInt64.ofNat, BitVec.toNat_ofNat]

/-- What `Ratio::new` returns holds `⌊value·10^6⌋` or one more, at most `10^6`: the rounding of
the product can carry it up to the next integer. -/
theorem Ratio.new_raw {value : ℚ} {r : Ratio} (h : Ratio.new value = some r) :
    (r.raw.toNat = ⌊value*1000000⌋₊ ∨ r.raw.toNat = ⌊value*1000000⌋₊+1) ∧
      r.raw.toNat ≤ 1000000 := by
  unfold Ratio.new at h
  split at h
  · next hv =>
    cases h
    have hp : 0 ≤ value*1000000 := by linarith [hv.1]
    obtain ⟨h₁, h₂, h₃⟩ := roundF64_bounds (M := 1000000) hp (by push_cast; linarith [hv.2])
      (by norm_num)
    have hR : 0 ≤ roundF64 (value*1000000) := (Nat.cast_nonneg _).trans h₁
    have hlo : ⌊value*1000000⌋₊ ≤ ⌊roundF64 (value*1000000)⌋₊ := Nat.le_floor h₁
    have hhi : ⌊roundF64 (value*1000000)⌋₊ < ⌊value*1000000⌋₊+2 :=
      (Nat.floor_lt hR).2 (by exact_mod_cast h₂)
    have hM : ⌊roundF64 (value*1000000)⌋₊ ≤ 1000000 := Nat.floor_le_of_le (by exact_mod_cast h₃)
    rw [asU64_of_lt (by omega), uint64_toNat_ofNat, Nat.mod_eq_of_lt (by omega)]
    omega
  · cases h

/-- The `f64` nearest 0.57 lies a little below it, so the floor of its product with a million is
569999; the product rounds to 570000 before the cast. -/
example : (Ratio.new (5134103575202365/2^53)).map (fun r => r.raw.toNat) = some 570000 := by
  have hlog : Int.log 2 ((5134103575202365/2^53 : ℚ)*1000000) = 19 := by
    have hf : ⌊(5134103575202365/2^53 : ℚ)*1000000⌋₊ = 569999 := by
      rw [Nat.floor_eq_iff (by norm_num)]
      norm_num
    rw [Int.log_of_one_le_right _ (by norm_num), hf]
    exact_mod_cast (Nat.log_eq_iff (by norm_num)).2 (by norm_num)
  have hround : roundHalfEven ((5134103575202365/2^53 : ℚ)*1000000/2^(-33 : ℤ)) =
      4896262717440000 := by
    have hf : ⌊(5134103575202365/2^53 : ℚ)*1000000/2^(-33 : ℤ)⌋₊ = 4896262717439999 := by
      rw [Nat.floor_eq_iff (by norm_num)]
      norm_num
    simp only [roundHalfEven, hf]
    norm_num
  have hr : roundF64 ((5134103575202365/2^53 : ℚ)*1000000) = 570000 := by
    simp only [roundF64, hlog, show max ((19 : ℤ)-52) (-1074) = -33 by decide, hround]
    norm_num
  have ha : asU64 570000 = 570000 := asU64_natCast 570000
  simp only [Ratio.new, hr, ha]
  rw [if_pos (by norm_num)]
  rfl

theorem Ratio.deserialize_append (r : Ratio) (rest : Bytes) :
    Ratio.deserialize (r.serialize++rest) = some (r, rest) := by
  simp [Ratio.deserialize, Ratio.serialize, deserializeU64_append]

/-- Deserialization reaches every `u64`: a `Ratio` can hold any raw value. -/
theorem Ratio.deserialize_reaches (n : UInt64) :
    Ratio.deserialize (serializeU64 n) = some (⟨n⟩, []) := by
  simpa using Ratio.deserialize_append ⟨n⟩ []

/-- Below `10^6` the final cast of `apply_to` keeps the exact quotient, and the result is at
most the amount. -/
theorem Ratio.applyTo_toNat (r : Ratio) (v : UInt64) (hr : r.raw.toNat ≤ 1000000) :
    (r.applyTo v).toNat = v.toNat*r.raw.toNat/1000000 ∧ (r.applyTo v).toNat ≤ v.toNat := by
  have hle : v.toNat*r.raw.toNat/1000000 ≤ v.toNat :=
    Nat.div_le_of_le_mul (by rw [Nat.mul_comm 1000000]; exact Nat.mul_le_mul_left _ hr)
  have hlt : v.toNat < 2^64 := v.toNat_lt_size
  rw [Ratio.applyTo, uint64_toNat_ofNat, Nat.mod_eq_of_lt (by omega)]
  exact ⟨rfl, hle⟩

/-- `Ratio::new` on a value in `[0, 1]` returns a ratio of raw value `⌊value·10^6⌋` or one more
(the product is rounded to an `f64` before the cast truncates it), at most `10^6`; that ratio
applied to any amount `v` pays `⌊v·raw/10^6⌋`, never more than `v`. -/
theorem Ratio.new_applyTo {value : ℚ} (hv : 0 ≤ value ∧ value ≤ 1) (v : UInt64) :
    ∃ r, Ratio.new value = some r ∧
      (r.raw.toNat = ⌊value*1000000⌋₊ ∨ r.raw.toNat = ⌊value*1000000⌋₊+1) ∧
      r.raw.toNat ≤ 1000000 ∧
      (r.applyTo v).toNat = v.toNat*r.raw.toNat/1000000 ∧ (r.applyTo v).toNat ≤ v.toNat := by
  obtain ⟨r, hn⟩ : ∃ r, Ratio.new value = some r := ⟨_, if_pos hv⟩
  obtain ⟨hr, hle⟩ := Ratio.new_raw hn
  exact ⟨r, hn, hr, hle, Ratio.applyTo_toNat r v hle⟩

theorem Ratio.new_applyTo_quarter :
    (0 ≤ (1/4 : ℚ) ∧ (1/4 : ℚ) ≤ 1) ∧ ∃ r, Ratio.new (1/4) = some r ∧
      (r.raw.toNat = ⌊(1/4 : ℚ)*1000000⌋₊ ∨ r.raw.toNat = ⌊(1/4 : ℚ)*1000000⌋₊+1) ∧
      r.raw.toNat ≤ 1000000 ∧
      (r.applyTo 1000).toNat = (1000 : UInt64).toNat*r.raw.toNat/1000000 ∧
      (r.applyTo 1000).toNat ≤ (1000 : UInt64).toNat :=
  ⟨by norm_num, Ratio.new_applyTo (by norm_num) 1000⟩

example : (Ratio.applyTo ⟨250000⟩ 1000).toNat = 250 := by decide

end DsmStorage.Rewards
