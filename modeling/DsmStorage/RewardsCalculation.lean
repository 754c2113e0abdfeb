import DsmStorage.RewardsReceipt
import Mathlib.Data.List.AList
import Mathlib.Algebra.Order.AbsoluteValue
import Mathlib.Order.Interval.Finset.Nat
import Mathlib.Algebra.Order.BigOperators.Group.List

/-! `RateSchedule::calculate` and the loop of `calculate_node_rewards` over exact numbers: every
`f64` step is the rational it approximates, `as u64` truncates toward zero without saturating,
and `u64` products and sums do not overflow. This is the reward the code approximates;
`RewardsU64` computes it at the code's width and shows where the two agree. -/
namespace DsmStorage.Rewards

/-- `RateSchedule`; the region table `HashMap<String, f64>` as an association list. -/
structure RateSchedule where
  baseRatePerByteDay : UInt64
  retrievalRate : UInt64
  operationRate : UInt64
  uptimeMultiplier : ℚ
  regionMultipliers : AList (fun _ : String => ℚ)

/-- `default_rate_schedule`. -/
def defaultRateSchedule : RateSchedule := ⟨100, 10, 5, 1, ∅⟩

def RateSchedule.calculate (s : RateSchedule) (durationSecs bytes retrievals : ℕ) : ℕ :=
  let days : ℚ := durationSecs/86400
  let storageReward := ⌊(s.baseRatePerByteDay.toNat : ℚ)*bytes*days⌋₊
  let retrievalReward := s.retrievalRate.toNat*retrievals
  storageReward+retrievalReward

/-- The filter of `calculate_node_rewards`: the service period meets the query window. -/
def overlapsPeriod (periodStart periodEnd : ℕ) (r : StorageReceipt) : Bool :=
  r.servicePeriod.1.toNat < periodEnd && r.servicePeriod.2.toNat > periodStart

/-- `overlap_end.saturating_sub(overlap_start)`. -/
def overlapDuration (periodStart periodEnd : ℕ) (r : StorageReceipt) : ℕ :=
  min periodEnd r.servicePeriod.2.toNat-max periodStart r.servicePeriod.1.toNat

def RateSchedule.uptimeFactor (s : RateSchedule) (m : StorageMetrics) : ℚ :=
  (m.uptimePercentage.toNat : ℚ)/100*s.uptimeMultiplier

/-- The product, in iteration order, of the multipliers of the regions the table lists. -/
def RateSchedule.regionMultiplier (s : RateSchedule) (regions : List String) : ℚ :=
  regions.foldl (fun acc region => match s.regionMultipliers.lookup region with
    | some mult => acc*mult
    | none => acc) 1

/-- The loop body of `calculate_node_rewards` once the overlap is known: nothing for an empty
overlap, else the schedule's reward scaled by uptime, then by region, truncating after each. -/
def RateSchedule.durationReward (s : RateSchedule) (r : StorageReceipt) (duration : ℕ) : ℕ :=
  if duration = 0 then 0 else
    let storageReward := s.calculate duration r.storageMetrics.bytesStored.toNat
      r.storageMetrics.retrievals.toNat
    let scaledReward := ⌊(storageReward : ℚ)*s.uptimeFactor r.storageMetrics⌋₊
    ⌊(scaledReward : ℚ)*s.regionMultiplier r.storageMetrics.regions⌋₊

/-- The computation of `calculate_node_rewards` over the receipts of the node. -/
def nodeRewards (s : RateSchedule) (receipts : List StorageReceipt) (periodStart periodEnd : ℕ) :
    ℕ :=
  (receipts.filter (overlapsPeriod periodStart periodEnd)).foldl
    (fun total r => total+s.durationReward r (overlapDuration periodStart periodEnd r)) 0

@[simp] theorem RateSchedule.durationReward_zero (s : RateSchedule) (r : StorageReceipt) :
    s.durationReward r 0 = 0 := rfl

theorem overlapDuration_eq_zero_of_not_overlaps {ps pe : ℕ} {r : StorageReceipt}
    (h : overlapsPeriod ps pe r = false) : overlapDuration ps pe r = 0 := by
  simp only [overlapsPeriod, Bool.and_eq_false_iff, decide_eq_false_iff_not] at h
  simp only [overlapDuration]
  omega

theorem foldl_add_eq_sum {α : Type} (f : α → ℕ) (l : List α) (t : ℕ) :
    l.foldl (fun total x => total+f x) t = t+(l.map f).sum := by
  induction l generalizing t with
  | nil => simp
  | cons x l ih => simp [ih, Nat.add_assoc]

/-- The filter only drops receipts that would add nothing. -/
theorem nodeRewards_eq_sum (s : RateSchedule) (rs : List StorageReceipt) (ps pe : ℕ) :
    nodeRewards s rs ps pe = (rs.map fun r => s.durationReward r (overlapDuration ps pe r)).sum := by
  rw [nodeRewards, foldl_add_eq_sum, Nat.zero_add]
  induction rs with
  | nil => rfl
  | cons r rs ih =>
    rw [List.filter_cons]
    split
    · simp [ih]
    · rename_i h
      simp [ih, overlapDuration_eq_zero_of_not_overlaps (Bool.not_eq_true _ ▸ h)]

/-- The filter never drops a receipt with a positive overlap. -/
theorem ite_overlapsPeriod (r : StorageReceipt) (x y : ℕ) :
    (if overlapsPeriod x y r then overlapDuration x y r else 0) = overlapDuration x y r := by
  split_ifs with h
  · rfl
  · exact (overlapDuration_eq_zero_of_not_overlaps (Bool.not_eq_true _ ▸ h)).symm

/-- The saturating difference is the length of the intersection, for every service period
(`start > end` included) and every window. -/
theorem overlapDuration_eq_card (r : StorageReceipt) (x y : ℕ) :
    overlapDuration x y r =
      (Finset.Ico r.servicePeriod.1.toNat r.servicePeriod.2.toNat ∩ Finset.Ico x y).card := by
  rw [Finset.Ico_inter_Ico, Nat.card_Ico, overlapDuration, max_comm, min_comm]

/-- Overlaps with adjacent windows add up: `[a, b)` and `[b, c)` split `[a, c)`. -/
theorem overlapDuration_add (r : StorageReceipt) {a b c : ℕ} (hab : a ≤ b) (hbc : b ≤ c) :
    overlapDuration a b r+overlapDuration b c r = overlapDuration a c r := by
  simp only [overlapDuration_eq_card]
  rw [← Finset.card_union_of_disjoint ((Finset.Ico_disjoint_Ico_consecutive a b c).mono
      Finset.inter_subset_right Finset.inter_subset_right),
    ← Finset.inter_union_distrib_left, Finset.Ico_union_Ico_eq_Ico hab hbc]

/-- The overlap the loop of `calculate_node_rewards` works with, 0 where its filter drops the
receipt, is the length of the service period's intersection with the window, and it adds up
over adjacent windows. -/
theorem loop_overlap_additive (r : StorageReceipt) {a b c : ℕ} (hab : a ≤ b) (hbc : b ≤ c) :
    let d := fun x y => if overlapsPeriod x y r then overlapDuration x y r else 0
    (∀ x y, d x y =
      (Finset.Ico r.servicePeriod.1.toNat r.servicePeriod.2.toNat ∩ Finset.Ico x y).card) ∧
      d a b+d b c = d a c := by
  simp only [ite_overlapsPeriod]
  exact ⟨overlapDuration_eq_card r, overlapDuration_add r hab hbc⟩

theorem loop_overlap_additive_sample :
    let r : StorageReceipt := ⟨"N", "C", (20, 10), ⟨0, 0, 0, 100, [], List.nodup_nil⟩,
      ⟨List.replicate 32 0, rfl⟩, [1], [1]⟩
    ((0 : ℕ) ≤ 15 ∧ (15 : ℕ) ≤ 30) ∧
      let d := fun x y => if overlapsPeriod x y r then overlapDuration x y r else 0
      (∀ x y, d x y =
        (Finset.Ico r.servicePeriod.1.toNat r.servicePeriod.2.toNat ∩ Finset.Ico x y).card) ∧
        d 0 15+d 15 30 = d 0 30 :=
  ⟨⟨by decide, by decide⟩, loop_overlap_additive _ (by decide) (by decide)⟩

/-! Splitting a query window. A receipt that meets both halves is rewarded once per half, and
`calculate` adds the retrieval reward in full each time; the three truncations of the loop
body lose less than one unit each, scaled by the factors after them. A negative factor makes
the `as u64` truncation return 0, so the bounds use the factors cut off at 0. -/

/-- A receipt's reward for `d` seconds before truncation. -/
def RateSchedule.exactReward (s : RateSchedule) (r : StorageReceipt) (d : ℕ) : ℚ :=
  ((s.baseRatePerByteDay.toNat : ℚ)*r.storageMetrics.bytesStored.toNat*(d/86400)+
    s.retrievalRate.toNat*r.storageMetrics.retrievals.toNat)*
    max (s.uptimeFactor r.storageMetrics) 0*max (s.regionMultiplier r.storageMetrics.regions) 0

/-- The retrieval reward after scaling: what a split window counts a second time. -/
def RateSchedule.retrievalExcess (s : RateSchedule) (r : StorageReceipt) : ℚ :=
  (s.retrievalRate.toNat*r.storageMetrics.retrievals.toNat : ℚ)*
    max (s.uptimeFactor r.storageMetrics) 0*max (s.regionMultiplier r.storageMetrics.regions) 0

/-- A bound on what the three truncations of one receipt's reward lose. -/
def RateSchedule.truncationLoss (s : RateSchedule) (r : StorageReceipt) : ℚ :=
  max (s.uptimeFactor r.storageMetrics) 0*max (s.regionMultiplier r.storageMetrics.regions) 0+
    max (s.regionMultiplier r.storageMetrics.regions) 0+1

/-- The receipts whose service period meets both `[a, b)` and `[b, c)`. -/
def straddles (a b c : ℕ) (r : StorageReceipt) : Bool :=
  0 < overlapDuration a b r && 0 < overlapDuration b c r

theorem floor_mul_bounds {x : ℚ} (y : ℚ) (hx : 0 ≤ x) :
    x*max y 0-1 ≤ ⌊x*y⌋₊ ∧ (⌊x*y⌋₊ : ℚ) ≤ x*max y 0 := by
  rcases le_total y 0 with hy | hy
  · rw [max_eq_right hy, Nat.floor_of_nonpos (mul_nonpos_of_nonneg_of_nonpos hx hy)]
    simp
  · rw [max_eq_left hy]
    exact ⟨by linarith [Nat.lt_floor_add_one (x*y)], Nat.floor_le (mul_nonneg hx hy)⟩

theorem durationReward_bounds (s : RateSchedule) (r : StorageReceipt) {d : ℕ} (hd : d ≠ 0) :
    s.exactReward r d-s.truncationLoss r ≤ s.durationReward r d ∧
      (s.durationReward r d : ℚ) ≤ s.exactReward r d := by
  set u := max (s.uptimeFactor r.storageMetrics) 0
  set g := max (s.regionMultiplier r.storageMetrics.regions) 0
  set k : ℚ := (s.baseRatePerByteDay.toNat : ℚ)*r.storageMetrics.bytesStored.toNat*(d/86400)
  set R : ℚ := s.retrievalRate.toNat*r.storageMetrics.retrievals.toNat
  set B := s.calculate d r.storageMetrics.bytesStored.toNat r.storageMetrics.retrievals.toNat
  set S := ⌊(B : ℚ)*s.uptimeFactor r.storageMetrics⌋₊
  have hu : 0 ≤ u := le_max_right _ _
  have hg : 0 ≤ g := le_max_right _ _
  have hk : 0 ≤ k := by positivity
  have hB : k+R-1 ≤ B ∧ (B : ℚ) ≤ k+R := by
    have hB : (B : ℚ) = ⌊k⌋₊+R := by
      simp only [B, RateSchedule.calculate, Nat.cast_add, Nat.cast_mul]
    rw [hB]
    exact ⟨by linarith only [Nat.lt_floor_add_one k], by linarith only [Nat.floor_le hk]⟩
  have hS := floor_mul_bounds (s.uptimeFactor r.storageMetrics) (Nat.cast_nonneg B)
  have hF := floor_mul_bounds (s.regionMultiplier r.storageMetrics.regions) (Nat.cast_nonneg S)
  have hE : s.exactReward r d = (k+R)*u*g := rfl
  have hL : s.truncationLoss r = u*g+g+1 := rfl
  simp only [RateSchedule.durationReward, hd, if_false, hE, hL]
  constructor
  · linarith only [hF.1, mul_le_mul_of_nonneg_right hS.1 hg,
      mul_le_mul_of_nonneg_right hB.1 (mul_nonneg hu hg)]
  · linarith only [hF.2, mul_le_mul_of_nonneg_right hS.2 hg,
      mul_le_mul_of_nonneg_right hB.2 (mul_nonneg hu hg)]

theorem exactReward_add (s : RateSchedule) (r : StorageReceipt) (d₁ d₂ : ℕ) :
    s.exactReward r d₁+s.exactReward r d₂ = s.exactReward r (d₁+d₂)+s.retrievalExcess r := by
  simp only [RateSchedule.exactReward, RateSchedule.retrievalExcess, Nat.cast_add]
  ring

/-- One receipt's share of the split error: none unless it straddles `b`, and then its
retrieval reward once more, up to two truncation losses. -/
theorem durationReward_split (s : RateSchedule) (r : StorageReceipt) {a b c : ℕ} (hab : a ≤ b)
    (hbc : b ≤ c) :
    |(s.durationReward r (overlapDuration a b r)+s.durationReward r (overlapDuration b c r) : ℚ)-
        s.durationReward r (overlapDuration a c r)-
        (if straddles a b c r then s.retrievalExcess r else 0)| ≤
      if straddles a b c r then 2*s.truncationLoss r else 0 := by
  have hadd := overlapDuration_add r hab hbc
  by_cases hs : straddles a b c r
  · have hpos : 0 < overlapDuration a b r ∧ 0 < overlapDuration b c r := by
      simpa [straddles] using hs
    have h1 := durationReward_bounds s r (d := overlapDuration a b r) (by omega)
    have h2 := durationReward_bounds s r (d := overlapDuration b c r) (by omega)
    have h3 := durationReward_bounds s r (d := overlapDuration a c r) (by omega)
    have he := exactReward_add s r (overlapDuration a b r) (overlapDuration b c r)
    rw [hadd] at he
    have hl : 0 ≤ s.truncationLoss r := by
      simp only [RateSchedule.truncationLoss]; positivity
    rw [if_pos hs, if_pos hs, abs_le]
    constructor <;> linarith only [h1, h2, h3, he, hl]
  · rcases Nat.eq_zero_or_pos (overlapDuration a b r) with h | h
    · simp [hs, h, ← hadd]
    · have h' : overlapDuration b c r = 0 := by simpa [straddles, h] using hs
      simp [hs, h', ← hadd]

theorem abs_add_le_of_le {x y X Y : ℚ} (hx : |x| ≤ X) (hy : |y| ≤ Y) : |x+y| ≤ X+Y :=
  (abs_add x y).trans (add_le_add hx hy)

theorem sum_map_filter_cons {α : Type} (p : α → Bool) (f : α → ℚ) (x : α) (l : List α) :
    (((x :: l).filter p).map f).sum = (if p x then f x else 0)+((l.filter p).map f).sum := by
  by_cases h : p x <;> simp [List.filter_cons, h]

/-- Splitting a query window at `b` adds the retrieval rewards of the receipts that straddle
`b` once more, up to two truncation losses per such receipt; the other receipts add exactly
what the whole window gives them. -/
theorem nodeRewards_split (s : RateSchedule) (rs : List StorageReceipt) {a b c : ℕ} (hab : a ≤ b)
    (hbc : b ≤ c) :
    |(nodeRewards s rs a b+nodeRewards s rs b c : ℚ)-nodeRewards s rs a c-
        ((rs.filter (straddles a b c)).map s.retrievalExcess).sum| ≤
      ((rs.filter (straddles a b c)).map fun r => 2*s.truncationLoss r).sum := by
  simp only [nodeRewards_eq_sum]
  induction rs with
  | nil => simp
  | cons r rs ih =>
    simp only [sum_map_filter_cons, List.map_cons, List.sum_cons, Nat.cast_add]
    convert abs_add_le_of_le (durationReward_split s r hab hbc) ih using 2
    ring

/-! ### Widening the query window

Each step of the loop body grows with its input, and a receipt's overlap with the window. -/

/-- `as u64` after a product grows with its first factor, whatever the sign of the second:
a negative product truncates to 0. -/
theorem floor_mul_mono {x x' : ℚ} (y : ℚ) (hx : 0 ≤ x) (h : x ≤ x') : ⌊x*y⌋₊ ≤ ⌊x'*y⌋₊ := by
  rcases le_total y 0 with hy | hy
  · rw [Nat.floor_of_nonpos (mul_nonpos_of_nonneg_of_nonpos hx hy)]
    exact Nat.zero_le _
  · exact Nat.floor_mono (mul_le_mul_of_nonneg_right h hy)

/-- The storage term of `calculate`, before its cast, grows with the duration. -/
theorem storageDays_mono (rate bytes : ℕ) {d d' : ℕ} (h : d ≤ d') :
    (rate : ℚ)*bytes*(d/86400) ≤ (rate : ℚ)*bytes*(d'/86400) :=
  mul_le_mul_of_nonneg_left (div_le_div_of_nonneg_right (Nat.cast_le.2 h) (by norm_num))
    (by positivity)

theorem overlapDuration_mono (r : StorageReceipt) {a b a' b' : ℕ} (ha : a' ≤ a) (hb : b ≤ b') :
    overlapDuration a b r ≤ overlapDuration a' b' r := by
  simp only [overlapDuration_eq_card]
  exact Finset.card_le_card (Finset.inter_subset_inter_left (Finset.Ico_subset_Ico ha hb))

/-! ### Against the exact reward -/

/-- The loop against the reward before truncation: over any window, its truncations never pay more
than the exact reward of the receipts that overlap the window (with negative factors cut off at
0), and lose less than each such receipt's truncation bound. -/
theorem nodeRewards_exact_bounds (s : RateSchedule) (rs : List StorageReceipt) (a b : ℕ) :
    ((rs.filter fun r => 0 < overlapDuration a b r).map fun r =>
        s.exactReward r (overlapDuration a b r)-s.truncationLoss r).sum ≤ nodeRewards s rs a b ∧
      (nodeRewards s rs a b : ℚ) ≤ ((rs.filter fun r => 0 < overlapDuration a b r).map fun r =>
        s.exactReward r (overlapDuration a b r)).sum := by
  rw [nodeRewards_eq_sum]
  induction rs with
  | nil => simp
  | cons r rs ih =>
    rw [List.map_cons, List.sum_cons, Nat.cast_add]
    by_cases hd : overlapDuration a b r = 0
    · rw [List.filter_cons_of_neg (by simp [hd]), hd, RateSchedule.durationReward_zero,
        Nat.cast_zero, zero_add]
      exact ih
    · obtain ⟨h₁, h₂⟩ := durationReward_bounds s r hd
      rw [List.filter_cons_of_pos (by simpa using Nat.pos_of_ne_zero hd), List.map_cons,
        List.map_cons, List.sum_cons, List.sum_cons]
      exact ⟨add_le_add h₁ ih.1, add_le_add h₂ ih.2⟩

end DsmStorage.Rewards
