import DsmStorage.RewardsReceiptRegistry
import Mathlib.Algebra.Order.BigOperators.Group.List

/-! `calculate_node_rewards` at the width the code computes in. `f64 as u64` saturates at both
ends, and a `u64` product or sum past `u64::MAX` fails its overflow check (`none`), where a debug
build panics and a release build wraps. The `f64` products themselves stay the exact rationals of
`RewardsCalculation`, which is the reward this computation approximates. -/
namespace DsmStorage.Rewards

/-- A `u64` product or sum: its value, or the failed overflow check. -/
def u64Checked (n : ℕ) : Option ℕ := if n < 2^64 then some n else none

/-- `RateSchedule::calculate` in `u64`. -/
def RateSchedule.calculateU64 (s : RateSchedule) (durationSecs bytes retrievals : ℕ) :
    Option ℕ := do
  let days : ℚ := durationSecs/86400
  let storageReward := asU64 ((s.baseRatePerByteDay.toNat : ℚ)*bytes*days)
  let retrievalReward ← u64Checked (s.retrievalRate.toNat*retrievals)
  u64Checked (storageReward+retrievalReward)

/-- The loop body of `calculate_node_rewards` in `u64`, once the overlap is known. -/
def RateSchedule.durationRewardU64 (s : RateSchedule) (r : StorageReceipt) (duration : ℕ) :
    Option ℕ :=
  if duration = 0 then some 0 else do
    let storageReward ← s.calculateU64 duration r.storageMetrics.bytesStored.toNat
      r.storageMetrics.retrievals.toNat
    let scaledReward := asU64 ((storageReward : ℚ)*s.uptimeFactor r.storageMetrics)
    pure (asU64 ((scaledReward : ℚ)*s.regionMultiplier r.storageMetrics.regions))

/-- The loop of `calculate_node_rewards` in `u64`: `total_reward += final_reward` is checked. -/
def nodeRewardsU64 (s : RateSchedule) (receipts : List StorageReceipt)
    (periodStart periodEnd : ℕ) : Option ℕ :=
  (receipts.filter (overlapsPeriod periodStart periodEnd)).foldlM (fun total r => do
    let finalReward ← s.durationRewardU64 r (overlapDuration periodStart periodEnd r)
    u64Checked (total+finalReward)) 0

/-- `calculate_node_rewards` in `u64`: `none` where an overflow check fails. -/
def RewardVaultManager.calculateNodeRewardsU64 (m : RewardVaultManager) (nodeId : String)
    (periodStart periodEnd : UInt64) : Option (Except StorageNodeError ℕ) :=
  match m.receiptRegistry.acquire with
  | .error e => some (.error e)
  | .ok registry => match registry.lookup nodeId with
    | none => some (.ok 0)
    | some receipts => match m.rateSchedule.acquire with
      | .error e => some (.error e)
      | .ok schedule => (nodeRewardsU64 schedule receipts periodStart.toNat periodEnd.toNat).map .ok

theorem u64Checked_of_lt {n : ℕ} (h : n < 2^64) : u64Checked n = some n := if_pos h

theorem u64Checked_of_le {n : ℕ} (h : 2^64 ≤ n) : u64Checked n = none := if_neg (by omega)

theorem lt_of_u64Checked {n b : ℕ} (h : u64Checked n = some b) : b < 2^64 := by
  unfold u64Checked at h
  split_ifs at h with hn
  · cases h; exact hn

theorem u64Checked_eq_some {n b : ℕ} (h : u64Checked n = some b) : n = b := by
  unfold u64Checked at h
  split_ifs at h
  cases h
  rfl

/-- Two checked additions in a row fail exactly when the sum of all three reaches `2^64`. -/
theorem u64Checked_bind_add (t n : ℕ) :
    (u64Checked n).bind (fun Z => u64Checked (t+Z)) = u64Checked (t+n) := by
  by_cases hn : n < 2^64
  · rw [u64Checked_of_lt hn, Option.some_bind]
  · rw [u64Checked_of_le (by omega), u64Checked_of_le (by omega), Option.none_bind]

/-- On a manager whose locks are sound, `calculate_node_rewards` runs the loop over the node's
receipts with the current schedule, none filed being no receipt. -/
theorem RewardVaultManager.calculateNodeRewardsU64_eq (m : RewardVaultManager)
    (hr : m.receiptRegistry.poisoned = false) (hs : m.rateSchedule.poisoned = false) (N : String)
    (a b : UInt64) :
    m.calculateNodeRewardsU64 N a b = (nodeRewardsU64 m.rateSchedule.data
      ((m.receiptRegistry.data.lookup N).getD []) a.toNat b.toNat).map .ok := by
  simp only [RewardVaultManager.calculateNodeRewardsU64, Lock.acquire, hr, hs, Bool.false_eq_true,
    ite_false]
  cases m.receiptRegistry.data.lookup N <;> rfl

/-- After `process_receipt` calls on a new manager whose receipts all verify and belong to node
`N`, `calculate_node_rewards` for `N` runs the loop over them with the default schedule. -/
theorem calculateNodeRewardsU64_after_receipts (blake3 : Bytes → Hash32) (N : String)
    (r : StorageReceipt) (rs : List StorageReceipt)
    (hv : ∀ x ∈ r :: rs, verifyReceipt blake3 x = .ok true) (hN : ∀ x ∈ r :: rs, x.nodeId = N)
    (ps pe : UInt64) :
    (processReceipts blake3 RewardVaultManager.new (r :: rs)).2.calculateNodeRewardsU64 N ps pe =
      (nodeRewardsU64 defaultRateSchedule (r :: rs) ps.toNat pe.toNat).map .ok := by
  rw [processReceipts_verified blake3 _ rfl _ hv, RewardVaultManager.calculateNodeRewardsU64_eq _ rfl rfl]
  have hl := lookup_foldl_appendReceipt N r rs hN ∅
  rw [AList.lookup_empty, Option.getD_none, List.nil_append] at hl
  exact congrArg (fun l => (nodeRewardsU64 defaultRateSchedule (Option.getD l []) ps.toNat
    pe.toNat).map Except.ok) hl

/-- Over a whole day, `calculate` is the storage reward for a day plus the retrieval reward. -/
theorem RateSchedule.calculate_day (s : RateSchedule) (b t : ℕ) :
    s.calculate 86400 b t = s.baseRatePerByteDay.toNat*b+s.retrievalRate.toNat*t := by
  have hday : (s.baseRatePerByteDay.toNat : ℚ)*b*((86400 : ℕ)/86400) =
      (s.baseRatePerByteDay.toNat*b : ℕ) := by push_cast; ring
  simp only [RateSchedule.calculate, hday, Nat.floor_natCast]

/-- Over a whole day, `calculate` in `u64` is the saturated storage reward plus the checked
retrieval reward, checked. -/
theorem RateSchedule.calculateU64_day (s : RateSchedule) (b t : ℕ) :
    s.calculateU64 86400 b t = (u64Checked (s.retrievalRate.toNat*t)).bind
      fun rr => u64Checked (min (s.baseRatePerByteDay.toNat*b) (2^64-1)+rr) := by
  have hday : (s.baseRatePerByteDay.toNat : ℚ)*b*((86400 : ℕ)/86400) =
      (s.baseRatePerByteDay.toNat*b : ℕ) := by push_cast; ring
  simp only [RateSchedule.calculateU64, hday, asU64_natCast, Option.bind_eq_bind]

/-- With uptime and region factors of 1, the loop body is `calculate` itself. -/
theorem RateSchedule.durationRewardU64_of_unit (s : RateSchedule) (r : StorageReceipt) {d : ℕ}
    (hd : d ≠ 0) (hu : s.uptimeFactor r.storageMetrics = 1)
    (hg : s.regionMultiplier r.storageMetrics.regions = 1) :
    s.durationRewardU64 r d =
      s.calculateU64 d r.storageMetrics.bytesStored.toNat r.storageMetrics.retrievals.toNat := by
  simp only [RateSchedule.durationRewardU64, hd, if_false, hu, hg, mul_one, asU64_natCast]
  cases h : s.calculateU64 d r.storageMetrics.bytesStored.toNat r.storageMetrics.retrievals.toNat with
  | none => rfl
  | some B =>
    have hB : B < 2^64 := by
      simp only [RateSchedule.calculateU64, Option.bind_eq_bind] at h
      cases hr : u64Checked (s.retrievalRate.toNat*r.storageMetrics.retrievals.toNat) <;>
        simp only [hr, Option.none_bind, Option.some_bind, reduceCtorEq] at h
      exact lt_of_u64Checked h
    simp only [Option.bind_eq_bind, Option.some_bind, Option.pure_def, asU64_natCast,
      Nat.min_eq_left (by omega : B ≤ 2^64-1)]

/-- Below `2^64`, `calculate` in `u64` is the exact `calculate`. -/
theorem RateSchedule.calculateU64_eq (s : RateSchedule) (d b t : ℕ)
    (h : s.calculate d b t < 2^64) : s.calculateU64 d b t = some (s.calculate d b t) := by
  simp only [RateSchedule.calculate] at h ⊢
  simp only [RateSchedule.calculateU64, u64Checked_of_lt (by omega : s.retrievalRate.toNat*t < 2^64),
    asU64_of_lt (by omega : ⌊(s.baseRatePerByteDay.toNat : ℚ)*b*(d/86400)⌋₊ < 2^64),
    Option.bind_eq_bind, Option.some_bind, u64Checked_of_lt h]

/-- The receipt's reward for `d` seconds passes through `u64` unchanged up to its last cast:
`calculate` and the uptime-scaled reward stay below `2^64`. -/
def RateSchedule.FitsU64 (s : RateSchedule) (r : StorageReceipt) (d : ℕ) : Prop :=
  d = 0 ∨ s.calculate d r.storageMetrics.bytesStored.toNat r.storageMetrics.retrievals.toNat < 2^64 ∧
    ⌊(s.calculate d r.storageMetrics.bytesStored.toNat r.storageMetrics.retrievals.toNat : ℚ)*
      s.uptimeFactor r.storageMetrics⌋₊ < 2^64

theorem RateSchedule.durationRewardU64_eq (s : RateSchedule) (r : StorageReceipt) (d : ℕ)
    (hfit : s.FitsU64 r d) (hf : s.durationReward r d < 2^64) :
    s.durationRewardU64 r d = some (s.durationReward r d) := by
  rcases hfit with rfl | ⟨hc, hu⟩
  · rfl
  by_cases hd : d = 0
  · subst hd; rfl
  simp only [RateSchedule.durationReward, hd, if_false] at hf ⊢
  simp only [RateSchedule.durationRewardU64, hd, if_false, s.calculateU64_eq _ _ _ hc,
    Option.bind_eq_bind, Option.some_bind, asU64_of_lt hu, asU64_of_lt hf, Option.pure_def]

/-- One checked addition after another fails exactly when the exact sum reaches `2^64`. -/
theorem foldlM_u64Checked {α : Type} (l : List α) (g : α → Option ℕ) (f : α → ℕ)
    (hg : ∀ x ∈ l, g x = some (f x)) (t : ℕ) (ht : t < 2^64) :
    l.foldlM (fun total x => do let v ← g x; u64Checked (total+v)) t =
      u64Checked (t+(l.map f).sum) := by
  induction l generalizing t with
  | nil => exact (u64Checked_of_lt ht).symm
  | cons x l ih =>
    simp only [Option.bind_eq_bind] at ih
    simp only [List.foldlM_cons, Option.bind_eq_bind, hg x (.head _), Option.some_bind,
      List.map_cons, List.sum_cons]
    by_cases hx : t+f x < 2^64
    · rw [u64Checked_of_lt hx, Option.some_bind, ih (fun y hy => hg y (.tail _ hy)) _ hx,
        Nat.add_assoc]
    · rw [u64Checked_of_le (by omega), u64Checked_of_le (by omega)]
      rfl

/-- Where no intermediate value of a receipt's reward reaches `2^64` and neither does the
total, `calculate_node_rewards` in `u64` returns the exact reward. -/
theorem nodeRewardsU64_eq (s : RateSchedule) (rs : List StorageReceipt) (ps pe : ℕ)
    (hfit : ∀ r ∈ rs, s.FitsU64 r (overlapDuration ps pe r))
    (htot : nodeRewards s rs ps pe < 2^64) :
    nodeRewardsU64 s rs ps pe = some (nodeRewards s rs ps pe) := by
  have hsum : nodeRewards s rs ps pe = ((rs.filter (overlapsPeriod ps pe)).map
      fun r => s.durationReward r (overlapDuration ps pe r)).sum := by
    rw [nodeRewards, foldl_add_eq_sum, Nat.zero_add]
  rw [hsum] at htot ⊢
  refine (foldlM_u64Checked _ (fun r => s.durationRewardU64 r (overlapDuration ps pe r))
    (fun r => s.durationReward r (overlapDuration ps pe r)) (fun r hr => ?_) 0 (by norm_num)).trans
    (by rw [Nat.zero_add, u64Checked_of_lt htot])
  exact s.durationRewardU64_eq r _ (hfit r (List.mem_of_mem_filter hr))
    ((List.le_sum_of_mem (List.mem_map_of_mem _ hr)).trans_lt htot)

/-- `calculate_node_rewards` returns `Ok(0)`, not an error, in two edge cases: for a node with no
receipts, without reading the schedule, so even when the schedule's lock is poisoned; and for an
empty or inverted window (`period_end <= period_start`), whatever receipts the node has. -/
theorem RewardVaultManager.calculateNodeRewardsU64_zero (m : RewardVaultManager)
    (hr : m.receiptRegistry.poisoned = false) (N : String) (a b : UInt64)
    (h : m.receiptRegistry.data.lookup N = none ∨ m.rateSchedule.poisoned = false ∧ b ≤ a) :
    m.calculateNodeRewardsU64 N a b = some (.ok 0) := by
  rcases h with hN | ⟨hs, hab⟩
  · simp [RewardVaultManager.calculateNodeRewardsU64, Lock.acquire, hr, hN]
  · have hd (r : StorageReceipt) : overlapDuration a.toNat b.toNat r = 0 := by
      have hab' : b.toNat ≤ a.toNat := hab
      unfold overlapDuration
      omega
    rw [m.calculateNodeRewardsU64_eq hr hs, nodeRewardsU64,
      foldlM_u64Checked _ _ (fun _ => 0) (fun r _ => by rw [hd r]; rfl) 0 (by norm_num)]
    simp [u64Checked]

/-- A receipt for the first day, queried over that day, is selected with a full day's overlap. -/
theorem overlap_first_day (r : StorageReceipt) (h : r.servicePeriod = (0, 86400)) :
    overlapsPeriod 0 86400 r = true ∧ overlapDuration 0 86400 r = 86400 := by
  rw [overlapsPeriod, overlapDuration, h]
  exact ⟨rfl, rfl⟩

/-- No cast of the loop saturates and no check fails: every receipt's reward passes through `u64`
unchanged up to its last cast, and the exact total stays below `2^64`. -/
def RateSchedule.LoopFitsU64 (s : RateSchedule) (rs : List StorageReceipt) (ps pe : ℕ) : Prop :=
  (∀ r ∈ rs, s.FitsU64 r (overlapDuration ps pe r)) ∧ nodeRewards s rs ps pe < 2^64

/-- Under the default schedule, a receipt that stores nothing, was up the whole time and lists no
region earns its whole retrieval reward over any positive overlap, however short; no cast
saturates while that reward fits. -/
theorem nodeRewardsU64_retrievalsOnly (r : StorageReceipt)
    (hb : r.storageMetrics.bytesStored.toNat = 0) (hu : r.storageMetrics.uptimePercentage.toNat = 100)
    (hg : r.storageMetrics.regions = []) (ht : 10*r.storageMetrics.retrievals.toNat < 2^64)
    (ps pe : ℕ) :
    defaultRateSchedule.LoopFitsU64 [r] ps pe ∧ nodeRewardsU64 defaultRateSchedule [r] ps pe =
      some (if overlapDuration ps pe r = 0 then 0 else 10*r.storageMetrics.retrievals.toNat) := by
  have hrate : defaultRateSchedule.retrievalRate.toNat = 10 := rfl
  have hc (d : ℕ) : defaultRateSchedule.calculate d 0 r.storageMetrics.retrievals.toNat =
      10*r.storageMetrics.retrievals.toNat := by
    simp [RateSchedule.calculate, hrate]
  have hf : defaultRateSchedule.uptimeFactor r.storageMetrics = 1 := by
    simp [RateSchedule.uptimeFactor, hu, show defaultRateSchedule.uptimeMultiplier = 1 from rfl]
  have hm : defaultRateSchedule.regionMultiplier r.storageMetrics.regions = 1 := by rw [hg]; rfl
  have hfit : defaultRateSchedule.FitsU64 r (overlapDuration ps pe r) ∧
      defaultRateSchedule.durationReward r (overlapDuration ps pe r) =
        if overlapDuration ps pe r = 0 then 0 else 10*r.storageMetrics.retrievals.toNat := by
    by_cases hd : overlapDuration ps pe r = 0
    · exact ⟨.inl hd, by rw [hd]; rfl⟩
    · simp only [RateSchedule.FitsU64, RateSchedule.durationReward, hd, if_false, hb, hc, hf, hm,
        mul_one, Nat.floor_natCast, false_or]
      exact ⟨⟨ht, ht⟩, trivial⟩
  have hsum : nodeRewards defaultRateSchedule [r] ps pe =
      if overlapDuration ps pe r = 0 then 0 else 10*r.storageMetrics.retrievals.toNat := by
    rw [nodeRewards_eq_sum, List.map_singleton, List.sum_singleton, hfit.2]
  have hloop : defaultRateSchedule.LoopFitsU64 [r] ps pe :=
    ⟨List.forall_mem_singleton.2 hfit.1, by rw [hsum]; split_ifs <;> omega⟩
  exact ⟨hloop, (nodeRewardsU64_eq _ _ _ _ hloop.1 hloop.2).trans (congrArg some hsum)⟩

/-! ### Splitting a query window in `u64` -/

/-- Where no cast saturates and no check fails over `[a, b)`, `[b, c)` and `[a, c)`, splitting a query
window at `b` adds the retrieval rewards of the receipts that straddle `b` once more, up to two
truncation losses per such receipt; the other receipts add exactly what the whole window gives
them. -/
theorem nodeRewardsU64_split (s : RateSchedule) (rs : List StorageReceipt) {a b c : ℕ}
    (hab : a ≤ b) (hbc : b ≤ c) (h₁ : s.LoopFitsU64 rs a b) (h₂ : s.LoopFitsU64 rs b c)
    (h₃ : s.LoopFitsU64 rs a c) :
    ∃ R₁ R₂ R₃, nodeRewardsU64 s rs a b = some R₁ ∧ nodeRewardsU64 s rs b c = some R₂ ∧
      nodeRewardsU64 s rs a c = some R₃ ∧
      |(R₁+R₂ : ℚ)-R₃-((rs.filter (straddles a b c)).map s.retrievalExcess).sum| ≤
        ((rs.filter (straddles a b c)).map fun r => 2*s.truncationLoss r).sum :=
  ⟨_, _, _, nodeRewardsU64_eq s rs a b h₁.1 h₁.2, nodeRewardsU64_eq s rs b c h₂.1 h₂.2,
    nodeRewardsU64_eq s rs a c h₃.1 h₃.2, nodeRewards_split s rs hab hbc⟩

/-- A day of service with one retrieval and nothing stored, split at noon: the receipt straddles
the split and no cast saturates. -/
theorem nodeRewardsU64_split_straddling :
    let r : StorageReceipt := ⟨"N", "C", (0, 86400), ⟨0, 1, 0, 100, [], List.nodup_nil⟩,
      ⟨List.replicate 32 0, rfl⟩, [1], [1]⟩
    (straddles 0 43200 86400 r = true ∧ (0 : ℕ) ≤ 43200 ∧ (43200 : ℕ) ≤ 86400 ∧
        defaultRateSchedule.LoopFitsU64 [r] 0 43200 ∧ defaultRateSchedule.LoopFitsU64 [r] 43200 86400 ∧
        defaultRateSchedule.LoopFitsU64 [r] 0 86400) ∧
      ∃ R₁ R₂ R₃, nodeRewardsU64 defaultRateSchedule [r] 0 43200 = some R₁ ∧
        nodeRewardsU64 defaultRateSchedule [r] 43200 86400 = some R₂ ∧
        nodeRewardsU64 defaultRateSchedule [r] 0 86400 = some R₃ ∧
        |(R₁+R₂ : ℚ)-R₃-(([r].filter (straddles 0 43200 86400)).map
            defaultRateSchedule.retrievalExcess).sum| ≤
          (([r].filter (straddles 0 43200 86400)).map
            fun r => 2*defaultRateSchedule.truncationLoss r).sum := by
  intro r
  have h (x y : ℕ) := (nodeRewardsU64_retrievalsOnly r rfl rfl rfl (by decide) x y).1
  exact ⟨⟨by decide, by norm_num, by norm_num, h _ _, h _ _, h _ _⟩,
    nodeRewardsU64_split _ _ (by norm_num) (by norm_num) (h _ _) (h _ _) (h _ _)⟩

/-- The same receipt: each half of the day earns the whole retrieval reward, so the halves together
earn twice what the day earns. -/
theorem nodeRewardsU64_split_counterexample :
    let r : StorageReceipt := ⟨"N", "C", (0, 86400), ⟨0, 1, 0, 100, [], List.nodup_nil⟩,
      ⟨List.replicate 32 0, rfl⟩, [1], [1]⟩
    nodeRewardsU64 defaultRateSchedule [r] 0 43200 = some 10 ∧
      nodeRewardsU64 defaultRateSchedule [r] 43200 86400 = some 10 ∧
      nodeRewardsU64 defaultRateSchedule [r] 0 86400 = some 10 ∧
      (([r].filter (overlapsPeriod 0 86400)).length : ℚ) < |(10+10 : ℚ)-10| := by
  intro r
  have h (x y : ℕ) (hd : overlapDuration x y r ≠ 0) :
      nodeRewardsU64 defaultRateSchedule [r] x y = some 10 := by
    rw [(nodeRewardsU64_retrievalsOnly r rfl rfl rfl (by decide) x y).2, if_neg hd]
    rfl
  have hl : ([r].filter (overlapsPeriod 0 86400)).length = 1 := by decide
  refine ⟨h _ _ (by decide), h _ _ (by decide), h _ _ (by decide), ?_⟩
  rw [hl]
  norm_num

/-! ### Against the exact reward

`as u64` saturates and a failed check returns nothing, so the code never pays more than the exact
reward; where nothing saturates it pays that reward. -/

theorem asU64_le_floor (x : ℚ) : asU64 x ≤ ⌊x⌋₊ := min_le_left _ _

theorem RateSchedule.calculateU64_le (s : RateSchedule) (d b t : ℕ) {x : ℕ}
    (h : s.calculateU64 d b t = some x) : x ≤ s.calculate d b t := by
  simp only [RateSchedule.calculateU64, Option.bind_eq_bind, Option.bind_eq_some] at h
  obtain ⟨rr, hr, hx⟩ := h
  rw [← u64Checked_eq_some hx, ← u64Checked_eq_some hr]
  exact Nat.add_le_add_right (asU64_le_floor _) _

theorem RateSchedule.durationRewardU64_le (s : RateSchedule) (r : StorageReceipt) (d : ℕ) {x : ℕ}
    (h : s.durationRewardU64 r d = some x) : x ≤ s.durationReward r d := by
  by_cases hd : d = 0
  · subst hd
    cases h
    exact le_rfl
  simp only [RateSchedule.durationRewardU64, hd, if_false, Option.bind_eq_bind,
    Option.bind_eq_some, Option.pure_def, Option.some.injEq] at h
  obtain ⟨B, hB, rfl⟩ := h
  simp only [RateSchedule.durationReward, hd, if_false]
  exact (asU64_le_floor _).trans (floor_mul_mono _ (Nat.cast_nonneg _) (Nat.cast_le.2
    ((asU64_le_floor _).trans (floor_mul_mono _ (Nat.cast_nonneg _)
      (Nat.cast_le.2 (s.calculateU64_le _ _ _ hB))))))

/-- A checked fold that returns a value had a value for every element, and returns their sum. -/
theorem foldlM_u64Checked_some {α : Type} (l : List α) (g : α → Option ℕ) (t Y : ℕ)
    (h : l.foldlM (fun total x => do let v ← g x; u64Checked (total+v)) t = some Y) :
    (∀ x ∈ l, g x = some ((g x).getD 0)) ∧ Y = t+(l.map fun x => (g x).getD 0).sum := by
  induction l generalizing t with
  | nil => cases h; simp
  | cons x l ih =>
    simp only [List.foldlM_cons, Option.bind_eq_bind] at h ih
    cases hx : g x with
    | none => simp [hx] at h
    | some v =>
      cases hc : u64Checked (t+v) with
      | none => simp [hx, hc] at h
      | some t' =>
        simp only [hx, hc, Option.some_bind] at h
        obtain ⟨h₁, h₂⟩ := ih t' h
        refine ⟨fun y hy => ?_, ?_⟩
        · rcases List.mem_cons.1 hy with rfl | hy
          · simp [hx]
          · exact h₁ y hy
        · rw [h₂, ← u64Checked_eq_some hc]
          simp [hx, Nat.add_assoc]

theorem nodeRewardsU64_le (s : RateSchedule) (rs : List StorageReceipt) (a b : ℕ) {R : ℕ}
    (h : nodeRewardsU64 s rs a b = some R) : R ≤ nodeRewards s rs a b := by
  obtain ⟨hg, rfl⟩ := foldlM_u64Checked_some _ _ 0 R h
  rw [nodeRewards, foldl_add_eq_sum]
  exact Nat.add_le_add_left (List.sum_le_sum fun r hr => s.durationRewardU64_le r _ (hg r hr)) 0

/-- `calculate_node_rewards` in `u64` against the reward it approximates: whatever it returns is no
more than the exact reward of the receipts that overlap the window (with negative factors cut off
at 0); and where no cast saturates and no check fails it returns a value that loses less than each
such receipt's truncation bound. -/
theorem nodeRewardsU64_exact_bounds (s : RateSchedule) (rs : List StorageReceipt) (a b : ℕ) :
    (∀ R, nodeRewardsU64 s rs a b = some R → (R : ℚ) ≤
      ((rs.filter fun r => 0 < overlapDuration a b r).map fun r =>
        s.exactReward r (overlapDuration a b r)).sum) ∧
    (s.LoopFitsU64 rs a b → ∃ R, nodeRewardsU64 s rs a b = some R ∧
      ((rs.filter fun r => 0 < overlapDuration a b r).map fun r =>
        s.exactReward r (overlapDuration a b r)-s.truncationLoss r).sum ≤ R) := by
  obtain ⟨hlo, hup⟩ := nodeRewards_exact_bounds s rs a b
  exact ⟨fun R h => (Nat.cast_le.2 (nodeRewardsU64_le s rs a b h)).trans hup,
    fun h => ⟨_, nodeRewardsU64_eq s rs a b h.1 h.2, hlo⟩⟩

/-- A day of service with one retrieval and nothing stored, queried over the day. -/
theorem nodeRewardsU64_exact_bounds_day :
    let r : StorageReceipt := ⟨"N", "C", (0, 86400), ⟨0, 1, 0, 100, [], List.nodup_nil⟩,
      ⟨List.replicate 32 0, rfl⟩, [1], [1]⟩
    (nodeRewardsU64 defaultRateSchedule [r] 0 86400 = some 10 ∧
        defaultRateSchedule.LoopFitsU64 [r] 0 86400) ∧
      (10 : ℚ) ≤ (([r].filter fun r => 0 < overlapDuration 0 86400 r).map fun r =>
        defaultRateSchedule.exactReward r (overlapDuration 0 86400 r)).sum ∧
      ∃ R, nodeRewardsU64 defaultRateSchedule [r] 0 86400 = some R ∧
        (([r].filter fun r => 0 < overlapDuration 0 86400 r).map fun r =>
          defaultRateSchedule.exactReward r (overlapDuration 0 86400 r)-
            defaultRateSchedule.truncationLoss r).sum ≤ R := by
  intro r
  obtain ⟨hfit, hv⟩ := nodeRewardsU64_retrievalsOnly r rfl rfl rfl (by decide) 0 86400
  have hv : nodeRewardsU64 defaultRateSchedule [r] 0 86400 = some 10 := by
    rw [hv, if_neg (by decide)]
    rfl
  exact ⟨⟨hv, hfit⟩, (nodeRewardsU64_exact_bounds _ _ _ _).1 10 hv,
    (nodeRewardsU64_exact_bounds _ _ _ _).2 hfit⟩

/-! ### Receipts only add up -/

theorem lt_of_foldlM_u64Checked {α : Type} (l : List α) (g : α → Option ℕ) {t Y : ℕ}
    (ht : t < 2^64) (h : l.foldlM (fun total x => do let v ← g x; u64Checked (total+v)) t = some Y) :
    Y < 2^64 := by
  obtain ⟨hg, -⟩ := foldlM_u64Checked_some l g t Y h
  exact lt_of_u64Checked ((foldlM_u64Checked l g _ hg t ht).symm.trans h)

/-- A checked loop started from `t` is the loop started from 0, with `t` added last, checked. -/
theorem foldlM_u64Checked_start {α : Type} (l : List α) (g : α → Option ℕ) (t : ℕ)
    (ht : t < 2^64) :
    l.foldlM (fun total x => do let v ← g x; u64Checked (total+v)) t =
      (l.foldlM (fun total x => do let v ← g x; u64Checked (total+v)) 0).bind
        fun Z => u64Checked (t+Z) := by
  induction l generalizing t with
  | nil => exact (u64Checked_of_lt ht).symm
  | cons x l ih =>
    have hF (n : ℕ) : (u64Checked n).bind (fun t =>
        l.foldlM (fun total x => do let v ← g x; u64Checked (total+v)) t) =
        (l.foldlM (fun total x => do let v ← g x; u64Checked (total+v)) 0).bind
          fun Z => u64Checked (n+Z) := by
      by_cases hn : n < 2^64
      · rw [u64Checked_of_lt hn, Option.some_bind, ih n hn]
      · rw [u64Checked_of_le (by omega), Option.none_bind]
        cases l.foldlM (fun total x => do let v ← g x; u64Checked (total+v)) 0 with
        | none => rfl
        | some Z => exact (u64Checked_of_le (by omega)).symm
    simp only [List.foldlM_cons, Option.bind_eq_bind] at hF ⊢
    cases g x with
    | none => rfl
    | some v =>
      simp only [Option.some_bind, Nat.zero_add, hF, Option.bind_assoc, u64Checked_bind_add,
        Nat.add_assoc]

/-- The loop over two lists of receipts is the checked sum of the loops over each. -/
theorem nodeRewardsU64_append (s : RateSchedule) (l l' : List StorageReceipt) (a b : ℕ) :
    nodeRewardsU64 s (l++l') a b = (nodeRewardsU64 s l a b).bind fun X =>
      (nodeRewardsU64 s l' a b).bind fun Z => u64Checked (X+Z) := by
  rw [nodeRewardsU64, nodeRewardsU64, nodeRewardsU64, List.filter_append, List.foldlM_append]
  cases hX : (l.filter (overlapsPeriod a b)).foldlM (fun total r => do
    let finalReward ← s.durationRewardU64 r (overlapDuration a b r)
    u64Checked (total+finalReward)) 0 with
  | none => rfl
  | some X => exact foldlM_u64Checked_start _ _ X (lt_of_foldlM_u64Checked _ _ (by norm_num) hX)

/-- Receipts only add up: over any run of `process_receipt` calls from sound locks,
`calculate_node_rewards` of a node over a window returns the checked sum of the loop over the
receipts filed before and the loop over the run's accepted receipts of that node, the first being
what it returned before the run. -/
theorem receipts_add_rewards (blake3 : Bytes → Hash32) (m : RewardVaultManager)
    (hr : m.receiptRegistry.poisoned = false) (hs : m.rateSchedule.poisoned = false)
    (rs : List StorageReceipt) (N : String) (a b : UInt64) :
    let run := processReceipts blake3 m rs
    let reward := fun l => nodeRewardsU64 m.rateSchedule.data l a.toNat b.toNat
    m.calculateNodeRewardsU64 N a b = (reward ((m.receiptRegistry.data.lookup N).getD [])).map .ok ∧
      run.2.calculateNodeRewardsU64 N a b =
        ((reward ((m.receiptRegistry.data.lookup N).getD [])).bind fun X =>
          (reward ((acceptedOf run.1).filter (·.nodeId = N))).bind fun Z =>
            u64Checked (X+Z)).map .ok := by
  obtain ⟨-, hr', hl, -⟩ := processReceipts_registry blake3 m hr rs
  have hs' := processReceipts_rateSchedule blake3 m rs
  refine ⟨m.calculateNodeRewardsU64_eq hr hs N a b, ?_⟩
  rw [RewardVaultManager.calculateNodeRewardsU64_eq _ hr' (by rw [hs']; exact hs), hl,
    nodeRewardsU64_append, hs']

/-- A receipt filed for a new manager. -/
theorem receipts_add_rewards_new :
    let blake3 : Bytes → Hash32 := fun _ => ⟨List.replicate 32 0, rfl⟩
    let r : StorageReceipt := ⟨"N", "C", (0, 86400), ⟨1, 1, 0, 100, [], List.nodup_nil⟩,
      ⟨List.replicate 32 0, rfl⟩, [1], [1]⟩
    (RewardVaultManager.new.receiptRegistry.poisoned = false ∧
        RewardVaultManager.new.rateSchedule.poisoned = false) ∧
      let run := processReceipts blake3 RewardVaultManager.new [r]
      let reward := fun l => nodeRewardsU64 RewardVaultManager.new.rateSchedule.data l
        (0 : UInt64).toNat (86400 : UInt64).toNat
      RewardVaultManager.new.calculateNodeRewardsU64 "N" 0 86400 =
          (reward ((RewardVaultManager.new.receiptRegistry.data.lookup "N").getD [])).map .ok ∧
        run.2.calculateNodeRewardsU64 "N" 0 86400 =
          ((reward ((RewardVaultManager.new.receiptRegistry.data.lookup "N").getD [])).bind fun X =>
            (reward ((acceptedOf run.1).filter (·.nodeId = "N"))).bind fun Z =>
              u64Checked (X+Z)).map .ok :=
  ⟨⟨rfl, rfl⟩, receipts_add_rewards _ RewardVaultManager.new rfl rfl _ "N" 0 86400⟩

/-- `process_receipt` accepts any metrics whose hash matches, so `calculate_node_rewards`
overflows at each of its three `u64` operations: `retrieval_rate * retrievals`, then
`storage_reward + retrieval_reward` with the storage reward saturated and the product fitting,
then `total_reward += final_reward` over receipts whose rewards each fit. -/
theorem accepted_receipts_overflow (blake3 : Bytes → Hash32) :
    let receipt : UInt64 → UInt64 → StorageReceipt := fun bytes retrievals =>
      let r : StorageReceipt := ⟨"N", "C", (0, 86400),
        ⟨bytes, retrievals, 0, 100, [], List.nodup_nil⟩, ⟨List.replicate 32 0, rfl⟩, [1], [1]⟩
      { r with receiptHash := blake3 (receiptPreimage r) }
    let s := defaultRateSchedule
    let rewards := fun rs : List StorageReceipt =>
      (processReceipts blake3 RewardVaultManager.new rs).2.calculateNodeRewardsU64 "N" 0 86400
    (∀ bytes retrievals, verifyReceipt blake3 (receipt bytes retrievals) = .ok true) ∧
      (2^64 ≤ s.retrievalRate.toNat*9223372036854775808 ∧
        rewards [receipt 0 9223372036854775808] = none) ∧
      (s.retrievalRate.toNat*1 < 2^64 ∧ s.calculateU64 86400 18446744073709551615 1 = none ∧
        rewards [receipt 18446744073709551615 1] = none) ∧
      (s.durationRewardU64 (receipt 4611686018427387904 0) 86400 = some 18446744073709551615 ∧
        rewards [receipt 4611686018427387904 0, receipt 4611686018427387904 0] = none) := by
  intro receipt s rewards
  have hv (b t : UInt64) : verifyReceipt blake3 (receipt b t) = .ok true :=
    (verifyReceipt_eq_ok _ _ _).2 ⟨rfl, by simp [receipt], by simp [receipt], rfl⟩
  have hrun (r : StorageReceipt) (rs : List StorageReceipt)
      (hrs : ∀ x ∈ r :: rs, verifyReceipt blake3 x = .ok true ∧ x.nodeId = "N") :
      rewards (r :: rs) = (nodeRewardsU64 s (r :: rs) 0 86400).map .ok :=
    calculateNodeRewardsU64_after_receipts blake3 "N" r rs (fun x hx => (hrs x hx).1)
      (fun x hx => (hrs x hx).2) 0 86400
  have hkeep (b t : UInt64) : overlapsPeriod 0 86400 (receipt b t) = true ∧
      overlapDuration 0 86400 (receipt b t) = 86400 := overlap_first_day _ rfl
  have hday (b t : UInt64) : s.durationRewardU64 (receipt b t) 86400 =
      (u64Checked (10*t.toNat)).bind fun rr => u64Checked (min (100*b.toNat) (2^64-1)+rr) :=
    have h100 : (100 : UInt8).toNat = 100 := rfl
    (s.durationRewardU64_of_unit (receipt b t) (by norm_num)
      (by norm_num [s, defaultRateSchedule, RateSchedule.uptimeFactor, receipt, h100]) rfl).trans
      (s.calculateU64_day _ _)
  have h10 : s.retrievalRate.toNat = 10 := rfl
  have hlit : (0 : UInt64).toNat = 0 ∧ (1 : UInt64).toNat = 1 ∧
      (9223372036854775808 : UInt64).toNat = 9223372036854775808 ∧
      (18446744073709551615 : UInt64).toNat = 18446744073709551615 ∧
      (4611686018427387904 : UInt64).toNat = 4611686018427387904 := ⟨rfl, rfl, rfl, rfl, rfl⟩
  have hA : s.durationRewardU64 (receipt 4611686018427387904 0) 86400 =
      some 18446744073709551615 := by
    simp only [hday, hlit, u64Checked, Option.bind_eq_bind]
    rfl
  have hnone (b t : UInt64) (h : s.durationRewardU64 (receipt b t) 86400 = none) :
      rewards [receipt b t] = none := by
    rw [hrun _ _ (by simp [hv]), nodeRewardsU64, List.filter_eq_self.2 (by simp [hkeep])]
    simp only [List.foldlM_cons, (hkeep b t).2, h, Option.bind_eq_bind, Option.none_bind]
    rfl
  refine ⟨hv, ⟨by rw [h10]; norm_num, hnone _ _ ?product⟩,
    ⟨by rw [h10]; norm_num, ?sum, hnone _ _ ?sum'⟩, hA, ?total⟩
  case product | sum' =>
    simp only [hday, hlit, u64Checked, Option.bind_eq_bind]
    rfl
  case sum =>
    rw [s.calculateU64_day, h10, show s.baseRatePerByteDay.toNat = 100 from rfl]
    simp only [u64Checked, Option.bind_eq_bind]
    rfl
  case total =>
    -- the sum is rewritten by hand: arithmetic simprocs on it make the kernel unfold the literal
    rw [hrun _ _ (by simp [hv]), nodeRewardsU64, List.filter_eq_self.2 (by simp [hkeep]),
      foldlM_u64Checked _ _ (fun _ => 18446744073709551615) (by simp [hkeep, hA]) 0 (by norm_num),
      List.map_cons, List.map_cons, List.map_nil, List.sum_cons, List.sum_cons, List.sum_nil,
      u64Checked_of_le (by norm_num)]
    rfl

/-! ### Narrowing the query window in `u64` -/

theorem asU64_mul_mono {x x' : ℚ} (y : ℚ) (hx : 0 ≤ x) (h : x ≤ x') :
    asU64 (x*y) ≤ asU64 (x'*y) :=
  min_le_min_right _ (floor_mul_mono y hx h)

theorem RateSchedule.calculateU64_mono (s : RateSchedule) {d d' : ℕ} (h : d ≤ d') (b t : ℕ) {y : ℕ}
    (hy : s.calculateU64 d' b t = some y) : ∃ x, s.calculateU64 d b t = some x ∧ x ≤ y := by
  simp only [RateSchedule.calculateU64, Option.bind_eq_bind] at hy ⊢
  cases hr : u64Checked (s.retrievalRate.toNat*t) with
  | none => simp [hr] at hy
  | some rr =>
    simp only [hr, Option.some_bind] at hy ⊢
    have hs := min_le_min_right (2^64-1) (Nat.floor_mono (storageDays_mono
      s.baseRatePerByteDay.toNat b h))
    have hlt := lt_of_u64Checked hy
    rw [← u64Checked_eq_some hy] at hlt ⊢
    exact ⟨_, u64Checked_of_lt (by unfold asU64 at hlt ⊢; omega), by unfold asU64; omega⟩

/-- A shorter overlap makes no receipt's `u64` reward fail that the longer one computes, and
pays it no more. -/
theorem RateSchedule.durationRewardU64_mono (s : RateSchedule) (r : StorageReceipt) {d d' y : ℕ}
    (h : d ≤ d') (hy : s.durationRewardU64 r d' = some y) :
    ∃ x, s.durationRewardU64 r d = some x ∧ x ≤ y := by
  rcases Nat.eq_zero_or_pos d with rfl | hd
  · exact ⟨0, rfl, Nat.zero_le _⟩
  simp only [RateSchedule.durationRewardU64, hd.ne', (hd.trans_le h).ne', if_false,
    Option.bind_eq_bind] at hy ⊢
  cases hB' : s.calculateU64 d' r.storageMetrics.bytesStored.toNat
    r.storageMetrics.retrievals.toNat with
  | none => simp [hB'] at hy
  | some B' =>
    obtain ⟨B, hB, hle⟩ := s.calculateU64_mono h _ _ hB'
    simp only [hB', hB, Option.some_bind, Option.pure_def, Option.some.injEq] at hy ⊢
    exact ⟨_, rfl, hy ▸ asU64_mul_mono _ (Nat.cast_nonneg _)
      (Nat.cast_le.2 (asU64_mul_mono _ (Nat.cast_nonneg _) (Nat.cast_le.2 hle)))⟩

/-- If `calculate_node_rewards` computed in `u64` gets through a window with no overflow, it
gets through every window inside it, and returns no more there. -/
theorem nodeRewardsU64_mono (s : RateSchedule) (rs : List StorageReceipt) {a b a' b' Y : ℕ}
    (ha : a' ≤ a) (hb : b ≤ b') (hY : nodeRewardsU64 s rs a' b' = some Y) :
    ∃ X, nodeRewardsU64 s rs a b = some X ∧ X ≤ Y := by
  let g := fun r => s.durationRewardU64 r (overlapDuration a b r)
  let g' := fun r => s.durationRewardU64 r (overlapDuration a' b' r)
  have hsub : (rs.filter (overlapsPeriod a b)).Sublist (rs.filter (overlapsPeriod a' b')) :=
    List.monotone_filter_right rs fun r h => by
      simp only [overlapsPeriod, Bool.and_eq_true, decide_eq_true_eq] at h ⊢
      omega
  obtain ⟨hg', hY'⟩ := foldlM_u64Checked_some _ g' 0 Y hY
  have hlt : Y < 2^64 :=
    lt_of_u64Checked ((foldlM_u64Checked _ g' _ hg' 0 (by norm_num)).symm.trans hY)
  have hle (r) (hr : r ∈ rs.filter (overlapsPeriod a b)) : ∃ x, g r = some x ∧ x ≤ (g' r).getD 0 :=
    s.durationRewardU64_mono r (overlapDuration_mono r ha hb) (hg' r (hsub.subset hr))
  have hg (r) (hr : r ∈ rs.filter (overlapsPeriod a b)) : g r = some ((g r).getD 0) := by
    obtain ⟨x, hx, -⟩ := hle r hr
    rw [hx]
    rfl
  have hsum : ((rs.filter (overlapsPeriod a b)).map fun r => (g r).getD 0).sum ≤ Y := calc
    _ ≤ ((rs.filter (overlapsPeriod a b)).map fun r => (g' r).getD 0).sum :=
      List.sum_le_sum fun r hr => by obtain ⟨x, hx, hx'⟩ := hle r hr; rw [hx]; exact hx'
    _ ≤ ((rs.filter (overlapsPeriod a' b')).map fun r => (g' r).getD 0).sum :=
      (hsub.map _).sum_le_sum fun _ _ => Nat.zero_le _
    _ = Y := by rw [hY', Nat.zero_add]
  refine ⟨_, ?_, hsum⟩
  rw [nodeRewardsU64, foldlM_u64Checked _ g _ hg 0 (by norm_num), Nat.zero_add]
  exact u64Checked_of_lt (hsum.trans_lt hlt)

/-- A day's receipt queried over its first hour, when the whole day gets through. -/
theorem nodeRewardsU64_mono_hour :
    let r : StorageReceipt := ⟨"N", "C", (0, 86400), ⟨1, 1, 0, 100, [], List.nodup_nil⟩,
      ⟨List.replicate 32 0, rfl⟩, [1], [1]⟩
    ((0 : ℕ) ≤ 0 ∧ (3600 : ℕ) ≤ 86400 ∧ nodeRewardsU64 defaultRateSchedule [r] 0 86400 = some 110) ∧
      ∃ X, nodeRewardsU64 defaultRateSchedule [r] 0 3600 = some X ∧ X ≤ 110 := by
  intro r
  have hu : defaultRateSchedule.uptimeFactor r.storageMetrics = 1 := by
    have h100 : (100 : UInt8).toNat = 100 := rfl
    norm_num [defaultRateSchedule, RateSchedule.uptimeFactor, r, h100]
  obtain ⟨hk, hd⟩ := overlap_first_day r rfl
  have hday : nodeRewardsU64 defaultRateSchedule [r] 0 86400 = some 110 := by
    rw [nodeRewardsU64, List.filter_cons_of_pos hk, List.filter_nil, List.foldlM_cons, hd,
      defaultRateSchedule.durationRewardU64_of_unit r (by norm_num) hu rfl,
      defaultRateSchedule.calculateU64_day]
    simp only [u64Checked, Option.bind_eq_bind]
    rfl
  exact ⟨⟨le_rfl, by norm_num, hday⟩, nodeRewardsU64_mono _ _ le_rfl (by norm_num) hday⟩

end DsmStorage.Rewards
