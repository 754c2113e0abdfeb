import DsmStorage.RewardsManager
import Mathlib.Algebra.BigOperators.Group.List
import Mathlib.Algebra.BigOperators.Ring.List
import Mathlib.Data.UInt

/-! The vault lifecycle: `create_reward_vault` and `process_distribution`, each threading the
DLV manager's state. `u64` arithmetic wraps, as in a release build. -/
namespace DsmStorage.Rewards

/-- `{}` of `n as f64 / 1_000_000.0`: the six-decimal fraction without trailing zeros (the
shortest decimal Rust prints, for sums below `10^15`). -/
def displayMillionths (n : ℕ) : String :=
  let frac := ((toString (n%1000000+1000000)).drop 1).dropRightWhile (· = '0')
  toString (n/1000000)++(if frac.isEmpty then "" else "."++frac)

namespace RewardVaultManager
variable {σ : Type} (dlv : DLVManager σ)

/-- The end of `create_reward_vault`: the metadata stored under the id, then the request queued,
each behind its lock. -/
def registerVault (m : RewardVaultManager) (vaultId : String) (metadata : VaultMetadata)
    (request : DistributionRequest) : Except StorageNodeError String × RewardVaultManager :=
  match m.vaultRegistry.acquire with
  | .error e => (.error e, m)
  | .ok registry =>
    let m := { m with vaultRegistry := { m.vaultRegistry with
      data := registry.insert vaultId metadata } }
    match m.distributionQueue.acquire with
    | .error e => (.error e, m)
    | .ok queue => (.ok vaultId, { m with distributionQueue := { m.distributionQueue with
        data := queue++[request] } })

/-- `create_reward_vault`, with `now` the clock reading stored as `created_at`. -/
def createRewardVault (m : RewardVaultManager) (st : σ) (creatorKeypair : Bytes × Bytes)
    (tokenAmount : UInt64) (tokenId : String) (distributionTime : UInt64)
    (recipients : AList (fun _ : String => Ratio)) (referenceState : State) (now : UInt64) :
    Except StorageNodeError String × RewardVaultManager × σ :=
  let ratioSum : UInt64 := (recipients.entries.map fun e => e.2.rawValue).sum
  if ratioSum < 990000 ∨ ratioSum > 1010000 then
    (.error (.Staking ("Invalid recipient ratios: sum must be 1.0, got "++
      displayMillionths ratioSum.toNat)), m, st)
  else
  let fulfillment := FulfillmentMechanism.TimeRelease distributionTime [referenceState.hash]
  let vaultContent : VaultContent := ⟨tokenAmount, tokenId, recipients, ∅⟩
  match dlv.createVault st creatorKeypair fulfillment vaultContent.serialize
    "application/dsm-reward-vault" none referenceState with
  | (.error e, st) => (.error (.Staking ("Failed to create vault: "++e)), m, st)
  | (.ok vaultId, st) =>
  match dlv.createVaultPost st vaultId ("Reward distribution for "++tokenId)
    (some (distributionTime+86400*30)) with
  | (.error e, st) => (.error (.Staking ("Failed to create vault post: "++e)), m, st)
  | (.ok vaultPostBytes, st) =>
  match dlv.deserializeVaultPost vaultPostBytes with
  | .error e => (.error (.Serialization e), m, st)
  | .ok vaultPost =>
    let metadata : VaultMetadata := ⟨vaultId, "Reward distribution for "++tokenId,
      hexEncode creatorKeypair.1, tokenAmount, tokenId, now, distributionTime, recipients,
      vaultPost.status⟩
    let r := m.registerVault vaultId metadata ⟨vaultId, referenceState, distributionTime⟩
    (r.1, r.2, st)

/-- The outcomes of the two lock steps: nothing stored, the metadata stored but no request
queued (the queue's lock poisoned), or both. Only the registry and the queue change. -/
theorem registerVault_cases (m : RewardVaultManager) (vaultId : String) (md : VaultMetadata)
    (req : DistributionRequest) :
    let r := m.registerVault vaultId md req
    r = (.error .Internal, m) ∨
      m.vaultRegistry.poisoned = false ∧ m.distributionQueue.poisoned = true ∧
      r.2 = { m with vaultRegistry := { m.vaultRegistry with
        data := m.vaultRegistry.data.insert vaultId md } } ∧ r.1 = .error .Internal ∨
      m.vaultRegistry.poisoned = false ∧ m.distributionQueue.poisoned = false ∧
      r.2 = { m with
        vaultRegistry := { m.vaultRegistry with data := m.vaultRegistry.data.insert vaultId md }
        distributionQueue := { m.distributionQueue with
          data := m.distributionQueue.data++[req] } } ∧ r.1 = .ok vaultId := by
  unfold registerVault Lock.acquire
  dsimp only
  cases hp : m.vaultRegistry.poisoned <;> cases hq : m.distributionQueue.poisoned <;>
    simp [hp, hq]

theorem registerVault_registry (m : RewardVaultManager) (vaultId : String) (md : VaultMetadata)
    (req : DistributionRequest) :
    (m.registerVault vaultId md req).2.vaultRegistry.data = m.vaultRegistry.data ∨
      (m.registerVault vaultId md req).2.vaultRegistry.data =
        m.vaultRegistry.data.insert vaultId md := by
  rcases registerVault_cases m vaultId md req with h | ⟨-, -, h, -⟩ | ⟨-, -, h, -⟩ <;> rw [h]
  exacts [.inl rfl, .inr rfl, .inr rfl]

/-- What `create_reward_vault` can do: the DLV manager sees at most a `create_vault` and then a
`create_vault_post`, and the manager is either left alone or ends in `registerVault` with the id
`create_vault` returned and metadata carrying the caller's values. -/
theorem createRewardVault_cases (m : RewardVaultManager) (st : σ) (kp : Bytes × Bytes)
    (amt : UInt64) (tid : String) (dt : UInt64) (rec : AList (fun _ : String => Ratio))
    (rs : State) (now : UInt64) :
    let r := m.createRewardVault dlv st kp amt tid dt rec rs now
    let cv := dlv.createVault st kp (.TimeRelease dt [rs.hash])
      (⟨amt, tid, rec, ∅⟩ : VaultContent).serialize "application/dsm-reward-vault" none rs
    (r.2.2 = st ∨ r.2.2 = cv.2 ∨
        ∃ vaultId description expiry, r.2.2 = (dlv.createVaultPost cv.2 vaultId description expiry).2) ∧
      ((∃ e, r.1 = .error e) ∧ r.2.1 = m ∨ ∃ vaultId status, cv.1 = .ok vaultId ∧
        (r.1, r.2.1) = m.registerVault vaultId ⟨vaultId, "Reward distribution for "++tid,
          hexEncode kp.1, amt, tid, now, dt, rec, status⟩ ⟨vaultId, rs, dt⟩) := by
  unfold createRewardVault
  dsimp only
  split_ifs
  · exact ⟨.inl rfl, .inl ⟨⟨_, rfl⟩, rfl⟩⟩
  · rcases hc : dlv.createVault st kp _ _ _ _ _ with ⟨_ | vaultId, st₁⟩ <;> dsimp only
    · exact ⟨.inr (.inl rfl), .inl ⟨⟨_, rfl⟩, rfl⟩⟩
    rcases hp : dlv.createVaultPost st₁ vaultId _ _ with ⟨_ | bytes, st₂⟩ <;> dsimp only
    · exact ⟨.inr (.inr ⟨vaultId, _, _, by rw [hp]⟩), .inl ⟨⟨_, rfl⟩, rfl⟩⟩
    rcases hd : dlv.deserializeVaultPost bytes with _ | post <;> dsimp only
    · exact ⟨.inr (.inr ⟨vaultId, _, _, by rw [hp]⟩), .inl ⟨⟨_, rfl⟩, rfl⟩⟩
    exact ⟨.inr (.inr ⟨vaultId, _, _, by rw [hp]⟩), .inr ⟨vaultId, post.status, rfl, rfl⟩⟩

/-- A creation that changes the manager passed the ratio check. -/
theorem createRewardVault_checked (m : RewardVaultManager) (st : σ) (kp : Bytes × Bytes)
    (amt : UInt64) (tid : String) (dt : UInt64) (rec : AList (fun _ : String => Ratio))
    (rs : State) (now : UInt64) :
    (m.createRewardVault dlv st kp amt tid dt rec rs now).2.1 = m ∨
      ¬ ((rec.entries.map fun e => e.2.rawValue).sum < 990000 ∨
        (rec.entries.map fun e => e.2.rawValue).sum > 1010000) := by
  unfold createRewardVault
  dsimp only
  split_ifs with h
  · exact .inl rfl
  · exact .inr h

/-- The amounts `process_distribution` pays: each recipient's ratio applied to the amount. -/
def distributionsOf (content : VaultContent) : AList (fun _ : String => UInt64) :=
  content.recipients.entries.foldl (fun d e => d.insert e.1 (e.2.applyTo content.tokenAmount)) ∅

theorem lookup_distributionsOf (c : VaultContent) (k : String) :
    (distributionsOf c).lookup k = (c.recipients.lookup k).map (·.applyTo c.tokenAmount) := by
  simpa using
    lookup_foldl_insert (·.applyTo c.tokenAmount) c.recipients.entries c.recipients.nodupKeys ∅ k

/-- Inserting entries of distinct keys that the map does not hold puts each in front. -/
theorem entries_foldl_insert {β γ : Type} (g : β → γ) (l : List (Σ _ : String, β))
    (hl : l.NodupKeys) (acc : AList (fun _ : String => γ)) (hacc : ∀ e ∈ l, e.1 ∉ acc) :
    (l.foldl (fun a e => a.insert e.1 (g e.2)) acc).entries =
      (l.map fun e => (⟨e.1, g e.2⟩ : Σ _ : String, γ)).reverse++acc.entries := by
  induction l generalizing acc with
  | nil => rfl
  | cons e l ih =>
    obtain ⟨he, hl⟩ := List.nodupKeys_cons.1 hl
    have hacc' : ∀ e' ∈ l, e'.1 ∉ acc.insert e.1 (g e.2) := fun e' he' hmem =>
      ((AList.mem_insert _).1 hmem).elim (fun h => he (h ▸ List.mem_keys_of_mem he'))
        (hacc e' (.tail _ he'))
    rw [List.foldl_cons, ih hl _ hacc', AList.insert_entries_of_neg (hacc e (.head _))]
    simp

/-- The payout map has one entry per recipient, in reverse iteration order. -/
theorem distributionsOf_entries (c : VaultContent) :
    (distributionsOf c).entries = (c.recipients.entries.map fun e =>
      (⟨e.1, e.2.applyTo c.tokenAmount⟩ : Σ _ : String, UInt64)).reverse := by
  simpa using entries_foldl_insert (·.applyTo c.tokenAmount) c.recipients.entries
    c.recipients.nodupKeys ∅ fun _ _ => AList.not_mem_empty _

/-- Truncated quotients add up to at most the quotient of the sum. -/
theorem sum_map_div_le {α : Type} (l : List α) (f : α → ℕ) (d : ℕ) :
    (l.map fun x => f x/d).sum ≤ (l.map f).sum/d := by
  induction l with
  | nil => simp
  | cons x l ih =>
    simp only [List.map_cons, List.sum_cons]
    exact (Nat.add_le_add_left ih _).trans (Nat.add_div_le_add_div _ _ d)

/-- ... and each truncation after the first loses less than one. -/
theorem div_sum_map_le {α : Type} (l : List α) (f : α → ℕ) {d : ℕ} (hd : 0 < d) :
    (l.map f).sum/d ≤ (l.map fun x => f x/d).sum+(l.length-1) := by
  induction l with
  | nil => simp
  | cons x l ih =>
    simp only [List.map_cons, List.sum_cons, List.length_cons, Nat.add_sub_cancel]
    have hx := Nat.add_div (a := f x) (b := (l.map f).sum) hd
    rcases l with _ | ⟨y, l⟩
    · simp
    · simp only [List.length_cons, Nat.add_sub_cancel] at ih ⊢
      split_ifs at hx <;> omega

/-- Shares of `v` by ratios of at most `1.0` add up to the share by the ratios' sum, less at
most one unit per share after the first. -/
theorem applyTo_sum_bounds (v : UInt64) (l : List (Σ _ : String, Ratio))
    (hraw : ∀ e ∈ l, e.2.raw.toNat ≤ 1000000) :
    (l.map fun e => (e.2.applyTo v).toNat).sum ≤ v.toNat*(l.map (·.2.raw.toNat)).sum/1000000 ∧
      v.toNat*(l.map (·.2.raw.toNat)).sum/1000000 ≤
        (l.map fun e => (e.2.applyTo v).toNat).sum+(l.length-1) := by
  have hD : (l.map fun e => (e.2.applyTo v).toNat).sum =
      (l.map fun e => v.toNat*e.2.raw.toNat/1000000).sum :=
    congrArg List.sum (List.map_congr_left fun e he => (Ratio.applyTo_toNat e.2 v (hraw e he)).1)
  have hS : (l.map fun e => v.toNat*e.2.raw.toNat).sum = v.toNat*(l.map (·.2.raw.toNat)).sum :=
    List.sum_map_mul_left _ _ _
  rw [hD, ← hS]
  exact ⟨sum_map_div_le _ _ _, div_sum_map_le _ _ (by norm_num)⟩

/-- The amounts `process_distribution` computes, for ratios of at most `10^6` each: every
recipient and no one else is paid `⌊v·raw/10^6⌋`, and the total `D` lies between
`⌊v·S/10^6⌋ - (n-1)` and `⌊v·S/10^6⌋`, where `S` is the exact sum of the `n` raw values. -/
theorem distribution_payout_bounds (c : VaultContent)
    (hraw : ∀ e ∈ c.recipients.entries, e.2.raw.toNat ≤ 1000000) :
    let v := c.tokenAmount.toNat
    let S := (c.recipients.entries.map (·.2.raw.toNat)).sum
    let n := c.recipients.entries.length
    let D := ((distributionsOf c).entries.map (·.2.toNat)).sum
    (∀ k, k ∈ distributionsOf c ↔ k ∈ c.recipients) ∧
      (∀ k, ((distributionsOf c).lookup k).map (·.toNat) =
        (c.recipients.lookup k).map fun r => v*r.raw.toNat/1000000) ∧
      D ≤ v*S/1000000 ∧ v*S/1000000 ≤ D+(n-1) ∧
      (S ≤ 1000000 → D ≤ v) ∧ (S = 1000000 → v ≤ D+(n-1)) := by
  intro v S n D
  have happly (e) (he : e ∈ c.recipients.entries) :
      (e.2.applyTo c.tokenAmount).toNat = v*e.2.raw.toNat/1000000 :=
    (Ratio.applyTo_toNat e.2 c.tokenAmount (hraw e he)).1
  have hD : D = (c.recipients.entries.map fun e => v*e.2.raw.toNat/1000000).sum := by
    simp only [D, distributionsOf_entries, List.map_reverse, List.sum_reverse, List.map_map]
    exact congrArg List.sum (List.map_congr_left happly)
  have hS : (c.recipients.entries.map fun e => v*e.2.raw.toNat).sum = v*S :=
    List.sum_map_mul_left _ _ _
  have hle : D ≤ v*S/1000000 := hD ▸ hS ▸ sum_map_div_le _ _ _
  have hge : v*S/1000000 ≤ D+(n-1) := hD ▸ hS ▸ div_sum_map_le _ _ (by norm_num)
  refine ⟨fun k => ?_, fun k => ?_, hle, hge, fun hs => ?_, fun hs => ?_⟩
  · simp [← AList.lookup_isSome, lookup_distributionsOf]
  · rw [lookup_distributionsOf, Option.map_map]
    cases h : c.recipients.lookup k with
    | none => rfl
    | some r => exact congrArg some (happly ⟨k, r⟩ (AList.mem_lookup_iff.1 h))
  · exact hle.trans (Nat.div_le_of_le_mul ((Nat.mul_le_mul_left v hs).trans_eq (Nat.mul_comm _ _)))
  · rwa [hs, Nat.mul_div_cancel _ (by norm_num)] at hge

theorem distribution_payout_bounds_halves :
    let c : VaultContent := ⟨3, "", ((∅ : AList _).insert "a" ⟨500000⟩).insert "b" ⟨500000⟩, ∅⟩
    (∀ e ∈ c.recipients.entries, e.2.raw.toNat ≤ 1000000) ∧
      let v := c.tokenAmount.toNat
      let S := (c.recipients.entries.map (·.2.raw.toNat)).sum
      let n := c.recipients.entries.length
      let D := ((distributionsOf c).entries.map (·.2.toNat)).sum
      (∀ k, k ∈ distributionsOf c ↔ k ∈ c.recipients) ∧
        (∀ k, ((distributionsOf c).lookup k).map (·.toNat) =
          (c.recipients.lookup k).map fun r => v*r.raw.toNat/1000000) ∧
        D ≤ v*S/1000000 ∧ v*S/1000000 ≤ D+(n-1) ∧
        (S ≤ 1000000 → D ≤ v) ∧ (S = 1000000 → v ≤ D+(n-1)) :=
  ⟨by decide, distribution_payout_bounds _ (by decide)⟩

/-- Two halves of 3 tokens: each is paid 1, and one token is lost to rounding. -/
example : ((distributionsOf ⟨3, "", ((∅ : AList _).insert "a" ⟨500000⟩).insert "b" ⟨500000⟩,
    ∅⟩).entries.map (·.2.toNat)).sum = 2 := by decide

/-- `process_distribution`, with `now` the clock reading it takes. The text of a bincode error
is not modelled. -/
def processDistribution (m : RewardVaultManager) (st : σ) (now : UInt64)
    (request : DistributionRequest) :
    Except StorageNodeError DistributionResult × RewardVaultManager × σ :=
  match m.getVault request.vaultId with
  | .error e => (.error e, m, st)
  | .ok metadata =>
  if now < metadata.distributionTime then
    (.ok ⟨request.vaultId, false, now, some ("Not yet time to distribute (scheduled at "++
      toString metadata.distributionTime.toNat++")"), none⟩, m, st)
  else
  let timeProof := FulfillmentProof.TimeProof request.referenceState.hash []
  let claimantKey : Bytes := [1, 2, 3, 4]
  match dlv.tryUnlockVault st request.vaultId timeProof claimantKey request.referenceState with
  | (.ok true, st) =>
    match dlv.claimVaultContent st request.vaultId claimantKey request.referenceState with
    | (.ok content, st) =>
      match VaultContent.deserialize content with
      | none => (.error (.Serialization ""), m, st)
      | some vaultContent =>
        match m.updateVaultStatus request.vaultId "claimed" with
        | (.error e, m) => (.error e, m, st)
        | (.ok (), m) =>
          (.ok ⟨request.vaultId, true, now, none, some (distributionsOf vaultContent)⟩, m, st)
    | (.error e, st) =>
      (.ok ⟨request.vaultId, false, now, some ("Failed to claim vault: "++e), none⟩, m, st)
  | (.ok false, st) =>
    (.ok ⟨request.vaultId, false, now, some "Failed to unlock vault: conditions not met", none⟩,
      m, st)
  | (.error e, st) =>
    (.ok ⟨request.vaultId, false, now, some ("Error unlocking vault: "++e), none⟩, m, st)

/-- The successful path of `process_distribution`: the vault is registered and due, the unlock
returns `true`, and the claimed content decodes. -/
theorem processDistribution_ok (m : RewardVaultManager) (st : σ) (now : UInt64)
    (req : DistributionRequest) {md : VaultMetadata} (hv : m.getVault req.vaultId = .ok md)
    (hdue : md.distributionTime ≤ now) {st₁ st₂ : σ} {content : Bytes} {c : VaultContent}
    (hu : dlv.tryUnlockVault st req.vaultId (.TimeProof req.referenceState.hash []) [1, 2, 3, 4]
      req.referenceState = (.ok true, st₁))
    (hc : dlv.claimVaultContent st₁ req.vaultId [1, 2, 3, 4] req.referenceState =
      (.ok content, st₂))
    (hd : VaultContent.deserialize content = some c) :
    m.processDistribution dlv st now req =
      (.ok ⟨req.vaultId, true, now, none, some (distributionsOf c)⟩,
        (m.updateVaultStatus req.vaultId "claimed").2, st₂) := by
  have hnot : ¬ now < md.distributionTime := UInt64.not_lt.2 hdue
  simp [processDistribution, hv, hnot, hu, hc, hd, updateVaultStatus_of_getVault hv]

/-- What one `process_distribution` can do: the manager changes only by a successful call's
`update_vault_status(id, "claimed")`, the DLV manager sees at most an unlock and then a claim of
the requested vault, and a success comes from an unlock returning `true` and a claim returning
content, after which the status was set. -/
theorem processDistribution_cases (m : RewardVaultManager) (st : σ) (now : UInt64)
    (req : DistributionRequest) :
    let r := m.processDistribution dlv st now req
    let unlock := dlv.tryUnlockVault st req.vaultId (.TimeProof req.referenceState.hash [])
      [1, 2, 3, 4] req.referenceState
    let claim := dlv.claimVaultContent unlock.2 req.vaultId [1, 2, 3, 4] req.referenceState
    (r.2.1 = m ∨ (∃ res, r.1 = .ok res ∧ res.success = true) ∧
        r.2.1 = (m.updateVaultStatus req.vaultId "claimed").2) ∧
      (r.2.2 = st ∨ r.2.2 = unlock.2 ∨ unlock.1 = .ok true ∧ r.2.2 = claim.2) ∧
      ∀ res, r.1 = .ok res → res.vaultId = req.vaultId ∧ (res.success = true →
        unlock.1 = .ok true ∧ (∃ content, claim.1 = .ok content) ∧ r.2.2 = claim.2 ∧
        (m.updateVaultStatus req.vaultId "claimed").1 = .ok () ∧
        r.2.1 = (m.updateVaultStatus req.vaultId "claimed").2) := by
  unfold processDistribution
  dsimp only
  rcases m.getVault req.vaultId with e | md <;> dsimp only
  · exact ⟨.inl rfl, .inl rfl, fun res h => by cases h⟩
  split_ifs
  · exact ⟨.inl rfl, .inl rfl, fun res h => by cases h; exact ⟨rfl, fun h => by cases h⟩⟩
  rcases dlv.tryUnlockVault st _ _ _ _ with ⟨e | _ | _, st₁⟩ <;> dsimp only
  · exact ⟨.inl rfl, .inr (.inl rfl), fun res h => by cases h; exact ⟨rfl, fun h => by cases h⟩⟩
  · exact ⟨.inl rfl, .inr (.inl rfl), fun res h => by cases h; exact ⟨rfl, fun h => by cases h⟩⟩
  rcases dlv.claimVaultContent st₁ _ _ _ with ⟨e | content, st₂⟩ <;> dsimp only
  · exact ⟨.inl rfl, .inr (.inr ⟨rfl, rfl⟩),
      fun res h => by cases h; exact ⟨rfl, fun h => by cases h⟩⟩
  rcases VaultContent.deserialize content with _ | vc <;> dsimp only
  · exact ⟨.inl rfl, .inr (.inr ⟨rfl, rfl⟩), fun res h => by cases h⟩
  rcases hs : m.updateVaultStatus req.vaultId "claimed" with ⟨_ | _, m'⟩ <;> dsimp only
  · have hm := updateVaultStatus_error (congrArg Prod.fst hs)
    rw [hs] at hm
    exact ⟨.inl hm, .inr (.inr ⟨rfl, rfl⟩), fun res h => by cases h⟩
  · exact ⟨.inr ⟨⟨_, rfl, rfl⟩, rfl⟩, .inr (.inr ⟨rfl, rfl⟩),
      fun res h => by cases h; exact ⟨rfl, fun _ => ⟨rfl, ⟨content, rfl⟩, rfl, rfl, rfl⟩⟩⟩

/-- A successful `process_distribution` found the vault due, got `true` from the unlock and
content from the claim, and pays what that content decodes to. -/
theorem processDistribution_success (m : RewardVaultManager) (st : σ) (now : UInt64)
    (req : DistributionRequest) {res : DistributionResult}
    (h : (m.processDistribution dlv st now req).1 = .ok res) (hs : res.success = true) :
    let unlock := dlv.tryUnlockVault st req.vaultId (.TimeProof req.referenceState.hash [])
      [1, 2, 3, 4] req.referenceState
    ∃ md content c, m.getVault req.vaultId = .ok md ∧ unlock.1 = .ok true ∧
      (dlv.claimVaultContent unlock.2 req.vaultId [1, 2, 3, 4] req.referenceState).1 =
        .ok content ∧
      VaultContent.deserialize content = some c ∧ res.distributionDetails = some (distributionsOf c) ∧
      md.distributionTime ≤ now ∧ res.timestamp = now := by
  revert h
  unfold processDistribution
  dsimp only
  rcases m.getVault req.vaultId with e | md <;> dsimp only
  · intro h; cases h
  split_ifs with hdue
  · intro h; cases h; cases hs
  rcases dlv.tryUnlockVault st _ _ _ _ with ⟨e | _ | _, st₁⟩ <;> dsimp only
  · intro h; cases h; cases hs
  · intro h; cases h; cases hs
  rcases dlv.claimVaultContent st₁ _ _ _ with ⟨e | content, st₂⟩ <;> dsimp only
  · intro h; cases h; cases hs
  rcases hd : VaultContent.deserialize content with _ | c <;> dsimp only
  · intro h; cases h
  rcases m.updateVaultStatus req.vaultId "claimed" with ⟨_ | _, m'⟩ <;> dsimp only <;> intro h <;>
    cases h
  exact ⟨md, content, c, rfl, rfl, rfl, hd, rfl, UInt64.not_lt.1 hdue, rfl⟩

/-- `process_distribution` follows the per-vault state machine: a call that does not return a
successful result leaves the manager as it was, so every status stays; a successful call changes
the registry only in the requested vault's status, which becomes `claimed`. -/
theorem processDistribution_state_machine (m : RewardVaultManager) (st : σ) (now : UInt64)
    (req : DistributionRequest) :
    let r := m.processDistribution dlv st now req
    (r.1.toOption.map (·.success) ≠ some true → r.2.1 = m) ∧
      (r.1.toOption.map (·.success) = some true → ∃ md,
        m.vaultRegistry.data.lookup req.vaultId = some md ∧
        r.2.1 = { m with vaultRegistry := { m.vaultRegistry with
          data := m.vaultRegistry.data.insert req.vaultId { md with status := "claimed" } } }) := by
  obtain ⟨h₁, -, hres⟩ := processDistribution_cases dlv m st now req
  refine ⟨fun hn => h₁.resolve_right fun ⟨⟨res, hr, hs⟩, _⟩ => hn (by simp [hr, hs, Except.toOption]),
    fun hs => ?_⟩
  obtain ⟨res, hr, hsucc⟩ : ∃ res, (m.processDistribution dlv st now req).1 = .ok res ∧
      res.success = true := by
    revert hs
    cases (m.processDistribution dlv st now req).1 <;> simp [Except.toOption]
  obtain ⟨-, -, -, hu, h⟩ := (hres res hr).2 hsucc
  obtain ⟨md, hl, he⟩ := updateVaultStatus_ok hu
  exact ⟨md, hl, h.trans he⟩

end RewardVaultManager

/-- The state of `sampleDlv`: each vault's sealed content in creation order, the expiry asked of
each post, and the vaults whose content has been handed out. -/
structure SampleDlvState where
  vaults : List (String × Bytes)
  expiries : List (Option UInt64)
  claimed : List String

/-- A DLV manager that seals content under the id `nextId n` for its `n`-th vault, grants every
unlock, and hands the content back on a claim; with `once` it hands a vault's content out only
once. -/
def sampleDlv (once : Bool) (nextId : ℕ → String) : DLVManager SampleDlvState where
  createVault st _ _ content _ _ _ := (.ok (nextId st.vaults.length),
    { st with vaults := st.vaults++[(nextId st.vaults.length, content)] })
  createVaultPost st _ _ expiresAt := (.ok [], { st with expiries := st.expiries++[expiresAt] })
  tryUnlockVault st _ _ _ _ := (.ok true, st)
  claimVaultContent st vaultId _ _ :=
    if once ∧ vaultId ∈ st.claimed then (.error "vault already claimed", st) else
    match st.vaults.lookup vaultId with
    | some content => (.ok content, { st with claimed := st.claimed++[vaultId] })
    | none => (.error "vault not found", st)
  deserializeVaultPost _ := .ok ⟨"active"⟩

/-- Content whose token id and only recipient are the empty string decodes, as every string of it
reads back. -/
theorem VaultContent.deserialize_emptyIds (amt : UInt64) (r : Ratio) :
    VaultContent.deserialize (⟨amt, "", (∅ : AList _).insert "" r, ∅⟩ : VaultContent).serialize =
      some ⟨amt, "", reinsert ((∅ : AList _).insert "" r), reinsert ∅⟩ :=
  VaultContent.deserialize_serialize _ (fun s hs rest => by
    simp at hs; subst hs; exact deserializeStr_empty rest) (by simp) (by simp)

namespace RewardVaultManager

/-- With `sampleDlv`, a creation whose ratios pass the check on a manager with sound locks seals
the content under the next id, asks for a post expiring 30 days after the distribution time, and
registers and queues the vault. -/
theorem sampleDlv_createRewardVault (once : Bool) (nextId : ℕ → String) (m : RewardVaultManager)
    (st : SampleDlvState) (kp : Bytes × Bytes) (amt : UInt64) (tid : String) (dt : UInt64)
    (rec : AList (fun _ : String => Ratio)) (rs : State) (now : UInt64)
    (hsum : ¬ ((rec.entries.map fun e => e.2.rawValue).sum < 990000 ∨
      (rec.entries.map fun e => e.2.rawValue).sum > 1010000))
    (hm : m.vaultRegistry.poisoned = false) (hq : m.distributionQueue.poisoned = false) :
    m.createRewardVault (sampleDlv once nextId) st kp amt tid dt rec rs now =
      (.ok (nextId st.vaults.length), { m with
        vaultRegistry := { m.vaultRegistry with data := (m.vaultRegistry.data.insert
          (nextId st.vaults.length) ⟨nextId st.vaults.length, "Reward distribution for "++tid,
            hexEncode kp.1, amt, tid, now, dt, rec, "active"⟩) }
        distributionQueue := { m.distributionQueue with
          data := m.distributionQueue.data++[⟨nextId st.vaults.length, rs, dt⟩] } },
        ⟨st.vaults++[(nextId st.vaults.length, (⟨amt, tid, rec, ∅⟩ : VaultContent).serialize)],
          st.expiries++[some (dt+86400*30)], st.claimed⟩) := by
  simp only [createRewardVault, hsum, ite_false, sampleDlv, registerVault, Lock.acquire, hm, hq]
  rfl

/-- With a sound queue lock, `create_reward_vault` either fails and leaves the manager as it was,
or returns the id the call's `create_vault` gave, stores under it metadata carrying the caller's
values, and appends its request to the queue; nothing else of the manager changes. -/
theorem createRewardVault_frame {σ : Type} (dlv : DLVManager σ) (m : RewardVaultManager)
    (hq : m.distributionQueue.poisoned = false) (st : σ) (kp : Bytes × Bytes) (amt : UInt64)
    (tid : String) (dt : UInt64) (rec : AList (fun _ : String => Ratio)) (rs : State)
    (now : UInt64) :
    let r := m.createRewardVault dlv st kp amt tid dt rec rs now
    (∀ e, r.1 = .error e → r.2.1 = m) ∧
      ∀ vaultId, r.1 = .ok vaultId →
        (dlv.createVault st kp (.TimeRelease dt [rs.hash]) (⟨amt, tid, rec, ∅⟩ : VaultContent).serialize
          "application/dsm-reward-vault" none rs).1 = .ok vaultId ∧
        ∃ md : VaultMetadata, md.vaultId = vaultId ∧ md.tokenAmount = amt ∧ md.tokenId = tid ∧ md.distributionTime = dt ∧
        md.recipients = rec ∧ md.creatorId = hexEncode kp.1 ∧ md.createdAt = now ∧
        r.2.1 = { m with
          vaultRegistry := { m.vaultRegistry with data := m.vaultRegistry.data.insert vaultId md }
          distributionQueue := { m.distributionQueue with
            data := m.distributionQueue.data++[⟨vaultId, rs, dt⟩] } } := by
  intro r
  rcases (createRewardVault_cases dlv m st kp amt tid dt rec rs now).2 with
    ⟨⟨e, he⟩, h⟩ | ⟨v, s, hcv, h⟩
  · exact ⟨fun _ _ => h, fun _ hv => by cases he.symm.trans hv⟩
  rcases registerVault_cases m v ⟨v, "Reward distribution for "++tid, hexEncode kp.1, amt, tid,
      now, dt, rec, s⟩ ⟨v, rs, dt⟩ with h' | ⟨-, hq', -, -⟩ | ⟨-, -, h₂, h₁⟩
  · obtain ⟨h₁, h₂⟩ := Prod.mk.inj_iff.1 (h.trans h')
    exact ⟨fun _ _ => h₂, fun _ hv => by cases h₁.symm.trans hv⟩
  · cases hq.symm.trans hq'
  · obtain ⟨h₁', h₂'⟩ := Prod.mk.inj_iff.1 h
    refine ⟨fun _ he => (by cases he.symm.trans (h₁'.trans h₁)), fun _ hv => ?_⟩
    cases hv.symm.trans (h₁'.trans h₁)
    exact ⟨hcv, _, rfl, rfl, rfl, rfl, rfl, rfl, rfl, h₂'.trans h₂⟩

theorem createRewardVault_frame_new :
    RewardVaultManager.new.distributionQueue.poisoned = false ∧
      let r := new.createRewardVault (sampleDlv false fun _ => "v") ⟨[], [], []⟩ ([], []) 1000 ""
        0 ((∅ : AList _).insert "" ⟨1000000⟩) ⟨[]⟩ 0
      (∀ e, r.1 = .error e → r.2.1 = new) ∧
        ∀ vaultId, r.1 = .ok vaultId →
          ((sampleDlv false fun _ => "v").createVault ⟨[], [], []⟩ ([], []) (.TimeRelease 0 [State.hash ⟨[]⟩])
            (⟨1000, "", (∅ : AList _).insert "" ⟨1000000⟩, ∅⟩ : VaultContent).serialize
            "application/dsm-reward-vault" none ⟨[]⟩).1 = .ok vaultId ∧
          ∃ md : VaultMetadata, md.vaultId = vaultId ∧ md.tokenAmount = 1000 ∧ md.tokenId = "" ∧ md.distributionTime = 0 ∧
          md.recipients = (∅ : AList _).insert "" ⟨1000000⟩ ∧ md.creatorId = hexEncode [] ∧
          md.createdAt = 0 ∧
          r.2.1 = { new with
            vaultRegistry := { new.vaultRegistry with
              data := new.vaultRegistry.data.insert vaultId md }
            distributionQueue := { new.distributionQueue with
              data := new.distributionQueue.data++[⟨vaultId, ⟨[]⟩, 0⟩] } } :=
  ⟨rfl, createRewardVault_frame (sampleDlv false fun _ => "v") new rfl ⟨[], [], []⟩ ([], []) 1000 "" 0 _ ⟨[]⟩ 0⟩

/-- `sampleDlv` grants the unlock and hands back what it sealed, so a registered, due vault whose
sealed content decodes is paid out. -/
theorem sampleDlv_processDistribution (once : Bool) (nextId : ℕ → String) (m : RewardVaultManager)
    (st : SampleDlvState) (now : UInt64) (req : DistributionRequest) {md : VaultMetadata}
    (hv : m.getVault req.vaultId = .ok md) (hdue : md.distributionTime ≤ now)
    (hfree : ¬ (once = true ∧ req.vaultId ∈ st.claimed)) {content : Bytes}
    (hl : st.vaults.lookup req.vaultId = some content) {c : VaultContent}
    (hd : VaultContent.deserialize content = some c) :
    m.processDistribution (sampleDlv once nextId) st now req =
      (.ok ⟨req.vaultId, true, now, none, some (distributionsOf c)⟩,
        (m.updateVaultStatus req.vaultId "claimed").2,
        { st with claimed := st.claimed++[req.vaultId] }) :=
  processDistribution_ok _ m st now req hv hdue rfl (by simp [sampleDlv, hfree, hl]) hd

/-- Raw ratios that add up past `2^64` wrap into the accepted range, so a map whose exact sum is
`2^64 + 10^6` is accepted; and a distribution time at the top of `u64` gives a post whose expiry
wraps to before it. -/
theorem wrapped_sums_accepted :
    let recipients : AList (fun _ : String => Ratio) :=
      ((∅ : AList _).insert "a" ⟨18446744073709551606⟩).insert "b" ⟨1000010⟩
    let r := new.createRewardVault (sampleDlv false fun _ => "v") ⟨[], [], []⟩ ([], []) 1000 "T"
      18446744073709551615 recipients ⟨[]⟩ 0
    Ratio.deserialize (serializeU64 18446744073709551606) = some (⟨18446744073709551606⟩, []) ∧
      (recipients.entries.map fun e => e.2.raw.toNat).sum = 2^64+1000000 ∧
      r.1.toOption = some "v" ∧ r.2.2.expiries = [some 2591999] :=
  ⟨Ratio.deserialize_reaches _, by decide, by decide, by decide⟩

/-- A deserialized ratio is not range-checked: one recipient with raw `1_010_000` passes the sum
check, and its distribution pays 1010 out of a vault of 1000. A raw value of `2^64 - 1` makes
`apply_to` truncate in the cast to `u64`. -/
theorem deserialized_ratio_overpays :
    let recipients : AList (fun _ : String => Ratio) := (∅ : AList _).insert "" ⟨1010000⟩
    let dlv := sampleDlv false fun _ => "v"
    let r := new.createRewardVault dlv ⟨[], [], []⟩ ([], []) 1000 "" 0 recipients ⟨[]⟩ 0
    let d := r.2.1.processDistribution dlv r.2.2 0 ⟨"v", ⟨[]⟩, 0⟩
    Ratio.deserialize (serializeU64 1010000) = some (⟨1010000⟩, []) ∧ r.1.toOption = some "v" ∧
      (d.1.toOption.bind (·.distributionDetails)).map (·.lookup "") = some (some 1010) ∧
      Ratio.deserialize (serializeU64 18446744073709551615) = some (⟨18446744073709551615⟩, []) ∧
      (Ratio.applyTo ⟨18446744073709551615⟩ 18446744073709551615).toNat <
        18446744073709551615*18446744073709551615/1000000 := by
  refine ⟨Ratio.deserialize_reaches _, by decide, ?_, Ratio.deserialize_reaches _, by decide⟩
  rw [sampleDlv_createRewardVault false _ _ _ ([], []) 1000 "" 0 _ ⟨[]⟩ 0 (by decide) rfl rfl,
    sampleDlv_processDistribution false _ _ _ 0 ⟨"v", ⟨[]⟩, 0⟩ ?hv ?due ?free ?look
      (VaultContent.deserialize_emptyIds 1000 ⟨1010000⟩)]
  case hv | look => rfl
  case due | free => decide
  decide

end RewardVaultManager

end DsmStorage.Rewards
