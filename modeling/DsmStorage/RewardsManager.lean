import DsmStorage.RewardsCalculation

/-! The state of `RewardVaultManager` and its registry operations. A lock is its data with a
poison flag; the DLV manager behind the `Arc` is an interface over a state `σ` of its own. -/
namespace DsmStorage.Rewards

/-- A `RwLock` or `Mutex`: the data, and whether a writer panicked while holding it. -/
structure Lock (α : Type) where
  data : α
  poisoned : Bool := false

/-- `read()`, `write()` or `lock()`, then `.map_err(|_| StorageNodeError::Internal)?`. -/
def Lock.acquire {α : Type} (l : Lock α) : Except StorageNodeError α :=
  if l.poisoned then .error .Internal else .ok l.data

/-- `dsm::types::state_types::State`; the module reads its `hash` only. -/
structure State where
  hash : Bytes
  deriving DecidableEq, Repr

inductive FulfillmentMechanism where
  | TimeRelease (unlockTime : UInt64) (referenceStates : List Bytes)
  deriving DecidableEq, Repr

inductive FulfillmentProof where
  | TimeProof (referenceState : Bytes) (stateProof : Bytes)
  deriving DecidableEq, Repr

/-- `dsm::vault::VaultPost`; the module reads its `status` only. -/
structure VaultPost where
  status : String

/-- The calls the module makes on `dsm::vault::DLVManager`, over the manager's state `σ`; an
error is its `Display` text. `deserializeVaultPost` is `bincode::deserialize::<VaultPost>`,
whose type lives with the DLV manager. -/
structure DLVManager (σ : Type) where
  createVault : σ → Bytes × Bytes → FulfillmentMechanism → Bytes → String → Option Bytes →
    State → Except String String × σ
  createVaultPost : σ → String → String → Option UInt64 → Except String Bytes × σ
  tryUnlockVault : σ → String → FulfillmentProof → Bytes → State → Except String Bool × σ
  claimVaultContent : σ → String → Bytes → State → Except String Bytes × σ
  deserializeVaultPost : Bytes → Except String VaultPost

structure VaultMetadata where
  vaultId : String
  purpose : String
  creatorId : String
  tokenAmount : UInt64
  tokenId : String
  createdAt : UInt64
  distributionTime : UInt64
  recipients : AList (fun _ : String => Ratio)
  status : String

structure DistributionRequest where
  vaultId : String
  referenceState : State
  timestamp : UInt64
  deriving DecidableEq

structure DistributionResult where
  vaultId : String
  success : Bool
  timestamp : UInt64
  error : Option String
  distributionDetails : Option (AList (fun _ : String => UInt64))

structure VaultContent where
  tokenAmount : UInt64
  tokenId : String
  recipients : AList (fun _ : String => Ratio)
  metadata : AList (fun _ : String => String)

/-- A `HashMap` as bincode writes it: its length, then each key and value in iteration order. -/
def serializeMap {β : Type} (f : β → Bytes) (m : AList (fun _ : String => β)) : Bytes :=
  serializeSeq (fun e => serializeStr e.1++f e.2) m.entries

/-- A `HashMap` as serde reads it: each pair inserted in turn, a repeated key overwriting. -/
def deserializeMap {β : Type} (f : Reader β) : Reader (AList (fun _ : String => β)) := fun bs => do
  let (pairs, rest) ← deserializeSeq (fun bs => do
    let (k, rest) ← deserializeStr bs
    let (v, rest) ← f rest
    pure ((k, v), rest)) bs
  pure (pairs.foldl (fun m p => m.insert p.1 p.2) ∅, rest)

/-- Inserting the entries of a list with distinct keys, one after another, leaves each key with
its own entry's value, over what the map held before. -/
theorem lookup_foldl_insert {β γ : Type} (g : β → γ) (l : List (Σ _ : String, β))
    (hl : l.NodupKeys) (acc : AList (fun _ : String => γ)) (k : String) :
    (l.foldl (fun a e => a.insert e.1 (g e.2)) acc).lookup k =
      ((l.dlookup k).map g).or (acc.lookup k) := by
  induction l generalizing acc with
  | nil => simp
  | cons e l ih =>
    obtain ⟨he, hl⟩ := List.nodupKeys_cons.1 hl
    rw [List.foldl_cons, ih hl]
    by_cases hk : k = e.1
    · rcases e with ⟨k, b⟩
      subst hk
      simp [List.dlookup_eq_none.2 he]
    · simp [List.dlookup_cons_ne l e hk, AList.lookup_insert_ne hk]

/-- A map as `deserializeMap` rebuilds it: its entries inserted one after another. -/
def reinsert {β : Type} (m : AList (fun _ : String => β)) : AList (fun _ : String => β) :=
  m.entries.foldl (fun a e => a.insert e.1 e.2) ∅

@[simp] theorem lookup_reinsert {β : Type} (m : AList (fun _ : String => β)) (k : String) :
    (reinsert m).lookup k = m.lookup k := by
  simpa [reinsert] using lookup_foldl_insert id m.entries m.nodupKeys ∅ k

/-- Decoding an encoded map inserts its entries in iteration order, provided each key and value
reads back as written. -/
theorem deserializeMap_append {β : Type} (f : Reader β) (enc : β → Bytes)
    (m : AList (fun _ : String => β))
    (hf : ∀ e ∈ m.entries, ∀ rest, deserializeStr (serializeStr e.1++rest) = some (e.1, rest) ∧
      f (enc e.2++rest) = some (e.2, rest))
    (hlen : m.entries.length < 2^64) (rest : Bytes) :
    deserializeMap f (serializeMap enc m++rest) = some (reinsert m, rest) := by
  have h := deserializeSeq_append (fun bs => do
      let (k, rest) ← deserializeStr bs
      let (v, rest) ← f rest
      pure ((k, v), rest)) (fun e : (Σ _ : String, β) => serializeStr e.1++enc e.2)
    (fun e => (e.1, e.2)) m.entries
    (fun e he rest => by simp [List.append_assoc, (hf e he _).1, (hf e he _).2]) hlen rest
  simp only [deserializeMap, serializeMap]
  rw [h]
  simp [reinsert, List.foldl_map]

def VaultContent.serialize (c : VaultContent) : Bytes :=
  serializeU64 c.tokenAmount++serializeStr c.tokenId++serializeMap Ratio.serialize c.recipients++
    serializeMap serializeStr c.metadata

/-- `bincode::deserialize::<VaultContent>`; trailing bytes are ignored. -/
def VaultContent.deserialize (bs : Bytes) : Option VaultContent := do
  let (tokenAmount, rest) ← deserializeU64 bs
  let (tokenId, rest) ← deserializeStr rest
  let (recipients, rest) ← deserializeMap Ratio.deserialize rest
  let (metadata, _) ← deserializeMap deserializeStr rest
  pure ⟨tokenAmount, tokenId, recipients, metadata⟩

/-- Decoding sealed content gives back its amount, token id and maps (each map rebuilt by
insertion), provided each of its strings reads back as written. -/
theorem VaultContent.deserialize_serialize (c : VaultContent)
    (hs : ∀ s ∈ c.tokenId :: c.recipients.keys++c.metadata.keys++c.metadata.entries.map (·.2),
      ∀ rest, deserializeStr (serializeStr s++rest) = some (s, rest))
    (hr : c.recipients.entries.length < 2^64) (hm : c.metadata.entries.length < 2^64) :
    VaultContent.deserialize c.serialize =
      some ⟨c.tokenAmount, c.tokenId, reinsert c.recipients, reinsert c.metadata⟩ := by
  have h1 := deserializeMap_append Ratio.deserialize Ratio.serialize c.recipients
    (fun e he rest => ⟨hs e.1 (by simp [AList.keys, List.mem_keys_of_mem he]) rest,
      Ratio.deserialize_append e.2 rest⟩) hr
  have h2 := deserializeMap_append deserializeStr serializeStr c.metadata
    (fun e he rest => ⟨hs e.1 (by simp [AList.keys, List.mem_keys_of_mem he]) rest,
      hs e.2 (by simp only [List.mem_append, List.mem_map]; exact .inr ⟨e, he, rfl⟩) rest⟩) hm []
  rw [List.append_nil] at h2
  simp [VaultContent.deserialize, VaultContent.serialize, List.append_assoc,
    deserializeU64_append, hs c.tokenId (by simp), h1, h2]

/-- `hex::encode`: two lowercase hexadecimal digits a byte. -/
def hexEncode (bs : Bytes) : String :=
  let digit (n : ℕ) : Char := if n < 10 then Char.ofNat (48+n) else Char.ofNat (87+n)
  String.mk (bs.flatMap fun b => [digit (b.toNat/16), digit (b.toNat%16)])

structure RewardVaultManager where
  vaultRegistry : Lock (AList (fun _ : String => VaultMetadata))
  receiptRegistry : Lock (AList (fun _ : String => List StorageReceipt))
  rateSchedule : Lock RateSchedule
  distributionQueue : Lock (List DistributionRequest)
  /-- The results sent on `distribution_tx` that wait in the channel (capacity 100). -/
  distributionChannel : List DistributionResult

namespace RewardVaultManager

def new : RewardVaultManager := ⟨⟨∅, false⟩, ⟨∅, false⟩, ⟨defaultRateSchedule, false⟩, ⟨[], false⟩, []⟩

/-- `impl Clone`: fresh locks over copies of the registries and the schedule (empty, or the
default schedule, when the lock is poisoned), an empty queue and a new channel. -/
def clone (m : RewardVaultManager) : RewardVaultManager :=
  ⟨⟨if m.vaultRegistry.poisoned then ∅ else m.vaultRegistry.data, false⟩,
    ⟨if m.receiptRegistry.poisoned then ∅ else m.receiptRegistry.data, false⟩,
    ⟨if m.rateSchedule.poisoned then defaultRateSchedule else m.rateSchedule.data, false⟩,
    ⟨[], false⟩, []⟩

def getVaults (m : RewardVaultManager) : Except StorageNodeError (List VaultMetadata) :=
  m.vaultRegistry.acquire.map fun registry => registry.entries.map (·.2)

def getVault (m : RewardVaultManager) (vaultId : String) : Except StorageNodeError VaultMetadata :=
  match m.vaultRegistry.acquire with
  | .error e => .error e
  | .ok registry => match registry.lookup vaultId with
    | some metadata => .ok metadata
    | none => .error (.NotFound ("Vault "++vaultId))

def updateVaultStatus (m : RewardVaultManager) (vaultId status : String) :
    Except StorageNodeError Unit × RewardVaultManager :=
  match m.vaultRegistry.acquire with
  | .error e => (.error e, m)
  | .ok registry => match registry.lookup vaultId with
    | some metadata => (.ok (), { m with vaultRegistry := { m.vaultRegistry with
        data := registry.insert vaultId { metadata with status := status } } })
    | none => (.error (.NotFound ("Vault "++vaultId)), m)

theorem updateVaultStatus_error {m : RewardVaultManager} {vaultId status : String}
    {e : StorageNodeError} (h : (m.updateVaultStatus vaultId status).1 = .error e) :
    (m.updateVaultStatus vaultId status).2 = m := by
  unfold updateVaultStatus at h ⊢
  generalize m.vaultRegistry.acquire = a at h ⊢
  rcases a with _ | registry
  · rfl
  · cases hl : registry.lookup vaultId <;> simp only [hl] at h ⊢
    cases h

/-- A successful `update_vault_status` rewrites the status of a registered vault and nothing
else. -/
theorem updateVaultStatus_ok {m : RewardVaultManager} {vaultId status : String}
    (h : (m.updateVaultStatus vaultId status).1 = .ok ()) :
    ∃ md, m.vaultRegistry.data.lookup vaultId = some md ∧
      (m.updateVaultStatus vaultId status).2 = { m with vaultRegistry := { m.vaultRegistry with
        data := m.vaultRegistry.data.insert vaultId { md with status := status } } } := by
  unfold updateVaultStatus Lock.acquire at h ⊢
  cases hp : m.vaultRegistry.poisoned <;> simp only [hp, ite_true, ite_false, Bool.false_eq_true] at h ⊢
  · cases hl : m.vaultRegistry.data.lookup vaultId <;> simp only [hl] at h ⊢
    · cases h
    · exact ⟨_, rfl, rfl⟩
  · cases h

/-- Where `get_vault` finds a vault, `update_vault_status` rewrites its status. -/
theorem updateVaultStatus_of_getVault {m : RewardVaultManager} {vaultId : String}
    {md : VaultMetadata} (h : m.getVault vaultId = .ok md) (status : String) :
    m.updateVaultStatus vaultId status = (.ok (), { m with vaultRegistry := { m.vaultRegistry with
      data := m.vaultRegistry.data.insert vaultId { md with status := status } } }) := by
  unfold getVault at h
  unfold updateVaultStatus
  unfold Lock.acquire at h ⊢
  cases hp : m.vaultRegistry.poisoned <;> simp only [hp, ite_true, ite_false, Bool.false_eq_true] at h ⊢
  · cases hl : m.vaultRegistry.data.lookup vaultId <;> simp only [hl] at h ⊢
    · cases h
    · cases h; rfl
  · cases h

theorem lookup_of_getVault {m : RewardVaultManager} {vaultId : String} {md : VaultMetadata}
    (h : m.getVault vaultId = .ok md) : m.vaultRegistry.data.lookup vaultId = some md := by
  unfold getVault Lock.acquire at h
  cases hp : m.vaultRegistry.poisoned <;> simp only [hp, ite_true, ite_false, Bool.false_eq_true] at h
  · cases hl : m.vaultRegistry.data.lookup vaultId <;> simp only [hl] at h
    · cases h
    · cases h; rfl
  · cases h

/-- The registry after `process_receipt` accepted `receipt`. -/
def appendReceipt (registry : AList (fun _ : String => List StorageReceipt))
    (receipt : StorageReceipt) : AList (fun _ : String => List StorageReceipt) :=
  registry.insert receipt.nodeId ((registry.lookup receipt.nodeId).getD []++[receipt])

/-- `process_receipt`: verification, then the receipt appended to its node's list. -/
def processReceipt (blake3 : Bytes → Hash32) (m : RewardVaultManager) (receipt : StorageReceipt) :
    Except StorageNodeError Unit × RewardVaultManager :=
  match verifyReceipt blake3 receipt with
  | .error e => (.error e, m)
  | .ok _ => match m.receiptRegistry.acquire with
    | .error e => (.error e, m)
    | .ok registry => (.ok (), { m with receiptRegistry := { m.receiptRegistry with
        data := appendReceipt registry receipt } })

theorem processReceipt_eq (blake3 : Bytes → Hash32) (m : RewardVaultManager) (r : StorageReceipt) :
    m.processReceipt blake3 r =
      match verifyReceipt blake3 r, m.receiptRegistry.poisoned with
      | .error e, _ => (.error e, m)
      | .ok _, true => (.error .Internal, m)
      | .ok _, false => (.ok (), { m with receiptRegistry := { m.receiptRegistry with
          data := appendReceipt m.receiptRegistry.data r } }) := by
  unfold processReceipt Lock.acquire
  cases verifyReceipt blake3 r <;> cases m.receiptRegistry.poisoned <;> rfl

/-- A failed `process_receipt` leaves the manager as it was. -/
theorem processReceipt_error (blake3 : Bytes → Hash32) (m : RewardVaultManager) (r : StorageReceipt)
    (e : StorageNodeError) (h : (m.processReceipt blake3 r).1 = .error e) :
    (m.processReceipt blake3 r).2 = m := by
  rw [processReceipt_eq] at h ⊢
  split at h <;> first | rfl | cases h

def updateRateSchedule (m : RewardVaultManager) (newSchedule : RateSchedule) :
    Except StorageNodeError Unit × RewardVaultManager :=
  match m.rateSchedule.acquire with
  | .error e => (.error e, m)
  | .ok _ => (.ok (), { m with rateSchedule := { m.rateSchedule with data := newSchedule } })

end RewardVaultManager

end DsmStorage.Rewards
