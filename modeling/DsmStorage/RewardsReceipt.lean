import DsmStorage.RewardsRatio

/-! Storage receipts and `verify_receipt`. BLAKE3 is a parameter `blake3`; a `Hasher` fed
`update(a)`, `update(b)`, ... digests `a ++ b ++ ...`. -/
namespace DsmStorage.Rewards

/-- The variants of `crate::error::StorageNodeError` that the rewards module builds (the enum
itself is not among the sources). -/
inductive StorageNodeError where
  | Staking (msg : String)
  | Serialization (msg : String)
  | NotFound (msg : String)
  | Internal
  deriving DecidableEq, Repr

structure StorageMetrics where
  bytesStored : UInt64
  retrievals : UInt64
  operationsCount : UInt64
  uptimePercentage : UInt8
  /-- The `HashSet<String>` in the order it iterates. -/
  regions : List String
  regions_nodup : regions.Nodup
  deriving DecidableEq

structure StorageReceipt where
  nodeId : String
  clientId : String
  servicePeriod : UInt64 × UInt64
  storageMetrics : StorageMetrics
  receiptHash : Hash32
  clientSignature : Bytes
  nodeSignature : Bytes
  deriving DecidableEq

/-- `bincode::serialize(&storage_metrics)`: the fields in declaration order, the set of regions
as a sequence in its iteration order. -/
def StorageMetrics.serialize (m : StorageMetrics) : Bytes :=
  serializeU64 m.bytesStored++serializeU64 m.retrievals++serializeU64 m.operationsCount++
    serializeU8 m.uptimePercentage++serializeSeq serializeStr m.regions

/-- What `verify_receipt` feeds the hasher, in order. -/
def receiptPreimage (r : StorageReceipt) : Bytes :=
  asBytes r.nodeId++asBytes r.clientId++u64LeBytes r.servicePeriod.1++
    u64LeBytes r.servicePeriod.2++r.storageMetrics.serialize

/-- The metrics encoding lists the regions in iteration order, so two `HashSet`s holding the
same regions but iterating differently give different receipt preimages. -/
theorem regions_order_changes_preimage :
    let m : StorageMetrics := ⟨1, 0, 0, 100, ["eu", "us"], by decide⟩
    let r : StorageReceipt := ⟨"N", "C", (10, 20), m, ⟨List.replicate 32 0, rfl⟩, [1], [1]⟩
    m.regions.Perm ["us", "eu"] ∧
      receiptPreimage r ≠
        receiptPreimage { r with storageMetrics := ⟨1, 0, 0, 100, ["us", "eu"], by decide⟩ } := by
  decide

section
variable (blake3 : Bytes → Hash32)

def verifyReceipt (receipt : StorageReceipt) : Except StorageNodeError Bool :=
  if receipt.clientSignature.isEmpty || receipt.nodeSignature.isEmpty then
    .error (.Staking "Invalid receipt: missing signatures")
  else if blake3 (receiptPreimage receipt) ≠ receipt.receiptHash then
    .error (.Staking "Invalid receipt: hash mismatch")
  else .ok true

/-- `verify_receipt` accepts exactly the receipts with both signatures present whose hash is
the digest of their preimage; it never returns `Ok(false)`. -/
theorem verifyReceipt_eq_ok (r : StorageReceipt) (b : Bool) :
    verifyReceipt blake3 r = .ok b ↔
      b = true ∧ r.clientSignature ≠ [] ∧ r.nodeSignature ≠ [] ∧
        blake3 (receiptPreimage r) = r.receiptHash := by
  unfold verifyReceipt
  simp only [Bool.or_eq_true, List.isEmpty_iff]
  split_ifs with hs hh
  · simp only [reduceCtorEq, false_iff, not_and]
    rintro - h1 h2; rcases hs with hs | hs <;> contradiction
  · simp only [reduceCtorEq, false_iff, not_and]
    exact fun _ _ _ h => hh h
  · push_neg at hs hh
    simp only [Except.ok.injEq, hs.1, hs.2, hh, ne_eq, not_false_eq_true, and_true, eq_comm]

end

end DsmStorage.Rewards
