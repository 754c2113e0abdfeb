import DsmStorage.RewardsManager

/-! Runs of `process_receipt`: the receipt registry files the accepted receipts by node, in call
order, and holds nothing else. -/
namespace DsmStorage.Rewards
open RewardVaultManager

section
variable (blake3 : Bytes → Hash32)

/-- A sequence of `process_receipt` calls: each receipt with whether its call returned `Ok`, and
the manager after the last call. -/
def processReceipts : RewardVaultManager → List StorageReceipt →
    List (StorageReceipt × Bool) × RewardVaultManager
  | m, [] => ([], m)
  | m, r :: rs =>
    let step := m.processReceipt blake3 r
    let rest := processReceipts step.2 rs
    ((r, step.1.toBool) :: rest.1, rest.2)

/-- The receipts of the calls that returned `Ok`, in call order. -/
def acceptedOf (calls : List (StorageReceipt × Bool)) : List StorageReceipt :=
  (calls.filter (·.2)).map (·.1)

theorem lookup_appendReceipt (registry : AList (fun _ : String => List StorageReceipt))
    (r : StorageReceipt) (N : String) :
    ((appendReceipt registry r).lookup N).getD [] =
      (registry.lookup N).getD []++(if r.nodeId = N then [r] else []) := by
  unfold appendReceipt
  by_cases h : r.nodeId = N
  · subst h; simp
  · rw [AList.lookup_insert_ne (Ne.symm h)]; simp [h]

theorem mem_appendReceipt (registry : AList (fun _ : String => List StorageReceipt))
    (r : StorageReceipt) (N : String) :
    N ∈ appendReceipt registry r ↔ N ∈ registry ∨ r.nodeId = N := by
  simp [appendReceipt, AList.mem_insert, or_comm, eq_comm]

/-- From a registry that is not poisoned, each call appends its receipt if and only if the
receipt verifies, and the registry stays unpoisoned. -/
theorem processReceipts_registry (m : RewardVaultManager) (hm : m.receiptRegistry.poisoned = false)
    (rs : List StorageReceipt) :
    let run := processReceipts blake3 m rs
    run.1.map (·.1) = rs ∧ run.2.receiptRegistry.poisoned = false ∧
      (∀ N, (run.2.receiptRegistry.data.lookup N).getD [] =
        (m.receiptRegistry.data.lookup N).getD []++(acceptedOf run.1).filter (·.nodeId = N)) ∧
      (∀ N, N ∈ run.2.receiptRegistry.data ↔
        N ∈ m.receiptRegistry.data ∨ ∃ r ∈ acceptedOf run.1, r.nodeId = N) ∧
      ∀ r ∈ acceptedOf run.1, verifyReceipt blake3 r = .ok true := by
  induction rs generalizing m with
  | nil => simp [processReceipts, acceptedOf, hm]
  | cons r rs ih =>
    simp only [processReceipts, processReceipt_eq, hm]
    cases hv : verifyReceipt blake3 r with
    | error e =>
      obtain ⟨h1, h2, h3, h4, h5⟩ := ih m hm
      simp only [Except.toBool, List.map_cons, acceptedOf, List.filter_cons, ↓reduceIte] at *
      exact ⟨congrArg _ h1, h2, h3, h4, h5⟩
    | ok b =>
      obtain ⟨h1, h2, h3, h4, h5⟩ :=
        ih { m with receiptRegistry := ⟨appendReceipt m.receiptRegistry.data r, false⟩ } rfl
      obtain ⟨rfl, -⟩ := (verifyReceipt_eq_ok blake3 r b).1 hv
      simp only [Except.toBool, List.map_cons, acceptedOf, List.filter_cons, ↓reduceIte,
        List.mem_cons, forall_eq_or_imp, exists_eq_or_imp] at *
      refine ⟨congrArg _ h1, h2, fun N => ?_, fun N => ?_, hv, h5⟩
      · rw [h3, lookup_appendReceipt, List.append_assoc]
        by_cases hN : r.nodeId = N <;> simp [hN]
      · rw [h4, mem_appendReceipt]
        tauto

/-- From a sound receipt lock, calls whose receipts all verify all return `Ok` and append their
receipts in order; nothing else of the manager changes. -/
theorem processReceipts_verified (m : RewardVaultManager) (hm : m.receiptRegistry.poisoned = false)
    (rs : List StorageReceipt) (hv : ∀ r ∈ rs, verifyReceipt blake3 r = .ok true) :
    processReceipts blake3 m rs = (rs.map (·, true),
      { m with receiptRegistry := ⟨rs.foldl appendReceipt m.receiptRegistry.data, false⟩ }) := by
  induction rs generalizing m with
  | nil =>
    obtain ⟨vr, ⟨rr, p⟩, sch, q, ch⟩ := m
    cases hm; rfl
  | cons r rs ih =>
    simp only [processReceipts, processReceipt_eq, hv r (.head _), hm]
    rw [ih _ rfl fun r' h => hv r' (.tail _ h)]
    rfl

theorem processReceipts_rateSchedule (m : RewardVaultManager) (rs : List StorageReceipt) :
    (processReceipts blake3 m rs).2.rateSchedule = m.rateSchedule := by
  induction rs generalizing m with
  | nil => rfl
  | cons r rs ih =>
    simp only [processReceipts, ih]
    rw [processReceipt_eq]
    split <;> rfl

/-- Receipts of one node, appended in turn, end up after what the node had, in order. -/
theorem lookup_foldl_appendReceipt (N : String) (r : StorageReceipt) (rs : List StorageReceipt)
    (hN : ∀ x ∈ r :: rs, x.nodeId = N) (registry : AList (fun _ : String => List StorageReceipt)) :
    ((r :: rs).foldl appendReceipt registry).lookup N = some ((registry.lookup N).getD []++r :: rs) := by
  have hr : r.nodeId = N := hN r (.head _)
  induction rs generalizing r registry with
  | nil => subst hr; simp [appendReceipt]
  | cons r' rs ih =>
    rw [List.foldl_cons, ih r' (fun x hx => hN x (.tail _ hx)) _ (hN r' (.tail _ (.head _)))]
    subst hr; simp [appendReceipt]

/-- Any sequence of `process_receipt` calls on a new manager files under each node exactly the
receipts of that node whose call returned `Ok`, in call order and with repeats; every stored
receipt carries both signatures and the digest of its preimage; a failed call changes nothing. -/
theorem receipt_registry_of_calls (rs : List StorageReceipt) :
    let run := processReceipts blake3 new rs
    run.1.map (·.1) = rs ∧
      (∀ N, (run.2.receiptRegistry.data.lookup N).getD [] =
        (acceptedOf run.1).filter (·.nodeId = N)) ∧
      (∀ N, N ∈ run.2.receiptRegistry.data ↔ ∃ r ∈ acceptedOf run.1, r.nodeId = N) ∧
      (∀ N, ∀ r ∈ (run.2.receiptRegistry.data.lookup N).getD [], r.nodeId = N ∧
        r.clientSignature ≠ [] ∧ r.nodeSignature ≠ [] ∧ blake3 (receiptPreimage r) = r.receiptHash) ∧
      ∀ (m : RewardVaultManager) (r : StorageReceipt) (e : StorageNodeError),
        (m.processReceipt blake3 r).1 = .error e → (m.processReceipt blake3 r).2 = m := by
  obtain ⟨h1, -, h3, h4, h5⟩ := processReceipts_registry blake3 new rfl rs
  have hnew (N : String) : new.receiptRegistry.data.lookup N = none := AList.lookup_empty N
  refine ⟨h1, fun N => by simpa [hnew] using h3 N, fun N => by simpa [new] using h4 N,
    fun N r hr => ?_, processReceipt_error blake3⟩
  rw [h3, hnew, Option.getD_none, List.nil_append, List.mem_filter] at hr
  obtain ⟨-, hs, hn, hh⟩ := (verifyReceipt_eq_ok blake3 r true).1 (h5 r hr.1)
  exact ⟨of_decide_eq_true hr.2, hs, hn, hh⟩

end

end DsmStorage.Rewards
