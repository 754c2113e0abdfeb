import DsmStorage.RewardsVault

/-! Runs of the calls that read or write the vault registry: what a stored entry keeps, what stays
true of every entry (its id, the ratio check), what the results of a run report, and how many
successful distributions one vault can see. -/
namespace DsmStorage.Rewards
open RewardVaultManager

/-- A call on the manager that reads or writes its vault registry. `update_vault_status` is
private, and its one caller is `process_distribution`. -/
inductive ManagerCall where
  | createRewardVault (creatorKeypair : Bytes × Bytes) (tokenAmount : UInt64) (tokenId : String)
      (distributionTime : UInt64) (recipients : AList (fun _ : String => Ratio))
      (referenceState : State) (now : UInt64)
  | processDistribution (now : UInt64) (request : DistributionRequest)

section
variable {σ : Type} (dlv : DLVManager σ)

/-- One call: the distribution result it returned, if any, and the manager and the DLV manager's
state after it. -/
def ManagerCall.apply (m : RewardVaultManager) (st : σ) :
    ManagerCall → Option DistributionResult × RewardVaultManager × σ
  | .createRewardVault kp amt tid dt rec rs now =>
    (none, (m.createRewardVault dlv st kp amt tid dt rec rs now).2)
  | .processDistribution now req =>
    let r := m.processDistribution dlv st now req
    (r.1.toOption, r.2)

/-- A run of calls: the distribution results returned, in order, and the final manager and DLV
state. -/
def runCalls : RewardVaultManager → σ → List ManagerCall →
    List DistributionResult × RewardVaultManager × σ
  | m, st, [] => ([], m, st)
  | m, st, c :: cs =>
    let r := c.apply dlv m st
    let rest := runCalls r.2.1 r.2.2 cs
    (r.1.toList++rest.1, rest.2)

/-! ### Registry entries -/

/-- What a later registry entry for an id keeps of an earlier one. -/
structure VaultMetadata.Keeps (md md' : VaultMetadata) : Prop where
  tokenAmount_eq : md'.tokenAmount = md.tokenAmount
  tokenId_eq : md'.tokenId = md.tokenId
  distributionTime_eq : md'.distributionTime = md.distributionTime
  recipients_eq : md'.recipients = md.recipients
  creatorId_eq : md'.creatorId = md.creatorId
  claimed : md.status = "claimed" → md'.status = "claimed"

theorem VaultMetadata.Keeps.refl (md : VaultMetadata) : md.Keeps md := ⟨rfl, rfl, rfl, rfl, rfl, id⟩

theorem VaultMetadata.Keeps.trans {md₁ md₂ md₃ : VaultMetadata} (h₁ : md₁.Keeps md₂)
    (h₂ : md₂.Keeps md₃) : md₁.Keeps md₃ :=
  ⟨h₂.1.trans h₁.1, h₂.2.trans h₁.2, h₂.3.trans h₁.3, h₂.4.trans h₁.4, h₂.5.trans h₁.5,
    h₂.6 ∘ h₁.6⟩

/-- Every entry of `r` is still in `r'`, keeping what it keeps. -/
def KeepsEntries (r r' : AList (fun _ : String => VaultMetadata)) : Prop :=
  ∀ vaultId md, r.lookup vaultId = some md → ∃ md', r'.lookup vaultId = some md' ∧ md.Keeps md'

theorem KeepsEntries.refl (r : AList (fun _ : String => VaultMetadata)) : KeepsEntries r r :=
  fun _ md h => ⟨md, h, .refl md⟩

theorem KeepsEntries.trans {r₁ r₂ r₃ : AList (fun _ : String => VaultMetadata)}
    (h₁ : KeepsEntries r₁ r₂) (h₂ : KeepsEntries r₂ r₃) : KeepsEntries r₁ r₃ := fun v md h => by
  obtain ⟨md₂, h₂', k₁⟩ := h₁ v md h
  obtain ⟨md₃, h₃, k₂⟩ := h₂ v md₂ h₂'
  exact ⟨md₃, h₃, k₁.trans k₂⟩

theorem keepsEntries_insert_fresh {r : AList (fun _ : String => VaultMetadata)} {vaultId : String}
    (h : vaultId ∉ r) (md : VaultMetadata) : KeepsEntries r (r.insert vaultId md) := by
  intro v md' hv
  have hne : v ≠ vaultId := fun he => h (he ▸ AList.lookup_isSome.1 (by simp [hv]))
  exact ⟨md', by rw [AList.lookup_insert_ne hne, hv], .refl md'⟩

theorem keepsEntries_setStatus {r : AList (fun _ : String => VaultMetadata)} {vaultId : String}
    {md : VaultMetadata} (h : r.lookup vaultId = some md) :
    KeepsEntries r (r.insert vaultId { md with status := "claimed" }) := by
  intro v md' hv
  by_cases hne : v = vaultId
  · subst hne
    rw [h] at hv
    cases hv
    exact ⟨_, AList.lookup_insert r, ⟨rfl, rfl, rfl, rfl, rfl, fun _ => rfl⟩⟩
  · exact ⟨md', by rw [AList.lookup_insert_ne hne, hv], .refl md'⟩

/-- A creation call that passes the ratio check, the only kind that calls `create_vault`, gets
from it an id that is not yet a key of the registry. -/
def ManagerCall.FreshAt (m : RewardVaultManager) (st : σ) : ManagerCall → Prop
  | .createRewardVault kp amt tid dt rec rs _ =>
    ¬ ((rec.entries.map fun e => e.2.rawValue).sum < 990000 ∨
        (rec.entries.map fun e => e.2.rawValue).sum > 1010000) →
      match (dlv.createVault st kp (.TimeRelease dt [rs.hash])
        (⟨amt, tid, rec, ∅⟩ : VaultContent).serialize "application/dsm-reward-vault" none rs).1 with
      | .ok vaultId => vaultId ∉ m.vaultRegistry.data
      | .error _ => True
  | .processDistribution _ _ => True

/-- Every creation of the run gets an id that is not yet registered. -/
def FreshIds : RewardVaultManager → σ → List ManagerCall → Prop
  | _, _, [] => True
  | m, st, c :: cs => c.FreshAt dlv m st ∧ FreshIds (c.apply dlv m st).2.1 (c.apply dlv m st).2.2 cs

theorem registerVault_keepsEntries (m : RewardVaultManager) (vaultId : String) (md : VaultMetadata)
    (req : DistributionRequest) (h : vaultId ∉ m.vaultRegistry.data) :
    KeepsEntries m.vaultRegistry.data (m.registerVault vaultId md req).2.vaultRegistry.data := by
  rcases registerVault_cases m vaultId md req with h' | ⟨-, -, h', -⟩ | ⟨-, -, h', -⟩ <;> rw [h']
  · exact .refl _
  · exact keepsEntries_insert_fresh h md
  · exact keepsEntries_insert_fresh h md

theorem processDistribution_keepsEntries (m : RewardVaultManager) (st : σ) (now : UInt64)
    (req : DistributionRequest) :
    KeepsEntries m.vaultRegistry.data (m.processDistribution dlv st now req).2.1.vaultRegistry.data := by
  rcases (processDistribution_cases dlv m st now req).1 with h | ⟨-, h⟩ <;> rw [h]
  · exact .refl _
  · cases hs : (m.updateVaultStatus req.vaultId "claimed").1 with
    | error e => rw [updateVaultStatus_error hs]; exact .refl _
    | ok u =>
      obtain ⟨md, hl, h'⟩ := updateVaultStatus_ok hs
      rw [h']
      exact keepsEntries_setStatus hl

/-- A creation call leaves the manager alone, or ends in `registerVault` under the id
`create_vault` returned, with metadata due at the call's distribution time. -/
theorem apply_createRewardVault (m : RewardVaultManager) (st : σ) (kp : Bytes × Bytes)
    (amt : UInt64) (tid : String) (dt : UInt64) (rec : AList (fun _ : String => Ratio))
    (rs : State) (now : UInt64) :
    ((ManagerCall.createRewardVault kp amt tid dt rec rs now).apply dlv m st).2.1 = m ∨
      ∃ v md, ((ManagerCall.createRewardVault kp amt tid dt rec rs now).FreshAt dlv m st ↔
        v ∉ m.vaultRegistry.data) ∧ md.distributionTime = dt ∧
        ((ManagerCall.createRewardVault kp amt tid dt rec rs now).apply dlv m st).2.1 =
          (m.registerVault v md ⟨v, rs, dt⟩).2 := by
  rcases createRewardVault_checked dlv m st kp amt tid dt rec rs now with hm | hchk
  · exact .inl hm
  rcases (createRewardVault_cases dlv m st kp amt tid dt rec rs now).2 with ⟨-, h⟩ | ⟨v, s, hv, h⟩
  · exact .inl h
  · refine .inr ⟨v, _, ?_, rfl, congrArg Prod.snd h⟩
    simp only [ManagerCall.FreshAt, hv]
    exact ⟨fun h => h hchk, fun h _ => h⟩

/-- One call keeps every entry, provided a creation gets a fresh id. -/
theorem apply_keepsEntries (c : ManagerCall) (m : RewardVaultManager) (st : σ)
    (h : c.FreshAt dlv m st) :
    KeepsEntries m.vaultRegistry.data (c.apply dlv m st).2.1.vaultRegistry.data := by
  cases c with
  | createRewardVault kp amt tid dt rec rs now =>
    rcases apply_createRewardVault dlv m st kp amt tid dt rec rs now with h' | ⟨v, _, hf, -, h'⟩ <;>
      rw [h']
    · exact .refl _
    · exact registerVault_keepsEntries m v _ _ (hf.1 h)
  | processDistribution now req => exact processDistribution_keepsEntries dlv m st now req

/-- Over any run of creations and distributions in which every creation gets an id not yet
registered, each registry entry keeps its token amount, token id, distribution time, recipients
and creator, and a `claimed` status stays `claimed`. -/
theorem registry_entries_kept (m : RewardVaultManager) (st : σ) (cs : List ManagerCall)
    (h : FreshIds dlv m st cs) :
    KeepsEntries m.vaultRegistry.data (runCalls dlv m st cs).2.1.vaultRegistry.data := by
  induction cs generalizing m st with
  | nil => exact .refl _
  | cons c cs ih => exact (apply_keepsEntries dlv c m st h.1).trans (ih _ _ h.2)

/-- A run whose creation gets the fresh id `"1"` while `"0"` is registered. -/
theorem registry_entries_kept_sample :
    let dlv := sampleDlv false toString
    let create (amt : UInt64) := ManagerCall.createRewardVault ([], []) amt "" 0
      ((∅ : AList _).insert "" ⟨1000000⟩) ⟨[]⟩ 0
    let r := new.createRewardVault dlv ⟨[], [], []⟩ ([], []) 1000 "" 0
      ((∅ : AList _).insert "" ⟨1000000⟩) ⟨[]⟩ 0
    let cs := [create 2000, .processDistribution 0 ⟨"0", ⟨[]⟩, 0⟩]
    FreshIds dlv r.2.1 r.2.2 cs ∧
      KeepsEntries r.2.1.vaultRegistry.data (runCalls dlv r.2.1 r.2.2 cs).2.1.vaultRegistry.data := by
  refine (fun h => ⟨h, registry_entries_kept _ _ _ _ h⟩) ⟨?_, trivial, trivial⟩
  simp only [ManagerCall.FreshAt, sampleDlv]
  decide

/-- When `create_vault` hands out an id that is already registered, the new entry replaces the old
one: a second creation under the id of a claimed vault changes its token amount and sets its
status back to the post's. -/
theorem vault_entry_overwritten :
    let dlv := sampleDlv false fun _ => "v"
    let create (amt : UInt64) := ManagerCall.createRewardVault ([], []) amt "" 0
      ((∅ : AList _).insert "" ⟨1000000⟩) ⟨[]⟩ 0
    let request := ManagerCall.processDistribution 0 ⟨"v", ⟨[]⟩, 0⟩
    let entry (cs : List ManagerCall) :=
      ((runCalls dlv new ⟨[], [], []⟩ cs).2.1.vaultRegistry.data.lookup "v").map
        fun md => (md.tokenAmount, md.status)
    entry [create 1000, request] = some (1000, "claimed") ∧
      entry [create 1000, request, create 2000] = some (2000, "active") := by
  intro dlv create request entry
  simp only [entry, runCalls, ManagerCall.apply,
    sampleDlv_createRewardVault false _ new ⟨[], [], []⟩ ([], []) 1000 "" 0
      ((∅ : AList _).insert "" ⟨1000000⟩) ⟨[]⟩ 0 (by decide) rfl rfl]
  rw [sampleDlv_processDistribution false _ _ _ 0 ⟨"v", ⟨[]⟩, 0⟩ ?hv ?due ?free ?look
    (VaultContent.deserialize_emptyIds 1000 ⟨1000000⟩)]
  case hv | look => rfl
  case due | free => decide
  rw [sampleDlv_createRewardVault false _ _ _ ([], []) 2000 "" 0 _ ⟨[]⟩ 0 ?sum ?hm ?hq]
  case sum => decide
  case hm | hq => rfl
  decide

/-! ### The queue and the registry -/

/-- The distribution queue and the vault registry describe the same vaults: the queued requests
name each registered vault once, each at the vault's distribution time, and the queue's lock is
sound. A creation that stores its metadata behind a poisoned queue lock breaks the first part. -/
structure QueueMatches (m : RewardVaultManager) : Prop where
  ids_perm : (m.distributionQueue.data.map (·.vaultId)).Perm m.vaultRegistry.data.keys
  timestamp_eq : ∀ req ∈ m.distributionQueue.data,
    (m.vaultRegistry.data.lookup req.vaultId).map (·.distributionTime) = some req.timestamp
  queue_sound : m.distributionQueue.poisoned = false

theorem queueMatches_new : QueueMatches new := ⟨.nil, fun _ h => (by cases h), rfl⟩

theorem QueueMatches.registerVault {m : RewardVaultManager} (hm : QueueMatches m)
    {vaultId : String} (hf : vaultId ∉ m.vaultRegistry.data) (md : VaultMetadata) (rs : State)
    {dt : UInt64} (ht : md.distributionTime = dt) :
    QueueMatches (m.registerVault vaultId md ⟨vaultId, rs, dt⟩).2 := by
  rcases registerVault_cases m vaultId md ⟨vaultId, rs, dt⟩ with h | ⟨-, hq, -⟩ | ⟨-, -, h, -⟩
  · rw [h]; exact hm
  · cases hm.queue_sound.symm.trans hq
  rw [h]
  refine ⟨?_, fun req hr => ?_, hm.queue_sound⟩
  · rw [List.map_append, AList.keys_insert, List.erase_of_not_mem hf]
    exact (List.perm_append_singleton _ _).trans (hm.ids_perm.cons _)
  rcases List.mem_append.1 hr with hr | hr
  · have hne : req.vaultId ≠ vaultId := fun he =>
      hf (he ▸ hm.ids_perm.subset (List.mem_map_of_mem _ hr))
    rw [AList.lookup_insert_ne hne]
    exact hm.timestamp_eq req hr
  · rw [List.mem_singleton.1 hr, AList.lookup_insert, Option.map_some', ht]

theorem QueueMatches.setStatus {m : RewardVaultManager} (hm : QueueMatches m) {vaultId : String}
    {md : VaultMetadata} (hl : m.vaultRegistry.data.lookup vaultId = some md) (status : String) :
    QueueMatches { m with vaultRegistry := { m.vaultRegistry with
      data := m.vaultRegistry.data.insert vaultId { md with status := status } } } := by
  refine ⟨?_, fun req hr => ?_, hm.queue_sound⟩
  · rw [AList.keys_insert]
    exact hm.ids_perm.trans (List.perm_cons_erase (AList.lookup_isSome.1 (by rw [hl]; rfl)))
  by_cases he : req.vaultId = vaultId
  · rw [he, AList.lookup_insert, Option.map_some', ← hm.timestamp_eq req hr, he, hl]
    rfl
  · rw [AList.lookup_insert_ne he]
    exact hm.timestamp_eq req hr

/-- One call keeps the queue matching the registry, provided a creation gets a fresh id. -/
theorem QueueMatches.apply {m : RewardVaultManager} (hm : QueueMatches m) (c : ManagerCall)
    (st : σ) (h : c.FreshAt dlv m st) : QueueMatches (c.apply dlv m st).2.1 := by
  cases c with
  | createRewardVault kp amt tid dt rec rs now =>
    rcases apply_createRewardVault dlv m st kp amt tid dt rec rs now with h' | ⟨v, md, hf, ht, h'⟩ <;>
      rw [h']
    · exact hm
    · exact hm.registerVault (hf.1 h) md rs ht
  | processDistribution now req =>
    rcases (processDistribution_cases dlv m st now req).1 with h' | ⟨-, h'⟩ <;>
      simp only [ManagerCall.apply, h']
    · exact hm
    cases hs : (m.updateVaultStatus req.vaultId "claimed").1 with
    | error e => rw [updateVaultStatus_error hs]; exact hm
    | ok u =>
      obtain ⟨md, hl, h''⟩ := updateVaultStatus_ok hs
      rw [h'']
      exact hm.setStatus hl _

/-- Over any run of creations and distributions in which every creation gets an id not yet
registered, a queue that matches the registry keeps matching it: each registered vault is queued
once, at its distribution time. -/
theorem queue_matches_registry (m : RewardVaultManager) (hm : QueueMatches m) (st : σ)
    (cs : List ManagerCall) (h : FreshIds dlv m st cs) :
    QueueMatches (runCalls dlv m st cs).2.1 := by
  induction cs generalizing m st with
  | nil => exact hm
  | cons c cs ih => exact ih _ (hm.apply dlv c st h.1) _ h.2

/-- From a new manager, two creations with the fresh ids `"0"` and `"1"` and a distribution of
the first. -/
theorem queue_matches_registry_sample :
    let dlv := sampleDlv false toString
    let create (amt : UInt64) := ManagerCall.createRewardVault ([], []) amt "" 0
      ((∅ : AList _).insert "" ⟨1000000⟩) ⟨[]⟩ 0
    let cs := [create 1000, create 2000, .processDistribution 0 ⟨"0", ⟨[]⟩, 0⟩]
    QueueMatches new ∧ FreshIds dlv new ⟨[], [], []⟩ cs ∧
      QueueMatches (runCalls dlv new ⟨[], [], []⟩ cs).2.1 := by
  refine (fun h => ⟨queueMatches_new, h, queue_matches_registry _ _ queueMatches_new _ _ h⟩) ?_
  simp only [FreshIds, ManagerCall.FreshAt, sampleDlv]
  decide

/-! ### The ratio check over runs -/

theorem uint64_toNat_add (a b : UInt64) : (a+b).toNat = (a.toNat+b.toNat)%2^64 :=
  BitVec.toNat_add _ _

theorem uint64_sum_toNat {α : Type} (l : List α) (f : α → UInt64) :
    (l.map f).sum.toNat = (l.map fun x => (f x).toNat).sum%2^64 := by
  induction l with
  | nil => rfl
  | cons x l ih =>
    rw [List.map_cons, List.sum_cons, uint64_toNat_add, ih, List.map_cons, List.sum_cons,
      Nat.add_mod_mod]

/-- Where the ratios' sum does not wrap, the check of `create_reward_vault` bounds the exact sum. -/
theorem ratioSum_bounds (rec : AList (fun _ : String => Ratio))
    (hfit : (rec.entries.map (·.2.raw.toNat)).sum < 2^64)
    (h : ¬ ((rec.entries.map fun e => e.2.rawValue).sum < 990000 ∨
      (rec.entries.map fun e => e.2.rawValue).sum > 1010000)) :
    990000 ≤ (rec.entries.map (·.2.raw.toNat)).sum ∧
      (rec.entries.map (·.2.raw.toNat)).sum ≤ 1010000 := by
  rw [not_or, UInt64.not_lt, gt_iff_lt, UInt64.not_lt] at h
  obtain ⟨h₁, h₂⟩ := h
  change (990000 : UInt64).toNat ≤ UInt64.toNat _ at h₁
  change UInt64.toNat _ ≤ (1010000 : UInt64).toNat at h₂
  simp only [uint64_sum_toNat, Ratio.rawValue, Nat.mod_eq_of_lt hfit] at h₁ h₂
  exact ⟨h₁, h₂⟩

/-- After one call, every registry entry is an earlier entry with the same id, token amount and
recipients, or the entry a creation registered under its own id, whose ratios passed the check. -/
theorem apply_lookup (c : ManagerCall) (m : RewardVaultManager) (st : σ) {v : String}
    {md' : VaultMetadata} (h : (c.apply dlv m st).2.1.vaultRegistry.data.lookup v = some md') :
    (∃ md, m.vaultRegistry.data.lookup v = some md ∧ md'.vaultId = md.vaultId ∧
        md'.tokenAmount = md.tokenAmount ∧ md'.recipients = md.recipients) ∨
      ∃ kp amt tid dt rec rs now, c = .createRewardVault kp amt tid dt rec rs now ∧
        md'.vaultId = v ∧ md'.tokenAmount = amt ∧ md'.recipients = rec ∧
        ¬ ((rec.entries.map fun e => e.2.rawValue).sum < 990000 ∨
          (rec.entries.map fun e => e.2.rawValue).sum > 1010000) := by
  have old (hr : (c.apply dlv m st).2.1.vaultRegistry.data = m.vaultRegistry.data) :
      ∃ md, m.vaultRegistry.data.lookup v = some md ∧ md'.vaultId = md.vaultId ∧
        md'.tokenAmount = md.tokenAmount ∧ md'.recipients = md.recipients :=
    ⟨md', hr ▸ h, rfl, rfl, rfl⟩
  cases c with
  | createRewardVault kp amt tid dt rec rs now =>
    rcases createRewardVault_checked dlv m st kp amt tid dt rec rs now with hm | hchk
    · exact .inl (old (by simp only [ManagerCall.apply, hm]))
    rcases (createRewardVault_cases dlv m st kp amt tid dt rec rs now).2 with ⟨-, hm⟩ | ⟨v', s, -, h'⟩
    · exact .inl (old (by simp only [ManagerCall.apply, hm]))
    have h₂ : (m.createRewardVault dlv st kp amt tid dt rec rs now).2.1 = _ := congrArg Prod.snd h'
    rcases registerVault_registry m v' ⟨v', "Reward distribution for "++tid, hexEncode kp.1, amt,
        tid, now, dt, rec, s⟩ ⟨v', rs, dt⟩ with hr | hr
    · exact .inl (old (by simp only [ManagerCall.apply, h₂, hr]))
    simp only [ManagerCall.apply, h₂, hr] at h
    by_cases hv : v = v'
    · subst hv
      rw [AList.lookup_insert] at h
      cases h
      exact .inr ⟨kp, amt, tid, dt, rec, rs, now, rfl, rfl, rfl, rfl, hchk⟩
    · rw [AList.lookup_insert_ne hv] at h
      exact .inl ⟨md', h, rfl, rfl, rfl⟩
  | processDistribution now req =>
    rcases (processDistribution_cases dlv m st now req).1 with hm | ⟨-, hm⟩
    · exact .inl (old (by simp only [ManagerCall.apply, hm]))
    cases hs : (m.updateVaultStatus req.vaultId "claimed").1 with
    | error e => exact .inl (old (by simp only [ManagerCall.apply, hm, updateVaultStatus_error hs]))
    | ok u =>
      obtain ⟨md, hl, h'⟩ := updateVaultStatus_ok hs
      simp only [ManagerCall.apply, hm, h'] at h
      by_cases hv : v = req.vaultId
      · subst hv
        rw [AList.lookup_insert] at h
        cases h
        exact .inl ⟨md, hl, rfl, rfl, rfl⟩
      · rw [AList.lookup_insert_ne hv] at h
        exact .inl ⟨md', h, rfl, rfl, rfl⟩

/-- Every registered vault's ratios are each at most `1.0` and add up, exactly, to within the
tolerance of `create_reward_vault`. -/
def RatiosChecked (m : RewardVaultManager) : Prop :=
  ∀ v md, m.vaultRegistry.data.lookup v = some md →
    (∀ e ∈ md.recipients.entries, e.2.raw.toNat ≤ 1000000) ∧
      990000 ≤ (md.recipients.entries.map (·.2.raw.toNat)).sum ∧
      (md.recipients.entries.map (·.2.raw.toNat)).sum ≤ 1010000

/-- A creation's ratios come from `Ratio::new`, each at most `1.0`, and their sum does not wrap
in `u64`. -/
def ManagerCall.RatiosFit : ManagerCall → Prop
  | .createRewardVault _ _ _ _ rec _ _ =>
    (∀ e ∈ rec.entries, e.2.raw.toNat ≤ 1000000) ∧ (rec.entries.map (·.2.raw.toNat)).sum < 2^64
  | .processDistribution _ _ => True

/-- A creation for one recipient fits when its ratio is at most `1.0`. -/
theorem ManagerCall.ratiosFit_single (kp : Bytes × Bytes) (amt : UInt64) (tid : String)
    (dt : UInt64) (k : String) (r : Ratio) (rs : State) (now : UInt64) (h : r.raw.toNat ≤ 1000000) :
    (ManagerCall.createRewardVault kp amt tid dt ((∅ : AList _).insert k r) rs now).RatiosFit := by
  simp only [ManagerCall.RatiosFit, AList.insert_entries, AList.empty_entries, List.kerase_nil,
    List.mem_singleton, forall_eq, List.map_cons, List.map_nil, List.sum_cons, List.sum_nil, add_zero]
  exact ⟨h, h.trans_lt (by norm_num)⟩

theorem RatiosChecked.apply {m : RewardVaultManager} (hr : RatiosChecked m) (c : ManagerCall)
    (st : σ) (hc : c.RatiosFit) : RatiosChecked (c.apply dlv m st).2.1 := fun v md' h => by
  rcases apply_lookup dlv c m st h with
    ⟨md, hl, -, -, hrec⟩ | ⟨kp, amt, tid, dt, rec, rs, now, rfl, -, -, hrec, hchk⟩
  · rw [hrec]
    exact hr v md hl
  · rw [hrec]
    exact ⟨hc.1, ratioSum_bounds rec hc.2 hchk⟩

/-- The ratio check of `create_reward_vault` holds of every registered vault over any run of
creations and distributions whose ratios come from `Ratio::new` and whose sums do not wrap: each
ratio is at most `1.0` and their exact sum lies in `[990_000, 1_010_000]`. -/
theorem registered_ratios_checked (m : RewardVaultManager) (hr : RatiosChecked m) (st : σ)
    (cs : List ManagerCall) (hc : ∀ c ∈ cs, c.RatiosFit) :
    RatiosChecked (runCalls dlv m st cs).2.1 := by
  induction cs generalizing m st with
  | nil => exact hr
  | cons c cs ih =>
    exact ih _ (hr.apply dlv c st (hc c (.head _))) _ fun c' h => hc c' (.tail _ h)

theorem ratiosChecked_new : RatiosChecked new := fun _ _ h => by
  simp [new] at h

/-- From a new manager, a creation with one recipient at `1.0` and its distribution. -/
theorem registered_ratios_checked_sample :
    let cs := [ManagerCall.createRewardVault ([], []) 1000 "" 0
      ((∅ : AList _).insert "" ⟨1000000⟩) ⟨[]⟩ 0, .processDistribution 0 ⟨"v", ⟨[]⟩, 0⟩]
    RatiosChecked new ∧ (∀ c ∈ cs, c.RatiosFit) ∧
      RatiosChecked (runCalls (sampleDlv false fun _ => "v") new ⟨[], [], []⟩ cs).2.1 := by
  intro cs
  have hc : ∀ c ∈ cs, c.RatiosFit := by
    intro c hc
    simp only [cs, List.mem_cons, List.mem_singleton, List.not_mem_nil, or_false] at hc
    rcases hc with rfl | rfl
    · exact ManagerCall.ratiosFit_single _ _ _ _ _ _ _ _ (by decide)
    · trivial
  exact ⟨ratiosChecked_new, hc, registered_ratios_checked _ new ratiosChecked_new _ cs hc⟩

/-! ### Vault ids -/

/-- Every registry entry carries the id it is registered under. -/
def IdsMatch (m : RewardVaultManager) : Prop :=
  ∀ v md, m.vaultRegistry.data.lookup v = some md → md.vaultId = v

theorem IdsMatch.apply {m : RewardVaultManager} (h : IdsMatch m) (c : ManagerCall) (st : σ) :
    IdsMatch (c.apply dlv m st).2.1 := fun v md' hl => by
  rcases apply_lookup dlv c m st hl with ⟨md, hl', hid, -⟩ | ⟨-, -, -, -, -, -, -, -, hid, -⟩
  · exact hid.trans (h v md hl')
  · exact hid

theorem idsMatch_runCalls (m : RewardVaultManager) (h : IdsMatch m) (st : σ)
    (cs : List ManagerCall) : IdsMatch (runCalls dlv m st cs).2.1 := by
  induction cs generalizing m st with
  | nil => exact h
  | cons c cs ih => exact ih _ (h.apply dlv c st) _

theorem idsMatch_new : IdsMatch new := fun _ _ h => by
  simp [new] at h

theorem getVaults_eq {m : RewardVaultManager} {mds : List VaultMetadata}
    (h : m.getVaults = .ok mds) : mds = m.vaultRegistry.data.entries.map (·.2) := by
  unfold getVaults Lock.acquire at h
  split at h <;> cases h
  rfl

/-- Over any run of creations and distributions from a manager whose entries carry their own ids
(a new manager does), with fresh ids or not, `get_vault(id)` returns metadata whose `vault_id`
is `id`, and `get_vaults` never lists two vaults with the same `vault_id`. -/
theorem vault_ids_unique (m : RewardVaultManager) (hm : IdsMatch m) (st : σ)
    (cs : List ManagerCall) :
    let m' := (runCalls dlv m st cs).2.1
    (∀ v md, m'.getVault v = .ok md → md.vaultId = v) ∧
      ∀ mds, m'.getVaults = .ok mds → (mds.map (·.vaultId)).Nodup := by
  have h := idsMatch_runCalls dlv m hm st cs
  refine ⟨fun v md hv => h v md (lookup_of_getVault hv), fun mds hmds => ?_⟩
  have hkeys : mds.map (·.vaultId) = (runCalls dlv m st cs).2.1.vaultRegistry.data.keys := by
    rw [getVaults_eq hmds, List.map_map]
    exact List.map_congr_left fun e he => h e.1 e.2 (AList.mem_lookup_iff.2 he)
  rw [hkeys]
  exact AList.keys_nodup _

/-- Two creations that both get the id `"v"`, the second overwriting the first. -/
theorem vault_ids_unique_repeated :
    let create := ManagerCall.createRewardVault ([], []) 1000 "" 0
      ((∅ : AList _).insert "" ⟨1000000⟩) ⟨[]⟩ 0
    let m' := (runCalls (sampleDlv false fun _ => "v") new ⟨[], [], []⟩ [create, create]).2.1
    IdsMatch new ∧ (∀ v md, m'.getVault v = .ok md → md.vaultId = v) ∧
      ∀ mds, m'.getVaults = .ok mds → (mds.map (·.vaultId)).Nodup :=
  ⟨idsMatch_new, vault_ids_unique _ new idsMatch_new _ _⟩

/-! ### Successful distributions -/

/-- A DLV manager that hands a vault's content out at most once: `claimed` is a property of its
state that no call undoes, and a claim that returns content needs it false before and makes it
true. -/
structure ClaimsOnce (claimed : σ → String → Prop) : Prop where
  createVault_keeps : ∀ st kp f c t r rs v, claimed st v →
    claimed (dlv.createVault st kp f c t r rs).2 v
  createVaultPost_keeps : ∀ st id d e v, claimed st v → claimed (dlv.createVaultPost st id d e).2 v
  tryUnlockVault_keeps : ∀ st id p k rs v, claimed st v →
    claimed (dlv.tryUnlockVault st id p k rs).2 v
  claimVaultContent_keeps : ∀ st id k rs v, claimed st v →
    claimed (dlv.claimVaultContent st id k rs).2 v
  claim_ok : ∀ st id k rs content, (dlv.claimVaultContent st id k rs).1 = .ok content →
    ¬ claimed st id ∧ claimed (dlv.claimVaultContent st id k rs).2 id

variable {dlv} {claimed : σ → String → Prop}

theorem ClaimsOnce.apply_keeps (hd : ClaimsOnce dlv claimed) (c : ManagerCall)
    (m : RewardVaultManager) (st : σ) (v : String) (h : claimed st v) :
    claimed (c.apply dlv m st).2.2 v := by
  cases c with
  | createRewardVault kp amt tid dt rec rs now =>
    rcases (createRewardVault_cases dlv m st kp amt tid dt rec rs now).1 with
      h' | h' | ⟨id, d, e, h'⟩ <;> simp only [ManagerCall.apply, h']
    · exact h
    · exact hd.createVault_keeps _ _ _ _ _ _ _ _ h
    · exact hd.createVaultPost_keeps _ _ _ _ _ (hd.createVault_keeps _ _ _ _ _ _ _ _ h)
  | processDistribution now req =>
    rcases (processDistribution_cases dlv m st now req).2.1 with h' | h' | ⟨-, h'⟩ <;>
      simp only [ManagerCall.apply, h']
    · exact h
    · exact hd.tryUnlockVault_keeps _ _ _ _ _ _ h
    · exact hd.claimVaultContent_keeps _ _ _ _ _ (hd.tryUnlockVault_keeps _ _ _ _ _ _ h)

/-- A call that returns a successful result for a vault claimed its content: the vault was not
claimed before the call and is after it. -/
theorem ClaimsOnce.apply_success (hd : ClaimsOnce dlv claimed) (c : ManagerCall)
    (m : RewardVaultManager) (st : σ) {res : DistributionResult}
    (h : (c.apply dlv m st).1 = some res) (hs : res.success = true) :
    ¬ claimed st res.vaultId ∧ claimed (c.apply dlv m st).2.2 res.vaultId := by
  cases c with
  | createRewardVault => cases h
  | processDistribution now req =>
    obtain ⟨-, -, hres⟩ := processDistribution_cases dlv m st now req
    have hok : (m.processDistribution dlv st now req).1 = .ok res := by
      simp only [ManagerCall.apply] at h
      revert h
      cases (m.processDistribution dlv st now req).1 <;> simp [Except.toOption]
    obtain ⟨hid, hsucc⟩ := hres res hok
    obtain ⟨-, ⟨content, hc⟩, hst, -⟩ := hsucc hs
    obtain ⟨hn, hcl⟩ := hd.claim_ok _ _ _ _ content hc
    simp only [ManagerCall.apply, hst, hid]
    exact ⟨fun h => hn (hd.tryUnlockVault_keeps _ _ _ _ _ _ h), hcl⟩

theorem ClaimsOnce.runCalls_successes (hd : ClaimsOnce dlv claimed) (m : RewardVaultManager)
    (st : σ) (cs : List ManagerCall) (v : String) :
    let n := ((runCalls dlv m st cs).1.filter fun r => r.success && r.vaultId == v).length
    n ≤ 1 ∧ (claimed st v → n = 0) := by
  induction cs generalizing m st with
  | nil => simp [runCalls]
  | cons c cs ih =>
    obtain ⟨h1, h2⟩ := ih (c.apply dlv m st).2.1 (c.apply dlv m st).2.2
    simp only [runCalls, List.filter_append, List.length_append]
    cases hr : (c.apply dlv m st).1 with
    | none => exact ⟨by simpa using h1, fun h => by simpa using h2 (hd.apply_keeps c m st v h)⟩
    | some res =>
      by_cases hs : res.success = true ∧ res.vaultId = v
      · obtain ⟨hn, hcl⟩ := hd.apply_success c m st hr hs.1
        rw [hs.2] at hn hcl
        simp [hs, h2 hcl, hn]
      · have hf : (res.success && res.vaultId == v) = false := by
          simpa [Bool.and_eq_true] using hs
        exact ⟨by simpa [hf] using h1,
          fun h => by simpa [hf] using h2 (hd.apply_keeps c m st v h)⟩

/-- With a DLV manager that hands content out at most once, any run of creations and
distributions, from any state, returns at most one successful result per vault. -/
theorem distribution_succeeds_at_most_once (hd : ClaimsOnce dlv claimed) (m : RewardVaultManager)
    (st : σ) (cs : List ManagerCall) (v : String) :
    ((runCalls dlv m st cs).1.filter fun r => r.success && r.vaultId == v).length ≤ 1 :=
  (hd.runCalls_successes m st cs v).1

theorem sampleDlv_claimsOnce (nextId : ℕ → String) :
    ClaimsOnce (sampleDlv true nextId) fun st v => v ∈ st.claimed where
  createVault_keeps _ _ _ _ _ _ _ _ h := h
  createVaultPost_keeps _ _ _ _ _ h := h
  tryUnlockVault_keeps _ _ _ _ _ _ h := h
  claimVaultContent_keeps st id _ _ v h := by
    simp only [sampleDlv]
    split_ifs
    · exact h
    · split <;> simp [h]
  claim_ok st id _ _ content h := by
    simp only [sampleDlv] at h ⊢
    by_cases hc : id ∈ st.claimed
    · simp [hc] at h
    · cases hl : st.vaults.lookup id <;> simp_all

/-- Two requests for one vault, with the DLV manager that refuses a second claim. -/
theorem distribution_succeeds_at_most_once_sample :
    let dlv := sampleDlv true fun _ => "v"
    let create := ManagerCall.createRewardVault ([], []) 1000 "" 0
      ((∅ : AList _).insert "" ⟨1000000⟩) ⟨[]⟩ 0
    let request := ManagerCall.processDistribution 0 ⟨"v", ⟨[]⟩, 0⟩
    ClaimsOnce dlv (fun st v => v ∈ st.claimed) ∧
      ((runCalls dlv new ⟨[], [], []⟩ [create, request, request]).1.filter
        fun r => r.success && r.vaultId == "v").length ≤ 1 :=
  ⟨sampleDlv_claimsOnce _, distribution_succeeds_at_most_once (sampleDlv_claimsOnce _) _ _ _ _⟩

/-- `process_distribution` never reads the status: after a vault's distribution set it to
`claimed`, a second request unlocks and claims the vault again, and with a DLV manager that hands
the content out again it succeeds a second time. -/
theorem claimed_vault_paid_twice :
    let dlv : DLVManager SampleDlvState := sampleDlv false fun _ => "v"
    let create := ManagerCall.createRewardVault ([], []) 1000 "" 0
      ((∅ : AList _).insert "" ⟨1000000⟩) ⟨[]⟩ 0
    let request := ManagerCall.processDistribution 0 ⟨"v", ⟨[]⟩, 0⟩
    ((runCalls dlv new ⟨[], [], []⟩ [create, request]).2.1.getVault "v").toOption.map (·.status) =
        some "claimed" ∧
      let run := runCalls dlv new ⟨[], [], []⟩ [create, request, request]
      run.1.map (fun r => (r.vaultId, r.success)) = [("v", true), ("v", true)] ∧
        run.2.2.claimed = ["v", "v"] := by
  intro dlv create request
  have hd := VaultContent.deserialize_emptyIds 1000 ⟨1000000⟩
  simp only [runCalls, ManagerCall.apply,
    sampleDlv_createRewardVault false _ new ⟨[], [], []⟩ ([], []) 1000 "" 0
      ((∅ : AList _).insert "" ⟨1000000⟩) ⟨[]⟩ 0 (by decide) rfl rfl]
  iterate 2
    rw [sampleDlv_processDistribution false _ _ _ 0 ⟨"v", ⟨[]⟩, 0⟩ ?hv ?due ?free ?look hd]
    case hv | look => rfl
    case due | free => decide
  decide


/-! ### What the results of a run report -/

/-- A call's result in a run is the `Ok` value of a `process_distribution`. -/
theorem ManagerCall.ok_of_mem_apply {c : ManagerCall} {m : RewardVaultManager} {st : σ}
    {res : DistributionResult} (h : res ∈ (c.apply dlv m st).1.toList) :
    ∃ now req, c = .processDistribution now req ∧ (m.processDistribution dlv st now req).1 = .ok res := by
  cases c with
  | createRewardVault => cases h
  | processDistribution now req =>
    refine ⟨now, req, rfl, ?_⟩
    revert h
    simp only [ManagerCall.apply]
    cases (m.processDistribution dlv st now req).1 <;> simp [Except.toOption, eq_comm]

/-- What an `Ok` result of `process_distribution(request)` at clock reading `now` reports: the
requested vault and the clock reading, with `error` empty and `distribution_details` present
exactly when `success` is set. -/
def DistributionResult.Answers (res : DistributionResult) (now : UInt64)
    (req : DistributionRequest) : Prop :=
  res.vaultId = req.vaultId ∧ res.timestamp = now ∧ (res.success = true ↔ res.error = none) ∧
    (res.success = true ↔ res.distributionDetails.isSome)

theorem processDistribution_answers (m : RewardVaultManager) (st : σ) (now : UInt64)
    (req : DistributionRequest) {res : DistributionResult}
    (h : (m.processDistribution dlv st now req).1 = .ok res) : res.Answers now req := by
  revert h
  unfold processDistribution
  dsimp only
  repeat' split
  all_goals intro h; cases h
  all_goals exact ⟨rfl, rfl, by simp, by simp⟩

/-- Every result a run of creations and distributions returns, from any manager and DLV state,
answers one of the run's requests: it names the requested vault, carries that call's clock
reading, and reports an error exactly when it reports no success and no distribution details. -/
theorem distribution_results_answer_requests (m : RewardVaultManager) (st : σ)
    (cs : List ManagerCall) :
    ∀ res ∈ (runCalls dlv m st cs).1,
      ∃ now req, ManagerCall.processDistribution now req ∈ cs ∧ res.Answers now req := by
  induction cs generalizing m st with
  | nil => intro res h; cases h
  | cons c cs ih =>
    intro res hres
    rcases List.mem_append.1 hres with h₁ | h₂
    · obtain ⟨now, req, rfl, hok⟩ := ManagerCall.ok_of_mem_apply h₁
      exact ⟨now, req, .head _, processDistribution_answers m st now req hok⟩
    · obtain ⟨now, req, hc, ha⟩ := ih _ _ res h₂
      exact ⟨now, req, .tail _ hc, ha⟩

/-- Every successful result among `rs` names a vault of the registry `r` that was due at the
result's timestamp and is marked `claimed`. -/
def PaidWhenDue (rs : List DistributionResult) (r : AList (fun _ : String => VaultMetadata)) :
    Prop :=
  ∀ res ∈ rs, res.success = true → ∃ md, r.lookup res.vaultId = some md ∧
    md.distributionTime ≤ res.timestamp ∧ md.status = "claimed"

theorem PaidWhenDue.keeps {rs : List DistributionResult}
    {r r' : AList (fun _ : String => VaultMetadata)} (h : PaidWhenDue rs r)
    (hk : KeepsEntries r r') : PaidWhenDue rs r' := fun res hres hs => by
  obtain ⟨md, hl, hdue, hst⟩ := h res hres hs
  obtain ⟨md', hl', k⟩ := hk _ _ hl
  exact ⟨md', hl', k.distributionTime_eq ▸ hdue, k.claimed hst⟩

theorem PaidWhenDue.append {rs rs' : List DistributionResult}
    {r : AList (fun _ : String => VaultMetadata)} (h : PaidWhenDue rs r) (h' : PaidWhenDue rs' r) :
    PaidWhenDue (rs++rs') r := fun res hres =>
  (List.mem_append.1 hres).elim (h res) (h' res)

/-- The result of one call, against the registry the call leaves. -/
theorem PaidWhenDue.apply (c : ManagerCall) (m : RewardVaultManager) (st : σ) :
    PaidWhenDue (c.apply dlv m st).1.toList (c.apply dlv m st).2.1.vaultRegistry.data := by
  intro res hres hs
  obtain ⟨now, req, rfl, hok⟩ := ManagerCall.ok_of_mem_apply hres
  obtain ⟨md, -, -, hv, -, -, -, -, hdue, hts⟩ :=
    processDistribution_success dlv m st now req hok hs
  obtain ⟨hid, hsucc⟩ := (processDistribution_cases dlv m st now req).2.2 res hok
  obtain ⟨-, -, -, -, hm'⟩ := hsucc hs
  refine ⟨{ md with status := "claimed" }, ?_, by rw [hts]; exact hdue, rfl⟩
  simp only [ManagerCall.apply, hm', updateVaultStatus_of_getVault hv]
  rw [hid, AList.lookup_insert]

theorem paidWhenDue_runCalls (acc : List DistributionResult) (m : RewardVaultManager) (st : σ)
    (cs : List ManagerCall) (h : PaidWhenDue acc m.vaultRegistry.data)
    (hf : FreshIds dlv m st cs) :
    PaidWhenDue (acc++(runCalls dlv m st cs).1) (runCalls dlv m st cs).2.1.vaultRegistry.data := by
  induction cs generalizing acc m st with
  | nil => simpa [runCalls] using h
  | cons c cs ih =>
    simp only [runCalls, ← List.append_assoc]
    exact ih _ _ _ ((h.keeps (apply_keepsEntries dlv c m st hf.1)).append (.apply c m st)) hf.2

/-- Over any run of creations and distributions in which every creation gets an id not yet
registered, from any manager and DLV state, no distribution succeeds before its vault's
distribution time, and every vault a distribution paid is marked `claimed` at the end of the
run. -/
theorem distributions_paid_when_due (m : RewardVaultManager) (st : σ) (cs : List ManagerCall)
    (h : FreshIds dlv m st cs) :
    ∀ res ∈ (runCalls dlv m st cs).1, res.success = true → ∃ md,
      (runCalls dlv m st cs).2.1.vaultRegistry.data.lookup res.vaultId = some md ∧
        md.distributionTime ≤ res.timestamp ∧ md.status = "claimed" :=
  paidWhenDue_runCalls [] m st cs (fun _ h => by cases h) h

/-- A vault due at time 5, requested at time 3 and again at time 7, with fresh ids. -/
theorem distributions_paid_when_due_sample :
    let dlv := sampleDlv false toString
    let cs := [ManagerCall.createRewardVault ([], []) 1000 "" 5
      ((∅ : AList _).insert "" ⟨1000000⟩) ⟨[]⟩ 0,
      .processDistribution 3 ⟨"0", ⟨[]⟩, 5⟩, .processDistribution 7 ⟨"0", ⟨[]⟩, 5⟩]
    FreshIds dlv new ⟨[], [], []⟩ cs ∧
      ∀ res ∈ (runCalls dlv new ⟨[], [], []⟩ cs).1, res.success = true → ∃ md,
        (runCalls dlv new ⟨[], [], []⟩ cs).2.1.vaultRegistry.data.lookup res.vaultId = some md ∧
          md.distributionTime ≤ res.timestamp ∧ md.status = "claimed" := by
  refine (fun h => ⟨h, distributions_paid_when_due _ _ _ h⟩) ⟨?_, trivial, trivial, trivial⟩
  simp only [ManagerCall.FreshAt, sampleDlv]
  decide

end

end DsmStorage.Rewards
