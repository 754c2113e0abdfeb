import DsmStorage.RewardsVaultRuns

/-! What a successful distribution pays. `create_reward_vault` seals the vault's content with the
DLV manager and records its token amount and recipients in the registry; `process_distribution`
pays from whatever content the DLV manager hands back at the claim. When the DLV manager keeps
custody, the two agree on every run. -/
namespace DsmStorage.Rewards
open RewardVaultManager

section
variable {σ : Type} (dlv : DLVManager σ)

/-- What the engine needs of the DLV manager, whose behaviour is not in the sources;
`sealed st v` is the content sealed under `v`. `create_vault` never hands out an id with content
sealed under it and seals the content it is given under the id it returns, no call takes sealed
content away, and a claim hands back the content sealed under the vault. -/
structure KeepsSealed (sealed : σ → String → Option Bytes) : Prop where
  createVault_fresh : ∀ st kp f c t e rs v, (dlv.createVault st kp f c t e rs).1 = .ok v →
    sealed st v = none
  createVault_seals : ∀ st kp f c t e rs v, (dlv.createVault st kp f c t e rs).1 = .ok v →
    sealed (dlv.createVault st kp f c t e rs).2 v = some c
  createVault_keeps : ∀ st kp f c t e rs v b, sealed st v = some b →
    sealed (dlv.createVault st kp f c t e rs).2 v = some b
  createVaultPost_keeps : ∀ st id d e v b, sealed st v = some b →
    sealed (dlv.createVaultPost st id d e).2 v = some b
  tryUnlockVault_keeps : ∀ st id p k rs v b, sealed st v = some b →
    sealed (dlv.tryUnlockVault st id p k rs).2 v = some b
  claimVaultContent_keeps : ∀ st id k rs v b, sealed st v = some b →
    sealed (dlv.claimVaultContent st id k rs).2 v = some b
  claim_sealed : ∀ st id k rs content, (dlv.claimVaultContent st id k rs).1 = .ok content →
    sealed st id = some content

/-- Every registered vault has content sealed under its id, and that content decodes to the
vault's token amount and recipients. -/
def SealedMatches (sealed : σ → String → Option Bytes) (m : RewardVaultManager) (st : σ) : Prop :=
  ∀ v md, m.vaultRegistry.data.lookup v = some md → ∃ bs c, sealed st v = some bs ∧
    VaultContent.deserialize bs = some c ∧ c.tokenAmount = md.tokenAmount ∧
    ∀ k, c.recipients.lookup k = md.recipients.lookup k

/-- The strings a creation seals read back as written, and its recipients fit bincode's `u64`
length. -/
def ManagerCall.Decodable : ManagerCall → Prop
  | .createRewardVault _ _ tid _ rec _ _ =>
    (∀ s ∈ tid :: rec.keys, ∀ rest, deserializeStr (serializeStr s++rest) = some (s, rest)) ∧
      rec.entries.length < 2^64
  | .processDistribution _ _ => True

/-! ### A DLV manager that keeps custody -/

/-- The id of the `n`-th vault of `custodyDlv`: `n` letters `v`. -/
def custodyId (n : ℕ) : String := ⟨List.replicate n 'v'⟩

theorem custodyId_length (n : ℕ) : (custodyId n).length = n := List.length_replicate n 'v'

/-- The content `custodyDlv` sealed under `v`: the one at the position its id names. -/
def custodySealed (st : List Bytes) (v : String) : Option Bytes :=
  if v = custodyId v.length then st[v.length]? else none

/-- A DLV manager that keeps the contents it seals in creation order, grants every unlock, and
hands back on a claim the content sealed under the vault. -/
def custodyDlv : DLVManager (List Bytes) where
  createVault st _ _ content _ _ _ := (.ok (custodyId st.length), st++[content])
  createVaultPost st _ _ _ := (.ok [], st)
  tryUnlockVault st _ _ _ _ := (.ok true, st)
  claimVaultContent st vaultId _ _ := match custodySealed st vaultId with
    | some content => (.ok content, st)
    | none => (.error "vault not found", st)
  deserializeVaultPost _ := .ok ⟨"active"⟩

theorem custodyDlv_keepsSealed : KeepsSealed custodyDlv custodySealed where
  createVault_fresh st _ _ _ _ _ _ v h := by
    cases h
    simp [custodySealed, custodyId_length]
  createVault_seals st _ _ _ _ _ _ v h := by
    cases h
    simp [custodyDlv, custodySealed, custodyId_length]
  createVault_keeps st _ _ _ _ _ _ v b h := by
    simp only [custodyDlv, custodySealed] at h ⊢
    split_ifs at h ⊢
    obtain ⟨hv, -⟩ := List.getElem?_eq_some_iff.1 h
    rw [List.getElem?_append_left hv, h]
  createVaultPost_keeps _ _ _ _ _ _ h := h
  tryUnlockVault_keeps _ _ _ _ _ _ _ h := h
  claimVaultContent_keeps st id _ _ _ _ h := by
    simp only [custodyDlv]
    rcases custodySealed st id with _ | c <;> exact h
  claim_sealed st id _ _ content h := by
    revert h
    simp only [custodyDlv]
    rcases custodySealed st id with _ | c <;> intro h <;> cases h
    rfl

/-! ### Registered vaults and sealed content -/

variable {dlv} {sealed : σ → String → Option Bytes}

theorem KeepsSealed.createVault_of_eq (hd : KeepsSealed dlv sealed) {st : σ} {kp : Bytes × Bytes}
    {f : FulfillmentMechanism} {c : Bytes} {t : String} {e : Option Bytes} {rs : State}
    {res : Except String String} {st' : σ} (h : dlv.createVault st kp f c t e rs = (res, st')) :
    (∀ v b, sealed st v = some b → sealed st' v = some b) ∧
      ∀ v, res = .ok v → sealed st v = none ∧ sealed st' v = some c := by
  refine ⟨fun v b hb => ?_, fun v hv => ⟨?_, ?_⟩⟩
  · simpa [h] using hd.createVault_keeps st kp f c t e rs v b hb
  · exact hd.createVault_fresh st kp f c t e rs v (by rw [h, hv])
  · simpa [h] using hd.createVault_seals st kp f c t e rs v (by rw [h, hv])

theorem KeepsSealed.createVaultPost_of_eq (hd : KeepsSealed dlv sealed) {st : σ} {id d : String}
    {e : Option UInt64} {res : Except String Bytes} {st' : σ}
    (h : dlv.createVaultPost st id d e = (res, st')) (v : String) (b : Bytes)
    (hb : sealed st v = some b) : sealed st' v = some b := by
  simpa [h] using hd.createVaultPost_keeps st id d e v b hb

/-- What `create_reward_vault` does to sealed content: it keeps all of it, and a creation that
reaches the registry has sealed its content under a fresh id. -/
theorem KeepsSealed.createRewardVault (hd : KeepsSealed dlv sealed) (m : RewardVaultManager)
    (st : σ) (kp : Bytes × Bytes) (amt : UInt64) (tid : String) (dt : UInt64)
    (rec : AList (fun _ : String => Ratio)) (rs : State) (now : UInt64) :
    let r := m.createRewardVault dlv st kp amt tid dt rec rs now
    (∀ v b, sealed st v = some b → sealed r.2.2 v = some b) ∧
      (r.2.1 = m ∨ ∃ vaultId status, sealed st vaultId = none ∧
        sealed r.2.2 vaultId = some (⟨amt, tid, rec, ∅⟩ : VaultContent).serialize ∧
        r.2.1 = (m.registerVault vaultId ⟨vaultId, "Reward distribution for "++tid, hexEncode kp.1,
          amt, tid, now, dt, rec, status⟩ ⟨vaultId, rs, dt⟩).2) := by
  unfold RewardVaultManager.createRewardVault
  dsimp only
  split_ifs
  · exact ⟨fun _ _ h => h, .inl rfl⟩
  rcases hc : dlv.createVault st kp _ _ _ _ _ with ⟨_ | vaultId, st₁⟩ <;> dsimp only
  · exact ⟨(hd.createVault_of_eq hc).1, .inl rfl⟩
  obtain ⟨hk, hfs⟩ := hd.createVault_of_eq hc
  obtain ⟨hf, hs⟩ := hfs vaultId rfl
  rcases hp : dlv.createVaultPost st₁ vaultId _ _ with ⟨_ | bytes, st₂⟩ <;> dsimp only
  · exact ⟨fun v b h => hd.createVaultPost_of_eq hp v b (hk v b h), .inl rfl⟩
  rcases dlv.deserializeVaultPost bytes with _ | post <;> dsimp only
  · exact ⟨fun v b h => hd.createVaultPost_of_eq hp v b (hk v b h), .inl rfl⟩
  exact ⟨fun v b h => hd.createVaultPost_of_eq hp v b (hk v b h),
    .inr ⟨vaultId, post.status, hf, hd.createVaultPost_of_eq hp _ _ hs, rfl⟩⟩

namespace SealedMatches
variable {m : RewardVaultManager} {st : σ}

theorem keep (hm : SealedMatches sealed m st) {st' : σ}
    (hk : ∀ v b, sealed st v = some b → sealed st' v = some b) : SealedMatches sealed m st' :=
  fun v md hl => by
    obtain ⟨bs, c, hb, hc⟩ := hm v md hl
    exact ⟨bs, c, hk v bs hb, hc⟩

theorem of_insert (hm : SealedMatches sealed m st) {m' : RewardVaultManager} {vaultId : String}
    {md : VaultMetadata} (h : m'.vaultRegistry.data = m.vaultRegistry.data.insert vaultId md)
    (bs : Bytes) (c : VaultContent) (hb : sealed st vaultId = some bs)
    (hc : VaultContent.deserialize bs = some c) (ha : c.tokenAmount = md.tokenAmount)
    (hr : ∀ k, c.recipients.lookup k = md.recipients.lookup k) : SealedMatches sealed m' st :=
  fun v md' hl => by
    rw [h] at hl
    by_cases hv : v = vaultId
    · subst hv
      rw [AList.lookup_insert] at hl
      cases hl
      exact ⟨bs, c, hb, hc, ha, hr⟩
    · rw [AList.lookup_insert_ne hv] at hl
      exact hm v md' hl

theorem createRewardVault (hm : SealedMatches sealed m st) (hd : KeepsSealed dlv sealed)
    (kp : Bytes × Bytes) (amt : UInt64) (tid : String) (dt : UInt64)
    (rec : AList (fun _ : String => Ratio)) (rs : State) (now : UInt64)
    (hc : (ManagerCall.createRewardVault kp amt tid dt rec rs now).Decodable) :
    SealedMatches sealed (m.createRewardVault dlv st kp amt tid dt rec rs now).2.1
      (m.createRewardVault dlv st kp amt tid dt rec rs now).2.2 := by
  obtain ⟨hk, h | ⟨v, status, -, hs, h⟩⟩ := hd.createRewardVault m st kp amt tid dt rec rs now
  · rw [h]
    exact hm.keep hk
  rcases registerVault_registry m v ⟨v, "Reward distribution for "++tid, hexEncode kp.1, amt, tid,
      now, dt, rec, status⟩ ⟨v, rs, dt⟩ with hr | hr <;> rw [← h] at hr
  · exact fun v' md hl => hm.keep hk v' md (hr ▸ hl)
  refine (hm.keep hk).of_insert hr _ _ hs (VaultContent.deserialize_serialize _
    (fun s hs' => hc.1 s (by simpa using hs')) hc.2 (by simp)) rfl (by simp)

theorem setStatus (hm : SealedMatches sealed m st) {vaultId : String} {md : VaultMetadata}
    (hl : m.vaultRegistry.data.lookup vaultId = some md) (status : String) :
    SealedMatches sealed { m with vaultRegistry := { m.vaultRegistry with
      data := m.vaultRegistry.data.insert vaultId { md with status := status } } } st := by
  obtain ⟨bs, c, hb, hc, ha, hr⟩ := hm vaultId md hl
  exact hm.of_insert rfl bs c hb hc ha hr

theorem processDistribution (hm : SealedMatches sealed m st) (hd : KeepsSealed dlv sealed)
    (now : UInt64) (req : DistributionRequest) :
    SealedMatches sealed (m.processDistribution dlv st now req).2.1
      (m.processDistribution dlv st now req).2.2 := by
  obtain ⟨hmgr, hst, -⟩ := processDistribution_cases dlv m st now req
  have hm' : SealedMatches sealed m (m.processDistribution dlv st now req).2.2 := by
    refine hm.keep fun v b h => ?_
    rcases hst with h' | h' | ⟨-, h'⟩ <;> rw [h']
    · exact h
    · exact hd.tryUnlockVault_keeps _ _ _ _ _ _ _ h
    · exact hd.claimVaultContent_keeps _ _ _ _ _ _ (hd.tryUnlockVault_keeps _ _ _ _ _ _ _ h)
  rcases hmgr with h | ⟨-, h⟩ <;> rw [h]
  · exact hm'
  cases hs : (m.updateVaultStatus req.vaultId "claimed").1 with
  | error e => rw [updateVaultStatus_error hs]; exact hm'
  | ok u =>
    obtain ⟨md, hl, h'⟩ := updateVaultStatus_ok hs
    rw [h']
    exact hm'.setStatus hl _

theorem apply (hm : SealedMatches sealed m st) (hd : KeepsSealed dlv sealed) (c : ManagerCall)
    (hc : c.Decodable) : SealedMatches sealed (c.apply dlv m st).2.1 (c.apply dlv m st).2.2 := by
  cases c with
  | createRewardVault kp amt tid dt rec rs now => exact hm.createRewardVault hd kp amt tid dt rec rs now hc
  | processDistribution now req => exact hm.processDistribution hd now req

/-- A DLV manager that never reuses an id hands out no registered id. -/
theorem freshAt (hm : SealedMatches sealed m st) (hd : KeepsSealed dlv sealed) (c : ManagerCall) :
    c.FreshAt dlv m st := by
  cases c with
  | processDistribution => trivial
  | createRewardVault kp amt tid dt rec rs now =>
    simp only [ManagerCall.FreshAt]
    intro _
    rcases hc : dlv.createVault st kp (.TimeRelease dt [rs.hash])
      (⟨amt, tid, rec, ∅⟩ : VaultContent).serialize "application/dsm-reward-vault" none rs with
      ⟨_ | v, st₁⟩
    · trivial
    intro hv
    obtain ⟨md, hl⟩ := Option.isSome_iff_exists.1 (AList.lookup_isSome.2 hv)
    obtain ⟨bs, -, hb, -⟩ := hm v md hl
    rw [((hd.createVault_of_eq hc).2 v rfl).1] at hb
    cases hb

/-- A successful distribution pays from the content sealed under the vault, which agrees with
the registered amount and recipients. -/
theorem pays_content (hm : SealedMatches sealed m st) (hd : KeepsSealed dlv sealed) (now : UInt64)
    (req : DistributionRequest) {res : DistributionResult}
    (h : (m.processDistribution dlv st now req).1 = .ok res) (hs : res.success = true) :
    ∃ md c, m.vaultRegistry.data.lookup res.vaultId = some md ∧
      res.distributionDetails = some (distributionsOf c) ∧ c.tokenAmount = md.tokenAmount ∧
      ∀ k, c.recipients.lookup k = md.recipients.lookup k := by
  obtain ⟨md, content, c, hv, -, hcl, hdes, hdet, -⟩ :=
    processDistribution_success dlv m st now req h hs
  have hl := lookup_of_getVault hv
  obtain ⟨bs, c', hb, hdes', hamt, hrec⟩ := hm _ _ hl
  have hcb : some content = some bs :=
    (hd.claim_sealed _ _ _ _ _ hcl).symm.trans (hd.tryUnlockVault_keeps _ _ _ _ _ _ _ hb)
  cases hcb
  rw [hdes] at hdes'
  cases hdes'
  exact ⟨md, c, ((processDistribution_cases dlv m st now req).2.2 res h).1 ▸ hl, hdet, hamt, hrec⟩

/-- ... so it pays each registered recipient its ratio of the registered amount. -/
theorem pays (hm : SealedMatches sealed m st) (hd : KeepsSealed dlv sealed) (now : UInt64)
    (req : DistributionRequest) {res : DistributionResult}
    (h : (m.processDistribution dlv st now req).1 = .ok res) (hs : res.success = true) :
    ∃ md details, m.vaultRegistry.data.lookup res.vaultId = some md ∧
      res.distributionDetails = some details ∧
      ∀ k, details.lookup k = (md.recipients.lookup k).map (·.applyTo md.tokenAmount) := by
  obtain ⟨md, c, hl, hdet, hamt, hrec⟩ := hm.pays_content hd now req h hs
  exact ⟨md, _, hl, hdet, fun k => by rw [lookup_distributionsOf, hrec, hamt]⟩

/-- ... and in total, the sum over the registered recipients of their ratios of the amount. -/
theorem pays_total (hm : SealedMatches sealed m st) (hd : KeepsSealed dlv sealed) (now : UInt64)
    (req : DistributionRequest) {res : DistributionResult}
    (h : (m.processDistribution dlv st now req).1 = .ok res) (hs : res.success = true) :
    ∃ md details, m.vaultRegistry.data.lookup res.vaultId = some md ∧
      res.distributionDetails = some details ∧ (details.entries.map (·.2.toNat)).sum =
        (md.recipients.entries.map fun e => (e.2.applyTo md.tokenAmount).toNat).sum := by
  obtain ⟨md, c, hl, hdet, hamt, hrec⟩ := hm.pays_content hd now req h hs
  have hp : c.recipients.entries.Perm md.recipients.entries :=
    List.lookup_ext c.recipients.nodupKeys md.recipients.nodupKeys fun k r => by
      change r ∈ c.recipients.lookup k ↔ r ∈ md.recipients.lookup k
      rw [hrec]
  refine ⟨md, _, hl, hdet, ?_⟩
  rw [distributionsOf_entries, List.map_reverse, List.sum_reverse, List.map_map, hamt]
  exact (hp.map _).sum_eq

/-- Over a run, registry entries keep their amounts and recipients: no id is handed out twice. -/
theorem keepsEntries (hm : SealedMatches sealed m st) (hd : KeepsSealed dlv sealed)
    (cs : List ManagerCall) (hc : ∀ c ∈ cs, c.Decodable) :
    KeepsEntries m.vaultRegistry.data (runCalls dlv m st cs).2.1.vaultRegistry.data := by
  induction cs generalizing m st with
  | nil => exact .refl _
  | cons c cs ih =>
    exact (apply_keepsEntries dlv c m st (hm.freshAt hd c)).trans
      (ih (hm.apply hd c (hc c (.head _))) fun c' h => hc c' (.tail _ h))

end SealedMatches

theorem sealedMatches_new (st : σ) : SealedMatches sealed new st := fun _ _ h => by
  simp [new] at h

/-- When the DLV manager keeps custody (it never reuses an id, keeps what it sealed, and a claim
hands back what was sealed under the vault), every successful distribution of a run of creations
and distributions pays each recipient of the vault, and no one else, its ratio applied to the
vault's token amount, as the registry holds them at the end of the run. -/
theorem successful_distribution_pays_registered (hd : KeepsSealed dlv sealed)
    (m : RewardVaultManager) (st : σ) (hm : SealedMatches sealed m st) (cs : List ManagerCall)
    (hc : ∀ c ∈ cs, c.Decodable) :
    ∀ res ∈ (runCalls dlv m st cs).1, res.success = true → ∃ md details,
      (runCalls dlv m st cs).2.1.vaultRegistry.data.lookup res.vaultId = some md ∧
        res.distributionDetails = some details ∧
        ∀ k, details.lookup k = (md.recipients.lookup k).map (·.applyTo md.tokenAmount) := by
  induction cs generalizing m st with
  | nil => intro res h; cases h
  | cons c cs ih =>
    intro res hres hs
    rcases List.mem_append.1 hres with h₁ | h₂
    · obtain ⟨now, req, rfl, hok⟩ := ManagerCall.ok_of_mem_apply h₁
      obtain ⟨md, d, hl, hdet, hpay⟩ := hm.pays hd now req hok hs
      obtain ⟨md', hl', hk⟩ := hm.keepsEntries hd _ hc _ _ hl
      exact ⟨md', d, hl', hdet, fun k => by rw [hpay, hk.recipients_eq, hk.tokenAmount_eq]⟩
    · exact ih _ _ (hm.apply hd c (hc c (.head _))) (fun c' h => hc c' (.tail _ h)) res h₂ hs

/-- When the DLV manager keeps custody and every creation's ratios come from `Ratio::new` with a
sum that does not wrap, each successful distribution of a run of creations and distributions pays
in total `D` with `⌊v·S/10^6⌋ - (n-1) ≤ D ≤ ⌊v·S/10^6⌋`, where `v` is the vault's amount, `n` its
number of recipients and `S`, within `[990_000, 1_010_000]`, the exact sum of its ratios: at most
101% of the amount, and at least 99% of it less one unit per recipient after the first. -/
theorem successful_distribution_total (hd : KeepsSealed dlv sealed) (m : RewardVaultManager)
    (st : σ) (hm : SealedMatches sealed m st) (hr : RatiosChecked m) (cs : List ManagerCall)
    (hc : ∀ c ∈ cs, c.Decodable ∧ c.RatiosFit) :
    ∀ res ∈ (runCalls dlv m st cs).1, res.success = true → ∃ md details,
      (runCalls dlv m st cs).2.1.vaultRegistry.data.lookup res.vaultId = some md ∧
        res.distributionDetails = some details ∧
        let v := md.tokenAmount.toNat
        let S := (md.recipients.entries.map (·.2.raw.toNat)).sum
        let D := (details.entries.map (·.2.toNat)).sum
        D ≤ v*S/1000000 ∧ v*S/1000000 ≤ D+(md.recipients.entries.length-1) ∧
          990000 ≤ S ∧ S ≤ 1010000 := by
  induction cs generalizing m st with
  | nil => intro res h; cases h
  | cons c cs ih =>
    intro res hres hs
    rcases List.mem_append.1 hres with h₁ | h₂
    · obtain ⟨now, req, rfl, hok⟩ := ManagerCall.ok_of_mem_apply h₁
      obtain ⟨md, d, hl, hdet, hD⟩ := hm.pays_total hd now req hok hs
      obtain ⟨hraw, hS⟩ := hr _ _ hl
      obtain ⟨md', hl', hk⟩ := hm.keepsEntries hd _ (fun c' h => (hc c' h).1) _ _ hl
      refine ⟨md', d, hl', hdet, ?_⟩
      obtain ⟨hlo, hhi⟩ := applyTo_sum_bounds md.tokenAmount _ hraw
      rw [hD, hk.recipients_eq, hk.tokenAmount_eq]
      exact ⟨hlo, hhi, hS⟩
    · exact ih _ _ (hm.apply hd c (hc c (.head _)).1) (hr.apply dlv c st (hc c (.head _)).2)
        (fun c' h => hc c' (.tail _ h)) res h₂ hs

/-- A vault with one recipient at `1.0`, created and distributed from a new manager with the
custody adapter. -/
theorem successful_distribution_total_custody :
    let cs := [ManagerCall.createRewardVault ([], []) 1000 "" 0
      ((∅ : AList _).insert "" ⟨1000000⟩) ⟨[]⟩ 0, .processDistribution 0 ⟨custodyId 0, ⟨[]⟩, 0⟩]
    KeepsSealed custodyDlv custodySealed ∧ SealedMatches custodySealed new [] ∧
      RatiosChecked new ∧ (∀ c ∈ cs, c.Decodable ∧ c.RatiosFit) ∧
      ∀ res ∈ (runCalls custodyDlv new [] cs).1, res.success = true → ∃ md details,
        (runCalls custodyDlv new [] cs).2.1.vaultRegistry.data.lookup res.vaultId = some md ∧
          res.distributionDetails = some details ∧
          let v := md.tokenAmount.toNat
          let S := (md.recipients.entries.map (·.2.raw.toNat)).sum
          let D := (details.entries.map (·.2.toNat)).sum
          D ≤ v*S/1000000 ∧ v*S/1000000 ≤ D+(md.recipients.entries.length-1) ∧
            990000 ≤ S ∧ S ≤ 1010000 := by
  intro cs
  have hc : ∀ c ∈ cs, c.Decodable ∧ c.RatiosFit := by
    intro c hc
    simp only [cs, List.mem_cons, List.mem_singleton, List.not_mem_nil, or_false] at hc
    rcases hc with rfl | rfl
    · refine ⟨⟨fun s hs rest => ?_, by simp⟩, ManagerCall.ratiosFit_single _ _ _ _ _ _ _ _ (by decide)⟩
      obtain rfl : s = "" := by simpa using hs
      exact deserializeStr_empty rest
    · exact ⟨trivial, trivial⟩
  exact ⟨custodyDlv_keepsSealed, sealedMatches_new [], ratiosChecked_new, hc,
    successful_distribution_total custodyDlv_keepsSealed new [] (sealedMatches_new [])
      ratiosChecked_new cs hc⟩

/-- A creation and the distribution of its vault, from a new manager, with the custody adapter. -/
theorem successful_distribution_pays_registered_custody :
    let cs := [ManagerCall.createRewardVault ([], []) 1000 "" 0
      ((∅ : AList _).insert "" ⟨1000000⟩) ⟨[]⟩ 0, .processDistribution 0 ⟨custodyId 0, ⟨[]⟩, 0⟩]
    KeepsSealed custodyDlv custodySealed ∧ SealedMatches custodySealed new [] ∧
      (∀ c ∈ cs, c.Decodable) ∧
      ∀ res ∈ (runCalls custodyDlv new [] cs).1, res.success = true → ∃ md details,
        (runCalls custodyDlv new [] cs).2.1.vaultRegistry.data.lookup res.vaultId = some md ∧
          res.distributionDetails = some details ∧
          ∀ k, details.lookup k = (md.recipients.lookup k).map (·.applyTo md.tokenAmount) := by
  intro cs
  have hc : ∀ c ∈ cs, c.Decodable := by
    intro c hc
    simp only [cs, List.mem_cons, List.mem_singleton, List.not_mem_nil, or_false] at hc
    rcases hc with rfl | rfl
    · refine ⟨fun s hs rest => ?_, by simp⟩
      obtain rfl : s = "" := by simpa using hs
      exact deserializeStr_empty rest
    · trivial
  exact ⟨custodyDlv_keepsSealed, sealedMatches_new [], hc, successful_distribution_pays_registered
    custodyDlv_keepsSealed new [] (sealedMatches_new []) cs hc⟩

end

end DsmStorage.Rewards
