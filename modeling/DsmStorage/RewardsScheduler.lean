import DsmStorage.RewardsU64
import DsmStorage.RewardsVault

/-! The storage node's rewards component as a system: the manager, the distribution tasks that
`initialize` spawns, and the DLV manager they share. Each call on the manager and each step of a
task is an event, and a run is any interleaving of them. -/
namespace DsmStorage.Rewards
open RewardVaultManager

/-- The task `start_distribution_processor` spawns: the queue it allocates for itself, the copy of
the manager it calls `process_distribution` on, the ready requests of the tick under way, and a
result that waits for room in the channel. -/
structure DistributionProcessor where
  distributionQueue : List DistributionRequest
  selfClone : RewardVaultManager
  toProcess : List DistributionRequest
  pendingSend : Option DistributionResult

/-- `start_distribution_processor`: a new empty queue, `Arc::new(self.clone())`, and nothing under
way. -/
def RewardVaultManager.startDistributionProcessor (m : RewardVaultManager) :
    DistributionProcessor :=
  ⟨[], m.clone, [], none⟩

namespace DistributionProcessor

/-- A tick at clock reading `now`: the task's own queue drained and partitioned by
`timestamp ≤ now`, the ready requests to process and the rest put back. -/
def tick (p : DistributionProcessor) (now : UInt64) : DistributionProcessor :=
  let (ready, pending) := p.distributionQueue.partition fun req => req.timestamp ≤ now
  { p with toProcess := ready, distributionQueue := pending }

/-- A task that holds no request and no result. -/
def Idle (p : DistributionProcessor) : Prop :=
  p.distributionQueue = [] ∧ p.toProcess = [] ∧ p.pendingSend = none

theorem tick_of_idle {p : DistributionProcessor} (h : p.Idle) (now : UInt64) : p.tick now = p := by
  obtain ⟨p₁, p₂, p₃, p₄⟩ := p
  obtain ⟨rfl, rfl, rfl⟩ := h
  rfl

end DistributionProcessor

theorem RewardVaultManager.startDistributionProcessor_idle (m : RewardVaultManager) :
    m.startDistributionProcessor.Idle :=
  ⟨rfl, rfl, rfl⟩

/-- The rewards component of a storage node: the manager, the tasks started so far, and the state
of the DLV manager that all of them share through the `Arc`. -/
structure RewardsNode (σ : Type) where
  manager : RewardVaultManager
  processors : List DistributionProcessor
  dlvState : σ

/-- What can happen next: a call on the manager (`initializeManager` is `initialize`), or a step
of task `i`. -/
inductive NodeEvent where
  | createRewardVault (creatorKeypair : Bytes × Bytes) (tokenAmount : UInt64) (tokenId : String)
      (distributionTime : UInt64) (recipients : AList (fun _ : String => Ratio))
      (referenceState : State) (now : UInt64)
  | processReceipt (receipt : StorageReceipt)
  | updateRateSchedule (newSchedule : RateSchedule)
  | initializeManager
  /-- The interval of task `i` fires at clock reading `now`. -/
  | tick (i : ℕ) (now : UInt64)
  /-- Task `i` calls `process_distribution` on its next ready request at clock reading `now`. -/
  | processNext (i : ℕ) (now : UInt64)
  /-- The `send` of task `i` completes. -/
  | send (i : ℕ)

theorem set_of_getElem?_eq {α : Type} {l : List α} {i : ℕ} {a : α} (h : l[i]? = some a) :
    l.set i a = l := by
  induction l generalizing i with
  | nil => simp at h
  | cons x xs ih =>
    cases i with
    | zero => simp_all
    | succ i => simp_all

namespace RewardsNode
variable {σ : Type} (blake3 : Bytes → Hash32) (dlv : DLVManager σ)

/-- One event. A task ticks only once it has processed and sent everything of the last tick; a
result that finds the channel full (capacity 100) waits in `pendingSend`. -/
def step (n : RewardsNode σ) : NodeEvent → RewardsNode σ
  | .createRewardVault kp amt tid dt rec rs now =>
    let r := n.manager.createRewardVault dlv n.dlvState kp amt tid dt rec rs now
    { n with manager := r.2.1, dlvState := r.2.2 }
  | .processReceipt receipt => { n with manager := (n.manager.processReceipt blake3 receipt).2 }
  | .updateRateSchedule s => { n with manager := (n.manager.updateRateSchedule s).2 }
  | .initializeManager =>
    { n with processors := n.processors++[n.manager.startDistributionProcessor] }
  | .tick i now =>
    match n.processors[i]? with
    | some p =>
      if p.toProcess.isEmpty && p.pendingSend.isNone then
        { n with processors := n.processors.set i (p.tick now) }
      else n
    | none => n
  | .processNext i now =>
    match n.processors[i]? with
    | some ⟨queue, selfClone, request :: rest, none⟩ =>
      let r := selfClone.processDistribution dlv n.dlvState now request
      { n with
        processors := n.processors.set i ⟨queue, r.2.1, rest, r.1.toOption⟩
        dlvState := r.2.2 }
    | _ => n
  | .send i =>
    match n.processors[i]? with
    | some ⟨queue, selfClone, rest, some result⟩ =>
      if n.manager.distributionChannel.length < 100 then
        { n with
          manager := { n.manager with
            distributionChannel := n.manager.distributionChannel++[result] }
          processors := n.processors.set i ⟨queue, selfClone, rest, none⟩ }
      else n
    | _ => n

/-- A run: the events in order. -/
def run : RewardsNode σ → List NodeEvent → RewardsNode σ
  | n, [] => n
  | n, e :: es => run ((n.step blake3 dlv) e) es

theorem run_append (n : RewardsNode σ) (es es' : List NodeEvent) :
    n.run blake3 dlv (es++es') = (n.run blake3 dlv es).run blake3 dlv es' := by
  induction es generalizing n with
  | nil => rfl
  | cons e es ih => exact ih _

end RewardsNode

/-! ### Runs while every task is idle -/

/-- What the manager keeps from a state to a later one while the tasks hold nothing: every queued
request stays queued, every registered vault stays registered, the registry's lock keeps its
poison flag, and the channel receives nothing. -/
structure RewardVaultManager.Retains (m m' : RewardVaultManager) : Prop where
  queue_prefix : m.distributionQueue.data <+: m'.distributionQueue.data
  registered : ∀ v ∈ m.vaultRegistry.data, v ∈ m'.vaultRegistry.data
  registry_poisoned : m'.vaultRegistry.poisoned = m.vaultRegistry.poisoned
  channel_eq : m'.distributionChannel = m.distributionChannel

namespace RewardVaultManager

theorem Retains.refl (m : RewardVaultManager) : m.Retains m :=
  ⟨List.prefix_rfl, fun _ h => h, rfl, rfl⟩

theorem Retains.trans {m₁ m₂ m₃ : RewardVaultManager} (h₁ : m₁.Retains m₂) (h₂ : m₂.Retains m₃) :
    m₁.Retains m₃ :=
  ⟨h₁.1.trans h₂.1, fun v h => h₂.2 v (h₁.2 v h), h₂.3.trans h₁.3, h₂.4.trans h₁.4⟩

theorem registerVault_retains (m : RewardVaultManager) (vaultId : String) (md : VaultMetadata)
    (req : DistributionRequest) : m.Retains (m.registerVault vaultId md req).2 := by
  have hins (v : String) (h : v ∈ m.vaultRegistry.data) : v ∈ m.vaultRegistry.data.insert vaultId md :=
    (AList.mem_insert _).2 (.inr h)
  rcases registerVault_cases m vaultId md req with h | ⟨-, -, h, -⟩ | ⟨-, -, h, -⟩ <;> rw [h]
  · exact .refl m
  · exact ⟨List.prefix_rfl, hins, rfl, rfl⟩
  · exact ⟨List.prefix_append _ _, hins, rfl, rfl⟩

theorem createRewardVault_retains {σ : Type} (dlv : DLVManager σ) (m : RewardVaultManager) (st : σ)
    (kp : Bytes × Bytes) (amt : UInt64) (tid : String) (dt : UInt64)
    (rec : AList (fun _ : String => Ratio)) (rs : State) (now : UInt64) :
    m.Retains (m.createRewardVault dlv st kp amt tid dt rec rs now).2.1 := by
  rcases (createRewardVault_cases dlv m st kp amt tid dt rec rs now).2 with ⟨-, h⟩ | ⟨v, s, -, h⟩
  · rw [h]; exact .refl m
  · rw [show (m.createRewardVault dlv st kp amt tid dt rec rs now).2.1 = _ from congrArg Prod.snd h]
    exact registerVault_retains m v _ _

theorem processReceipt_retains (blake3 : Bytes → Hash32) (m : RewardVaultManager)
    (r : StorageReceipt) : m.Retains (m.processReceipt blake3 r).2 := by
  rw [processReceipt_eq]
  split
  all_goals first | exact .refl m | exact ⟨List.prefix_rfl, fun _ h => h, rfl, rfl⟩

theorem updateRateSchedule_retains (m : RewardVaultManager) (s : RateSchedule) :
    m.Retains (m.updateRateSchedule s).2 := by
  unfold updateRateSchedule
  split
  · exact .refl m
  · exact ⟨List.prefix_rfl, fun _ h => h, rfl, rfl⟩

theorem getVault_isSome {m : RewardVaultManager} {v : String} (h : v ∈ m.vaultRegistry.data)
    (hp : m.vaultRegistry.poisoned = false) : (m.getVault v).toOption.isSome := by
  obtain ⟨md, hmd⟩ := Option.isSome_iff_exists.1 (AList.lookup_isSome.2 h)
  simp [getVault, Lock.acquire, hp, hmd, Except.toOption]

end RewardVaultManager

namespace RewardsNode
variable {σ : Type} (blake3 : Bytes → Hash32) (dlv : DLVManager σ)

/-- While every task is idle, a step of a task changes nothing: a tick partitions an empty queue,
and there is no ready request to process and no result to send. -/
theorem step_task_of_idle (n : RewardsNode σ) (hn : ∀ p ∈ n.processors, p.Idle) (i : ℕ)
    (now : UInt64) :
    n.step blake3 dlv (.tick i now) = n ∧ n.step blake3 dlv (.processNext i now) = n ∧
      n.step blake3 dlv (.send i) = n := by
  cases h : n.processors[i]? with
  | none => simp [step, h]
  | some p =>
    have hp := hn p (List.getElem?_mem h)
    have ht := DistributionProcessor.tick_of_idle hp now
    obtain ⟨q, c, tp, ps⟩ := p
    obtain ⟨rfl, rfl, rfl⟩ := hp
    refine ⟨?_, by simp [step, h], by simp [step, h]⟩
    simp only [step, h, ht, set_of_getElem?_eq h]
    split <;> rfl

/-- One event from a node whose tasks are idle: the tasks stay idle, tasks are only added, and the
manager retains what it held. -/
theorem step_of_idle (n : RewardsNode σ) (hn : ∀ p ∈ n.processors, p.Idle) (e : NodeEvent) :
    let n' := n.step blake3 dlv e
    (∀ p ∈ n'.processors, p.Idle) ∧ n.processors <+: n'.processors ∧ n.manager.Retains n'.manager := by
  cases e with
  | createRewardVault kp amt tid dt rec rs now =>
    exact ⟨hn, List.prefix_rfl, createRewardVault_retains dlv _ _ _ _ _ _ _ _ _⟩
  | processReceipt r => exact ⟨hn, List.prefix_rfl, processReceipt_retains blake3 _ r⟩
  | updateRateSchedule s => exact ⟨hn, List.prefix_rfl, updateRateSchedule_retains _ s⟩
  | initializeManager =>
    refine ⟨fun p hp => ?_, List.prefix_append _ _, .refl _⟩
    rcases List.mem_append.1 hp with hp | hp
    · exact hn p hp
    · rw [List.mem_singleton.1 hp]; exact startDistributionProcessor_idle _
  | tick i now => rw [(step_task_of_idle blake3 dlv n hn i now).1]; exact ⟨hn, List.prefix_rfl, .refl _⟩
  | processNext i now =>
    rw [(step_task_of_idle blake3 dlv n hn i now).2.1]; exact ⟨hn, List.prefix_rfl, .refl _⟩
  | send i => rw [(step_task_of_idle blake3 dlv n hn i 0).2.2]; exact ⟨hn, List.prefix_rfl, .refl _⟩

/-- Every run from a node whose tasks are idle keeps them idle: no task ever holds a request, so
`process_distribution` is never called and nothing is sent; tasks are only added, and the manager
retains every request and vault. -/
theorem run_of_idle (n : RewardsNode σ) (hn : ∀ p ∈ n.processors, p.Idle) (es : List NodeEvent) :
    let n' := n.run blake3 dlv es
    (∀ p ∈ n'.processors, p.Idle) ∧ n.processors <+: n'.processors ∧ n.manager.Retains n'.manager := by
  induction es generalizing n with
  | nil => exact ⟨hn, List.prefix_rfl, .refl _⟩
  | cons e es ih =>
    obtain ⟨h₁, h₂, h₃⟩ := step_of_idle blake3 dlv n hn e
    obtain ⟨h₁', h₂', h₃'⟩ := ih _ h₁
    exact ⟨h₁', h₂.trans h₂', h₃.trans h₃'⟩

/-! ### The node without its tasks -/

/-- The manager alone, as if `initialize` spawned nothing: a call on the manager changes it and
the DLV manager's state as in `step`, and every other event changes nothing. -/
def managerStep (m : RewardVaultManager) (st : σ) : NodeEvent → RewardVaultManager × σ
  | .createRewardVault kp amt tid dt rec rs now => (m.createRewardVault dlv st kp amt tid dt rec rs now).2
  | .processReceipt receipt => ((m.processReceipt blake3 receipt).2, st)
  | .updateRateSchedule s => ((m.updateRateSchedule s).2, st)
  | _ => (m, st)

/-- The events of a run applied to the manager alone. -/
def managerRun : RewardVaultManager → σ → List NodeEvent → RewardVaultManager × σ
  | m, st, [] => (m, st)
  | m, st, e :: es =>
    let r := managerStep blake3 dlv m st e
    managerRun r.1 r.2 es

/-- While every task is idle, one event changes the manager and the DLV manager's state as the
manager alone would. -/
theorem step_managerStep (n : RewardsNode σ) (hn : ∀ p ∈ n.processors, p.Idle) (e : NodeEvent) :
    ((n.step blake3 dlv e).manager, (n.step blake3 dlv e).dlvState) =
      managerStep blake3 dlv n.manager n.dlvState e := by
  have ht := step_task_of_idle blake3 dlv n hn
  cases e with
  | tick i now => rw [(ht i now).1]; rfl
  | processNext i now => rw [(ht i now).2.1]; rfl
  | send i => rw [(ht i 0).2.2]; rfl
  | _ => rfl

/-- The tasks `initialize` spawns never change the node: from a node whose tasks are idle (a
node that has not initialized, for one), every interleaving of calls on the manager, `initialize`
calls, ticks, processing steps and sends leaves the manager and the DLV manager's state exactly
as the calls on the manager alone leave them, so no task ever unlocks or claims a vault, changes
a vault's status or publishes a result, and every task stays idle. -/
theorem tasks_never_change_node (n : RewardsNode σ) (hn : ∀ p ∈ n.processors, p.Idle)
    (es : List NodeEvent) :
    ((n.run blake3 dlv es).manager, (n.run blake3 dlv es).dlvState) =
        managerRun blake3 dlv n.manager n.dlvState es ∧
      ∀ p ∈ (n.run blake3 dlv es).processors, p.Idle := by
  induction es generalizing n with
  | nil => exact ⟨rfl, hn⟩
  | cons e es ih =>
    obtain ⟨h, hp⟩ := ih _ (step_of_idle blake3 dlv n hn e).1
    refine ⟨?_, hp⟩
    rw [run, h, managerRun, ← step_managerStep blake3 dlv n hn e]

/-- A node that has not started. -/
theorem tasks_never_change_node_new :
    let blake3 : Bytes → Hash32 := fun _ => ⟨List.replicate 32 0, rfl⟩
    let n : RewardsNode SampleDlvState := ⟨new, [], ⟨[], [], []⟩⟩
    let es := [NodeEvent.initializeManager, .tick 0 0, .processNext 0 0, .send 0]
    (∀ p ∈ n.processors, p.Idle) ∧
      ((n.run blake3 (sampleDlv false toString) es).manager,
          (n.run blake3 (sampleDlv false toString) es).dlvState) =
        managerRun blake3 (sampleDlv false toString) n.manager n.dlvState es ∧
        ∀ p ∈ (n.run blake3 (sampleDlv false toString) es).processors, p.Idle :=
  ⟨fun _ h => (by cases h), tasks_never_change_node _ _ _ (fun _ h => by cases h) _⟩

end RewardsNode

namespace RewardsNode
variable (blake3 : Bytes → Hash32)

/-- A vault created before `initialize` and due at time 0 is never handed to `process_distribution`,
whatever follows: its request stays in the manager's queue, which no task reads, every task's
ready list stays empty, and the channel receives nothing. -/
theorem due_request_never_processed (es : List NodeEvent) :
    let dlv := sampleDlv false fun _ => "v"
    let create := NodeEvent.createRewardVault ([], []) 1000 "" 0
      ((∅ : AList _).insert "" ⟨1000000⟩) ⟨[]⟩ 0
    let n := run blake3 dlv ⟨new, [], ⟨[], [], []⟩⟩ ([create, .initializeManager]++es)
    ⟨"v", ⟨[]⟩, 0⟩ ∈ n.manager.distributionQueue.data ∧
      (∀ p ∈ n.processors, p.toProcess = [] ∧ p.pendingSend = none) ∧
      n.manager.distributionChannel = [] := by
  have hc := sampleDlv_createRewardVault false (fun _ => "v") new ⟨[], [], []⟩ ([], []) 1000 "" 0
    ((∅ : AList _).insert "" ⟨1000000⟩) ⟨[]⟩ 0 (by decide) rfl rfl
  intro dlv create n
  simp only [n, run_append]
  generalize hn₂ : run blake3 dlv ⟨new, [], ⟨[], [], []⟩⟩ [create, .initializeManager] = n₂
  simp only [run, step, dlv, create, hc] at hn₂
  obtain ⟨h₁, -, h₃⟩ := run_of_idle blake3 dlv n₂
    (by rw [← hn₂]; simpa using startDistributionProcessor_idle _) es
  exact ⟨h₃.queue_prefix.subset (by rw [← hn₂]; simp [new]), fun p hp => (h₁ p hp).2,
    by rw [h₃.channel_eq, ← hn₂]; rfl⟩

/-- A vault created after `initialize` is missing from the registry of the task started there,
whatever follows: the manager's `get_vault` finds it, the task's copy answers `NotFound`. -/
theorem later_vault_missing_from_task (es : List NodeEvent) :
    let dlv := sampleDlv false fun _ => "v"
    let create := NodeEvent.createRewardVault ([], []) 1000 "" 0
      ((∅ : AList _).insert "" ⟨1000000⟩) ⟨[]⟩ 0
    let n := run blake3 dlv ⟨new, [], ⟨[], [], []⟩⟩ ([.initializeManager, create]++es)
    (n.manager.getVault "v").toOption.isSome ∧
      (n.processors.head?.map fun p => p.selfClone.getVault "v") =
        some (.error (.NotFound "Vault v")) := by
  have hc := sampleDlv_createRewardVault false (fun _ => "v") new ⟨[], [], []⟩ ([], []) 1000 "" 0
    ((∅ : AList _).insert "" ⟨1000000⟩) ⟨[]⟩ 0 (by decide) rfl rfl
  intro dlv create n
  simp only [n, run_append]
  generalize hn₂ : run blake3 dlv ⟨new, [], ⟨[], [], []⟩⟩ [.initializeManager, create] = n₂
  simp only [run, step, dlv, create, hc] at hn₂
  obtain ⟨-, ⟨l, hl⟩, h₃⟩ := run_of_idle blake3 dlv n₂
    (by rw [← hn₂]; simpa using startDistributionProcessor_idle _) es
  refine ⟨getVault_isSome (h₃.registered "v" ?_) (h₃.registry_poisoned.trans ?_), ?_⟩
  · rw [← hn₂]; exact (AList.mem_insert _).2 (.inl rfl)
  · rw [← hn₂]; rfl
  · rw [← hl, ← hn₂]; rfl

end RewardsNode

/-! ### The rewards a node reports -/

/-- The schedule in force after an event: the one `update_rate_schedule` installs, or the one
before. -/
def NodeEvent.scheduleAfter (s : RateSchedule) : NodeEvent → RateSchedule
  | .updateRateSchedule s' => s'
  | _ => s

/-- What an event files in the receipt registry: the receipt of a `process_receipt` that
verifies. -/
def NodeEvent.filedReceipts (blake3 : Bytes → Hash32) : NodeEvent → List StorageReceipt
  | .processReceipt r => if (verifyReceipt blake3 r).toBool then [r] else []
  | _ => []

/-- The end of a creation touches neither the receipts nor the schedule. -/
theorem RewardVaultManager.registerVault_rewardsData (m : RewardVaultManager) (vaultId : String)
    (md : VaultMetadata) (req : DistributionRequest) :
    (m.registerVault vaultId md req).2.receiptRegistry = m.receiptRegistry ∧
      (m.registerVault vaultId md req).2.rateSchedule = m.rateSchedule := by
  rcases registerVault_cases m vaultId md req with h | ⟨-, -, h, -⟩ | ⟨-, -, h, -⟩ <;> rw [h] <;>
    exact ⟨rfl, rfl⟩

theorem RewardVaultManager.createRewardVault_rewardsData {σ : Type} (dlv : DLVManager σ)
    (m : RewardVaultManager) (st : σ) (kp : Bytes × Bytes) (amt : UInt64) (tid : String)
    (dt : UInt64) (rec : AList (fun _ : String => Ratio)) (rs : State) (now : UInt64) :
    (m.createRewardVault dlv st kp amt tid dt rec rs now).2.1.receiptRegistry = m.receiptRegistry ∧
      (m.createRewardVault dlv st kp amt tid dt rec rs now).2.1.rateSchedule = m.rateSchedule := by
  rcases (createRewardVault_cases dlv m st kp amt tid dt rec rs now).2 with ⟨-, h⟩ | ⟨v, s, -, h⟩
  · rw [h]; exact ⟨rfl, rfl⟩
  · rw [show (m.createRewardVault dlv st kp amt tid dt rec rs now).2.1 = _ from congrArg Prod.snd h]
    exact registerVault_rewardsData m v _ _

namespace RewardsNode
variable {σ : Type} (blake3 : Bytes → Hash32) (dlv : DLVManager σ)

/-- What one event does to the data `calculate_node_rewards` reads: the locks stay sound, the
schedule is the one the event installs, and each node's receipts gain what the event files. -/
theorem managerStep_rewards (m : RewardVaultManager) (st : σ) (e : NodeEvent)
    (hr : m.receiptRegistry.poisoned = false) (hs : m.rateSchedule.poisoned = false) :
    let m' := (managerStep blake3 dlv m st e).1
    m'.receiptRegistry.poisoned = false ∧ m'.rateSchedule.poisoned = false ∧
      m'.rateSchedule.data = e.scheduleAfter m.rateSchedule.data ∧
      ∀ N, (m'.receiptRegistry.data.lookup N).getD [] =
        (m.receiptRegistry.data.lookup N).getD []++(e.filedReceipts blake3).filter (·.nodeId = N) := by
  cases e with
  | createRewardVault kp amt tid dt rec rs now =>
    obtain ⟨h₁, h₂⟩ := createRewardVault_rewardsData dlv m st kp amt tid dt rec rs now
    simp [managerStep, h₁, h₂, hr, hs, NodeEvent.scheduleAfter, NodeEvent.filedReceipts]
  | processReceipt r =>
    simp only [managerStep, processReceipt_eq, NodeEvent.scheduleAfter, NodeEvent.filedReceipts, hr]
    cases verifyReceipt blake3 r with
    | error e => simp [Except.toBool, hr, hs]
    | ok b => simp [Except.toBool, hs, lookup_appendReceipt, List.filter_cons]
  | updateRateSchedule s =>
    simp [managerStep, updateRateSchedule, Lock.acquire, hr, hs, NodeEvent.scheduleAfter,
      NodeEvent.filedReceipts]
  | _ => simp [managerStep, hr, hs, NodeEvent.scheduleAfter, NodeEvent.filedReceipts]

/-- The same over any run of the node from idle tasks. -/
theorem run_rewards (n : RewardsNode σ) (hn : ∀ p ∈ n.processors, p.Idle)
    (hr : n.manager.receiptRegistry.poisoned = false) (hs : n.manager.rateSchedule.poisoned = false)
    (es : List NodeEvent) :
    let m' := (n.run blake3 dlv es).manager
    m'.receiptRegistry.poisoned = false ∧ m'.rateSchedule.poisoned = false ∧
      m'.rateSchedule.data = es.foldl NodeEvent.scheduleAfter n.manager.rateSchedule.data ∧
      ∀ N, (m'.receiptRegistry.data.lookup N).getD [] = (n.manager.receiptRegistry.data.lookup N).getD []++
        (es.flatMap (NodeEvent.filedReceipts blake3)).filter (·.nodeId = N) := by
  induction es generalizing n with
  | nil => exact ⟨hr, hs, rfl, fun N => by simp [run]⟩
  | cons e es ih =>
    have hm : (n.step blake3 dlv e).manager = (managerStep blake3 dlv n.manager n.dlvState e).1 :=
      congrArg Prod.fst (step_managerStep blake3 dlv n hn e)
    obtain ⟨hr', hs', hsch, hrec⟩ := managerStep_rewards blake3 dlv n.manager n.dlvState e hr hs
    rw [← hm] at hr' hs' hsch hrec
    obtain ⟨h₁, h₂, h₃, h₄⟩ := ih _ (step_of_idle blake3 dlv n hn e).1 hr' hs'
    refine ⟨h₁, h₂, by rw [List.foldl_cons, ← hsch]; exact h₃, fun N => ?_⟩
    rw [List.flatMap_cons, List.filter_append, ← List.append_assoc, ← hrec]
    exact h₄ N

/-- Whatever else happens on the node (vault creations, `initialize`, and task ticks, processing
steps and sends, in any interleaving), from idle tasks and sound locks `calculate_node_rewards`
runs its `u64` loop over exactly the receipts filed for the node before the run followed by those
of the run's `process_receipt` calls that verified, in call order, under the schedule of the last
`update_rate_schedule`, or the one in force before the run if there was none. -/
theorem node_rewards_from_filed_receipts (n : RewardsNode σ) (hn : ∀ p ∈ n.processors, p.Idle)
    (hr : n.manager.receiptRegistry.poisoned = false) (hs : n.manager.rateSchedule.poisoned = false)
    (es : List NodeEvent) (N : String) (a b : UInt64) :
    (n.run blake3 dlv es).manager.calculateNodeRewardsU64 N a b =
      (nodeRewardsU64 (es.foldl NodeEvent.scheduleAfter n.manager.rateSchedule.data)
        ((n.manager.receiptRegistry.data.lookup N).getD []++
          (es.flatMap (NodeEvent.filedReceipts blake3)).filter (·.nodeId = N))
        a.toNat b.toNat).map .ok := by
  obtain ⟨h₁, h₂, h₃, h₄⟩ := run_rewards blake3 dlv n hn hr hs es
  rw [calculateNodeRewardsU64_eq _ h₁ h₂, h₃, h₄]

/-- A node that has not started, through `initialize`, a schedule update and a tick. -/
theorem node_rewards_from_filed_receipts_new :
    let blake3 : Bytes → Hash32 := fun _ => ⟨List.replicate 32 0, rfl⟩
    let n : RewardsNode SampleDlvState := ⟨new, [], ⟨[], [], []⟩⟩
    let es := [NodeEvent.initializeManager, .updateRateSchedule defaultRateSchedule, .tick 0 0]
    (∀ p ∈ n.processors, p.Idle) ∧ n.manager.receiptRegistry.poisoned = false ∧
      n.manager.rateSchedule.poisoned = false ∧
      (n.run blake3 (sampleDlv false toString) es).manager.calculateNodeRewardsU64 "N" 0 86400 =
        (nodeRewardsU64 (es.foldl NodeEvent.scheduleAfter n.manager.rateSchedule.data)
          ((n.manager.receiptRegistry.data.lookup "N").getD []++
            (es.flatMap (NodeEvent.filedReceipts blake3)).filter (·.nodeId = "N"))
          (0 : UInt64).toNat (86400 : UInt64).toNat).map .ok :=
  ⟨fun _ h => (by cases h), rfl, rfl,
    node_rewards_from_filed_receipts _ _ _ (fun _ h => by cases h) rfl rfl _ _ _ _⟩

end RewardsNode

end DsmStorage.Rewards
