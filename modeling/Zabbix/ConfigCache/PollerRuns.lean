import Zabbix.ConfigCache.PollerExclusion

/-!
# No item is lost by polling

The runs of the polling system.  No iteration of a section can fail, and in
every state of every run each item that is polled is queued once, in the queue
of its poller type, or held once, by one process.
-/

namespace Zabbix.ConfigCache.PollerRuns

open Option

open Algo.BinaryHeap Algo.DirectHeap Algo.HeapFamily Common.History HistoryCache.Queue Library
open Library.Exclusion Library.KeyedTable PollerItems PollerQueues PollerExclusion

def returning : CacheSection → List ItemId
  | .requeueItems requests =>
    (requests.filter fun request => request.errcode ≠ .fail).map RequeueRequest.itemid
  | .requeueUnreachableItems itemids => itemids
  | .getPollerItems .. | .getIpmiPollerItems .. | .rescheduleItems .. => []

/-- What a section is going to return is held by its process, or has been returned already. -/
def Owns (items : Items) (held : Nat → List ItemId) (process : Nat) (itemids : List ItemId) :
    Prop :=
  ∀ itemid ∈ itemids, itemid ∈ held process ∨ ¬IsTaken items itemid

/-- What holds in every state of a run. -/
structure Consistent {Custom : Type} (env : Environment Custom) (state : State) : Prop where
  accounted : Accounted env state.config state.held
  owned : ∀ process cacheSection, state.writer = some (process, cacheSection) →
    Owns state.config.items state.held process (returning cacheSection)

variable {Custom : Type} {env : Environment Custom} {state next : State}
variable {config : DcConfig} {held : Nat → List ItemId} {process : Nat}

theorem consistent_writer (accounted : Accounted env config held) {cacheSection : CacheSection}
    (owns : Owns config.items held process (returning cacheSection)) :
    Consistent env ⟨config, held, some (process, cacheSection)⟩ where
  accounted := accounted
  owned other otherSection same := by
    obtain ⟨rfl, rfl⟩ := Prod.mk.inj (some.inj same)
    exact owns

theorem owns_nil {items : Items} : Owns items held process [] :=
  fun _ member => absurd member List.not_mem_nil

theorem leave_consistent (consistent : Consistent env state) : Consistent env (leave state) where
  accounted := consistent.accounted
  owned _ _ same := nomatch same

theorem owns_release {before after : Items} {itemid : ItemId} {rest : List ItemId}
    (owns : Owns before held process rest)
    (taken : ∀ other, IsTaken after other → IsTaken before other ∧ other ≠ itemid) :
    Owns after (release held process itemid) process rest := by
  intro other member
  by_cases isTaken : IsTaken after other
  · obtain ⟨wasTaken, different⟩ := taken other isTaken
    apply Or.inl
    rw [release, Function.update_self, List.mem_erase_of_ne different]
    exact (owns other member).resolve_right fun free => free wasTaken
  · exact Or.inr isTaken

variable (consistent : Consistent env state)

include consistent

/-- No iteration fails, and each keeps every item accounted for. -/
theorem iterate_spec {cacheSection : CacheSection}
    (isWriter : state.writer = some (process, cacheSection)) (time suggested : Int) :
    ∃ next, iterate env state process time suggested cacheSection = some next ∧
      Consistent env next := by
  have accounted := consistent.accounted
  have owns := consistent.owned process cacheSection isWriter
  cases cacheSection with
  | getPollerItems pollerType now maxItems num dcItemPrev =>
    rw [iterate]
    cases isNext : nextItem env state.config pollerType now maxItems num dcItemPrev with
    | none => exact ⟨_, rfl, leave_consistent consistent⟩
    | some found =>
      obtain ⟨itemid, dcItem⟩ := found
      obtain ⟨minimum, isMin, rfl, isItem⟩ := nextItem_spec isNext
      obtain ⟨after, taken, isTaken, isAccounted⟩ := takeMin_spec accounted isMin isItem now
        (decidePollerItem_keepsHost env pollerType now) process
      dsimp only
      rw [isTaken, map_some]
      cases taken with
      | true => exact ⟨_, rfl, consistent_writer isAccounted owns_nil⟩
      | false =>
        refine ⟨_, rfl, isAccounted, ?_⟩
        intro other otherSection same
        obtain ⟨rfl, rfl⟩ := Prod.mk.inj (some.inj (isWriter.symm.trans same))
        exact owns_nil
  | getIpmiPollerItems now itemsNum num =>
    rw [iterate]
    cases isNext : nextItem env state.config .ipmi now itemsNum num none with
    | none => exact ⟨_, rfl, leave_consistent consistent⟩
    | some found =>
      obtain ⟨itemid, dcItem⟩ := found
      obtain ⟨minimum, isMin, rfl, isItem⟩ := nextItem_spec isNext
      obtain ⟨after, taken, isTaken, isAccounted⟩ := takeMin_spec accounted isMin isItem now
        (decideIpmiItem_keepsHost env now) process
      dsimp only
      rw [isTaken, map_some]
      cases taken with
      | true => exact ⟨_, rfl, consistent_writer isAccounted owns_nil⟩
      | false =>
        refine ⟨_, rfl, isAccounted, ?_⟩
        intro other otherSection same
        obtain ⟨rfl, rfl⟩ := Prod.mk.inj (some.inj (isWriter.symm.trans same))
        exact owns_nil
  | requeueItems requests =>
    cases requests with
    | nil => exact ⟨_, rfl, leave_consistent consistent⟩
    | cons request rest =>
      rw [iterate]
      by_cases skipped : request.errcode = .fail
      · rw [dcRequeueItems, if_pos skipped, if_pos skipped]
        refine ⟨_, rfl, consistent_writer accounted ?_⟩
        simpa [returning, skipped] using owns
      · have split : returning (.requeueItems (request :: rest)) =
            request.itemid :: returning (.requeueItems rest) := by
          simp [returning, skipped]
        rw [split, Owns, List.forall_mem_cons] at owns
        obtain ⟨after, requeued, isAccounted, taken⟩ := dcRequeueItems_spec accounted
          request time skipped owns.1
        rw [requeued, map_some, if_neg skipped]
        exact ⟨_, rfl, consistent_writer isAccounted (owns_release owns.2 taken)⟩
  | requeueUnreachableItems itemids =>
    cases itemids with
    | nil => exact ⟨_, rfl, leave_consistent consistent⟩
    | cons itemid rest =>
      rw [iterate]
      rw [returning, Owns, List.forall_mem_cons] at owns
      obtain ⟨after, requeued, isAccounted, taken⟩ := zbxDcRequeueUnreachableItems_spec
        accounted itemid time owns.1
      rw [requeued, map_some]
      exact ⟨_, rfl, consistent_writer isAccounted (owns_release owns.2 taken)⟩
  | rescheduleItems itemids nextcheck =>
    cases itemids with
    | nil => exact ⟨_, rfl, leave_consistent consistent⟩
    | cons itemid rest =>
      rw [iterate]
      obtain ⟨after, rescheduled, isAccounted⟩ := zbxDcRescheduleItems_spec accounted
        itemid nextcheck
      rw [rescheduled, map_some]
      exact ⟨_, rfl, consistent_writer isAccounted owns_nil⟩

theorem enter_consistent {allowed : Prop}
    [Decidable allowed] {cacheSection : CacheSection}
    (executed : enter state process allowed cacheSection = some next)
    (owns : allowed → ∀ itemid ∈ returning cacheSection, itemid ∈ state.held process) :
    Consistent env next := by
  unfold enter at executed
  split_ifs at executed with mayEnter
  obtain rfl := some.inj executed
  exact consistent_writer consistent.accounted
    fun itemid member => Or.inl (owns mayEnter.2 itemid member)

/-- Neither availability nor maintenance has a part in where an item belongs. -/
theorem updateHost_consistent {hostid : HostId}
    {old new : ZbxDcHost} (found : state.config.hosts.lookup hostid = some old)
    (same : new.status = old.status) :
    Consistent env { state with
      config := { state.config with hosts := state.config.hosts.insert hostid new } } where
  accounted :=
    { filed := consistent.accounted.filed
      exclusive := consistent.accounted.exclusive
      valid := fun itemid item isFound => by
        obtain ⟨valid, settled⟩ := consistent.accounted.valid itemid item isFound
        exact ⟨itemValid_kept (hostsKept_insert found same) valid, settled⟩ }
  owned := consistent.owned

theorem step_consistent {label : Label}
    (executed : step env state label = some next) : Consistent env next := by
  cases label with
  | getPollerItems process pollerType now =>
    exact enter_consistent consistent executed fun _ _ member => nomatch member
  | getIpmiPollerItems process now itemsNum =>
    exact enter_consistent consistent executed fun _ _ member => nomatch member
  | requeueItems process requests =>
    apply enter_consistent consistent executed
    intro allowed itemid member
    obtain ⟨request, isRequest, rfl⟩ := List.mem_map.mp member
    rw [List.mem_filter, decide_eq_true_iff] at isRequest
    exact (allowed request isRequest.1).resolve_left isRequest.2
  | requeueUnreachableItems process itemids =>
    exact enter_consistent consistent executed fun allowed => allowed
  | rescheduleItems process itemids nextcheck =>
    exact enter_consistent consistent executed fun _ _ member => nomatch member
  | iterate time suggested =>
    obtain ⟨⟨process, cacheSection⟩, isWriter, iterated⟩ := bind_eq_some_iff.mp executed
    obtain ⟨result, isResult, isConsistent⟩ := iterate_spec consistent isWriter time suggested
    rw [isResult, some.injEq] at iterated
    exact iterated ▸ isConsistent
  | updateHost hostid host =>
    simp only [step] at executed
    split at executed
    next old isFree isHost =>
      split_ifs at executed with kept
      obtain rfl := some.inj executed
      exact updateHost_consistent consistent isHost kept.1
    · cases executed

omit consistent

/-! ## The initial state -/

theorem syncItems_spec (flags : ItemId → UpdateFlags) (now : Int) (itemids : List ItemId)
    (accounted : Accounted env config held) :
    ∃ after, syncItems env flags now itemids config = some after ∧ Accounted env after held := by
  induction itemids generalizing config with
  | nil => exact ⟨config, rfl, accounted⟩
  | cons itemid rest ih =>
    unfold syncItems
    cases found : config.items.lookup itemid with
    | none => exact ih accounted
    | some item =>
      dsimp only
      obtain ⟨valid, -⟩ := accounted.valid itemid item found
      obtain ⟨host, isHost, -⟩ := valid.monitored
      rw [isHost]
      dsimp only
      obtain ⟨after, synced, returned⟩ := dcSyncItem_returned accounted.filed found valid
        host (flags itemid) now
      rw [synced, bind_some]
      apply ih
      apply accounted_keep accounted returned
      unfold IsTaken
      simp [found]

theorem initial_consistent (env : Environment Custom) (configuration : Configuration) :
    ∃ state, initial env configuration = some state ∧ Consistent env state := by
  have nowhere (itemid : ItemId) (item : ZbxDcItem)
      (found : configuration.items.lookup itemid = some item) := configuration.fresh itemid item found
  have unplaced (itemid : ItemId) : place configuration.items itemid = none := by
    rw [place]
    cases found : configuration.items.lookup itemid with
    | none => rfl
    | some item => rw [bind_some, placeOf, (nowhere itemid item found).1]; rfl
  have accounted : Accounted env
      ⟨configuration.items, configuration.hosts, fun _ => { direct := true }⟩ fun _ => [] := by
    constructor
    · exact filed_congr filed_empty unplaced
    · constructor
      · exact fun _ => List.nodup_nil
      · exact fun _ _ _ member => absurd member List.not_mem_nil
      · intro itemid
        constructor
        · rintro ⟨item, found, isTaken⟩
          rw [(nowhere itemid item found).1] at isTaken
          cases isTaken
        · rintro ⟨_, member⟩
          exact absurd member List.not_mem_nil
    · intro itemid item found
      obtain ⟨isNowhere, unpolled⟩ := nowhere itemid item found
      obtain ⟨active, monitored⟩ := configuration.enabled itemid item found
      refine ⟨⟨active, monitored, ?_, ?_⟩, fun _ => unpolled⟩
      · simp [unpolled]
      · simp [isNowhere]
  obtain ⟨after, synced, isAccounted⟩ := syncItems_spec configuration.flags configuration.now
    configuration.items.keys accounted
  unfold initial
  rw [synced, map_some]
  exact ⟨_, rfl, isAccounted, by simp⟩

/-! ## Runs -/

theorem run_consistent {configuration : Configuration} {labels : List Label}
    (executed : (initial env configuration).bind
      (fun start => Transition.run (step env) start labels) = some state) :
    Consistent env state := by
  obtain ⟨start, isStart, isRun⟩ := bind_eq_some_iff.mp executed
  obtain ⟨first, isFirst, consistent⟩ := initial_consistent env configuration
  rw [isFirst, some.injEq] at isStart
  exact Transition.run_invariant (fun _ _ _ isConsistent => step_consistent isConsistent)
    (isStart ▸ consistent) isRun

/-- A section that has the lock is never stopped by an exit in a heap function. -/
theorem iterate_enabled {configuration : Configuration} {labels : List Label}
    (executed : (initial env configuration).bind
      (fun start => Transition.run (step env) start labels) = some state)
    (locked : state.writer ≠ none) (time suggested : Int) :
    ∃ next, step env state (.iterate time suggested) = some next := by
  obtain ⟨⟨process, cacheSection⟩, isWriter⟩ := ne_none_iff_exists'.mp locked
  obtain ⟨result, isResult, -⟩ := iterate_spec (run_consistent executed) isWriter time suggested
  exact ⟨result, by rw [step, isWriter]; exact isResult⟩

/--
In every state of every run each item with a poller type is in the queue of that
type, once, and in no other queue and no process's list; or it is with one
process, once, and in no queue.
-/
theorem pollerItems_run (env : Environment Custom) (configuration : Configuration)
    (labels : List Label) (state : State)
    (executed : (initial env configuration).bind
      (fun start => Transition.run (step env) start labels) = some state)
    (itemid : ItemId) (item : ZbxDcItem)
    (found : state.config.items.lookup itemid = some item) (polled : item.pollerType ≠ none) :
    (item.location = .queue ∧ (∀ process, itemid ∉ state.held process) ∧
        ∃ pollerType, item.pollerType = some pollerType ∧
          (keys (state.config.queues pollerType)).count itemid = 1 ∧
          ∀ other, other ≠ pollerType → itemid ∉ keys (state.config.queues other)) ∨
      (item.location = .poller ∧ (∀ pollerType, itemid ∉ keys (state.config.queues pollerType)) ∧
        ∃ process, (state.held process).count itemid = 1 ∧
          ∀ other, other ≠ process → itemid ∉ state.held other) := by
  have accounted := (run_consistent executed).accounted
  obtain ⟨-, settled⟩ := accounted.valid itemid item found
  have isPlace : place state.config.items itemid = placeOf item := by
    rw [place, found, bind_some]
  have isTaken : IsTaken state.config.items itemid ↔ item.location = .poller := by
    unfold IsTaken
    simp [found]
  cases isLocation : item.location with
  | nowhere => exact absurd (settled isLocation) polled
  | queue =>
    refine Or.inl ⟨rfl, ?_, ?_⟩
    · intro process member
      have held := isTaken.mp ((accounted.exclusive.exact itemid).mpr ⟨process, member⟩)
      rw [isLocation] at held
      cases held
    · obtain ⟨pollerType, isType⟩ := ne_none_iff_exists'.mp polled
      rw [placeOf, if_pos isLocation, isType] at isPlace
      exact ⟨pollerType, isType, filed_once accounted.filed isPlace⟩
  | poller =>
    refine Or.inr ⟨rfl, ?_, ?_⟩
    · intro pollerType member
      rw [accounted.filed.exact, isPlace, placeOf, isLocation] at member
      cases member
    · obtain ⟨process, member⟩ := (accounted.exclusive.exact itemid).mp (isTaken.mpr isLocation)
      refine ⟨process, List.count_eq_one_of_mem (accounted.exclusive.distinct process) member, ?_⟩
      intro other different isOther
      exact different (accounted.exclusive.apart other process itemid isOther member)

/-- One process of each kind, and an item's next check a minute after the last. -/
def sampleEnvironment : Environment Unit where
  configPollerForks := 5
  configIpmipollerForks := 0
  configPingerForks := 1
  configJavapollerForks := 0
  configTimeout := 3
  refreshUnsupported := 600
  interfacesSnmp := ∅
  snmpitems := ∅
  jmxitems := ∅
  parseItemKey _ := none
  zbxIntervalPreproc _ := some (60, ())
  calculateItemNextcheck _ _ simpleInterval _ now := now + simpleInterval
  calculateItemNextcheckUnreachable _ _ disableUntil := disableUntil

/-- An agent item and a ping item of one host. -/
def sampleConfiguration : Configuration where
  items :=
    (AList.insert 1 ⟨10, 20, .zabbix, "agent.ping", "1m", 0, .active, .normal, 0, .nowhere, none,
      .normal, true⟩ ∅ : Items).insert 2
        ⟨10, 20, .simple, "icmpping[,3]", "1m", 0, .active, .normal, 0, .nowhere, none, .normal, true⟩
  hosts := AList.insert 10 {} ∅
  flags _ := {}
  now := 0
  fresh itemid item found := by
    rw [lookup_insert_eq, lookup_insert_eq] at found
    split_ifs at found
    · obtain rfl := some.inj found
      exact ⟨rfl, rfl⟩
    · obtain rfl := some.inj found
      exact ⟨rfl, rfl⟩
    · cases found
  enabled itemid item found := by
    rw [lookup_insert_eq, lookup_insert_eq] at found
    split_ifs at found
    · obtain rfl := some.inj found
      exact ⟨rfl, {}, rfl, rfl⟩
    · obtain rfl := some.inj found
      exact ⟨rfl, {}, rfl, rfl⟩
    · cases found

/-- The agent item is asked for while it is taken, and returned after a network error. -/
def sampleRun : List Label :=
  [.getPollerItems 0 .normal 60, .iterate 60 1, .iterate 60 1, .rescheduleItems 3 [1, 2] 61,
    .iterate 61 1, .iterate 61 1, .iterate 61 1,
    .updateHost 10 { zabbix := ⟨61, 76⟩ }, .getPollerItems 1 .pinger 61, .iterate 61 1,
    .iterate 61 1, .requeueItems 0 [⟨1, .normal, 61, .networkError⟩], .iterate 62 1]

theorem pollerItems_sampleRun :
    ∃ state item,
      (initial sampleEnvironment sampleConfiguration).bind
          (fun start => Transition.run (step sampleEnvironment) start sampleRun) = some state ∧
        state.config.items.lookup 1 = some item ∧ item.pollerType ≠ none ∧
        ((item.location = .queue ∧ (∀ process, 1 ∉ state.held process) ∧
            ∃ pollerType, item.pollerType = some pollerType ∧
              (keys (state.config.queues pollerType)).count 1 = 1 ∧
              ∀ other, other ≠ pollerType → 1 ∉ keys (state.config.queues other)) ∨
          (item.location = .poller ∧ (∀ pollerType, 1 ∉ keys (state.config.queues pollerType)) ∧
            ∃ process, (state.held process).count 1 = 1 ∧
              ∀ other, other ≠ process → 1 ∉ state.held other)) := by
  have polls : (((initial sampleEnvironment sampleConfiguration).bind
      (fun start => Transition.run (step sampleEnvironment) start sampleRun)).bind
        fun state => (state.config.items.lookup 1).bind ZbxDcItem.pollerType) =
          some .unreachable := by
    rfl
  obtain ⟨state, executed, isType⟩ := bind_eq_some_iff.mp polls
  obtain ⟨item, found, isUnreachable⟩ := bind_eq_some_iff.mp isType
  have polled : item.pollerType ≠ none := by
    rw [isUnreachable]
    exact nofun
  exact ⟨state, item, executed, found, polled, pollerItems_run sampleEnvironment
    sampleConfiguration sampleRun state executed 1 item found polled⟩

theorem iterate_enabled_sampleRun :
    ∃ state next, (initial sampleEnvironment sampleConfiguration).bind
        (fun start => Transition.run (step sampleEnvironment) start
          [.getPollerItems 0 .normal 60]) = some state ∧
      step sampleEnvironment state (.iterate 60 1) = some next := by
  have holds : ((initial sampleEnvironment sampleConfiguration).bind
      (fun start => Transition.run (step sampleEnvironment) start
        [.getPollerItems 0 .normal 60])).map (fun state => state.writer.isSome) = some true := by
    rfl
  obtain ⟨state, executed, isLocked⟩ := map_eq_some_iff.mp holds
  obtain ⟨next, stepped⟩ := iterate_enabled executed
    (ne_none_iff_isSome.mpr isLocked) 60 1
  exact ⟨state, next, executed, stepped⟩

end Zabbix.ConfigCache.PollerRuns
