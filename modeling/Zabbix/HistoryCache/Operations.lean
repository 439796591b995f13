import Zabbix.HistoryCache.Invariant

/-!
# The operations keep the invariant

One lemma for each section or loop of the history cache: it does not exit, it
keeps `Sound` with the reference counts it leaves, and it changes the number of
queued values as described.
-/

namespace Zabbix.HistoryCache.Operations

open List Option

open Common.History Records Queue HistoryCache.System Invariant Library.KeyedTable Algo.BinaryHeap

variable {held read : ItemId → Nat} {cache : ZbxDcCache} {log : Log}

/-- Whether an item of the index can be processed by the syncer that holds it. -/
def available (cache : ZbxDcCache) (itemid : ItemId) : Bool :=
  (hcGetItem cache itemid).any fun item => item.status = .normal

theorem available_congr {other : ZbxDcCache} {itemid : ItemId}
    (same : hcGetItem other itemid = hcGetItem cache itemid) :
    available other itemid = available cache itemid := by
  rw [available, same, available]

/-! ## Collectors -/

/-- The items of the index, which a syncer can hold, stay there as they are. -/
def StatusKept (cache next : ZbxDcCache) : Prop :=
  ∀ itemid, (hcGetItem cache itemid).isSome →
    (hcGetItem next itemid).isSome ∧ available next itemid = available cache itemid

theorem StatusKept.refl (cache : ZbxDcCache) : StatusKept cache cache :=
  fun _ present => ⟨present, rfl⟩

theorem StatusKept.trans {first second third : ZbxDcCache}
    (before : StatusKept first second) (after : StatusKept second third) :
    StatusKept first third := by
  intro itemid present
  obtain ⟨stays, same⟩ := before itemid present
  obtain ⟨staysLater, sameLater⟩ := after itemid stays
  exact ⟨staysLater, sameLater.trans same⟩

theorem StatusKept.of_getItem {next : ZbxDcCache} {itemid : ItemId}
    {old : HcItem} (new : HcItem)
    (found : hcGetItem cache itemid = some old) (sameStatus : new.status = old.status)
    (items : ∀ other, hcGetItem next other =
      if other = itemid then some new else hcGetItem cache other) :
    StatusKept cache next := by
  intro other present
  rw [available, available, items]
  split_ifs with same
  · subst same
    simp [found, sameStatus]
  · exact ⟨present, rfl⟩

theorem append_sound (sound : Sound held read cache log)
    (collector : Nat) (itemValue : DcItemValue) (data : HcData) :
    ∃ next, hcAppendData cache itemValue.itemid data = some next ∧
      Sound held read next (log ++ [.queued collector itemValue data]) ∧
      next.historyNum = cache.historyNum ∧
      valuesTotal next = valuesTotal cache + 1 ∧
      StatusKept cache next := by
  obtain ⟨next, appended, plain, num, values, shape⟩ :=
    hcAppendData_spec sound.plain itemValue.itemid data
      (sound.items itemValue.itemid).keyed
  refine ⟨next, appended, ?_, num, values, ?_⟩
  · have before := sound.items itemValue.itemid
    rcases shape with ⟨item, found, items, counts⟩ | ⟨absent, items, counts⟩
    · refine sound.change itemValue.itemid (plain.trans sound.plain.symm)
        (fun other different => ?_) ?_
      · simp [viewOf, items, counts, different, different.symm, accept, removal, answer]
      · simpa [viewOf, items, counts, accept, removal, answer] using
          before.append found data
    · refine sound.change itemValue.itemid (plain.trans sound.plain.symm)
        (fun other different => ?_) ?_
      · simp [viewOf, items, counts, different, different.symm, accept, removal, answer]
      · simpa [viewOf, items, counts, accept, removal, answer] using
          before.add absent data
  · rcases shape with ⟨item, found, items, -⟩ | ⟨absent, items, -⟩
    · exact StatusKept.of_getItem (item.append data) found rfl items
    · intro other present
      have different : other ≠ itemValue.itemid := by
        rintro rfl
        simp [absent] at present
      have same : hcGetItem next other = hcGetItem cache other := by
        rw [items, if_neg different]
      exact ⟨same ▸ present, available_congr same⟩

theorem mergeTarget_eq_some {itemValue : DcItemValue} {item : HcItem}
    (target : mergeTarget cache itemValue = some item) :
    hcGetItem cache itemValue.itemid = some item ∧
      hasFlag zbxDcFlagNovalue itemValue.flags ∧
      hasFlag zbxDcFlagMeta itemValue.flags ∧ item.later ≠ [] := by
  unfold mergeTarget at target
  cases found : hcGetItem cache itemValue.itemid with
  | none => simp [found] at target
  | some stored =>
    simp only [found, ite_none_right_eq_some, some.injEq] at target
    obtain ⟨condition, rfl⟩ := target
    exact ⟨rfl, condition⟩

theorem merge_sound (sound : Sound held read cache log)
    (collector : Nat) {itemValue : DcItemValue} {item : HcItem} (head : HcData)
    (target : mergeTarget cache itemValue = some item) :
    Sound held read (cache.setItem (item.merge itemValue))
        (log ++ [.dropped collector itemValue head]) ∧
      valuesTotal (cache.setItem (item.merge itemValue)) = valuesTotal cache ∧
      StatusKept cache (cache.setItem (item.merge itemValue)) := by
  obtain ⟨found, -, -, several⟩ := mergeTarget_eq_some target
  have key : item.itemid = itemValue.itemid :=
    (sound.items itemValue.itemid).keyed item found
  have mergedKey : (item.merge itemValue).itemid = itemValue.itemid := key
  refine ⟨?_, ?_, ?_⟩
  · refine sound.change itemValue.itemid rfl (fun other different => ?_) ?_
    · simp [viewOf, mergedKey, different, different.symm, accept, removal, answer]
    · simpa [viewOf, mergedKey, accept, removal, answer] using
        (sound.items itemValue.itemid).merge found several itemValue
  · have exchanged := valuesTotal_setItem (item.merge itemValue) (mergedKey ▸ found)
    simp only [HcItem.merge] at exchanged ⊢
    omega
  · refine StatusKept.of_getItem (item.merge itemValue) found rfl
      (fun other => ?_)
    rw [hcGetItem_setItem, mergedKey]

/-! ## Popping -/

theorem findMin_of_nonempty {Data : Type*} {heap : Heap Data}
    (nonempty : ¬zbxBinaryHeapEmpty heap) :
    ∃ elem, zbxBinaryHeapFindMin heap = some elem := by
  unfold zbxBinaryHeapEmpty at nonempty
  unfold zbxBinaryHeapFindMin
  cases shape : heap.elems with
  | nil => simp [shape] at nonempty
  | cons elem rest => exact ⟨elem, rfl⟩

theorem available_of_queued (sound : Sound held read cache log) {itemid : ItemId}
    (queued : queueCount cache itemid ≠ 0) :
    available cache itemid := by
  have itemSound := sound.items itemid
  have once := itemSound.once
  have balanced := itemSound.balanced
  simp only [viewOf] at once balanced
  cases found : hcGetItem cache itemid with
  | none =>
    simp only [found, isSome_none, Bool.false_eq_true, if_false] at balanced
    omega
  | some item =>
    have notBusy : item.status ≠ .busy := by
      intro busy
      have isHeld := itemSound.busyHeld item found busy
      simp only [viewOf] at isHeld
      omega
    cases status : item.status with
    | normal => simp [available, found, status]
    | busy => exact absurd status notBusy

theorem popItem_sound (sound : Sound held read cache log)
    (nonempty : ¬zbxBinaryHeapEmpty cache.historyQueue) :
    ∃ itemid next, hcPopItem cache = some (itemid, next) ∧
      Sound (fun other => held other + if other = itemid then 1 else 0) read next log ∧
      next.historyItems = cache.historyItems ∧
      next.historyNum = cache.historyNum ∧
      available cache itemid := by
  obtain ⟨elem, found⟩ := findMin_of_nonempty nonempty
  obtain ⟨queue, removed⟩ :=
    removeMin_isSome (hcQueueElemCompareFunc cache.historyItems) found
  refine ⟨elem.key, { cache with historyQueue := queue }, ?_, ?_, rfl, rfl, ?_⟩
  · simp [hcPopItem, found, removed]
  · have counts (other : ItemId) : queueCount cache other =
        queueCount { cache with historyQueue := queue } other +
          if other = elem.key then 1 else 0 := by
      have permuted := (removeMin_elems_perm found removed).map Elem.key
      simp only [queueCount, permuted.count_eq, map_cons, count_cons,
        beq_iff_eq, eq_comm (a := elem.key)]
    refine sound.change elem.key (removeMin_direct removed) (fun other different => ?_) ?_
    · have count := counts other
      rw [if_neg different, Nat.add_zero] at count
      simp only [viewOf, ← count, if_neg different, Nat.add_zero]
      rfl
    · have count := counts elem.key
      rw [if_pos rfl] at count
      have popped := (sound.items elem.key).pop (by simp only [viewOf]; omega)
      simp only [viewOf, count, Nat.add_sub_cancel] at popped
      simp only [viewOf, if_true]
      exact popped
  · have member : elem ∈ cache.historyQueue.elems := mem_of_getElem? found
    have queued : queueCount cache elem.key ≠ 0 :=
      Nat.ne_of_gt (count_pos_iff.mpr (List.mem_map_of_mem member))
    exact available_of_queued sound queued

theorem popItemsLoop_sound (sound : Sound held read cache log)
    (room : Nat) (popped : List ItemId) :
    ∃ taken next, hcPopItemsLoop room cache popped = some (popped ++ taken, next) ∧
      Sound (fun itemid => held itemid + taken.count itemid) read next log ∧
      next.historyItems = cache.historyItems ∧
      next.historyNum = cache.historyNum ∧
      (∀ itemid ∈ taken, available cache itemid) ∧
      (taken = [] → room = 0 ∨ zbxBinaryHeapEmpty cache.historyQueue) := by
  induction room generalizing held cache popped with
  | zero =>
    exact ⟨[], cache, by simp [hcPopItemsLoop], by simpa using sound, rfl, rfl, by simp,
      fun _ => Or.inl rfl⟩
  | succ room ih =>
    by_cases empty : zbxBinaryHeapEmpty cache.historyQueue
    · exact ⟨[], cache, by simp [hcPopItemsLoop, empty], by simpa using sound,
        rfl, rfl, by simp, fun _ => Or.inr empty⟩
    · obtain ⟨itemid, middle, first, middleSound, items, num, isAvailable⟩ :=
        popItem_sound sound empty
      obtain ⟨taken, next, later, nextSound, itemsLater, numLater, available', -⟩ :=
        ih middleSound (popped ++ [itemid])
      refine ⟨itemid :: taken, next, ?_, ?_, itemsLater.trans items,
        numLater.trans num, ?_, fun none => by cases none⟩
      · simp [hcPopItemsLoop, empty, first, later]
      · refine nextSound.congr rfl (fun other => ?_)
        simp only [viewOf, count_cons, beq_iff_eq, eq_comm (a := itemid)]
        congr 1
        omega
      · intro other member
        rcases mem_cons.mp member with rfl | member
        · exact isAvailable
        · have same : hcGetItem middle other = hcGetItem cache other := by
            rw [hcGetItem, items, hcGetItem]
          rw [← available_congr same]
          exact available' other member

/-! ## Marking items busy -/

theorem lockTriggers_nil {batch : List ItemId} {next : ZbxDcCache} {lockedNum : Nat}
    (done : lockTriggersByHistoryItems [] cache batch = some (next, lockedNum)) :
    lockedNum = 0 := by
  induction batch with
  | nil =>
    simp only [lockTriggersByHistoryItems, some.injEq, Prod.mk.injEq] at done
    exact done.2.symm
  | cons itemid rest ih =>
    rw [lockTriggersByHistoryItems] at done
    cases found : hcGetItem cache itemid with
    | none => simp [found] at done
    | some item => exact ih (by simpa [found] using done)

theorem lockTriggers_sound (locked : List ItemId)
    (sound : Sound held read cache log)
    {batch : List ItemId} (nodup : batch.Nodup)
    (heldBatch : ∀ itemid ∈ batch, held itemid ≠ 0)
    (unread : ∀ itemid ∈ batch, read itemid = 0)
    (allAvailable : ∀ itemid ∈ batch, available cache itemid) :
    ∃ next lockedNum,
      lockTriggersByHistoryItems locked cache batch = some (next, lockedNum) ∧
      Sound held read next log ∧
      valuesTotal next = valuesTotal cache ∧
      next.historyNum = cache.historyNum ∧
      (∀ itemid, itemid ∉ batch → hcGetItem next itemid = hcGetItem cache itemid) ∧
      batch.countP (available next) + lockedNum = batch.length := by
  induction batch generalizing cache with
  | nil =>
    exact ⟨cache, 0, rfl, sound, rfl, rfl, fun _ _ => rfl, rfl⟩
  | cons itemid rest ih =>
    obtain ⟨fresh, nodupRest⟩ := nodup_cons.mp nodup
    have isHeld := heldBatch itemid mem_cons_self
    obtain ⟨item, found⟩ := (sound.items itemid).found_of_held isHeld
    have found' : hcGetItem cache itemid = some item := found
    have key : item.itemid = itemid := (sound.items itemid).keyed item found
    by_cases skipped : hasFlag zbxDcFlagNovalue item.tail.flags ∨ itemid ∉ locked
    · obtain ⟨next, lockedNum, done, nextSound, values, num, others, count⟩ :=
        ih sound nodupRest
          (fun other member => heldBatch other (mem_cons_of_mem _ member))
          (fun other member => unread other (mem_cons_of_mem _ member))
          (fun other member => allAvailable other (mem_cons_of_mem _ member))
      refine ⟨next, lockedNum, ?_, nextSound, values, num, ?_, ?_⟩
      · rw [lockTriggersByHistoryItems, found']
        simp only [if_pos skipped, done]
      · intro other absent
        exact others other (fun member => absent (mem_cons_of_mem _ member))
      · have isAvailable : available next itemid := by
          rw [available_congr (others itemid fresh)]
          exact allAvailable itemid mem_cons_self
        rw [countP_cons_of_pos isAvailable, length_cons]
        omega
    · have busyKey : ({ item with status := .busy } : HcItem).itemid = itemid := key
      have busySound :
          Sound held read (cache.setItem { item with status := .busy }) log := by
        refine sound.change itemid rfl (fun other different => ?_) ?_
        · simp [viewOf, key, different]
        · have marked := (sound.items itemid).busy found isHeld
            (unread itemid mem_cons_self)
          simpa [viewOf, key] using marked
      have unchanged (other : ItemId) (different : other ≠ itemid) :
          hcGetItem (cache.setItem { item with status := .busy }) other =
            hcGetItem cache other := by
        rw [hcGetItem_setItem, busyKey, if_neg different]
      have differs (other : ItemId) (member : other ∈ rest) : other ≠ itemid := by
        rintro rfl
        exact fresh member
      obtain ⟨next, lockedNum, done, nextSound, values, num, others, count⟩ :=
        ih busySound nodupRest
          (fun other member => heldBatch other (mem_cons_of_mem _ member))
          (fun other member => unread other (mem_cons_of_mem _ member))
          (fun other member => by
            rw [available_congr (unchanged other (differs other member))]
            exact allAvailable other (mem_cons_of_mem _ member))
      refine ⟨next, lockedNum + 1, ?_, nextSound, values.trans ?_, num, ?_, ?_⟩
      · rw [lockTriggersByHistoryItems, found']
        simp only [if_neg skipped, done]
        rfl
      · have exchanged :=
          valuesTotal_setItem { item with status := .busy } (busyKey ▸ found')
        dsimp only at exchanged
        omega
      · intro other absent
        obtain ⟨different, absentRest⟩ := not_or.mp (mt mem_cons.mpr absent)
        rw [others other absentRest, unchanged other different]
      · have taken : ¬available next itemid := by
          rw [available_congr (others itemid fresh), available, hcGetItem_setItem,
            busyKey, if_pos rfl]
          simp
        rw [countP_cons_of_neg taken, length_cons]
        omega

/-! ## Pushing -/

def removalEvents (syncer : Nat) (itemid : ItemId) (removed : Option HcData) : Log :=
  (removed.map (Event.removed syncer itemid)).toList

/-- The reference counts after one item was given back. -/
def released (references : ItemId → Nat) (itemid : ItemId) : ItemId → Nat :=
  fun other => if other = itemid then 0 else references other

theorem pushItem_sound (syncer : Nat) {itemid : ItemId}
    (sound : Sound held read cache log)
    (isHeld : held itemid ≠ 0)
    (processed : available cache itemid → read itemid ≠ 0) :
    ∃ next removed, hcPushItem cache itemid = some (next, removed) ∧
      Sound (released held itemid) (released read itemid) next
        (log ++ removalEvents syncer itemid removed) ∧
      next.historyNum = cache.historyNum ∧
      valuesTotal next + (if available cache itemid then 1 else 0) = valuesTotal cache ∧
      ∀ other, other ≠ itemid → hcGetItem next other = hcGetItem cache other := by
  have before := sound.items itemid
  obtain ⟨item, found⟩ := before.found_of_held isHeld
  have found' : hcGetItem cache itemid = some item := found
  have key : item.itemid = itemid := before.keyed item found
  have isAvailable : available cache itemid = decide (item.status = .normal) := by
    simp [available, found']
  -- queueing a new version of the item, whatever the version is
  have requeue (version : HcItem) (versionKey : version.itemid = itemid) :
      ∃ queued, hcQueueItem (cache.setItem version) itemid = some queued ∧
        queued.historyNum = cache.historyNum ∧
        queued.historyQueue.direct = cache.historyQueue.direct ∧
        valuesTotal queued + item.valuesNum = valuesTotal cache + version.valuesNum ∧
        (∀ other, hcGetItem queued other =
          if other = itemid then some version else hcGetItem cache other) ∧
        ∀ other, queueCount queued other =
          queueCount cache other + if other = itemid then 1 else 0 := by
    have plain : (cache.setItem version).historyQueue.direct = false := sound.plain
    obtain ⟨queued, queueing⟩ := hcQueueItem_isSome plain itemid
    obtain ⟨items, num, direct, counts⟩ := hcQueueItem_spec queueing
    refine ⟨queued, queueing, num, direct, ?_, fun other => ?_, counts⟩
    · rw [valuesTotal, items]
      exact valuesTotal_setItem version (versionKey ▸ found')
    · rw [hcGetItem, items]
      exact versionKey ▸ hcGetItem_setItem cache version other
  cases status : item.status with
  | busy =>
    obtain ⟨queued, queueing, num, direct, values, items, counts⟩ :=
      requeue { item with status := .normal } key
    refine ⟨queued, none, ?_, ?_, num, ?_, fun other different => ?_⟩
    · simp [hcPushItem, found', status, queueing]
    · refine sound.change itemid direct (fun other different => ?_) ?_
      · simp [viewOf, items, counts, released, different, removalEvents]
      · simpa [viewOf, items, counts, released, removalEvents] using
          before.pushBusy found isHeld status
    · dsimp only at values
      simp only [isAvailable, status, reduceCtorEq, decide_false, Bool.false_eq_true, if_false]
      omega
    · rw [items, if_neg different]
  | normal =>
    have isRead := processed (by simp [isAvailable, status])
    cases shape : item.later with
    | nil =>
      refine ⟨{ cache with historyItems := cache.historyItems.erase itemid },
        some item.tail, ?_, ?_, rfl, ?_, fun other different => ?_⟩
      · simp [hcPushItem, found', status, shape]
      · have items (other : ItemId) :
            hcGetItem
                { cache with historyItems := cache.historyItems.erase itemid } other =
              if other = itemid then none else hcGetItem cache other :=
          lookup_erase_eq _ _ _
        refine sound.change itemid rfl (fun other different => ?_) ?_
        · simp only [viewOf, items, released, removalEvents, map_some,
            toList_some, acceptedOf_concat, removedOf_concat,
            returnedOf_concat, accept, removal, answer, if_neg different,
            if_neg different.symm, toList_none, append_nil]
          rfl
        · have removed := before.removeLast found isHeld isRead status shape
          simp only [viewOf, items, released, removalEvents, map_some,
            toList_some, acceptedOf_concat, removedOf_concat,
            returnedOf_concat, accept, removal, answer, if_true,
            toList_none, append_nil]
          exact removed
      · have one : item.valuesNum = 1 := by
          simpa [HcItem.values, shape] using before.counted item found
        have split := total_eq_add_erase HcItem.valuesNum found'
        simp only [isAvailable, status, decide_true, if_true, valuesTotal]
        rw [split, one]
        omega
      · exact (lookup_erase_eq _ _ _).trans (if_neg different)
    | cons next later =>
      obtain ⟨queued, queueing, num, direct, values, items, counts⟩ :=
        requeue { item with valuesNum := item.valuesNum - 1, tail := next, later } key
      refine ⟨queued, some item.tail, ?_, ?_, num, ?_, fun other different => ?_⟩
      · rw [status] at queueing
        simp [hcPushItem, found', status, shape, queueing]
      · refine sound.change itemid direct (fun other different => ?_) ?_
        · simp [viewOf, items, counts, released, different, different.symm,
            removalEvents, accept, removal, answer]
        · simpa [viewOf, items, counts, released, removalEvents, accept, removal,
            answer] using before.removeTail found isHeld isRead status shape
      · dsimp only at values
        simp only [isAvailable, status, decide_true, if_true]
        omega
      · rw [items, if_neg different]

theorem pushItems_sound (syncer : Nat) {batch : List ItemId} (nodup : batch.Nodup)
    (sound : Sound held read cache log)
    (heldBatch : ∀ itemid ∈ batch, held itemid ≠ 0)
    (processed : ∀ itemid ∈ batch, available cache itemid → read itemid ≠ 0) :
    ∃ next events, hcPushItems syncer cache log batch = some (next, log ++ events) ∧
      Sound (fun itemid => if itemid ∈ batch then 0 else held itemid)
        (fun itemid => if itemid ∈ batch then 0 else read itemid)
        next (log ++ events) ∧
      next.historyNum = cache.historyNum ∧
      valuesTotal next + batch.countP (available cache) = valuesTotal cache ∧
      (∀ itemid, itemid ∉ batch → hcGetItem next itemid = hcGetItem cache itemid) ∧
      ∀ event ∈ events, ∃ itemid data, event = .removed syncer itemid data := by
  induction batch generalizing held read cache log with
  | nil =>
    refine ⟨cache, [], by simp [hcPushItems], ?_, rfl, by simp, fun _ _ => rfl, by simp⟩
    simpa using sound
  | cons itemid rest ih =>
    obtain ⟨fresh, nodupRest⟩ := nodup_cons.mp nodup
    have differs (other : ItemId) (member : other ∈ rest) : other ≠ itemid := by
      rintro rfl
      exact fresh member
    obtain ⟨middle, removed, first, middleSound, num, values, others⟩ :=
      pushItem_sound syncer sound (heldBatch itemid mem_cons_self)
        (processed itemid mem_cons_self)
    obtain ⟨next, events, later, nextSound, numLater, valuesLater, othersLater, shape⟩ :=
      ih nodupRest middleSound
        (fun other member => by
          rw [released, if_neg (differs other member)]
          exact heldBatch other (mem_cons_of_mem _ member))
        (fun other member isAvailable => by
          rw [released, if_neg (differs other member)]
          rw [available_congr (others other (differs other member))] at isAvailable
          exact processed other (mem_cons_of_mem _ member) isAvailable)
    refine ⟨next, removalEvents syncer itemid removed ++ events, ?_, ?_,
      numLater.trans num, ?_, fun other absent => ?_, fun event member => ?_⟩
    · rw [hcPushItems, first, ← append_assoc]
      exact later
    · rw [← append_assoc]
      refine nextSound.congr rfl (fun other => ?_)
      simp only [viewOf, released, mem_cons]
      by_cases same : other = itemid <;> simp [same]
    · have counts : rest.countP (available middle) = rest.countP (available cache) := by
        apply countP_congr
        intro other member
        rw [available_congr (others other (differs other member))]
      rw [counts] at valuesLater
      rw [countP_cons]
      push_cast
      split_ifs at values ⊢ <;> omega
    · obtain ⟨different, absentRest⟩ := not_or.mp (mt mem_cons.mpr absent)
      rw [othersLater other absentRest, others other different]
    · rcases mem_append.mp member with member | member
      · cases removed with
        | none => simp [removalEvents] at member
        | some data => exact ⟨itemid, data, by simpa [removalEvents] using member⟩
      · exact shape event member

end Zabbix.HistoryCache.Operations
