import Zabbix.HistoryCache.System

/-!
# The invariant of the history cache

`ItemView` collects what the cache, the syncers and the log say about one item.
`ItemSound` relates these parts:

* the item is in the index exactly when it is queued or held, and then once;
* the records accepted for it are those removed from it followed by those still
  queued;
* the records returned for it are those removed from it, followed by its tail
  where a syncer has copied it.

Every operation changes the view of one item only, so `Sound` is kept once the
operation is known to keep `ItemSound` there.
-/

namespace Zabbix.HistoryCache.Invariant

open List Option

open Common.History Records Queue HistoryCache.System Library.KeyedTable Algo.BinaryHeap

/-! ## Reading the log -/

def accept (itemid : ItemId) (records : List HcData) : Event → List HcData
  | .queued _ itemValue data =>
    if itemValue.itemid = itemid then records ++ [data] else records
  | .dropped _ itemValue _ =>
    if itemValue.itemid = itemid then updateLast (mergeMeta itemValue) records
    else records
  | _ => records

/--
The records accepted for an item in the order they were added; a dropped record
leaves its meta data in the last one.
-/
def acceptedOf (itemid : ItemId) (log : Log) : List HcData :=
  log.foldl (accept itemid) []

def removal (itemid : ItemId) : Event → Option HcData
  | .removed _ other data => if other = itemid then some data else none
  | _ => none

/-- The copy that was returned for the given item. -/
def answer (itemid : ItemId) : Event → Option ZbxDcHistory
  | .returned _ history => if history.itemid = itemid then some history else none
  | _ => none

/-- The records which a syncer removed from an item, in order. -/
def removedOf (itemid : ItemId) (log : Log) : List HcData :=
  log.filterMap (removal itemid)

/-- The copies which `hc_get_item_values` returned for an item, in order. -/
def returnedOf (itemid : ItemId) (log : Log) : List ZbxDcHistory :=
  log.filterMap (answer itemid)

@[simp]
theorem acceptedOf_concat (itemid : ItemId) (log : Log) (event : Event) :
    acceptedOf itemid (log ++ [event]) = accept itemid (acceptedOf itemid log) event := by
  simp [acceptedOf]

@[simp]
theorem removedOf_concat (itemid : ItemId) (log : Log) (event : Event) :
    removedOf itemid (log ++ [event]) =
      removedOf itemid log ++ (removal itemid event).toList := by
  simp only [removedOf, filterMap_append, filterMap_cons, filterMap_nil]
  cases removal itemid event <;> rfl

@[simp]
theorem returnedOf_concat (itemid : ItemId) (log : Log) (event : Event) :
    returnedOf itemid (log ++ [event]) =
      returnedOf itemid log ++ (answer itemid event).toList := by
  simp only [returnedOf, filterMap_append, filterMap_cons, filterMap_nil]
  cases answer itemid event <;> rfl

/-! ## One item -/

/-- Everything the system knows about one item. -/
structure ItemView where
  item : Option HcItem
  queued : Nat
  held : Nat
  read : Nat
  accepted : List HcData
  removed : List HcData
  returned : List ZbxDcHistory

/-- The queued records of an item, oldest first. -/
def itemValues (item : Option HcItem) : List HcData :=
  (item.map HcItem.values).getD []

/-- The copy of an item that a syncer holds but has not pushed back. -/
def inFlight (itemid : ItemId) (item : Option HcItem) (read : Nat) : List ZbxDcHistory :=
  match item with
  | some item =>
    if item.status = .normal ∧ read ≠ 0 then [hcCopyHistoryData itemid item.tail] else []
  | none => []

structure ItemSound (itemid : ItemId) (view : ItemView) : Prop where
  balanced : view.queued + view.held = if view.item.isSome then 1 else 0
  readHeld : view.read ≤ view.held
  keyed : ∀ item, view.item = some item → item.itemid = itemid
  counted : ∀ item, view.item = some item → item.valuesNum = item.values.length
  busyHeld : ∀ item, view.item = some item → item.status = .busy → view.held ≠ 0
  fifo : view.accepted = view.removed ++ itemValues view.item
  answered :
    view.returned =
      view.removed.map (hcCopyHistoryData itemid) ++ inFlight itemid view.item view.read

variable {itemid : ItemId} {view : ItemView} {item : HcItem}

variable (sound : ItemSound itemid view)

include sound

/-- An item that a syncer holds is in the index. -/
theorem ItemSound.found_of_held (held : view.held ≠ 0) :
    ∃ item, view.item = some item := by
  apply isSome_iff_exists.mp
  by_contra absent
  have balanced := sound.balanced
  rw [if_neg absent] at balanced
  omega

theorem ItemSound.once :
    view.queued + view.held ≤ 1 := by
  have balanced := sound.balanced
  split_ifs at balanced <;> omega

/-- A record is added to an item of the index. -/
theorem ItemSound.append (found : view.item = some item) (data : HcData) :
    ItemSound itemid
      { view with
        item := some (item.append data)
        accepted := view.accepted ++ [data] } where
  balanced := by simpa [found] using sound.balanced
  readHeld := sound.readHeld
  keyed := by
    rintro _ ⟨⟩
    exact sound.keyed item found
  counted := by
    rintro _ ⟨⟩
    have counted := sound.counted item found
    simp only [HcItem.append, HcItem.values, length_cons, length_append, length_nil] at counted ⊢
    omega
  busyHeld := by
    rintro _ ⟨⟩
    exact sound.busyHeld item found
  fifo := by
    simp [sound.fifo, found, itemValues, HcItem.append, HcItem.values]
  answered := by
    have answered := sound.answered
    rw [found] at answered
    exact answered

/-- The first record of an item that is not in the index. -/
theorem ItemSound.add (absent : view.item = none) (data : HcData) :
    ItemSound itemid
      { view with
        item := some { itemid, valuesNum := 1, tail := data }
        queued := view.queued + 1
        accepted := view.accepted ++ [data] } := by
  have balanced := sound.balanced
  have readHeld := sound.readHeld
  simp only [absent, isSome_none, Bool.false_eq_true, if_false] at balanced
  constructor
  · simp only [isSome_some, if_true]
    omega
  · exact readHeld
  · rintro _ ⟨⟩
    rfl
  · rintro _ ⟨⟩
    rfl
  · rintro _ ⟨⟩ busy
    cases busy
  · simp [sound.fifo, absent, itemValues, HcItem.values]
  · have unread : view.read = 0 := by omega
    simpa [absent, inFlight, unread] using sound.answered

theorem ItemSound.merge (found : view.item = some item) (several : item.later ≠ [])
    (itemValue : DcItemValue) :
    ItemSound itemid
      { view with
        item := some (item.merge itemValue)
        accepted := updateLast (mergeMeta itemValue) view.accepted } where
  balanced := by simpa [found] using sound.balanced
  readHeld := sound.readHeld
  keyed := by
    rintro _ ⟨⟩
    exact sound.keyed item found
  counted := by
    rintro _ ⟨⟩
    simpa [HcItem.merge, HcItem.values] using sound.counted item found
  busyHeld := by
    rintro _ ⟨⟩
    exact sound.busyHeld item found
  fifo := by
    have shape : view.accepted = (view.removed ++ [item.tail]) ++ item.later := by
      simp [sound.fifo, found, itemValues, HcItem.values]
    simp only [shape]
    rw [updateLast_append _ _ several]
    simp [itemValues, HcItem.merge, HcItem.values]
  answered := by
    have answered := sound.answered
    rw [found] at answered
    exact answered

theorem ItemSound.pop (queued : view.queued ≠ 0) :
    ItemSound itemid
      { view with queued := view.queued - 1, held := view.held + 1 } where
  balanced := by
    have balanced := sound.balanced
    dsimp only
    omega
  readHeld := Nat.le_succ_of_le sound.readHeld
  keyed := sound.keyed
  counted := sound.counted
  busyHeld _ _ _ := Nat.succ_ne_zero _
  fifo := sound.fifo
  answered := sound.answered

variable (found : view.item = some item)

include found

variable (held : view.held ≠ 0)

include held

theorem ItemSound.busy (unread : view.read = 0) :
    ItemSound itemid { view with item := some { item with status := .busy } } where
  balanced := by simpa [found] using sound.balanced
  readHeld := sound.readHeld
  keyed := by
    rintro _ ⟨⟩
    exact sound.keyed item found
  counted := by
    rintro _ ⟨⟩
    exact sound.counted item found
  busyHeld _ _ _ := held
  fifo := by
    rw [sound.fifo, found]
    rfl
  answered := by
    simpa [found, inFlight, unread] using sound.answered

/-- A syncer copies the tail of an item it holds, unless the item is busy. -/
theorem ItemSound.get (unread : view.read = 0) :
    ItemSound itemid
      { view with
        read := 1
        returned :=
          if item.status = .busy then view.returned
          else view.returned ++ [hcCopyHistoryData itemid item.tail] } where
  balanced := sound.balanced
  readHeld := Nat.one_le_iff_ne_zero.mpr held
  keyed := sound.keyed
  counted := sound.counted
  busyHeld := sound.busyHeld
  fifo := sound.fifo
  answered := by
    have answered := sound.answered
    simp only [found, inFlight, unread, ne_eq, not_true_eq_false, and_false, if_false,
      append_nil] at answered
    cases status : item.status with
    | normal => simp [found, inFlight, status, answered]
    | busy => simp [found, inFlight, status, answered]

theorem ItemSound.pushBusy (busy : item.status = .busy) :
    ItemSound itemid
      { view with
        item := some { item with status := .normal }
        queued := view.queued + 1
        held := 0
        read := 0 } where
  balanced := by
    have once := sound.once
    simp only [isSome_some, if_true]
    omega
  readHeld := le_rfl
  keyed := by
    rintro _ ⟨⟩
    exact sound.keyed item found
  counted := by
    rintro _ ⟨⟩
    exact sound.counted item found
  busyHeld := by
    rintro _ ⟨⟩ busy
    cases busy
  fifo := by
    rw [sound.fifo, found]
    rfl
  answered := by
    simpa [found, inFlight, busy] using sound.answered

theorem ItemSound.removeLast (read : view.read ≠ 0)
    (normal : item.status = .normal) (last : item.later = []) :
    ItemSound itemid
      { view with
        item := none
        held := 0
        read := 0
        removed := view.removed ++ [item.tail] } where
  balanced := by
    have once := sound.once
    simp only [isSome_none, Bool.false_eq_true, if_false]
    omega
  readHeld := le_rfl
  keyed := by simp
  counted := by simp
  busyHeld := by simp
  fifo := by simp [sound.fifo, found, itemValues, HcItem.values, last]
  answered := by
    simp [sound.answered, found, inFlight, normal, read]

theorem ItemSound.removeTail (read : view.read ≠ 0)
    (normal : item.status = .normal)
    {next : HcData} {later : List HcData} (shape : item.later = next :: later) :
    ItemSound itemid
      { view with
        item := some { item with valuesNum := item.valuesNum - 1, tail := next, later }
        queued := view.queued + 1
        held := 0
        read := 0
        removed := view.removed ++ [item.tail] } where
  balanced := by
    have once := sound.once
    simp only [isSome_some, if_true]
    omega
  readHeld := le_rfl
  keyed := by
    rintro _ ⟨⟩
    exact sound.keyed item found
  counted := by
    rintro _ ⟨⟩
    have counted := sound.counted item found
    simp only [HcItem.values, shape, length_cons] at counted ⊢
    omega
  busyHeld := by
    rintro _ ⟨⟩ busy
    rw [normal] at busy
    cases busy
  fifo := by simp [sound.fifo, found, itemValues, HcItem.values, shape]
  answered := by
    simp [sound.answered, found, inFlight, normal, read]

omit held found sound

/-! ## All items -/

/-- What the cache, the reference counts and the log say about an item. -/
def viewOf (held read : ItemId → Nat) (cache : ZbxDcCache) (log : Log)
    (itemid : ItemId) : ItemView where
  item := hcGetItem cache itemid
  queued := queueCount cache itemid
  held := held itemid
  read := read itemid
  accepted := acceptedOf itemid log
  removed := removedOf itemid log
  returned := returnedOf itemid log

structure Sound (held read : ItemId → Nat) (cache : ZbxDcCache) (log : Log) : Prop where
  plain : cache.historyQueue.direct = false
  items : ∀ itemid, ItemSound itemid (viewOf held read cache log itemid)

variable {held read held' read' : ItemId → Nat}
variable {cache other : ZbxDcCache} {log log' : Log}

/-- An operation on one item keeps the invariant when it keeps it there. -/
theorem Sound.change (sound : Sound held read cache log) (changed : ItemId)
    (plain : other.historyQueue.direct = cache.historyQueue.direct)
    (others : ∀ itemid, itemid ≠ changed →
      viewOf held' read' other log' itemid = viewOf held read cache log itemid)
    (kept : ItemSound changed (viewOf held' read' other log' changed)) :
    Sound held' read' other log' where
  plain := plain.trans sound.plain
  items itemid := by
    by_cases same : itemid = changed
    · exact same ▸ kept
    · rw [others itemid same]
      exact sound.items itemid

theorem Sound.congr (sound : Sound held read cache log)
    (plain : other.historyQueue.direct = cache.historyQueue.direct)
    (views : ∀ itemid,
      viewOf held' read' other log' itemid = viewOf held read cache log itemid) :
    Sound held' read' other log' where
  plain := plain.trans sound.plain
  items itemid := by
    rw [views]
    exact sound.items itemid

end Zabbix.HistoryCache.Invariant
