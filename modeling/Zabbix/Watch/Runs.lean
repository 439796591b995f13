import Zabbix.Library.Sweep
import Zabbix.Watch.Mirroring

/-!
# Runs of the manager

Where every changed key had a source, the subscriptions mirror the requests after each call of
`Manager.Update`.  An item that is changed from a key without a source keeps that key.
-/

namespace Zabbix.Watch.Runs

open Library.Transition Library.Sweep Manager Mirroring List Option

variable {Key Source Filter Output Error : Type} [DecidableEq Source]
  {provider : Provider Key Source Filter Error} {call : Call Key Output}
  {base : Table Source (Table Subscriber (EventWriter Output Filter))}
  {work : Work Key Source Filter Output Error}

/-! ## Items that are not requested -/

def keptItem (now : Nat) (item : Item Key) : Option (Item Key) :=
  if item.updated = now then some item else none

theorem Holds.eraseItem (holds : Holds provider call base work) {itemid : Nat}
    (unsubscribed : ∀ source, ¬ Subscribed work.subscriptions source (subscriberOf call itemid)) :
    Holds provider call base { work with items := work.items.erase itemid } where
  inPlace source itemid' subscribed := by
    by_cases isSame : itemid' = itemid
    · subst isSame
      exact absurd subscribed (unsubscribed source)
    · obtain ⟨item, isItem, isSource⟩ := holds.inPlace source itemid' subscribed
      exact ⟨item, (AList.lookup_erase_ne isSame).trans isItem, isSource⟩
  others := holds.others
  counted := holds.counted

theorem isTurn_removeUnused :
    IsTurn (fun work itemid => work.items.lookup itemid) (removeUnused provider call)
      (Holds provider call base) (keptItem call.now) := by
  intro work itemid item holds isItem
  have isSource {source : Source}
      (subscribed : Subscribed work.subscriptions source (subscriberOf call itemid)) :
      provider.eventSourceByKey item.key = .ok source := by
    obtain ⟨item', isItem', isSource⟩ := holds.inPlace source itemid subscribed
    obtain rfl := some.inj (isItem.symm.trans isItem')
    exact isSource
  rw [removeUnused, keptItem]
  split_ifs with isUpdated
  · exact ⟨holds, isItem, fun _ _ => rfl⟩
  · refine ⟨?_, AList.lookup_erase _ _, fun other notSame => AList.lookup_erase_ne notSame⟩
    cases found : provider.eventSourceByKey item.key with
    | error error =>
      refine Holds.eraseItem holds fun source subscribed => ?_
      rw [isSource subscribed] at found
      cases found
    | ok source =>
      refine Holds.eraseItem (holds.deleteSubscriber source itemid) fun source' subscribed => ?_
      obtain ⟨isThere, notDeleted⟩ := subscribed_deleteSubscriber.mp subscribed
      rw [isSource isThere] at found
      exact notDeleted ⟨Except.ok.inj found, rfl⟩

/-! ## Sources without subscribers -/

/-- What is left of the subscribers of a source. -/
def keptSubscribers (sub : Table Subscriber (EventWriter Output Filter)) :
    Option (Table Subscriber (EventWriter Output Filter)) :=
  if sub.keys.length = 0 then none else some sub

theorem isTurn_releaseUnused {items : Table Nat (Item Key)} :
    IsTurn (fun work source => work.subscriptions.lookup source) releaseUnused
      (fun work : Work Key Source Filter Output Error =>
        Holds provider call base work ∧ work.items = items) keptSubscribers := by
  rintro work source sub ⟨holds, isItems⟩ isSub
  rw [releaseUnused, keptSubscribers]
  split_ifs with isEmpty
  · refine ⟨⟨?_, isItems⟩, AList.lookup_erase _ _,
      fun other notSame => AList.lookup_erase_ne notSame⟩
    have same (source' : Source) (subscriber : Subscriber) :
        Subscribed (work.subscriptions.erase source) source' subscriber ↔
          Subscribed work.subscriptions source' subscriber := by
      by_cases isSame : source' = source
      · subst isSame
        have unsubscribed : ¬ (sub.lookup subscriber).isSome = true := by
          rw [AList.lookup_isSome, AList.mem_keys, eq_nil_of_length_eq_zero isEmpty]
          exact not_mem_nil
        simp [Subscribed, AList.lookup_erase, isSub, unsubscribed]
      · simp [Subscribed, AList.lookup_erase_ne isSame]
    exact {
      inPlace := fun source' itemid subscribed =>
        holds.inPlace source' itemid ((same source' _).mp subscribed)
      others := fun source' subscriber isOther =>
        (same source' subscriber).trans (holds.others source' subscriber isOther)
      counted := holds.counted.released isSub }
  · exact ⟨⟨holds, isItems⟩, isSub, fun _ _ => rfl⟩

theorem exists_of_keptSubscribers {sub sub' : Table Subscriber (EventWriter Output Filter)}
    (isKept : keptSubscribers sub = some sub') :
    ∃ subscriber, (sub'.lookup subscriber).isSome = true := by
  rw [keptSubscribers] at isKept
  split_ifs at isKept with isEmpty
  obtain rfl := some.inj isKept
  obtain ⟨subscriber, member⟩ := exists_mem_of_length_pos (Nat.pos_of_ne_zero isEmpty)
  exact ⟨subscriber, AList.lookup_isSome.mpr (AList.mem_keys.mpr member)⟩

/-! ## Calls -/

variable {manager : Manager Key Source Filter Output}

/-- The items of a client, none before its first call. -/
def itemsOf (manager : Manager Key Source Filter Output) (clientid : Nat) : Table Nat (Item Key) :=
  (manager.clients.lookup clientid).getD ∅

/-- Keys that the call changes had a source, and the clock is ahead of items that it drops. -/
structure Allows (provider : Provider Key Source Filter Error)
    (manager : Manager Key Source Filter Output) (call : Call Key Output) : Prop where
  haveSources : KeysHaveSources provider (keyOf (itemsOf manager call.clientid)) call.requests
  isLater : ∀ itemid item, (itemsOf manager call.clientid).lookup itemid = some item →
    requestedKey call.requests itemid = none → item.updated ≠ call.now

/-- The items of the client are those requested, and others have no subscription. -/
structure Fulfils (call : Call Key Output) (manager : Manager Key Source Filter Output) :
    Prop where
  isClient : (manager.clients.lookup call.clientid).isSome = true
  items : keyOf (itemsOf manager call.clientid) = requestedKey call.requests
  unsubscribed : ∀ source itemid, requestedKey call.requests itemid = none →
    ¬ Subscribed manager.subscriptions source (subscriberOf call itemid)

/-- A subscription is under the source of the key of its item. -/
def InPlace (provider : Provider Key Source Filter Error)
    (manager : Manager Key Source Filter Output) : Prop :=
  ∀ source subscriber, Subscribed manager.subscriptions source subscriber →
    ∃ item, (itemsOf manager subscriber.clientid).lookup subscriber.itemid = some item ∧
      provider.eventSourceByKey item.key = .ok source

/-- Subscriptions are in place, and a source was initialised once more than it was released while
it has a subscription, and as often otherwise. -/
structure Mirrors (provider : Provider Key Source Filter Error)
    (manager : Manager Key Source Filter Output) : Prop where
  inPlace : InPlace provider manager
  initialized : ∀ source, (∃ subscriber, Subscribed manager.subscriptions source subscriber) →
    manager.events.count (.initialized source) = manager.events.count (.released source) + 1
  released : ∀ source, (∀ subscriber, ¬ Subscribed manager.subscriptions source subscriber) →
    manager.events.count (.initialized source) = manager.events.count (.released source)

/-- What holds between calls. -/
structure Settled (provider : Provider Key Source Filter Error)
    (manager : Manager Key Source Filter Output) : Prop where
  inPlace : InPlace provider manager
  counted : IsCounted manager.events manager.subscriptions
  subscribed : ∀ source, (manager.subscriptions.lookup source).isSome = true →
    ∃ subscriber, Subscribed manager.subscriptions source subscriber

theorem Settled.mirrors (settled : Settled provider manager) : Mirrors provider manager where
  inPlace := settled.inPlace
  initialized source := by
    rintro ⟨subscriber, sub, isSub, -⟩
    rw [settled.counted source, isSub]
    rfl
  released source unsubscribed := by
    have isNone : ¬ (manager.subscriptions.lookup source).isSome = true := by
      intro isSome
      obtain ⟨subscriber, subscribed⟩ := settled.subscribed source isSome
      exact unsubscribed subscriber subscribed
    rw [settled.counted source, if_neg isNone, Nat.add_zero]

theorem settled_newManager :
    Settled provider (newManager : Manager Key Source Filter Output) where
  inPlace := by
    rintro source subscriber ⟨sub, isSub, -⟩
    cases isSub
  counted source := rfl
  subscribed source isSome := by cases isSome

/-- The manager that is left by a call. -/
def managerOf (work : Work Key Source Filter Output Error)
    (clients : Table Nat (Table Nat (Item Key))) (clientid : Nat) :
    Manager Key Source Filter Output where
  clients := clients.insert clientid work.items
  subscriptions := work.subscriptions
  calls := work.calls
  events := work.events

omit [DecidableEq Source] in
theorem itemsOf_managerOf (clients : Table Nat (Table Nat (Item Key))) (clientid : Nat) :
    itemsOf (managerOf work clients clientid) clientid = work.items := by
  rw [itemsOf, managerOf, AList.lookup_insert]
  rfl

theorem Settled.after (settled : Settled provider manager)
    (holds : Holds provider call manager.subscriptions work)
    (subscribed : ∀ source sub, work.subscriptions.lookup source = some sub →
      ∃ subscriber, (sub.lookup subscriber).isSome = true) :
    Settled provider (managerOf work manager.clients call.clientid) where
  inPlace source subscriber isSubscribed := by
    by_cases isClient : subscriber.clientid = call.clientid
    · have same : subscriber = subscriberOf call subscriber.itemid := by
        rw [subscriberOf, ← isClient]
      rw [isClient, itemsOf_managerOf]
      exact holds.inPlace source _ (same ▸ isSubscribed)
    · have before := (holds.others source subscriber isClient).mp isSubscribed
      obtain ⟨item, isItem, isSource⟩ := settled.inPlace source subscriber before
      refine ⟨item, ?_, isSource⟩
      rw [← isItem, itemsOf, itemsOf, managerOf, AList.lookup_insert_ne isClient]
  counted := holds.counted
  subscribed source isSome := by
    obtain ⟨sub, isSub⟩ := isSome_iff_exists.mp isSome
    obtain ⟨subscriber, isSubscriber⟩ := subscribed source sub isSub
    exact ⟨subscriber, sub, isSub, isSubscriber⟩

theorem fulfils_managerOf {clients : Table Nat (Table Nat (Item Key))}
    (holds : Holds provider call base work) (lookup : ∀ itemid, work.items.lookup itemid =
      (requestedKey call.requests itemid).map fun key => { key, updated := call.now }) :
    Fulfils call (managerOf work clients call.clientid) where
  isClient := by
    rw [managerOf, AList.lookup_insert]
    rfl
  items := by
    rw [itemsOf_managerOf]
    funext itemid
    rw [keyOf, lookup, Option.map_map]
    exact map_id'
  unsubscribed source itemid notRequested subscribed := by
    obtain ⟨item, isItem, -⟩ := holds.inPlace source itemid subscribed
    rw [lookup, notRequested] at isItem
    cases isItem

omit [DecidableEq Source] in
theorem kept_itemAfter (allows : Allows provider manager call) (itemid : Nat) :
    (itemAfter call.now (itemsOf manager call.clientid) call.requests itemid).bind
        (keptItem call.now) =
      (requestedKey call.requests itemid).map fun key => { key, updated := call.now } := by
  rw [itemAfter]
  cases requested : requestedKey call.requests itemid with
  | some key => exact if_pos rfl
  | none =>
    cases isItem : (itemsOf manager call.clientid).lookup itemid with
    | none => rfl
    | some item => exact if_neg (allows.isLater itemid item isItem requested)

variable [DecidableEq Key]

theorem Settled.update (settled : Settled provider manager) (allows : Allows provider manager call) :
    Settled provider (update provider call manager).1 ∧
      Fulfils call (Manager.update provider call manager).1 := by
  have start : Holds provider call manager.subscriptions {
      items := itemsOf manager call.clientid
      subscriptions := manager.subscriptions
      failedEventSources := ∅
      calls := manager.calls
      events := manager.events
      results := [] } := {
    inPlace := fun source itemid subscribed => settled.inPlace source _ subscribed
    others := fun _ _ _ => Iff.rfl
    counted := settled.counted }
  obtain ⟨requested, lookupRequested⟩ := start.processRequests allows.haveSources
  obtain ⟨removed, lookupRemoved⟩ := foldl_table isTurn_removeUnused requested _ (fun _ => rfl)
    (call.order.isPerm _)
  obtain ⟨⟨released, sameItems⟩, lookupReleased⟩ := foldl_table isTurn_releaseUnused
    ⟨removed, rfl⟩ _ (fun _ => rfl) (call.order.isPerm _)
  refine ⟨settled.after released fun source sub isSub => ?_,
    fulfils_managerOf released fun itemid => ?_⟩
  · obtain ⟨_, -, isKept⟩ := bind_eq_some_iff.mp ((lookupReleased source).symm.trans isSub)
    exact exists_of_keptSubscribers isKept
  · refine (congrArg (AList.lookup itemid) sameItems).trans ((lookupRemoved itemid).trans ?_)
    rw [lookupRequested, kept_itemAfter allows]

/-! ## Runs -/

/-- Calls of `Manager.Update` are the steps of a run. -/
def step (provider : Provider Key Source Filter Error)
    (manager : Manager Key Source Filter Output) (call : Call Key Output) :
    Option (Manager Key Source Filter Output) :=
  some (update provider call manager).1

theorem settled_run {calls : List (Call Key Output)} {next : Manager Key Source Filter Output}
    (isGuarded : Guarded (step provider) (Allows provider) newManager calls)
    (executed : run (step provider) newManager calls = some next) : Settled provider next :=
  guarded_run_invariant (fun _ _ _ settled allows isNext =>
    some.inj isNext ▸ (Settled.update settled allows).1) settled_newManager isGuarded executed

/-- After each call of a run whose calls change keys that had a source, the items of the client are
those requested, and the subscriptions mirror the requests. -/
theorem update_mirrors {calls : List (Call Key Output)} {before : Manager Key Source Filter Output}
    (isGuarded : Guarded (step provider) (Allows provider) newManager calls)
    (executed : run (step provider) newManager calls = some before)
    (allows : Allows provider before call) :
    Fulfils call (update provider call before).1 ∧
      Mirrors provider (update provider call before).1 := by
  obtain ⟨settled, fulfils⟩ := (settled_run isGuarded executed).update allows
  exact ⟨fulfils, settled.mirrors⟩

/-- Key 0 has no source, and others have sources of their own. -/
def numbered : Provider Nat Nat Unit Unit where
  eventSourceByKey
    | 0 => .error ()
    | key + 1 => .ok key
  initializeSource _ _ := .ok ()
  newFilter _ _ _ := .ok ()

def inOrder : MapOrder where
  arrange := id
  isPerm _ := List.Perm.refl _

def requestItem (now key : Nat) : Call Nat Unit where
  clientid := 1
  output := ()
  requests := [{ itemid := 5, key }]
  now := now
  order := inOrder

theorem requestedKey_requestItem (now key itemid : Nat) :
    requestedKey (requestItem now key).requests itemid =
      if 5 = itemid then some key else none :=
  rfl

theorem allows_requestItem {manager : Manager Nat Nat Unit Unit} {now key now' key' : Nat}
    (fulfils : Fulfils (requestItem now (key + 1)) manager) :
    Allows numbered manager (requestItem now' key') where
  haveSources := by
    refine ⟨fun remembered isKey _ => ?_, trivial⟩
    have isKey := (congrFun fulfils.items 5).symm.trans isKey
    exact ⟨key, some.inj isKey ▸ rfl⟩
  isLater itemid item isItem notRequested := by
    have isKey := congrFun fulfils.items itemid
    rw [requestedKey_requestItem] at notRequested isKey
    split_ifs at notRequested isKey
    change Option.map _ ((itemsOf manager 1).lookup itemid) = none at isKey
    have isItem : (itemsOf manager 1).lookup itemid = some item := isItem
    rw [isItem] at isKey
    cases isKey

theorem update_mirrors_changed :
    Fulfils (requestItem 1 2) (update numbered (requestItem 1 2)
        (update numbered (requestItem 0 1) newManager).1).1 ∧
      Mirrors numbered (update numbered (requestItem 1 2)
        (update numbered (requestItem 0 1) newManager).1).1 := by
  have first : Allows numbered newManager (requestItem 0 1) :=
    ⟨⟨fun _ isKey => (nomatch isKey), trivial⟩, fun _ _ isItem => (nomatch isItem)⟩
  have isGuarded : Guarded (step numbered) (Allows numbered) newManager [requestItem 0 1] :=
    guarded_cons first rfl trivial
  obtain ⟨-, fulfils⟩ := settled_newManager.update first
  exact update_mirrors isGuarded rfl (allows_requestItem fulfils)

def requestNothing (now : Nat) : Call Nat Unit where
  clientid := 1
  output := ()
  requests := []
  now := now
  order := inOrder

/-- An item that is changed from key 0 keeps it, and its subscription stays when the item goes. -/
theorem not_fulfils_keyWithoutSource :
    (∃ manager, run (step numbered) newManager [requestItem 0 0, requestItem 1 1] = some manager ∧
      ¬ Fulfils (requestItem 1 1) manager ∧ ¬ Mirrors numbered manager) ∧
    ∃ manager, run (step numbered) newManager
        [requestItem 0 0, requestItem 1 1, requestNothing 2] = some manager ∧
      ¬ Fulfils (requestNothing 2) manager := by
  refine ⟨⟨_, rfl, fun fulfils => ?_, fun mirrors => ?_⟩, _, rfl, fun fulfils => ?_⟩
  · exact absurd (congrFun fulfils.items 5) (by decide)
  · obtain ⟨item, isItem, isSource⟩ := mirrors.inPlace 0 { itemid := 5, clientid := 1 } ⟨_, rfl, rfl⟩
    obtain rfl := some.inj isItem
    cases isSource
  · exact fulfils.unsubscribed 0 5 rfl ⟨_, rfl, rfl⟩

end Zabbix.Watch.Runs
