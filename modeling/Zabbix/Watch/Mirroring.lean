import Zabbix.Library.Transition
import Zabbix.Watch.Manager

/-!
# Subscriptions that mirror the requests

Where the key of an item had a source when it is changed, subscriptions are only under the source
of the current key, and a source is initialised while it has subscriptions.
-/

namespace Zabbix.Watch.Mirroring

open Library.Transition Manager List

variable {Key Source Filter Output Error : Type} [DecidableEq Source]
  {provider : Provider Key Source Filter Error} {call : Call Key Output}
  {subscriptions base : Table Source (Table Subscriber (EventWriter Output Filter))}
  {work : Work Key Source Filter Output Error} {source other : Source} {subscriber : Subscriber}

/-! ## Subscriptions -/

def Subscribed (subscriptions : Table Source (Table Subscriber (EventWriter Output Filter)))
    (source : Source) (subscriber : Subscriber) : Prop :=
  ∃ sub, subscriptions.lookup source = some sub ∧ (sub.lookup subscriber).isSome = true

theorem subscribed_insert {sub : Table Subscriber (EventWriter Output Filter)} :
    Subscribed (subscriptions.insert other sub) source subscriber ↔
      (source = other ∧ (sub.lookup subscriber).isSome = true) ∨
        (source ≠ other ∧ Subscribed subscriptions source subscriber) := by
  by_cases isSame : source = other
  · subst isSame
    simp [Subscribed, AList.lookup_insert]
  · simp [Subscribed, AList.lookup_insert_ne isSame, isSame]

theorem subscribed_deleteSubscriber {deleted : Subscriber} :
    Subscribed (deleteSubscriber subscriptions other deleted) source subscriber ↔
      Subscribed subscriptions source subscriber ∧ ¬ (source = other ∧ subscriber = deleted) := by
  rw [deleteSubscriber]
  cases found : subscriptions.lookup other with
  | none =>
    refine (and_iff_left_of_imp ?_).symm
    rintro ⟨sub, isSub, -⟩ ⟨rfl, -⟩
    rw [found] at isSub
    cases isSub
  | some sub =>
    rw [subscribed_insert]
    by_cases isSame : source = other
    · subst isSame
      by_cases isDeleted : subscriber = deleted
      · subst isDeleted
        simp [AList.lookup_erase]
      · simp [AList.lookup_erase_ne isDeleted, Subscribed, found, isDeleted]
    · simp [isSame]

theorem isSome_deleteSubscriber (deleted : Subscriber) :
    ((deleteSubscriber subscriptions other deleted).lookup source).isSome =
      (subscriptions.lookup source).isSome := by
  rw [deleteSubscriber]
  cases found : subscriptions.lookup other with
  | none => rfl
  | some sub =>
    by_cases isSame : source = other
    · subst isSame
      rw [AList.lookup_insert, found]
      rfl
    · rw [AList.lookup_insert_ne isSame]

/-! ## What holds within a call -/

/-- A source was initialised once more than it was released if it has a table of subscribers. -/
def IsCounted (events : List (SourceEvent Source))
    (subscriptions : Table Source (Table Subscriber (EventWriter Output Filter))) : Prop :=
  ∀ source, events.count (.initialized source) = events.count (.released source) +
    if (subscriptions.lookup source).isSome then 1 else 0

/-- What holds at each step of a call: subscriptions of the client are under the sources of the
keys of its items, those of other clients are as they were, and sources are counted. -/
structure Holds (provider : Provider Key Source Filter Error) (call : Call Key Output)
    (base : Table Source (Table Subscriber (EventWriter Output Filter)))
    (work : Work Key Source Filter Output Error) : Prop where
  inPlace : ∀ source itemid, Subscribed work.subscriptions source (subscriberOf call itemid) →
    ∃ item, work.items.lookup itemid = some item ∧
      provider.eventSourceByKey item.key = .ok source
  others : ∀ source subscriber, subscriber.clientid ≠ call.clientid →
    (Subscribed work.subscriptions source subscriber ↔ Subscribed base source subscriber)
  counted : IsCounted work.events work.subscriptions

theorem subscriberOf_inj {itemid itemid' : Nat}
    (same : subscriberOf call itemid = subscriberOf call itemid') : itemid = itemid' :=
  (Subscriber.mk.inj same).1

theorem IsCounted.deleteSubscriber {events : List (SourceEvent Source)}
    (isCounted : IsCounted events subscriptions) (other : Source) (deleted : Subscriber) :
    IsCounted events (deleteSubscriber subscriptions other deleted) := by
  intro source
  rw [isSome_deleteSubscriber, isCounted source]

theorem IsCounted.insert {events : List (SourceEvent Source)}
    {sub sub' : Table Subscriber (EventWriter Output Filter)}
    (isCounted : IsCounted events subscriptions) (isSub : subscriptions.lookup other = some sub) :
    IsCounted events (subscriptions.insert other sub') := by
  intro source
  rw [isCounted source]
  by_cases isSame : source = other
  · subst isSame
    rw [AList.lookup_insert, isSub]
    rfl
  · rw [AList.lookup_insert_ne isSame]

theorem IsCounted.initialized {events : List (SourceEvent Source)}
    (isCounted : IsCounted events subscriptions) (isNew : subscriptions.lookup other = none) :
    IsCounted (events ++ [.initialized other]) (subscriptions.insert other ∅) := by
  intro source
  rw [count_append, count_append, isCounted source]
  by_cases isSame : source = other
  · subst isSame
    simp [AList.lookup_insert, isNew]
  · simp [AList.lookup_insert_ne isSame, Ne.symm isSame]

theorem IsCounted.released {events : List (SourceEvent Source)}
    {sub : Table Subscriber (EventWriter Output Filter)}
    (isCounted : IsCounted events subscriptions) (isSub : subscriptions.lookup other = some sub) :
    IsCounted (events ++ [.released other]) (subscriptions.erase other) := by
  intro source
  rw [count_append, count_append, isCounted source]
  by_cases isSame : source = other
  · subst isSame
    simp [AList.lookup_erase, isSub]
  · simp [AList.lookup_erase_ne isSame, Ne.symm isSame]

/-! ## Requests -/

variable {request : Request Key} {requests : List (Request Key)}

def requestedKey : List (Request Key) → Nat → Option Key
  | [], _ => none
  | request :: requests, itemid =>
    match requestedKey requests itemid with
    | some key => some key
    | none => if request.itemid = itemid then some request.key else none

/-- Every key that is changed by a request had a source. -/
def KeysHaveSources (provider : Provider Key Source Filter Error) :
    (Nat → Option Key) → List (Request Key) → Prop
  | _, [] => True
  | remembered, request :: requests =>
    (∀ key, remembered request.itemid = some key → key ≠ request.key →
      ∃ source, provider.eventSourceByKey key = .ok source) ∧
    KeysHaveSources provider (Function.update remembered request.itemid (some request.key))
      requests

def keyOf (items : Table Nat (Item Key)) (itemid : Nat) : Option Key :=
  (items.lookup itemid).map Item.key

/-- The item that a call leaves, before items that are not requested are removed. -/
def itemAfter (now : Nat) (items : Table Nat (Item Key)) (requests : List (Request Key))
    (itemid : Nat) : Option (Item Key) :=
  match requestedKey requests itemid with
  | some key => some { key, updated := now }
  | none => items.lookup itemid

theorem itemAfter_cons (now : Nat) (items : Table Nat (Item Key)) :
    itemAfter now (items.insert request.itemid { key := request.key, updated := now }) requests =
      itemAfter now items (request :: requests) := by
  funext itemid
  rw [itemAfter, itemAfter, requestedKey]
  cases requestedKey requests itemid with
  | some key => rfl
  | none =>
    by_cases isSame : request.itemid = itemid
    · subst isSame
      simp [AList.lookup_insert]
    · simp [isSame, AList.lookup_insert_ne (Ne.symm isSame)]

theorem keyOf_insert (items : Table Nat (Item Key)) (itemid : Nat) (item : Item Key) :
    keyOf (items.insert itemid item) = Function.update (keyOf items) itemid (some item.key) := by
  funext itemid'
  by_cases isSame : itemid' = itemid
  · subst isSame
    rw [keyOf, AList.lookup_insert, Function.update_self]
    rfl
  · rw [keyOf, AList.lookup_insert_ne isSame, Function.update_of_ne isSame, keyOf]

variable (holds : Holds provider call base work)

include holds

theorem Holds.insertItem {item : Item Key}
    {itemid : Nat} (unchanged : ∀ source,
      Subscribed work.subscriptions source (subscriberOf call itemid) →
        provider.eventSourceByKey item.key = .ok source) :
    Holds provider call base { work with items := work.items.insert itemid item } where
  inPlace source itemid' subscribed := by
    by_cases isSame : itemid' = itemid
    · subst isSame
      exact ⟨item, AList.lookup_insert _, unchanged source subscribed⟩
    · obtain ⟨item', isItem, isSource⟩ := holds.inPlace source itemid' subscribed
      exact ⟨item', (AList.lookup_insert_ne isSame).trans isItem, isSource⟩
  others := holds.others
  counted := holds.counted

theorem Holds.write (itemid : Nat) (error : Error) :
    Holds provider call base (work.write call itemid error) :=
  ⟨holds.inPlace, holds.others, holds.counted⟩

theorem Holds.deleteSubscriber (source : Source)
    (itemid : Nat) :
    Holds provider call base { work with
      subscriptions := deleteSubscriber work.subscriptions source (subscriberOf call itemid) } where
  inPlace source' itemid' subscribed :=
    holds.inPlace source' itemid' (subscribed_deleteSubscriber.mp subscribed).1
  others source' subscriber isOther := by
    rw [subscribed_deleteSubscriber, holds.others source' subscriber isOther]
    refine and_iff_left ?_
    rintro ⟨-, rfl⟩
    exact isOther rfl
  counted := holds.counted.deleteSubscriber source _

theorem Holds.initialized (isNew : work.subscriptions.lookup source = none) (calls : Nat) :
    Holds provider call base { work with
      calls
      events := work.events ++ [.initialized source]
      subscriptions := work.subscriptions.insert source ∅ } := by
  have same (source' : Source) (subscriber : Subscriber) :
      Subscribed (work.subscriptions.insert source ∅) source' subscriber ↔
        Subscribed work.subscriptions source' subscriber := by
    rw [subscribed_insert]
    by_cases isSame : source' = source
    · subst isSame
      simp [Subscribed, isNew]
    · simp [isSame]
  exact {
    inPlace := fun source' itemid subscribed =>
      holds.inPlace source' itemid ((same source' _).mp subscribed)
    others := fun source' subscriber isOther =>
      (same source' subscriber).trans (holds.others source' subscriber isOther)
    counted := holds.counted.initialized isNew }

theorem Holds.createSubscription {sub : Table Subscriber (EventWriter Output Filter)}
    (isSub : work.subscriptions.lookup source = some sub)
    (hasItem : ∃ item, work.items.lookup request.itemid = some item ∧
      provider.eventSourceByKey item.key = .ok source) :
    Holds provider call base (createSubscription provider call work source sub request) ∧
      (Manager.createSubscription provider call work source sub request).items = work.items := by
  rw [Manager.createSubscription]
  split_ifs with isThere
  · exact ⟨holds, rfl⟩
  · cases provider.newFilter work.calls source request.key with
    | error error => exact ⟨⟨holds.inPlace, holds.others, holds.counted⟩, rfl⟩
    | ok filter =>
      refine ⟨⟨?_, ?_, holds.counted.insert isSub⟩, rfl⟩
      · intro source' itemid subscribed
        obtain ⟨rfl, isSome⟩ | ⟨-, before⟩ := subscribed_insert.mp subscribed
        · by_cases isSame : itemid = request.itemid
          · subst isSame
            exact hasItem
          · rw [AList.lookup_insert_ne fun same => isSame (subscriberOf_inj same)] at isSome
            exact holds.inPlace source' itemid ⟨sub, isSub, isSome⟩
        · exact holds.inPlace source' itemid before
      · intro source' subscriber isOther
        rw [← holds.others source' subscriber isOther, subscribed_insert]
        have notSame : subscriber ≠ subscriberOf call request.itemid := by
          rintro rfl
          exact isOther rfl
        by_cases isSame : source' = source
        · subst isSame
          simp [AList.lookup_insert_ne notSame, Subscribed, isSub]
        · simp [isSame]

omit holds

/-! ## One request -/

variable [DecidableEq Key]

variable (holds : Holds provider call base work)

include holds

theorem Holds.updateItem
    (hasSource : ∀ key, keyOf work.items request.itemid = some key → key ≠ request.key →
      ∃ source, provider.eventSourceByKey key = .ok source) :
    Holds provider call base (updateItem provider call work request) ∧
      (Manager.updateItem provider call work request).items =
        work.items.insert request.itemid { key := request.key, updated := call.now } := by
  rw [Manager.updateItem]
  cases found : work.items.lookup request.itemid with
  | none =>
    refine ⟨holds.insertItem fun source subscribed => ?_, rfl⟩
    obtain ⟨item, isItem, -⟩ := holds.inPlace source _ subscribed
    rw [found] at isItem
    cases isItem
  | some item =>
    have isItem {source : Source}
        (subscribed : Subscribed work.subscriptions source (subscriberOf call request.itemid)) :
        provider.eventSourceByKey item.key = .ok source := by
      obtain ⟨item', isItem, isSource⟩ := holds.inPlace source _ subscribed
      rw [found] at isItem
      obtain rfl := Option.some.inj isItem
      exact isSource
    simp only
    split_ifs with sameKey
    · obtain ⟨source, isSource⟩ := hasSource item.key (by rw [keyOf, found]; rfl) sameKey
      rw [isSource]
      refine ⟨(holds.deleteSubscriber source request.itemid).insertItem
        fun source' subscribed => ?_, rfl⟩
      obtain ⟨isThere, notDeleted⟩ := subscribed_deleteSubscriber.mp subscribed
      have isOther := isItem isThere
      rw [isSource] at isOther
      exact absurd ⟨(Except.ok.inj isOther).symm, rfl⟩ notDeleted
    · rw [ne_eq, not_not] at sameKey
      rw [← sameKey]
      exact ⟨holds.insertItem fun source subscribed => isItem subscribed, rfl⟩

theorem Holds.subscribe
    (hasItem : ∃ item, work.items.lookup request.itemid = some item ∧ item.key = request.key) :
    Holds provider call base (subscribe provider call work request) ∧
      (Manager.subscribe provider call work request).items = work.items := by
  rw [Manager.subscribe]
  cases isSource : provider.eventSourceByKey request.key with
  | error error => exact ⟨holds.write request.itemid error, rfl⟩
  | ok source =>
    have hasItem : ∃ item, work.items.lookup request.itemid = some item ∧
        provider.eventSourceByKey item.key = .ok source := by
      obtain ⟨item, isItem, sameKey⟩ := hasItem
      exact ⟨item, isItem, by rw [sameKey, isSource]⟩
    simp only
    cases isSub : work.subscriptions.lookup source with
    | some sub => exact holds.createSubscription isSub hasItem
    | none =>
      simp only
      cases work.failedEventSources.lookup source with
      | some error => exact ⟨holds.write request.itemid error, rfl⟩
      | none =>
        simp only
        cases provider.initializeSource work.calls source with
        | error error => exact ⟨⟨holds.inPlace, holds.others, holds.counted⟩, rfl⟩
        | ok _ =>
          exact (holds.initialized isSub _).createSubscription
            (AList.lookup_insert _) hasItem

theorem Holds.processRequest
    (hasSource : ∀ key, keyOf work.items request.itemid = some key → key ≠ request.key →
      ∃ source, provider.eventSourceByKey key = .ok source) :
    Holds provider call base (processRequest provider call work request) ∧
      (Manager.processRequest provider call work request).items =
        work.items.insert request.itemid { key := request.key, updated := call.now } := by
  obtain ⟨updated, items⟩ := holds.updateItem hasSource
  obtain ⟨subscribed, same⟩ := updated.subscribe
    ⟨_, by rw [items, AList.lookup_insert], rfl⟩
  exact ⟨subscribed, same.trans items⟩

theorem Holds.processRequests (haveSources : KeysHaveSources provider (keyOf work.items) requests) :
    Holds provider call base (requests.foldl (Manager.processRequest provider call) work) ∧
      ∀ itemid, (requests.foldl (Manager.processRequest provider call) work).items.lookup itemid =
        itemAfter call.now work.items requests itemid := by
  induction requests generalizing work with
  | nil => exact ⟨holds, fun _ => rfl⟩
  | cons request requests ih =>
    obtain ⟨hasSource, haveSources⟩ := haveSources
    obtain ⟨processed, items⟩ := holds.processRequest hasSource
    obtain ⟨after, lookup⟩ := ih processed (by rwa [items, keyOf_insert])
    refine ⟨after, fun itemid => (lookup itemid).trans ?_⟩
    rw [items, itemAfter_cons]

end Zabbix.Watch.Mirroring
