import Mathlib.Data.List.AList

/-!
# Watched items

The manager of the package `watch`.  A client requests items, whose keys have event sources.  The
manager initialises a source for the first item that it notifies and releases it after the last.
-/

namespace Zabbix.Watch.Manager

/-- The maps of the manager. -/
abbrev Table (Key Value : Type) := AList fun _ : Key => Value

structure MapOrder where
  arrange : {Entry : Type} → List Entry → List Entry
  isPerm : ∀ {Entry : Type} (entries : List Entry), (arrange entries).Perm entries

/-- `EventProvider` and the sources that it gives.  Calls are numbered, and each may fail. -/
structure Provider (Key Source Filter Error : Type) where
  eventSourceByKey : Key → Except Error Source
  initializeSource : Nat → Source → Except Error Unit
  newFilter : Nat → Source → Key → Except Error Filter

structure Item (Key : Type) where
  key : Key
  updated : Nat

structure Subscriber where
  itemid : Nat
  clientid : Nat
deriving DecidableEq

structure EventWriter (Output Filter : Type) where
  output : Output
  filter : Filter

inductive SourceEvent (Source : Type) where
  | initialized (source : Source)
  | released (source : Source)
deriving DecidableEq

/-- `Manager`, with the number of calls that were made to sources and what they were told. -/
structure Manager (Key Source Filter Output : Type) where
  clients : Table Nat (Table Nat (Item Key))
  subscriptions : Table Source (Table Subscriber (EventWriter Output Filter))
  calls : Nat
  events : List (SourceEvent Source)

/-- `plugin.Request` -/
structure Request (Key : Type) where
  itemid : Nat
  key : Key

/-- A call of `Manager.Update`, with the time of it and the order of the maps. -/
structure Call (Key Output : Type) where
  clientid : Nat
  output : Output
  requests : List (Request Key)
  now : Nat
  order : MapOrder

/-- `plugin.Result` -/
structure Result (Error : Type) where
  itemid : Nat
  ts : Nat
  error : Error

/-- What the loop over the requests works on. -/
structure Work (Key Source Filter Output Error : Type) where
  items : Table Nat (Item Key)
  subscriptions : Table Source (Table Subscriber (EventWriter Output Filter))
  failedEventSources : Table Source Error
  calls : Nat
  events : List (SourceEvent Source)
  results : List (Result Error)

section

variable {Key Source Filter Output Error : Type} [DecidableEq Key] [DecidableEq Source]
  (provider : Provider Key Source Filter Error) (call : Call Key Output)

/-- `delete` on the subscribers of a source, if it has any. -/
def deleteSubscriber (subscriptions : Table Source (Table Subscriber (EventWriter Output Filter)))
    (source : Source) (subscriber : Subscriber) :
    Table Source (Table Subscriber (EventWriter Output Filter)) :=
  match subscriptions.lookup source with
  | some sub => subscriptions.insert source (sub.erase subscriber)
  | none => subscriptions

def subscriberOf (itemid : Nat) : Subscriber where
  itemid := itemid
  clientid := call.clientid

def Work.write (work : Work Key Source Filter Output Error) (itemid : Nat) (error : Error) :
    Work Key Source Filter Output Error :=
  { work with results := work.results ++ [{ itemid, ts := call.now, error }] }

/-- The part of the loop for the monitored item: a subscription for another key is removed. -/
def updateItem (work : Work Key Source Filter Output Error) (request : Request Key) :
    Work Key Source Filter Output Error :=
  match work.items.lookup request.itemid with
  | none =>
    { work with
      items := work.items.insert request.itemid { key := request.key, updated := call.now } }
  | some item =>
    if item.key ≠ request.key then
      match provider.eventSourceByKey item.key with
      | .ok source =>
        { work with
          subscriptions := deleteSubscriber work.subscriptions source
            (subscriberOf call request.itemid)
          items := work.items.insert request.itemid
            { key := request.key, updated := call.now } }
      | .error error =>
        -- the item keeps the key that has no source
        let work := work.write call request.itemid error
        { work with
          items := work.items.insert request.itemid { item with updated := call.now } }
    else
      { work with
        items := work.items.insert request.itemid { item with updated := call.now } }

def createSubscription (work : Work Key Source Filter Output Error) (source : Source)
    (sub : Table Subscriber (EventWriter Output Filter)) (request : Request Key) :
    Work Key Source Filter Output Error :=
  if (sub.lookup (subscriberOf call request.itemid)).isSome then work
  else
    match provider.newFilter work.calls source request.key with
    | .error error =>
      let work := work.write call request.itemid error
      { work with calls := work.calls + 1 }
    | .ok filter =>
      { work with
        calls := work.calls + 1
        subscriptions := work.subscriptions.insert source
          (sub.insert (subscriberOf call request.itemid) { output := call.output, filter }) }

def subscribe (work : Work Key Source Filter Output Error) (request : Request Key) :
    Work Key Source Filter Output Error :=
  match provider.eventSourceByKey request.key with
  | .error error => work.write call request.itemid error
  | .ok source =>
    match work.subscriptions.lookup source with
    | some sub => createSubscription provider call work source sub request
    | none =>
      match work.failedEventSources.lookup source with
      | some error => work.write call request.itemid error
      | none =>
        match provider.initializeSource work.calls source with
        | .error error =>
          let work := work.write call request.itemid error
          { work with
            calls := work.calls + 1
            failedEventSources := work.failedEventSources.insert source error }
        | .ok _ =>
          createSubscription provider call
            { work with
              calls := work.calls + 1
              events := work.events ++ [.initialized source]
              subscriptions := work.subscriptions.insert source ∅ }
            source ∅ request

/-- One turn of the loop over the requests. -/
def processRequest (work : Work Key Source Filter Output Error) (request : Request Key) :
    Work Key Source Filter Output Error :=
  subscribe provider call (updateItem provider call work request) request

/-- One turn of the loop over the items: an item that was not updated goes. -/
def removeUnused (work : Work Key Source Filter Output Error) (itemid : Nat) (item : Item Key) :
    Work Key Source Filter Output Error :=
  if item.updated = call.now then work
  else
    let subscriptions :=
      match provider.eventSourceByKey item.key with
      | .ok source => deleteSubscriber work.subscriptions source (subscriberOf call itemid)
      | .error _ => work.subscriptions
    { work with subscriptions, items := work.items.erase itemid }

/-- One turn of the loop over the sources: one without subscribers is released. -/
def releaseUnused (work : Work Key Source Filter Output Error) (source : Source)
    (sub : Table Subscriber (EventWriter Output Filter)) :
    Work Key Source Filter Output Error :=
  if sub.keys.length = 0 then
    { work with
      events := work.events ++ [.released source]
      subscriptions := work.subscriptions.erase source }
  else work

/-- `Manager.Update`, with the results that it writes. -/
def update (manager : Manager Key Source Filter Output) :
    Manager Key Source Filter Output × List (Result Error) :=
  let work : Work Key Source Filter Output Error := {
    items := (manager.clients.lookup call.clientid).getD ∅
    subscriptions := manager.subscriptions
    failedEventSources := ∅
    calls := manager.calls
    events := manager.events
    results := [] }
  let work := call.requests.foldl (processRequest provider call) work
  let work := (call.order.arrange work.items.entries).foldl
    (fun work entry => removeUnused provider call work entry.1 entry.2) work
  let work := (call.order.arrange work.subscriptions.entries).foldl
    (fun work entry => releaseUnused work entry.1 entry.2) work
  ({ clients := manager.clients.insert call.clientid work.items
     subscriptions := work.subscriptions
     calls := work.calls
     events := work.events }, work.results)

def newManager : Manager Key Source Filter Output where
  clients := ∅
  subscriptions := ∅
  calls := 0
  events := []

end

end Zabbix.Watch.Manager
