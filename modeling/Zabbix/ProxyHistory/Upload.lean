import Zabbix.Library.Transition
import Zabbix.ProxyHistory.Coverage
import Zabbix.ProxyHistory.Receiving

/-!
# Uploading the history of a proxy

The data sender of a proxy and the server during one session.  A request on the wire may
be lost, it may be processed when the data sender has already given up on it, and a
response may be lost as well.  The data sender has one request outstanding at most.
-/

namespace Zabbix.ProxyHistory.Upload

open Library Records Gathering Coverage Receiving List

variable {Content : Type}

/-- The history part of a `proxy data` request: `history_lastid` and the history data. -/
structure Message (Content : Type) where
  lastid : Nat
  rows : List (HistoryRow Content)
deriving DecidableEq

/-- The table and the stored last id of the proxy, the requests of the session with the one
that is outstanding and whether the server has answered it, and the last value id of the
session with the values that the server has processed. -/
structure State (Content : Type) where
  table : List (ZbxHistoryData Content)
  lastid : Nat
  sent : List (Message Content)
  outstanding : Option (Nat × Bool)
  lastValueid : Nat
  processed : List (ZbxAgentValue Content)

/-- The table and the stored last id when the session starts. -/
structure Start (Content : Type) where
  table : List (ZbxHistoryData Content)
  lastid : Nat
  ordered : OrderedLog.Ordered ZbxHistoryData.id table
  positive : ∀ record ∈ table, 0 < record.id

def State.start (begin : Start Content) : State Content :=
  ⟨begin.table, begin.lastid, [], none, 0, []⟩

inductive Event (Content : Type) where
  | append (record : ZbxHistoryData Content)
  | send (offset : Nat) (batches : List Batch)
  | process (index : Nat) (chunks : Nat → RecvItems)
  | succeed
  | fail

variable (packet : Nat → Nat → ZbxHistoryData Content → Nat) (proxyid : Nat)

/-- One step: a record becomes visible, the data sender gathers a request and sends it, the
server processes a request of the session, and the call of the data sender ends. -/
def step (state : State Content) : Event Content → Option (State Content)
  | .append record =>
    if 0 < record.id ∧ state.lastid < record.id ∧ ∀ old ∈ state.table, old.id < record.id then
      some { state with table := state.table ++ [record] }
    else none
  | .send offset batches =>
    if state.outstanding.isNone then
      (proxyGetHistData packet state.table state.lastid offset batches).map fun (request, _) =>
        { state with
          sent := state.sent ++ [⟨request.lastid, request.rows⟩]
          outstanding := some (state.sent.length, false) }
    else none
  | .process index chunks =>
    state.sent[index]?.map fun message =>
      let (processed, lastValueid) :=
        processHistoryDataByItemids proxyid chunks message.rows state.lastValueid
      { state with
        lastValueid
        processed := state.processed ++ processed
        outstanding := state.outstanding.map fun (current, answered) =>
          (current, answered || current == index) }
  | .succeed =>
    match state.outstanding with
    | some (index, true) =>
      state.sent[index]?.map fun message =>
        { state with
          lastid := if message.lastid ≠ 0 then message.lastid else state.lastid
          outstanding := none }
    | _ => none
  | .fail => some { state with outstanding := none }

/-- The checks of the data sender and of the server let a record through. -/
def Event.accepts (record : ZbxHistoryData Content) : Event Content → Prop
  | .send _ batches => ∀ batch ∈ batches, isAdded batch.dcItems record = true
  | .process _ chunks => ∀ chunk, isTaken proxyid (chunks chunk) (agentValue record) = true
  | _ => True

/-! ## Requests -/

variable {table : List (ZbxHistoryData Content)} {steady : ZbxHistoryData Content → Prop}
variable {low lastValueid : Nat} {message : Message Content} {record : ZbxHistoryData Content}
variable {chunks : Nat → RecvItems}

/-- A request holds no history, or it covers the table from `low` on. -/
def Holds (table : List (ZbxHistoryData Content)) (steady : ZbxHistoryData Content → Prop)
    (low : Nat) (message : Message Content) : Prop :=
  message.lastid = 0 ∧ message.rows = [] ∨
    Covers table steady low message.lastid message.rows

variable (holds : Holds table steady low message)

include holds

theorem Holds.forward (notZero : message.lastid ≠ 0) :
    low ≤ message.lastid :=
  (holds.resolve_left fun isEmpty => notZero isEmpty.1).forward

theorem Holds.append (above : low < record.id)
    (aboveAll : ∀ old ∈ table, old.id < record.id) :
    Holds (table ++ [record]) steady low message := by
  refine holds.imp_right fun covers => ?_
  have reachedBelow : message.lastid < record.id := by
    rcases covers.visible with same | ⟨old, isOld, same⟩
    · exact same ▸ above
    · exact same ▸ aboveAll old isOld
  refine ⟨covers.ordered, covers.inside, ?_, ?_, covers.forward⟩
  · intro hd isIn isSteady notSuperseded
    rcases mem_append.mp isIn with isOld | isNew
    · refine covers.complete hd isOld isSteady fun superseded => notSuperseded ?_
      exact superseded.mono fun later => mem_append_left [record]
    · rw [mem_singleton.mp isNew]
      exact fun _ below => absurd below (Nat.not_le_of_lt reachedBelow)
  · exact covers.visible.imp_right fun ⟨old, isOld, same⟩ =>
      ⟨old, mem_append_left _ isOld, same⟩

theorem Holds.values_ordered :
    (parsedValues message.rows).Pairwise fun first second => first.id < second.id := by
  rcases holds with ⟨-, isEmpty⟩ | covers
  · rw [isEmpty]
    exact List.Pairwise.nil
  · refine covers.ordered.filterMap _ fun first second before value isFirst value' isSecond => ?_
    rw [parseHistoryDataRow_id isFirst, parseHistoryDataRow_id isSecond]
    exact before

theorem Holds.value_inside
    {value : ZbxAgentValue Content} (isValue : value ∈ parsedValues message.rows) :
    low < value.id ∧ value.id ≤ message.lastid := by
  obtain ⟨row, isRow, parsed⟩ := mem_filterMap.mp isValue
  rcases holds with ⟨-, isEmpty⟩ | covers
  · rw [isEmpty] at isRow
    cases isRow
  · rw [parseHistoryDataRow_id parsed]
    exact covers.inside row isRow

theorem Holds.value_mem (isRecord : record ∈ table)
    (isSteady : steady record) (hasTime : record.HasTime)
    (notSuperseded : ¬ Superseded table record) (above : low < record.id)
    (below : record.id ≤ message.lastid) :
    agentValue record ∈ parsedValues message.rows := by
  rcases holds with ⟨isZero, -⟩ | covers
  · omega
  · exact mem_filterMap.mpr ⟨historyRow record,
      covers.complete record isRecord isSteady notSuperseded above below,
      parseHistoryDataRow_historyRow hasTime⟩

omit holds

theorem isNew_iff {value : ZbxAgentValue Content} (positive : 0 < value.id) :
    isNew lastValueid value = true ↔ lastValueid < value.id := by
  simp only [isNew, Bool.not_eq_true', Bool.and_eq_false_iff, bne_eq_false_iff_eq,
    decide_eq_false_iff_not, Nat.not_le]
  exact ⟨fun either => either.resolve_left positive.ne', Or.inr⟩

/-- No value of a request is above the session after the request has been processed. -/
theorem Holds.value_le (holds : Holds table steady low message)
    {outcome : List (ZbxAgentValue Content) × Nat}
    (advances : Advances proxyid chunks (parsedValues message.rows) lastValueid outcome)
    {value : ZbxAgentValue Content} (isValue : value ∈ parsedValues message.rows) :
    value.id ≤ outcome.2 := by
  have ordered := holds.values_ordered
  have notEmpty : parsedValues message.rows ≠ [] := ne_nil_of_mem isValue
  have newest := advances.covered _ (getLast?_eq_some_getLast notEmpty)
  refine le_trans ?_ newest
  rw [← dropLast_append_getLast notEmpty] at isValue ordered
  rcases mem_append.mp isValue with isBefore | isNewest
  · exact ((pairwise_append.mp ordered).2.2 value isBefore _ (mem_singleton_self _)).le
  · rw [mem_singleton.mp isNewest]

end Zabbix.ProxyHistory.Upload
