import Mathlib.Algebra.Group.Nat.Defs
import Mathlib.Algebra.Group.Int.Defs
import Zabbix.Common.Text
import Zabbix.Library.OrderedLog

/-!
# Records of the proxy history

The rows of the table `proxy_history`, the objects of the JSON array `history data`
made of them and the values that the server reads back.  The columns that no check
looks at are the type `Content`.  A number is written to JSON as an unsigned 64 bit
integer.
-/

namespace Zabbix.ProxyHistory.Records

open Common.Text

/-- `ITEM_TYPE_*`, the types that are told apart here. -/
inductive ItemType where
  | trapper
  | internal
  | zabbixActive
  | aggregate
  | httptest
  | calculated
  | snmptrap
  | dependent
  | other
deriving DecidableEq

def itemStatusActive : Nat := 0

def hostStatusMonitored : Nat := 0

def itemStateNormal : Nat := 0

def itemStateNotsupported : Nat := 1

/-- A row of `proxy_history` and the `zbx_history_data_t` read from it; `flags` is a byte,
`PROXY_HISTORY_FLAG_META` its first and `PROXY_HISTORY_FLAG_NOVALUE` its second bit. -/
structure ZbxHistoryData (Content : Type) where
  id : Nat
  itemid : Nat
  flags : BitVec 8
  clock : Int
  ns : Int
  state : Nat
  content : Content
deriving DecidableEq

variable {Content : Type}

/-- `0 != (flags & PROXY_HISTORY_FLAG_NOVALUE)` -/
def ZbxHistoryData.isNovalue (hd : ZbxHistoryData Content) : Bool :=
  hd.flags &&& 2#8 != 0#8

/-- `PROXY_HISTORY_FLAG_NOVALUE == (flags & PROXY_HISTORY_MASK_NOVALUE)` -/
def ZbxHistoryData.isOnlyNovalue (hd : ZbxHistoryData Content) : Bool :=
  hd.flags &&& 3#8 == 2#8

/-! ## The JSON object of a record -/

/-- An object of the array `history data`. -/
structure HistoryRow (Content : Type) where
  id : Nat
  itemid : Nat
  clock : Nat
  ns : Nat
  state : Option Nat
  value : Option Content
deriving DecidableEq

/-- The conversion of an `int` to `zbx_uint64_t`. -/
def toUint64 (value : Int) : Nat :=
  (value % 2 ^ 64).toNat

/-- The object that `proxy_add_hist_data` makes of a record. -/
def historyRow (hd : ZbxHistoryData Content) : HistoryRow Content where
  id := hd.id
  itemid := hd.itemid
  clock := toUint64 hd.clock
  ns := toUint64 hd.ns
  state := if hd.isOnlyNovalue || hd.state == itemStateNormal then none else some hd.state
  value := if hd.isNovalue then none else some hd.content

/-! ## The value of a JSON object -/

/-- `zbx_agent_value_t` with its item. -/
structure ZbxAgentValue (Content : Type) where
  itemid : Nat
  id : Nat
  clock : Nat
  ns : Nat
  state : Nat
  value : Option Content
deriving DecidableEq

/-- `parse_history_data_row_itemid` and `parse_history_data_row_value`. -/
def parseHistoryDataRow (jpRow : HistoryRow Content) : Option (ZbxAgentValue Content) :=
  if 2 ^ 31 ≤ jpRow.clock then none
  else if 999999999 < jpRow.ns then none
  else
    some
      { itemid := jpRow.itemid
        id := jpRow.id
        clock := jpRow.clock
        ns := jpRow.ns
        state := jpRow.state.getD itemStateNormal
        value := jpRow.value }

/-! ## Reading a record back -/

/-- The time of a record is one that the server accepts. -/
def ZbxHistoryData.HasTime (hd : ZbxHistoryData Content) : Prop :=
  0 ≤ hd.clock ∧ hd.clock < 2 ^ 31 ∧ 0 ≤ hd.ns ∧ hd.ns ≤ 999999999

/-- The value that the server reads back from a record. -/
def agentValue (hd : ZbxHistoryData Content) : ZbxAgentValue Content where
  itemid := hd.itemid
  id := hd.id
  clock := hd.clock.toNat
  ns := hd.ns.toNat
  state := (historyRow hd).state.getD itemStateNormal
  value := (historyRow hd).value

theorem toUint64_of_nonneg {value : Int} (isNonneg : 0 ≤ value) (small : value < 2 ^ 31) :
    toUint64 value = value.toNat := by
  rw [toUint64, Int.emod_eq_of_lt isNonneg (by omega)]

theorem parseHistoryDataRow_historyRow {hd : ZbxHistoryData Content} (hasTime : hd.HasTime) :
    parseHistoryDataRow (historyRow hd) = some (agentValue hd) := by
  obtain ⟨clockLow, clockHigh, nsLow, nsHigh⟩ := hasTime
  have clock : (historyRow hd).clock = hd.clock.toNat := toUint64_of_nonneg clockLow clockHigh
  have ns : (historyRow hd).ns = hd.ns.toNat := toUint64_of_nonneg nsLow (by omega)
  rw [parseHistoryDataRow, clock, ns, if_neg (by omega), if_neg (by omega)]
  rfl

theorem parseHistoryDataRow_id {jpRow : HistoryRow Content} {value : ZbxAgentValue Content}
    (parsed : parseHistoryDataRow jpRow = some value) :
    value.id = jpRow.id := by
  unfold parseHistoryDataRow at parsed
  split at parsed
  · cases parsed
  · split at parsed
    · cases parsed
    · rw [← Option.some.inj parsed]

end Zabbix.ProxyHistory.Records

/-!
# Gathering the history of a proxy

`proxy_get_hist_data` reads batches of records from the table and adds them to the
request until one of its limits is reached.  What the database shows at each select and
the cached items at each batch are answers of the environment.  The length of the JSON
text is a parameter: `packet recordsNum offset hd` is `j->buffer_offset` after the record
has been written.
-/

namespace Zabbix.ProxyHistory.Gathering

open Common.Text Library Records

variable {Content : Type}

def zbxMaxHrecords : Nat := 1000

def zbxMaxHrecordsTotal : Nat := 10000

def zbxMaxRecvDataSize : Nat := 2 ^ 30

def zbxDataJsonReserved : Nat := 65535 * 4 + 1024 * 4

def zbxDataJsonRecordLimit : Nat := zbxMaxRecvDataSize - zbxDataJsonReserved

def zbxDataJsonBatchLimit : Nat := (zbxMaxRecvDataSize - zbxDataJsonReserved) / 2

/-! ## Reading a batch -/

/-- The select of `proxy_get_history_data`, when the first `visible` records of the table
can be seen. -/
def selectHistory (table : List (ZbxHistoryData Content)) (visible lastid limit : Nat) :
    List (ZbxHistoryData Content) :=
  (OrderedLog.after ZbxHistoryData.id lastid (table.take visible)).take limit

/-- The end of a loop over the rows of a select: the rows are used up, or records are
missing before the next row. -/
inductive Fetched (Content : Type) where
  | done (data : List (ZbxHistoryData Content)) (retries : Bool)
  | missing (data : List (ZbxHistoryData Content)) (lastid : Nat)

/-- The loop over the rows of a select; `retries` tells whether `retries` is 1. -/
def fetchRows (data : List (ZbxHistoryData Content)) (lastid : Nat) (retries : Bool) :
    List (ZbxHistoryData Content) → Fetched Content
  | [] => .done data retries
  | row :: rows =>
    if 1 < row.id - lastid && retries then .missing data lastid
    else fetchRows (data ++ [row]) row.id true rows

/-- `proxy_get_history_data` from `try_again` on: the records, and whether `retries` is 1 at
the end.  The n-th select from here sees the first `visible n` records. -/
def proxyGetHistoryData (table : List (ZbxHistoryData Content)) :
    Nat → (Nat → Nat) → List (ZbxHistoryData Content) → Nat → Bool →
      List (ZbxHistoryData Content) × Bool
  | totalRetries, visible, data, lastid, retries =>
    match fetchRows data lastid retries
        (selectHistory table (visible 0) lastid (zbxMaxHrecords - data.length)) with
    | .done data retries => (data, retries)
    | .missing data lastid =>
      match totalRetries with
      | 0 => (data, false)
      | totalRetries + 1 =>
        proxyGetHistoryData table totalRetries (fun select => visible (select + 1))
          data lastid false

/-! ## Adding records to the request -/

/-- `DC_ITEM`, as far as the sender looks at it. -/
structure DcItem where
  status : Nat
  hostStatus : Nat
  type : ItemType
  keyOrig : Text
deriving DecidableEq

/-- `DCconfig_get_items_by_itemids`: the item, if the error code is `SUCCEED`. -/
abbrev ItemCache := Nat → Option DcItem

def zbxIsCountedInItemQueue (type : ItemType) (key : Text) : Bool :=
  match type with
  | .zabbixActive =>
    !("log[".toList.isPrefixOf key || "logrt[".toList.isPrefixOf key ||
      "eventlog[".toList.isPrefixOf key)
  | .trapper | .dependent | .httptest | .snmptrap => false
  | _ => true

/-- The checks of a record in `proxy_add_hist_data`. -/
def isAdded (dcItems : ItemCache) (hd : ZbxHistoryData Content) : Bool :=
  match dcItems hd.itemid with
  | none => false
  | some dcItem =>
    dcItem.status == itemStatusActive && dcItem.hostStatus == hostStatusMonitored &&
      (!hd.isOnlyNovalue || zbxIsCountedInItemQueue dcItem.type dcItem.keyOrig)

/-- The request while it is put together: `records_num`, `j->buffer_offset`, `*lastid` and
the history data. -/
structure Request (Content : Type) where
  recordsNum : Nat
  bufferOffset : Nat
  lastid : Nat
  rows : List (HistoryRow Content)
deriving DecidableEq

variable (packet : Nat → Nat → ZbxHistoryData Content → Nat)

/-- `proxy_add_hist_data`; the records are those of the vector from its end. -/
def proxyAddHistData (dcItems : ItemCache) :
    List (ZbxHistoryData Content) → Request Content → Request Content
  | [], request => request
  | hd :: records, request =>
    if isAdded dcItems hd then
      let bufferOffset := packet request.recordsNum request.bufferOffset hd
      let request :=
        { recordsNum := request.recordsNum + 1
          bufferOffset
          lastid := hd.id
          rows := request.rows ++ [historyRow hd] }
      if zbxDataJsonRecordLimit < bufferOffset then request
      else proxyAddHistData dcItems records request
    else proxyAddHistData dcItems records { request with lastid := hd.id }

/-- The loop that filters out duplicate novalue updates; the data are those of the batch
from its end, and the result is the vector `records`. -/
def filterNovalue : List Nat → List (ZbxHistoryData Content) → List (ZbxHistoryData Content)
  | _, [] => []
  | itemidsAdded, hd :: data =>
    if hd.isOnlyNovalue then
      if hd.itemid ∈ itemidsAdded then filterNovalue itemidsAdded data
      else hd :: filterNovalue (hd.itemid :: itemidsAdded) data
    else hd :: filterNovalue itemidsAdded data

/-! ## The whole request -/

/-- What the environment answers during a batch. -/
structure Batch where
  visible : Nat → Nat
  dcItems : ItemCache

/-- `total_retries` -/
def maxTotalRetries : Nat := 10

/-- The loop of `proxy_get_hist_data`: the request and `*more`, or nothing when there are
fewer batches than the loop makes. -/
def histLoop (table : List (ZbxHistoryData Content)) :
    List Batch → Nat → Request Content → Bool → Option (Request Content × Bool)
  | batches, id, request, more =>
    if request.bufferOffset < zbxDataJsonBatchLimit ∧
        request.recordsNum < zbxMaxHrecordsTotal then
      match batches with
      | [] => none
      | batch :: batches =>
        let (data, retries) :=
          proxyGetHistoryData table maxTotalRetries batch.visible [] id true
        let more := if data.length ≠ zbxMaxHrecords ∧ retries then false else more
        if data = [] then some (request, more)
        else
          let records := filterNovalue [] data.reverse
          let request := proxyAddHistData packet batch.dcItems records.reverse request
          if data.length < zbxMaxHrecords then some (request, more)
          else histLoop table batches request.lastid request more
    else some (request, more)

/-- `proxy_get_hist_data`, called when the request has `offset` bytes. -/
def proxyGetHistData (table : List (ZbxHistoryData Content)) (lastid offset : Nat)
    (batches : List Batch) : Option (Request Content × Bool) :=
  histLoop packet table batches lastid ⟨0, offset, 0, []⟩ true

end Zabbix.ProxyHistory.Gathering
