import Zabbix.ProxyHistory.Records

/-!
# Gathering the rows of a simple table

`proxy_get_history_data_simple` reads the discovery data and the autoregistration data of
a proxy.  What the table holds at each select is an answer of the environment, and
`packet recordsNum offset object` is `j->buffer_offset` after the object has been written.
-/

namespace Zabbix.ProxyHistory.SimpleTables

open Common.Text Library.OrderedLog Gathering

/-! ## The tables -/

/-- `zbx_json_type_t`, of the fields -/
inductive ZbxJsonType where
  | int
  | string
deriving DecidableEq

/-- `zbx_history_field_t` -/
structure ZbxHistoryField where
  field : Text
  tag : Text
  jt : ZbxJsonType
  defaultValue : Option Text
deriving DecidableEq

/-- `zbx_history_table_t` -/
structure ZbxHistoryTable where
  table : Text
  lastidfield : Text
  fields : List ZbxHistoryField
deriving DecidableEq

def dht : ZbxHistoryTable where
  table := "proxy_dhistory".toList
  lastidfield := "dhistory_lastid".toList
  fields :=
    [⟨"clock".toList, "clock".toList, .int, none⟩,
      ⟨"druleid".toList, "drule".toList, .int, none⟩,
      ⟨"dcheckid".toList, "dcheck".toList, .int, none⟩,
      ⟨"ip".toList, "ip".toList, .string, none⟩,
      ⟨"dns".toList, "dns".toList, .string, none⟩,
      ⟨"port".toList, "port".toList, .int, some "0".toList⟩,
      ⟨"value".toList, "value".toList, .string, some []⟩,
      ⟨"status".toList, "status".toList, .int, some "0".toList⟩]

def areg : ZbxHistoryTable where
  table := "proxy_autoreg_host".toList
  lastidfield := "autoreg_host_lastid".toList
  fields :=
    [⟨"clock".toList, "clock".toList, .int, none⟩,
      ⟨"host".toList, "host".toList, .string, none⟩,
      ⟨"listen_ip".toList, "ip".toList, .string, some []⟩,
      ⟨"listen_dns".toList, "dns".toList, .string, some []⟩,
      ⟨"listen_port".toList, "port".toList, .string, some "0".toList⟩,
      ⟨"host_metadata".toList, "host_metadata".toList, .string, some []⟩,
      ⟨"flags".toList, "flags".toList, .string, some "0".toList⟩,
      ⟨"tls_accepted".toList, "tls_accepted".toList, .int, some "0".toList⟩]

/-- A row that a select returns: the id and the values of the fields. -/
structure TableRow where
  id : Nat
  values : List Text
deriving DecidableEq

/-- A member of a JSON object. -/
structure Member where
  tag : Text
  value : Text
  jt : ZbxJsonType
deriving DecidableEq

/-- The object that is made of a row: a field with its default value is left out. -/
def rowObject (ht : ZbxHistoryTable) (row : TableRow) : List Member :=
  (ht.fields.zip row.values).filterMap fun (field, value) =>
    if field.defaultValue = some value then none else some ⟨field.tag, value, field.jt⟩

/-! ## The function -/

/-- What `proxy_get_history_data_simple` changes: `*lastid`, `*id`, `*records_num`, the
JSON text and `*more`. -/
structure Progress where
  lastid : Nat
  id : Nat
  recordsNum : Nat
  bufferOffset : Nat
  objects : List (List Member)
  more : Bool
deriving DecidableEq

/-- The end of the loop over the rows: it is over, or `goto try_again`. -/
inductive RowsEnd where
  | done (progress : Progress)
  | tryAgain (progress : Progress)

variable (packet : Nat → Nat → List Member → Nat) (ht : ZbxHistoryTable)

def addObject (row : TableRow) (progress : Progress) : Progress :=
  { progress with
    lastid := row.id
    recordsNum := progress.recordsNum + 1
    bufferOffset := packet progress.recordsNum progress.bufferOffset (rowObject ht row)
    objects := progress.objects ++ [rowObject ht row] }

/-- The loop over the rows of a select; `waits` tells whether there is a retry left. -/
def addRows (waits : Bool) : List TableRow → Progress → RowsEnd
  | [], progress => .done progress
  | row :: rows, progress =>
    if 1 < row.id - progress.id ∧ waits then .tryAgain { progress with lastid := row.id }
    else
      let progress := addObject packet ht row progress
      if zbxDataJsonRecordLimit < progress.bufferOffset then .done { progress with more := true }
      else addRows waits rows { progress with id := row.id }

/-- The function from `try_again` on; the n-th select from here finds the rows `shown n`.
The rows of the last select are returned, too. -/
def readRows : Nat → (Nat → Log TableRow.id) → Progress → Progress × Log TableRow.id
  | retries, shown, progress =>
    match addRows packet ht (0 < retries) ((shown 0).select progress.id zbxMaxHrecords)
      progress with
    | .done progress => (progress, shown 0)
    | .tryAgain progress =>
      match retries with
      | 0 => (progress, shown 0)
      | retries + 1 => readRows retries (fun select => shown (select + 1)) progress

def proxyGetHistoryDataSimple (shown : Nat → Log TableRow.id) (progress : Progress) :
    Progress × Log TableRow.id :=
  let (ended, table) := readRows packet ht 1 shown { progress with more := false }
  if zbxMaxHrecords = ended.recordsNum - progress.recordsNum then
    ({ ended with more := true }, table)
  else (ended, table)

/-! ## Adding rows -/

/-- The rows of a select up to the first gap that is waited for. -/
def rowsTaken (waits : Bool) : Nat → List TableRow → List TableRow
  | _, [] => []
  | id, row :: rows =>
    if 1 < row.id - id ∧ waits then [] else row :: rowsTaken waits row.id rows

def addRow (row : TableRow) (progress : Progress) : Progress :=
  { addObject packet ht row progress with id := row.id }

def addAll : List TableRow → Progress → Progress
  | [], progress => progress
  | row :: rows, progress => addAll rows (addRow packet ht row progress)

def FitsPacket : List TableRow → Nat → Nat → Prop
  | [], _, _ => True
  | row :: rows, recordsNum, bufferOffset =>
    packet recordsNum bufferOffset (rowObject ht row) ≤ zbxDataJsonRecordLimit ∧
      FitsPacket rows (recordsNum + 1) (packet recordsNum bufferOffset (rowObject ht row))

variable {packet : Nat → Nat → List Member → Nat} {ht : ZbxHistoryTable}
variable {rows : List TableRow} {progress : Progress}

@[simp]
theorem rowsTaken_false (id : Nat) (rows : List TableRow) : rowsTaken false id rows = rows := by
  induction rows generalizing id with
  | nil => rfl
  | cons row rows ih => simp [rowsTaken, ih]

@[simp]
theorem addAll_more (rows : List TableRow) (progress : Progress) :
    (addAll packet ht rows progress).more = progress.more := by
  induction rows generalizing progress with
  | nil => rfl
  | cons row rows ih => exact ih _

theorem addAll_recordsNum (rows : List TableRow) (progress : Progress) :
    (addAll packet ht rows progress).recordsNum = progress.recordsNum + rows.length := by
  induction rows generalizing progress with
  | nil => rfl
  | cons row rows ih =>
    rw [addAll, ih, List.length_cons]
    exact (Nat.add_right_comm progress.recordsNum 1 rows.length).trans
      (Nat.add_assoc progress.recordsNum rows.length 1)

theorem addAll_id (rows : List TableRow) (progress : Progress) :
    (addAll packet ht rows progress).id = Log.comesTo TableRow.id progress.id rows := by
  induction rows generalizing progress with
  | nil => rfl
  | cons row rows ih => exact (ih _).trans (Log.comesTo_cons.symm)

theorem addAll_lastid (rows : List TableRow) (progress : Progress) :
    (addAll packet ht rows progress).lastid = Log.comesTo TableRow.id progress.lastid rows := by
  induction rows generalizing progress with
  | nil => rfl
  | cons row rows ih => exact (ih _).trans (Log.comesTo_cons.symm)

theorem fitsPacket_append (packet : Nat → Nat → List Member → Nat) (ht : ZbxHistoryTable)
    (early late : List TableRow) (progress : Progress) :
    FitsPacket packet ht (early ++ late) progress.recordsNum progress.bufferOffset ↔
      FitsPacket packet ht early progress.recordsNum progress.bufferOffset ∧
        FitsPacket packet ht late (addAll packet ht early progress).recordsNum
          (addAll packet ht early progress).bufferOffset := by
  induction early generalizing progress with
  | nil => simp [FitsPacket, addAll]
  | cons row early ih =>
    exact (and_congr_right fun _ => ih (addRow packet ht row progress)).trans
      and_assoc.symm

/-- How the loop over the rows ends. -/
inductive AddsRows (packet : Nat → Nat → List Member → Nat) (ht : ZbxHistoryTable)
    (taken rows : List TableRow) (progress : Progress) : RowsEnd → Prop where
  | full (ended : Progress) :
      ¬ FitsPacket packet ht taken progress.recordsNum progress.bufferOffset →
      ended.more = true →
      AddsRows packet ht taken rows progress (.done ended)
  | all : FitsPacket packet ht taken progress.recordsNum progress.bufferOffset →
      taken = rows →
      AddsRows packet ht taken rows progress (.done (addAll packet ht taken progress))
  | gap (lastid : Nat) :
      FitsPacket packet ht taken progress.recordsNum progress.bufferOffset →
      taken ≠ rows →
      (addAll packet ht taken progress).id < lastid →
      AddsRows packet ht taken rows progress
        (.tryAgain { addAll packet ht taken progress with lastid })

theorem addRows_spec (packet : Nat → Nat → List Member → Nat) (ht : ZbxHistoryTable)
    (waits : Bool) (rows : List TableRow) (progress : Progress) :
    AddsRows packet ht (rowsTaken waits progress.id rows) rows progress
      (addRows packet ht waits rows progress) := by
  induction rows generalizing progress with
  | nil => exact AddsRows.all trivial rfl
  | cons row rows ih =>
    rw [addRows, rowsTaken]
    split
    next missing =>
      exact AddsRows.gap row.id trivial (List.cons_ne_nil row rows).symm (by simp [addAll]; omega)
    next =>
      dsimp only
      split
      next isFull =>
        exact AddsRows.full _ (fun fits => absurd fits.1 (Nat.not_le_of_lt isFull)) rfl
      next isRoom =>
        have room := Nat.le_of_not_lt isRoom
        have ends : AddsRows packet ht (rowsTaken waits row.id rows) rows
            (addRow packet ht row progress)
            (addRows packet ht waits rows
              { addObject packet ht row progress with id := row.id }) :=
          ih (addRow packet ht row progress)
        revert ends
        generalize addRows packet ht waits rows
          { addObject packet ht row progress with id := row.id } = rowsEnd
        intro ends
        cases ends with
        | full ended tooLong isMore =>
          exact AddsRows.full ended (fun fits => tooLong fits.2) isMore
        | all fits same => exact AddsRows.all ⟨room, fits⟩ (congrArg (row :: ·) same)
        | gap lastid fits shorter above =>
          exact AddsRows.gap lastid ⟨room, fits⟩
            (fun same => shorter (List.cons.inj same).2) above

end Zabbix.ProxyHistory.SimpleTables
