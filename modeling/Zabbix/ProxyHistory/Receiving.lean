import Zabbix.ProxyHistory.Records

/-!
# Processing the history of a proxy

`process_history_data_by_itemids` takes the values of a request in chunks of at most
`ZBX_HISTORY_VALUES_MAX` and drops those whose ids are not above the last value id of the
session.  The cached items at each chunk are an answer of the environment.
-/

namespace Zabbix.ProxyHistory.Receiving

open Records List

variable {Content : Type}

def zbxHistoryValuesMax : Nat := 256

/-- `zbx_history_recv_item_t`, as far as it is looked at before a value is processed. -/
structure ZbxHistoryRecvItem where
  type : ItemType
  status : Nat
  hostStatus : Nat
  proxyHostid : Nat
  maintenanceStatus : Nat
  maintenanceType : Nat
  maintenanceFrom : Nat
deriving DecidableEq

/-- `zbx_dc_config_history_recv_get_items_by_itemids`: the item, if the error code is
`SUCCEED`. -/
abbrev RecvItems := Nat → Option ZbxHistoryRecvItem

def hostMaintenanceStatusOn : Nat := 1

def maintenanceTypeNodata : Nat := 1

/-! ## One value -/

def inMaintenanceWithoutDataCollection (maintenanceStatus maintenanceType : Nat)
    (type : ItemType) : Bool :=
  maintenanceStatus == hostMaintenanceStatusOn && maintenanceType == maintenanceTypeNodata &&
    type != .internal

/-- The result of `process_history_data_value`. -/
def processHistoryDataValue (item : ZbxHistoryRecvItem) (value : ZbxAgentValue Content) : Bool :=
  if item.status ≠ itemStatusActive then false
  else if item.hostStatus ≠ hostStatusMonitored then false
  else if inMaintenanceWithoutDataCollection item.maintenanceStatus item.maintenanceType
      item.type ∧ item.maintenanceFrom ≤ value.clock then
    true
  else if value.value.isNone ∧ value.state = itemStateNotsupported then false
  else true

def proxyItemValidator (proxyid : Nat) (item : ZbxHistoryRecvItem) : Bool :=
  if item.proxyHostid ≠ proxyid then false
  else if item.type = .aggregate ∨ item.type = .calculated then false
  else true

def isTaken (proxyid : Nat) (items : RecvItems) (value : ZbxAgentValue Content) : Bool :=
  match items value.itemid with
  | none => false
  | some item => proxyItemValidator proxyid item && processHistoryDataValue item value

/-- The value is no duplicate of the session. -/
def isNew (lastValueid : Nat) (value : ZbxAgentValue Content) : Bool :=
  !(value.id != 0 && value.id ≤ lastValueid)

/-! ## A request -/

/-- The loop of `parse_history_data_by_itemids`, with room for `room` more values: the values
and the rows that are left. -/
def parseHistoryDataByItemids :
    Nat → List (HistoryRow Content) → List (ZbxAgentValue Content) × List (HistoryRow Content)
  | _, [] => ([], [])
  | 0, rows => ([], rows)
  | room + 1, jpRow :: rows =>
    match parseHistoryDataRow jpRow with
    | some value =>
      let (values, rest) := parseHistoryDataByItemids room rows
      (value :: values, rest)
    | none => parseHistoryDataByItemids (room + 1) rows

theorem parseHistoryDataByItemids_length_le (room : Nat) (rows : List (HistoryRow Content)) :
    (parseHistoryDataByItemids room rows).1.length +
      (parseHistoryDataByItemids room rows).2.length ≤ rows.length := by
  fun_induction parseHistoryDataByItemids room rows with
  | case1 => exact Nat.le_refl 0
  | case2 => simp
  | case3 room jpRow rows value parsed values rest split ih =>
    simp only [split, length_cons] at ih ⊢
    omega
  | case4 room jpRow rows parsed ih =>
    simp only [length_cons]
    omega

/-- The loop of `process_history_data_by_itemids`: the values that are processed, and the id
of the last value of the last chunk. -/
def processLoop (proxyid : Nat) (lastValueid : Nat) (chunks : Nat → RecvItems)
    (rows : List (HistoryRow Content)) (last : Nat) : List (ZbxAgentValue Content) × Nat :=
  match parsed : parseHistoryDataByItemids zbxHistoryValuesMax rows with
  | ([], _) => ([], last)
  | (value :: values, rest) =>
    let processed := (value :: values).filter fun value =>
      isNew lastValueid value && isTaken proxyid (chunks 0) value
    let last := ((value :: values).getLast (cons_ne_nil _ _)).id
    if rest = [] then (processed, last)
    else
      let (later, last) :=
        processLoop proxyid lastValueid (fun chunk => chunks (chunk + 1)) rest last
      (processed ++ later, last)
termination_by rows.length
decreasing_by
  have shorter := parseHistoryDataByItemids_length_le zbxHistoryValuesMax rows
  rw [parsed] at shorter
  dsimp only [length_cons] at shorter
  omega

/-- `process_history_data_by_itemids` with `proxy_item_validator`: the values that are
processed, and `session->last_valueid`. -/
def processHistoryDataByItemids (proxyid : Nat) (chunks : Nat → RecvItems)
    (rows : List (HistoryRow Content)) (lastValueid : Nat) :
    List (ZbxAgentValue Content) × Nat :=
  let (processed, last) := processLoop proxyid lastValueid chunks rows 0
  if last ≠ 0 then
    if lastValueid > last then (processed, lastValueid) else (processed, last)
  else (processed, lastValueid)

/-! ## All chunks together -/

def parsedValues (rows : List (HistoryRow Content)) : List (ZbxAgentValue Content) :=
  rows.filterMap parseHistoryDataRow

variable {rows : List (HistoryRow Content)} {proxyid lastValueid : Nat}
variable {chunks : Nat → RecvItems}

theorem parseHistoryDataByItemids_values (room : Nat) (rows : List (HistoryRow Content)) :
    parsedValues rows =
      (parseHistoryDataByItemids room rows).1 ++
        parsedValues (parseHistoryDataByItemids room rows).2 := by
  fun_induction parseHistoryDataByItemids room rows with
  | case1 => rfl
  | case2 => rfl
  | case3 room jpRow rows value parsed values rest split ih =>
    rw [split] at ih
    rw [parsedValues, filterMap_cons_some parsed]
    exact congrArg (value :: ·) ih
  | case4 room jpRow rows parsed ih =>
    rw [parsedValues, filterMap_cons_none parsed]
    exact ih

/-- When no value can be read, the rows have been used up. -/
theorem parseHistoryDataByItemids_none {room : Nat} {rest : List (HistoryRow Content)}
    (parsed : parseHistoryDataByItemids (room + 1) rows = ([], rest)) :
    rest = [] := by
  induction rows with
  | nil =>
    rw [parseHistoryDataByItemids] at parsed
    exact (congrArg Prod.snd parsed).symm
  | cons jpRow rows ih =>
    rw [parseHistoryDataByItemids] at parsed
    split at parsed
    · cases congrArg Prod.fst parsed
    · exact ih parsed

structure Processes (proxyid lastValueid : Nat) (chunks : Nat → RecvItems)
    (values : List (ZbxAgentValue Content)) (last : Nat)
    (outcome : List (ZbxAgentValue Content) × Nat) : Prop where
  part : outcome.1.Sublist values
  new : ∀ value ∈ outcome.1, isNew lastValueid value = true
  complete : ∀ value ∈ values, isNew lastValueid value = true →
    (∀ chunk, isTaken proxyid (chunks chunk) value = true) → value ∈ outcome.1
  last : outcome.2 = (values.getLast?.map ZbxAgentValue.id).getD last

variable {values later : List (ZbxAgentValue Content)} {last : Nat}
variable {outcome laterOutcome : List (ZbxAgentValue Content) × Nat}

theorem Processes.chunk (chunks : Nat → RecvItems) (last : Nat) (notEmpty : values ≠ []) :
    Processes proxyid lastValueid chunks values last
      (values.filter fun value => isNew lastValueid value && isTaken proxyid (chunks 0) value,
        (values.getLast notEmpty).id) where
  part := filter_sublist
  new := fun _ isIn => (Bool.and_eq_true_iff.mp (mem_filter.mp isIn).2).1
  complete := fun _ isIn new taken =>
    mem_filter.mpr ⟨isIn, Bool.and_eq_true_iff.mpr ⟨new, taken 0⟩⟩
  last := by
    rw [getLast?_eq_some_getLast notEmpty]
    rfl

theorem Processes.append
    (first : Processes proxyid lastValueid chunks values last outcome)
    (others : Processes proxyid lastValueid (fun chunk => chunks (chunk + 1)) later outcome.2
      laterOutcome) :
    Processes proxyid lastValueid chunks (values ++ later) last
      (outcome.1 ++ laterOutcome.1, laterOutcome.2) where
  part := first.part.append others.part
  new := fun value isIn => (mem_append.mp isIn).elim (first.new value) (others.new value)
  complete := fun value isIn new taken =>
    (mem_append.mp isIn).elim
      (fun isFirst => mem_append_left _ (first.complete value isFirst new taken))
      (fun isLater => mem_append_right _
        (others.complete value isLater new fun chunk => taken (chunk + 1)))
  last := by
    rw [others.last, first.last, getLast?_append]
    cases later.getLast? <;> rfl

theorem processLoop_processes (proxyid lastValueid : Nat) (chunks : Nat → RecvItems)
    (rows : List (HistoryRow Content)) (last : Nat) :
    Processes proxyid lastValueid chunks (parsedValues rows) last
      (processLoop proxyid lastValueid chunks rows last) := by
  fun_induction processLoop proxyid lastValueid chunks rows last with
  | case1 chunks rows last rest parsed =>
    have values := parseHistoryDataByItemids_values zbxHistoryValuesMax rows
    rw [parsed, parseHistoryDataByItemids_none parsed] at values
    rw [values]
    exact ⟨List.Sublist.slnil, nofun, nofun, rfl⟩
  | case2 chunks rows last value values processed newest parsed =>
    have all := parseHistoryDataByItemids_values zbxHistoryValuesMax rows
    rw [parsed] at all
    rw [all, show parsedValues (Prod.snd (value :: values, [])) = [] from rfl, append_nil]
    exact Processes.chunk chunks last (cons_ne_nil value values)
  | case3 chunks rows last value values rest parsed processed newest notEnd later final
      looped ih =>
      have all := parseHistoryDataByItemids_values zbxHistoryValuesMax rows
      rw [parsed] at all
      rw [all]
      rw [looped] at ih
      exact (Processes.chunk chunks last (cons_ne_nil value values)).append ih

/-- What a request does to a session: its new values are processed, and the session comes up
to its last value. -/
structure Advances (proxyid : Nat) (chunks : Nat → RecvItems)
    (values : List (ZbxAgentValue Content)) (lastValueid : Nat)
    (outcome : List (ZbxAgentValue Content) × Nat) : Prop where
  part : outcome.1.Sublist values
  new : ∀ value ∈ outcome.1, isNew lastValueid value = true
  complete : ∀ value ∈ values, isNew lastValueid value = true →
    (∀ chunk, isTaken proxyid (chunks chunk) value = true) → value ∈ outcome.1
  forward : lastValueid ≤ outcome.2
  last : outcome.2 = lastValueid ∨ ∃ value ∈ values, outcome.2 = value.id
  covered : ∀ value ∈ values.getLast?, value.id ≤ outcome.2

theorem processHistoryDataByItemids_advances (proxyid : Nat) (chunks : Nat → RecvItems)
    (rows : List (HistoryRow Content)) (lastValueid : Nat) :
    Advances proxyid chunks (parsedValues rows) lastValueid
      (processHistoryDataByItemids proxyid chunks rows lastValueid) := by
  have processes := processLoop_processes proxyid lastValueid chunks rows 0
  rw [processHistoryDataByItemids]
  rcases looped : processLoop proxyid lastValueid chunks rows 0 with ⟨processed, last⟩
  rw [looped] at processes
  obtain ⟨part, new, complete, isLast⟩ := processes
  dsimp only at part new complete isLast ⊢
  have covered : ∀ value ∈ (parsedValues rows).getLast?, value.id = last := by
    intro value isIn
    rw [isLast, Option.mem_def.mp isIn]
    rfl
  split
  next notZero =>
    split
    next isOld =>
      exact ⟨part, new, complete, Nat.le_refl _, Or.inl rfl, fun value isIn =>
        covered value isIn ▸ isOld.le⟩
    next notOld =>
      refine ⟨part, new, complete, Nat.le_of_not_gt notOld, Or.inr ?_, fun value isIn =>
        (covered value isIn).le⟩
      cases isNewest : (parsedValues rows).getLast? with
      | none =>
        rw [isNewest] at isLast
        exact absurd isLast notZero
      | some value =>
        exact ⟨value, mem_of_getLast? isNewest, (covered value isNewest).symm⟩
  next isZero =>
    refine ⟨part, new, complete, Nat.le_refl _, Or.inl rfl, fun value isIn => ?_⟩
    rw [covered value isIn, not_not.mp isZero]
    exact Nat.zero_le _

end Zabbix.ProxyHistory.Receiving
