import Zabbix.Preprocessing.Packing

/-!
# Messages are decoded as they were encoded

The values of a message are read back one by one, whatever they are.  Tasks,
results and test messages are read back exactly when no part of them whose length
passes through an `int` has 2^31 bytes or more.
-/

namespace Zabbix.Preprocessing.RoundTrip

open Common.Serialize Library.ByteReader Messages Packing Layout List Option

/-! ## Every field has its memory -/

theorem hasMemory_timespec (ts : Option ZbxTimespec) :
    ∀ field ∈ ts.elim [] timespecFields, HasMemory field := by
  cases ts with
  | none => exact fun _ member => absurd member not_mem_nil
  | some ts => simp [timespecFields]

theorem hasMemory_variant (value : ZbxVariant) :
    ∀ field ∈ preprocessorPackVariant value, HasMemory field := by
  cases value with
  | none => simp [preprocessorPackVariant]
  | str data => simp [preprocessorPackVariant]
  | dbl bits => simp [preprocessorPackVariant]
  | ui64 data => simp [preprocessorPackVariant]
  | bin data => simp [preprocessorPackVariant]

theorem hasMemory_flatMap {Value : Type} {fields : Value → List ZbxPackedField}
    (each : ∀ value, ∀ field ∈ fields value, HasMemory field) (values : List Value) :
    ∀ field ∈ values.flatMap fields, HasMemory field := by
  intro field member
  obtain ⟨value, -, isField⟩ := mem_flatMap.mp member
  exact each value field isField

theorem hasMemory_history (history : List ZbxPreprocOpHistory) :
    ∀ field ∈ preprocessorPackHistory history, HasMemory field := by
  rw [preprocessorPackHistory, forall_mem_cons]
  refine ⟨hasMemory_packedInt _, hasMemory_flatMap (fun ophistory => ?_) history⟩
  simp only [opHistoryFields, forall_mem_cons, forall_mem_append]
  exact ⟨hasMemory_packedInt _, hasMemory_variant _, hasMemory_timespec (some ophistory.ts)⟩

theorem hasMemory_steps (steps : List ZbxPreprocOp) :
    ∀ field ∈ preprocessorPackSteps steps, HasMemory field := by
  rw [preprocessorPackSteps, forall_mem_cons]
  refine ⟨hasMemory_packedInt _, hasMemory_flatMap (fun step => ?_) steps⟩
  simp [preprocessorPackStep]

theorem hasMemory_itemValue (value : ZbxPreprocItemValue) :
    ∀ field ∈ itemValueFields value, HasMemory field := by
  have result : ∀ field ∈ value.result.elim [] resultFields, HasMemory field := by
    cases value.result with
    | none => exact fun _ member => absurd member not_mem_nil
    | some result =>
      cases isLog : result.log with
      | none => simp [resultFields, isLog]
      | some log => simp [resultFields, logFields, isLog]
  simp only [itemValueFields, forall_mem_cons, forall_mem_append]
  simp only [hasMemory_packedUint64, hasMemory_packedChar, hasMemory_packedString, true_and]
  exact ⟨hasMemory_timespec value.ts, result⟩

theorem hasMemory_task (task : PreprocessorTask) :
    ∀ field ∈ taskFields task, HasMemory field := by
  simp only [taskFields, forall_mem_cons, forall_mem_append]
  simp only [hasMemory_packedUint64, hasMemory_packedChar, true_and]
  exact ⟨hasMemory_timespec task.ts, hasMemory_variant task.value,
    hasMemory_history task.history, hasMemory_steps task.steps⟩

theorem hasMemory_result (result : PreprocessorResult) :
    ∀ field ∈ preprocessorResultFields result, HasMemory field := by
  simp only [preprocessorResultFields, forall_mem_append, forall_mem_singleton]
  exact ⟨hasMemory_variant result.value, hasMemory_history result.history,
    hasMemory_packedString result.error⟩

theorem hasMemory_testRequest (request : TestRequest) :
    ∀ field ∈ testRequestFields request, HasMemory field := by
  simp only [testRequestFields, forall_mem_cons, forall_mem_append]
  exact ⟨hasMemory_packedChar _, hasMemory_packedString _,
    hasMemory_timespec (some request.ts), hasMemory_history request.history,
    hasMemory_steps request.steps⟩

theorem hasMemory_testResult (result : TestResult) :
    ∀ field ∈ testResultFields result, HasMemory field := by
  simp only [testResultFields, forall_mem_cons, forall_mem_append]
  refine ⟨hasMemory_packedInt _, hasMemory_flatMap (fun stepResult => ?_) _,
    hasMemory_history result.history, by simp⟩
  rw [stepResultFields, forall_mem_append]
  exact ⟨hasMemory_variant _, by simp⟩

/-! ## Item values -/

variable {message after : ZbxIpcMessage} {size : Nat}

theorem length_itemValue (value : ZbxPreprocItemValue) :
    0 < (encodeFields (itemValueFields value)).length := by
  rw [itemValueFields, encodeFields_cons, encode_packedUint64, length_append, length_uint64Bytes]
  omega

/-- A value is appended, or the message would exceed 4 GB and stays as it is. -/
theorem preprocessorPackValue_spec (sized : Sized message) (value : ZbxPreprocItemValue) :
    preprocessorPackValue message value = some
      (if maxUint32 < message.size + (encodeFields (itemValueFields value)).length then (0, message)
      else ((encodeFields (itemValueFields value)).length,
        ⟨message.size + (encodeFields (itemValueFields value)).length,
          message.data ++ encodeFields (itemValueFields value)⟩)) :=
  messagePackData_spec sized (hasMemory_itemValue value) (length_itemValue value)

/-- Pack values one after another; `none` if one is not accepted. -/
def packValues : List ZbxPreprocItemValue → ZbxIpcMessage → Option ZbxIpcMessage
  | [], message => some message
  | value :: rest, message =>
    (preprocessorPackValue message value).bind fun result =>
      if result.1 = 0 then none else packValues rest result.2

theorem packValues_spec {values : List ZbxPreprocItemValue} (sized : Sized message)
    (packed : packValues values message = some after) :
    Sized after ∧ after.data = message.data ++
      values.flatMap fun value => encodeFields (itemValueFields value) := by
  induction values generalizing message with
  | nil =>
    obtain rfl := some.inj packed
    exact ⟨sized, (append_nil _).symm⟩
  | cons value rest ih =>
    obtain ⟨⟨size, middle⟩, isPacked, isRest⟩ := bind_eq_some_iff.mp packed
    split_ifs at isRest with refused
    obtain ⟨-, middleSized, rfl⟩ := messagePackData_packed sized (hasMemory_itemValue value)
      (length_itemValue value) isPacked refused
    obtain ⟨afterSized, isData⟩ := ih middleSized isRest
    refine ⟨afterSized, ?_⟩
    rw [isData, flatMap_cons, append_assoc]

theorem unpackValues_spec {values : List ZbxPreprocItemValue} (sized : Sized message)
    {before : Bytes} (isData : message.data = before ++
      values.flatMap fun value => encodeFields (itemValueFields value))
    {fuel : Nat} (enough : values.length ≤ fuel) :
    unpackValues fuel message before.length = some (values, (message.size : Int)) := by
  have bounded := sized.bounded
  rw [sized.exact, isData, length_append, maxUint32] at bounded
  induction values generalizing before fuel with
  | nil =>
    have atEnd : message.size = before.length := by
      rw [sized.exact, isData, flatMap_nil, append_nil]
    unfold unpackValues
    rw [if_neg (by omega), atEnd]
  | cons value rest ih =>
    have positive := length_itemValue value
    rw [flatMap_cons] at isData
    rw [flatMap_cons, length_append] at bounded
    have inside : (before.length : Int) < message.size := by
      rw [sized.exact, isData, length_append, length_append]
      omega
    have holds : Holds message.data before.length (encodeFields (itemValueFields value)) :=
      ⟨before, _, by rw [isData, append_assoc], rfl⟩
    have small : (encodeFields (itemValueFields value)).length < sizeBound := by
      rw [sizeBound]
      omega
    have reads := reads_narrow (reads_itemValue value) (toUint32_kept small) small
      message.data before.length holds
    cases fuel with
    | zero => exact absurd enough (Nat.not_succ_le_zero _)
    | succ fuel =>
      unfold unpackValues
      rw [if_pos inside, zbxPreprocessorUnpackValue, reads]
      dsimp only
      rw [bind_some]
      have next : (before.length : Int) + (encodeFields (itemValueFields value)).length =
          ((before ++ encodeFields (itemValueFields value)).length : Nat) := by
        rw [length_append]
        push_cast
        rfl
      rw [next, toUint32_kept (by rw [sizeBound, length_append]; omega),
        ih (by rw [isData, append_assoc]) (Nat.le_of_succ_le_succ enough)
          (by rw [length_append]; omega), map_some]

theorem length_le_itemValues (values : List ZbxPreprocItemValue) :
    values.length ≤ (values.flatMap fun value => encodeFields (itemValueFields value)).length := by
  have wide (value : ZbxPreprocItemValue) : 2 ≤ (encodeFields (itemValueFields value)).length := by
    rw [itemValueFields, encodeFields_cons, encode_packedUint64, length_append, length_uint64Bytes]
    omega
  have enough := length_flatMap_ge fun value (_ : value ∈ values) => wide value
  omega

theorem itemValues_roundTrip {values : List ZbxPreprocItemValue}
    (packed : packValues values {} = some message) :
    unpackValues message.size message 0 = some (values, (message.size : Int)) := by
  obtain ⟨sized, isData⟩ := packValues_spec sized_empty packed
  rw [nil_append] at isData
  have enough : values.length ≤ message.size := by
    rw [sized.exact, isData]
    exact length_le_itemValues values
  exact @unpackValues_spec message values sized [] isData message.size enough

/-! ## Tasks, results and test messages -/

def ReadBack {Value : Type} (reader : Reader Value) (message : ZbxIpcMessage) (value : Value) :
    Prop :=
  reader message.data 0 = some (value, (message.size : Int))

section ReadBack

variable {Value : Type} {reader : Reader Value} {fields : List ZbxPackedField} {value : Value}

variable (memory : ∀ field ∈ fields, HasMemory field)

include memory

variable (packed : messagePackData {} fields = some (size, message))

include packed

theorem packed_empty (accepted : size ≠ 0) :
    message = ⟨(encodeFields fields).length, encodeFields fields⟩ ∧
      (encodeFields fields).length < sizeBound := by
  have nonempty : 0 < (encodeFields fields).length := by
    by_contra empty
    have isEmpty := Nat.eq_zero_of_not_pos empty
    rw [messagePackData, measureFields_spec memory (Nat.zero_le _), Nat.add_zero, isEmpty,
      if_neg (Nat.not_lt_zero _)] at packed
    exact accepted (Prod.mk.inj (some.inj packed)).1.symm
  obtain ⟨-, sized, rfl⟩ := messagePackData_packed sized_empty memory nonempty packed accepted
  have bounded := sized.bounded
  rw [maxUint32] at bounded
  refine ⟨?_, ?_⟩
  · rw [ZbxIpcMessage.mk.injEq]
    exact ⟨Nat.zero_add _, nil_append _⟩
  · rw [sizeBound]
    dsimp only at bounded
    omega

theorem readBack_of_reads (accepted : size ≠ 0)
    (reads : Reads sizeBound reader (encodeFields fields) value) :
    ReadBack reader message value := by
  obtain ⟨rfl, bounded⟩ := packed_empty memory packed accepted
  rw [ReadBack, reads bounded _ 0 (holds_self _), zero_add]

theorem not_readBack_of_derails (accepted : size ≠ 0)
    (derails : Derails sizeBound reader (encodeFields fields)) :
    ¬ReadBack reader message value := by
  intro isRead
  obtain ⟨rfl, bounded⟩ := packed_empty memory packed accepted
  have negative := derails _ 0 bounded (holds_self _) value _ isRead
  dsimp only at negative
  omega

theorem binFits_of_readBack {value' : ZbxVariant} (accepted : size ≠ 0)
    (inside : ∀ data, value' = .bin data → data.bytes.length + 4 ≤ message.data.length) :
    BinFits value' := by
  obtain ⟨rfl, bounded⟩ := packed_empty memory packed accepted
  intro data same
  have isInside := inside data same
  dsimp only at isInside
  omega

end ReadBack

/-- No part of a task whose length passes through an `int` has 2^31 bytes or more. -/
def TaskFits (task : PreprocessorTask) : Prop :=
  variantSize task.value < intBound ∧ historySize task.history < intBound ∧
    ∀ step ∈ task.steps, stepSize step < intBound

theorem encode_task (task : PreprocessorTask) :
    encodeFields (taskFields task) = uint64Bytes task.itemid ++ (charBytes task.valueType ++
      (charBytes (marker task.ts) ++ (task.ts.elim [] (fun ts => encodeFields (timespecFields ts)) ++
        (encodeFields (preprocessorPackVariant task.value) ++
          (encodeFields (preprocessorPackHistory task.history) ++
            encodeFields (preprocessorPackSteps task.steps)))))) := by
  simp only [taskFields, encodeFields_cons, encodeFields_append, encode_packedUint64,
    encode_packedChar, encodeFields_elim]

theorem reads_task {task : PreprocessorTask} (fits : TaskFits task) :
    Reads sizeBound zbxPreprocessorUnpackTask (encodeFields (taskFields task)) task := by
  rw [encode_task]
  apply reads_bind (reads_uint64 _)
  apply reads_bind (reads_char _)
  apply reads_bind (reads_char _)
  apply reads_bind (reads_readMarked reads_timespec task.ts)
  apply reads_bind (reads_unpackVariant fits.1)
  apply reads_bind (reads_unpackHistory fits.2.1)
  exact reads_map _ (reads_steps fits.2.2)

theorem derails_task {task : PreprocessorTask} (binFits : BinFits task.value)
    (historyFits : ∀ ophistory ∈ task.history, BinFits ophistory.value)
    (bounded : (encodeFields (taskFields task)).length < sizeBound) (large : ¬TaskFits task) :
    Derails sizeBound zbxPreprocessorUnpackTask (encodeFields (taskFields task)) := by
  rw [encode_task] at bounded ⊢
  simp only [length_append, length_variant binFits, length_history historyFits] at bounded
  apply derails_bind_right (reads_uint64 _)
  apply derails_bind_right (reads_char _)
  apply derails_bind_right (reads_char _)
  apply derails_bind_right (reads_readMarked reads_timespec task.ts)
  by_cases valueFits : variantSize task.value < intBound
  · apply derails_bind_right (reads_unpackVariant valueFits)
    by_cases allFit : historySize task.history < intBound
    · apply derails_bind_right (reads_unpackHistory allFit)
      have isLarge : ∃ step ∈ task.steps, intBound ≤ stepSize step := by
        by_contra small
        push Not at small
        exact large ⟨valueFits, allFit, small⟩
      have derails := derails_bind_left (derails_steps (by omega) isLarge)
        (fun steps => sinks_pure (PreprocessorTask.mk task.itemid task.valueType task.ts
          task.value task.history steps)) []
      rwa [append_nil] at derails
    · apply derails_of_fails
      exact fails_after_history historyFits (Nat.not_lt.mp allFit) (by omega)
        (fun _ => needsData_bind needsData_steps _) _
  · apply derails_of_fails
    exact fails_after_variant binFits (Nat.not_lt.mp valueFits) (by omega)
      (needsData_bind needsData_history _) _

theorem yields_task : Yields zbxPreprocessorUnpackTask fun buffer task =>
    (∀ data, task.value = .bin data → data.bytes.length + 4 ≤ buffer.length) ∧
      ∀ ophistory ∈ task.history, ∀ data, ophistory.value = .bin data →
        data.bytes.length + 4 ≤ buffer.length := by
  unfold zbxPreprocessorUnpackTask
  refine yields_bind (yields_trivial _) fun itemid => ?_
  refine yields_bind (yields_trivial _) fun valueType => ?_
  refine yields_bind (yields_trivial _) fun tsMarker => ?_
  refine yields_bind (yields_trivial _) fun ts => ?_
  refine yields_bind yields_variant fun value => yields_bind yields_history fun history => ?_
  refine yields_bind (yields_trivial _) fun steps => yields_pure ?_
  exact fun buffer _ historyInside valueInside _ _ _ _ => ⟨valueInside, historyInside⟩

/-- A task that has been packed is read back exactly when its parts are below 2^31 bytes. -/
theorem task_roundTrip {task : PreprocessorTask}
    (packed : zbxPreprocessorPackTask task = some (size, message)) (accepted : size ≠ 0) :
    ReadBack zbxPreprocessorUnpackTask message task ↔ TaskFits task := by
  have memory := hasMemory_task task
  constructor
  · intro readBack
    by_contra large
    obtain ⟨valueInside, historyInside⟩ := yields_task _ _ _ _ readBack
    apply not_readBack_of_derails memory packed accepted _ readBack
    exact derails_task (binFits_of_readBack memory packed accepted valueInside)
      (fun ophistory member => binFits_of_readBack memory packed accepted
        (historyInside ophistory member)) (packed_empty memory packed accepted).2 large
  · intro fits
    exact readBack_of_reads memory packed accepted (reads_task fits)

/-- The parts of a worker result that `TaskFits` names. -/
def ResultFits (result : PreprocessorResult) : Prop :=
  variantSize result.value < intBound ∧ historySize result.history < intBound

theorem encode_result (result : PreprocessorResult) :
    encodeFields (preprocessorResultFields result) =
      encodeFields (preprocessorPackVariant result.value) ++
        (encodeFields (preprocessorPackHistory result.history) ++ strBytes result.error) := by
  simp only [preprocessorResultFields, encodeFields_cons, encodeFields_append, encode_packedString,
    encodeFields_nil, append_nil]

theorem reads_result {result : PreprocessorResult} (fits : ResultFits result) :
    Reads sizeBound zbxPreprocessorUnpackResult (encodeFields (preprocessorResultFields result))
      result := by
  rw [encode_result]
  apply reads_bind (reads_unpackVariant fits.1)
  apply reads_bind (reads_unpackHistory fits.2)
  exact reads_map _ (reads_str _)

theorem derails_result {result : PreprocessorResult} (binFits : BinFits result.value)
    (historyFits : ∀ ophistory ∈ result.history, BinFits ophistory.value)
    (bounded : (encodeFields (preprocessorResultFields result)).length < sizeBound)
    (large : ¬ResultFits result) :
    Derails sizeBound zbxPreprocessorUnpackResult
      (encodeFields (preprocessorResultFields result)) := by
  rw [encode_result] at bounded ⊢
  simp only [length_append, length_variant binFits, length_history historyFits] at bounded
  apply derails_of_fails
  by_cases valueFits : variantSize result.value < intBound
  · apply fails_bind_right (reads_unpackVariant valueFits)
    exact fails_after_history historyFits
      (Nat.not_lt.mp fun allFit => large ⟨valueFits, allFit⟩) (by omega)
      (fun _ => needsData_bind needsData_str _) _
  · exact fails_after_variant binFits (Nat.not_lt.mp valueFits) (by omega)
      (needsData_bind needsData_history _) _

theorem yields_result : Yields zbxPreprocessorUnpackResult fun buffer result =>
    (∀ data, result.value = .bin data → data.bytes.length + 4 ≤ buffer.length) ∧
      ∀ ophistory ∈ result.history, ∀ data, ophistory.value = .bin data →
        data.bytes.length + 4 ≤ buffer.length := by
  unfold zbxPreprocessorUnpackResult
  refine yields_bind yields_variant fun value => yields_bind yields_history fun history => ?_
  refine yields_bind (yields_trivial _) fun error => yields_pure ?_
  exact fun buffer _ historyInside valueInside => ⟨valueInside, historyInside⟩

theorem result_roundTrip {result : PreprocessorResult}
    (packed : zbxPreprocessorPackResult result = some (size, message)) (accepted : size ≠ 0) :
    ReadBack zbxPreprocessorUnpackResult message result ↔ ResultFits result := by
  have memory := hasMemory_result result
  constructor
  · intro readBack
    by_contra large
    obtain ⟨valueInside, historyInside⟩ := yields_result _ _ _ _ readBack
    apply not_readBack_of_derails memory packed accepted _ readBack
    exact derails_result (binFits_of_readBack memory packed accepted valueInside)
      (fun ophistory member => binFits_of_readBack memory packed accepted
        (historyInside ophistory member)) (packed_empty memory packed accepted).2 large
  · intro fits
    exact readBack_of_reads memory packed accepted (reads_result fits)

/-- The parts of a test request that `TaskFits` names. -/
def TestRequestFits (request : TestRequest) : Prop :=
  historySize request.history < intBound ∧ ∀ step ∈ request.steps, stepSize step < intBound

theorem encode_testRequest (request : TestRequest) :
    encodeFields (testRequestFields request) = charBytes request.valueType ++
      (strBytes request.value ++ (encodeFields (timespecFields request.ts) ++
        (encodeFields (preprocessorPackHistory request.history) ++
          encodeFields (preprocessorPackSteps request.steps)))) := by
  simp only [testRequestFields, encodeFields_cons, encodeFields_append, encode_packedChar,
    encode_packedString]

theorem reads_testRequest {request : TestRequest} (fits : TestRequestFits request) :
    Reads sizeBound zbxPreprocessorUnpackTestRequest (encodeFields (testRequestFields request))
      request := by
  rw [encode_testRequest]
  apply reads_bind (reads_char _)
  apply reads_bind (reads_str _)
  apply reads_bind (reads_timespec _)
  apply reads_bind (reads_unpackHistory fits.1)
  exact reads_map _ (reads_steps fits.2)

theorem derails_testRequest {request : TestRequest}
    (historyFits : ∀ ophistory ∈ request.history, BinFits ophistory.value)
    (bounded : (encodeFields (testRequestFields request)).length < sizeBound)
    (large : ¬TestRequestFits request) :
    Derails sizeBound zbxPreprocessorUnpackTestRequest
      (encodeFields (testRequestFields request)) := by
  rw [encode_testRequest] at bounded ⊢
  simp only [length_append, length_history historyFits] at bounded
  apply derails_bind_right (reads_char _)
  apply derails_bind_right (reads_str _)
  apply derails_bind_right (reads_timespec _)
  by_cases allFit : historySize request.history < intBound
  · apply derails_bind_right (reads_unpackHistory allFit)
    have isLarge : ∃ step ∈ request.steps, intBound ≤ stepSize step := by
      by_contra small
      push Not at small
      exact large ⟨allFit, small⟩
    have derails := derails_bind_left (derails_steps (by omega) isLarge)
      (fun steps => sinks_pure (TestRequest.mk request.valueType request.value request.ts
        request.history steps)) []
    rwa [append_nil] at derails
  · apply derails_of_fails
    exact fails_after_history historyFits (Nat.not_lt.mp allFit) (by omega)
      (fun _ => needsData_bind needsData_steps _) _

theorem yields_testRequest : Yields zbxPreprocessorUnpackTestRequest fun buffer request =>
    ∀ ophistory ∈ request.history, ∀ data, ophistory.value = .bin data →
      data.bytes.length + 4 ≤ buffer.length := by
  unfold zbxPreprocessorUnpackTestRequest
  refine yields_bind (yields_trivial _) fun valueType => ?_
  refine yields_bind (yields_trivial _) fun value => ?_
  refine yields_bind (yields_trivial _) fun ts => yields_bind yields_history fun history => ?_
  refine yields_bind (yields_trivial _) fun steps => yields_pure ?_
  exact fun buffer _ historyInside _ _ _ => historyInside

theorem testRequest_roundTrip {request : TestRequest}
    (packed : preprocessorPackTestRequest request = some (size, message)) (accepted : size ≠ 0) :
    ReadBack zbxPreprocessorUnpackTestRequest message request ↔ TestRequestFits request := by
  have memory := hasMemory_testRequest request
  constructor
  · intro readBack
    by_contra large
    have historyInside := yields_testRequest _ _ _ _ readBack
    apply not_readBack_of_derails memory packed accepted _ readBack
    exact derails_testRequest (fun ophistory member => binFits_of_readBack memory packed accepted
      (historyInside ophistory member)) (packed_empty memory packed accepted).2 large
  · intro fits
    exact readBack_of_reads memory packed accepted (reads_testRequest fits)

/-- The parts of a test result that `TaskFits` names. -/
def TestResultFits (result : TestResult) : Prop :=
  (∀ stepResult ∈ result.results, variantSize stepResult.value < intBound) ∧
    historySize result.history < intBound

theorem encode_stepResult (result : ZbxPreprocResult) :
    encodeFields (stepResultFields result) =
      encodeFields (preprocessorPackVariant result.value) ++
        (strBytes result.error ++ charBytes result.action) := by
  simp only [stepResultFields, encodeFields_append, encodeFields_cons, encode_packedString,
    encode_packedChar, encodeFields_nil, append_nil]

theorem encode_testResult (result : TestResult) :
    encodeFields (testResultFields result) = intBytes (Int32.ofNat result.results.length) ++
      ((result.results.flatMap fun stepResult => encodeFields (stepResultFields stepResult)) ++
        (encodeFields (preprocessorPackHistory result.history) ++ strBytes result.error)) := by
  simp only [testResultFields, encodeFields_cons, encodeFields_append, encode_packedInt,
    encode_packedString, encodeFields_flatMap, encodeFields_nil, append_nil]

theorem stepResult_wide (result : ZbxPreprocResult) :
    2 ≤ (encodeFields (stepResultFields result)).length := by
  rw [encode_stepResult, length_append, length_append, length_strBytes]
  omega

theorem reads_stepResult {result : ZbxPreprocResult} (fits : variantSize result.value < intBound) :
    Reads sizeBound unpackStepResult (encodeFields (stepResultFields result)) result := by
  rw [encode_stepResult]
  apply reads_bind (reads_unpackVariant fits)
  apply reads_bind (reads_str _)
  exact reads_map _ (reads_char _)

theorem fails_stepResult {result : ZbxPreprocResult} (binFits : BinFits result.value)
    (large : intBound ≤ variantSize result.value)
    (bounded : (encodeFields (stepResultFields result)).length < sizeBound) :
    Fails sizeBound unpackStepResult (encodeFields (stepResultFields result)) := by
  rw [encode_stepResult] at bounded ⊢
  rw [length_append, length_variant binFits] at bounded
  exact fails_after_variant binFits large (by omega) (needsData_bind needsData_str _) _

theorem reads_testResult {result : TestResult}
    (bounded : (encodeFields (testResultFields result)).length < sizeBound)
    (fits : TestResultFits result) :
    Reads sizeBound zbxPreprocessorUnpackTestResult (encodeFields (testResultFields result))
      result := by
  rw [encode_testResult] at bounded ⊢
  simp only [length_append] at bounded
  apply reads_bind (reads_int _)
  rw [count_of_length (fun stepResult _ => stepResult_wide stepResult) (by omega)]
  apply reads_bind (reads_readMany fun stepResult member => reads_stepResult (fits.1 _ member))
  apply reads_bind (reads_unpackHistory fits.2)
  exact reads_map _ (reads_str _)

theorem fails_testResult {result : TestResult}
    (resultsFit : ∀ stepResult ∈ result.results, BinFits stepResult.value)
    (historyFits : ∀ ophistory ∈ result.history, BinFits ophistory.value)
    (bounded : (encodeFields (testResultFields result)).length < sizeBound)
    (large : ¬TestResultFits result) :
    Fails sizeBound zbxPreprocessorUnpackTestResult (encodeFields (testResultFields result)) := by
  rw [encode_testResult] at bounded ⊢
  simp only [length_append, length_history historyFits] at bounded
  have below (stepResult : ZbxPreprocResult) (member : stepResult ∈ result.results) :
      (encodeFields (stepResultFields stepResult)).length < sizeBound := by
    have le := (sublist_flatten_of_mem (List.mem_map_of_mem
      (f := fun stepResult => encodeFields (stepResultFields stepResult)) member)).length_le
    rw [← flatMap_def] at le
    omega
  apply fails_bind_right (reads_int _)
  rw [count_of_length (fun stepResult _ => stepResult_wide stepResult) (by omega)]
  by_cases small : ∀ stepResult ∈ result.results, variantSize stepResult.value < intBound
  · apply fails_bind_right (reads_readMany fun stepResult member =>
      reads_stepResult (small _ member))
    exact fails_after_history historyFits
      (Nat.not_lt.mp fun allFit => large ⟨small, allFit⟩) (by omega)
      (fun _ => needsData_bind needsData_str _) _
  · push Not at small
    obtain ⟨stepResult, member, isLarge⟩ := small
    apply fails_bind_left
    apply fails_readMany
    · intro other isIn
      by_cases isSmall : variantSize other.value < intBound
      · exact Or.inl (reads_stepResult isSmall)
      · exact Or.inr (fails_stepResult (resultsFit other isIn) (Nat.not_lt.mp isSmall)
          (below other isIn))
    · exact ⟨stepResult, member, fails_stepResult (resultsFit _ member) isLarge (below _ member)⟩

theorem yields_testResult : Yields zbxPreprocessorUnpackTestResult fun buffer result =>
    (∀ stepResult ∈ result.results, ∀ data, stepResult.value = .bin data →
        data.bytes.length + 4 ≤ buffer.length) ∧
      ∀ ophistory ∈ result.history, ∀ data, ophistory.value = .bin data →
        data.bytes.length + 4 ≤ buffer.length := by
  have each : Yields unpackStepResult fun buffer stepResult =>
      ∀ data, stepResult.value = .bin data → data.bytes.length + 4 ≤ buffer.length := by
    unfold unpackStepResult
    refine yields_bind yields_variant fun value => yields_bind (yields_trivial _) fun error => ?_
    refine yields_bind (yields_trivial _) fun action => yields_pure ?_
    exact fun buffer _ _ inside => inside
  unfold zbxPreprocessorUnpackTestResult
  refine yields_bind (yields_trivial _) fun resultsNum => ?_
  refine yields_bind (yields_readMany each _) fun results => ?_
  refine yields_bind yields_history fun history => ?_
  refine yields_bind (yields_trivial _) fun error => yields_pure ?_
  exact fun buffer _ historyInside resultsInside _ => ⟨resultsInside, historyInside⟩

theorem testResult_roundTrip {result : TestResult}
    (packed : zbxPreprocessorPackTestResult result = some (size, message)) (accepted : size ≠ 0) :
    ReadBack zbxPreprocessorUnpackTestResult message result ↔ TestResultFits result := by
  have memory := hasMemory_testResult result
  have bounded := (packed_empty memory packed accepted).2
  constructor
  · intro readBack
    by_contra large
    obtain ⟨resultsInside, historyInside⟩ := yields_testResult _ _ _ _ readBack
    apply not_readBack_of_derails memory packed accepted _ readBack
    apply derails_of_fails
    exact fails_testResult
      (fun stepResult member => binFits_of_readBack memory packed accepted
        (resultsInside stepResult member))
      (fun ophistory member => binFits_of_readBack memory packed accepted
        (historyInside ophistory member)) bounded large
  · intro fits
    exact readBack_of_reads memory packed accepted (reads_testResult bounded fits)

end Zabbix.Preprocessing.RoundTrip
