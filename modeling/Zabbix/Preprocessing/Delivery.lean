import Zabbix.Preprocessing.RoundTrip

/-!
# What the preprocessing service receives

The round trips of all messages together, and the tasks that are lost: a text
of 2^31 bytes is packed, but the worker looks for what follows it before the
message.
-/

namespace Zabbix.Preprocessing.Delivery

open Common.Serialize Library.ByteReader Messages Packing Layout RoundTrip List

/-! ## A task that is lost -/

/-- A text of `length` letters A. -/
def longText (length : Nat) : CString where
  bytes := replicate length 65
  noNul member := by simpa using (mem_replicate.mp member).2

/-- A task with a long text, without history and steps. -/
def longTask (length : Nat) : PreprocessorTask where
  itemid := 1
  valueType := 4
  ts := none
  value := .str (some (longText length))
  history := []
  steps := []

theorem strSize_longText (length : Nat) : strSize (some (longText length)) = length + 1 := by
  rw [strSize, CString.memory, length_append, longText, length_replicate, length_singleton]

theorem length_longTask (length : Nat) :
    (encodeFields (taskFields (longTask length))).length = length + 24 := by
  have binFits : BinFits (longTask length).value := fun _ => nofun
  rw [encode_task]
  simp only [length_append, length_variant binFits, length_uint64Bytes, length_charBytes]
  rw [longTask, variantSize, strSize_longText]
  simp only [Option.elim_none, length_nil, encode_history, encode_steps, flatMap_nil,
    append_nil, length_intBytes]
  omega

theorem longTask_lost {length : Nat} (large : 2 ^ 31 ≤ length) (bounded : length + 24 < 2 ^ 32) :
    ∃ size message, zbxPreprocessorPackTask (longTask length) = some (size, message) ∧
      size ≠ 0 ∧ ¬ReadBack zbxPreprocessorUnpackTask message (longTask length) := by
  have total := length_longTask length
  have packed := messagePackData_spec sized_empty (hasMemory_task (longTask length)) (by omega)
  rw [if_neg (by rw [maxUint32]; dsimp only; omega)] at packed
  refine ⟨_, _, packed, by omega, ?_⟩
  rw [task_roundTrip packed (by omega)]
  intro fits
  have small := fits.1
  rw [longTask, variantSize, strSize_longText, intBound] at small
  omega

theorem task_notReadBack :
    ∃ size message, zbxPreprocessorPackTask (longTask (2 ^ 31)) = some (size, message) ∧
      size ≠ 0 ∧ ¬ReadBack zbxPreprocessorUnpackTask message (longTask (2 ^ 31)) :=
  longTask_lost (Nat.le_refl _) (by decide)

/-! ## All messages -/

/--
Values that were packed one after another are read back, up to the end of the
message, and a value that would make the message longer than 4 GB leaves it as
it was.  A task, a result or a test message that was packed is read back exactly
when its parts are below 2^31 bytes.
-/
theorem messages_roundTrip (values : List ZbxPreprocItemValue) (value : ZbxPreprocItemValue)
    (task : PreprocessorTask) (result : PreprocessorResult) (request : TestRequest)
    (testResult : TestResult) :
    (∀ message, packValues values {} = some message →
      unpackValues message.size message 0 = some (values, (message.size : Int))) ∧
    (∀ message, packValues values {} = some message →
      ∃ size after, preprocessorPackValue message value = some (size, after) ∧
        (size = 0 → after = message) ∧
        (maxUint32 < message.size + (encodeFields (itemValueFields value)).length ↔ size = 0)) ∧
    (∀ size message, zbxPreprocessorPackTask task = some (size, message) → size ≠ 0 →
      (ReadBack zbxPreprocessorUnpackTask message task ↔ TaskFits task)) ∧
    (∀ size message, zbxPreprocessorPackResult result = some (size, message) → size ≠ 0 →
      (ReadBack zbxPreprocessorUnpackResult message result ↔ ResultFits result)) ∧
    (∀ size message, preprocessorPackTestRequest request = some (size, message) → size ≠ 0 →
      (ReadBack zbxPreprocessorUnpackTestRequest message request ↔ TestRequestFits request)) ∧
    (∀ size message, zbxPreprocessorPackTestResult testResult = some (size, message) → size ≠ 0 →
      (ReadBack zbxPreprocessorUnpackTestResult message testResult ↔
        TestResultFits testResult)) := by
  refine ⟨fun _ => itemValues_roundTrip, ?_, fun _ _ => task_roundTrip,
    fun _ _ => result_roundTrip, fun _ _ => testRequest_roundTrip,
    fun _ _ => testResult_roundTrip⟩
  intro message packed
  have sized := (packValues_spec sized_empty packed).1
  have positive := length_itemValue value
  have appended := preprocessorPackValue_spec sized value
  by_cases exceeds : maxUint32 < message.size + (encodeFields (itemValueFields value)).length
  · rw [if_pos exceeds] at appended
    exact ⟨0, message, appended, fun _ => rfl, fun _ => rfl, fun _ => exceeds⟩
  · rw [if_neg exceeds] at appended
    refine ⟨_, _, appended, fun empty => ?_, fun isOver => absurd isOver exceeds, fun empty => ?_⟩
    · omega
    · omega

/-- A value with a time stamp and a log. -/
def sampleValue : ZbxPreprocItemValue where
  itemid := 7
  hostid := 8
  itemValueType := 2
  result := some ⟨0, 0, 0, none, none, none,
    some ⟨some ⟨[97, 98], by decide⟩, none, 1, 2, 3⟩, 16, 0⟩
  ts := some ⟨1700000000, -1⟩
  error := some ⟨[], by decide⟩
  itemFlags := 0
  state := 1

/-- A task with a binary history entry and one step. -/
def sampleTask : PreprocessorTask where
  itemid := 7
  valueType := 4
  ts := some ⟨1700000000, 5⟩
  value := .dbl 0x3ff0000000000000
  history := [⟨0, .bin ⟨[1, 0, 2], by decide⟩, ⟨3, 4⟩⟩]
  steps := [⟨21, 0, some ⟨[49], by decide⟩, none⟩]

def sampleResult : PreprocessorResult :=
  ⟨.none, sampleTask.history, some ⟨[69], by decide⟩⟩

def sampleTestRequest : TestRequest :=
  ⟨4, none, ⟨1, 2⟩, sampleTask.history, sampleTask.steps⟩

def sampleTestResult : TestResult :=
  ⟨[⟨.ui64 5, 1, none⟩], sampleTask.history, none⟩

theorem accepted_of_any {packed : Option (Nat × ZbxIpcMessage)}
    (isPacked : packed.any (fun result => result.1 != 0) = true) :
    ∃ size message, packed = some (size, message) ∧ size ≠ 0 := by
  cases packed with
  | none => cases isPacked
  | some result => exact ⟨result.1, result.2, rfl, by simpa using isPacked⟩

theorem messages_roundTrip_sample :
    (∃ message, packValues [sampleValue, sampleValue] {} = some message ∧
      unpackValues message.size message 0 =
        some ([sampleValue, sampleValue], (message.size : Int))) ∧
    (∃ size message, zbxPreprocessorPackTask sampleTask = some (size, message) ∧
      (ReadBack zbxPreprocessorUnpackTask message sampleTask ↔ TaskFits sampleTask)) ∧
    (∃ size message, zbxPreprocessorPackResult sampleResult = some (size, message) ∧
      (ReadBack zbxPreprocessorUnpackResult message sampleResult ↔ ResultFits sampleResult)) ∧
    (∃ size message, preprocessorPackTestRequest sampleTestRequest = some (size, message) ∧
      (ReadBack zbxPreprocessorUnpackTestRequest message sampleTestRequest ↔
        TestRequestFits sampleTestRequest)) ∧
    (∃ size message, zbxPreprocessorPackTestResult sampleTestResult = some (size, message) ∧
      (ReadBack zbxPreprocessorUnpackTestResult message sampleTestResult ↔
        TestResultFits sampleTestResult)) := by
  obtain ⟨values, -, tasks, results, requests, testResults⟩ :=
    messages_roundTrip [sampleValue, sampleValue] sampleValue sampleTask sampleResult
      sampleTestRequest sampleTestResult
  have packs : (packValues [sampleValue, sampleValue] {}).isSome = true := by decide +kernel
  obtain ⟨message, isPacked⟩ := Option.isSome_iff_exists.mp packs
  obtain ⟨taskSize, taskMessage, isTask, taskAccepted⟩ := accepted_of_any
    (show (zbxPreprocessorPackTask sampleTask).any _ = true by decide +kernel)
  obtain ⟨resultSize, resultMessage, isResult, resultAccepted⟩ := accepted_of_any
    (show (zbxPreprocessorPackResult sampleResult).any _ = true by decide +kernel)
  obtain ⟨requestSize, requestMessage, isRequest, requestAccepted⟩ := accepted_of_any
    (show (preprocessorPackTestRequest sampleTestRequest).any _ = true by decide +kernel)
  obtain ⟨testSize, testMessage, isTest, testAccepted⟩ := accepted_of_any
    (show (zbxPreprocessorPackTestResult sampleTestResult).any _ = true by decide +kernel)
  exact ⟨⟨message, isPacked, values _ isPacked⟩, ⟨_, _, isTask, tasks _ _ isTask taskAccepted⟩,
    ⟨_, _, isResult, results _ _ isResult resultAccepted⟩,
    ⟨_, _, isRequest, requests _ _ isRequest requestAccepted⟩,
    ⟨_, _, isTest, testResults _ _ isTest testAccepted⟩⟩

end Zabbix.Preprocessing.Delivery
