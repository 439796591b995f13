import Zabbix.Library.Transition
import Zabbix.ResultCache.Records
import Mathlib.Data.Int.Init
import Mathlib.Data.List.Pairwise

/-!
# Runs of the memory cache

The counters, the order of the results and the life of a persistent result, over
every sequence of writes and uploads.  A non-persistent result replaces the oldest
result of its item when the cache is full; the runs below are those in which it
never finds a persistent one there.
-/

namespace Zabbix.ResultCache.MemoryRuns

open Library.Transition Records MemoryCache List Option

def persistentNum (results : List AgentData) : Nat :=
  results.countP fun r => r.persistent

/-- The counters are right, the results are in order, and the cache is not too long. -/
structure Consistent (cache : MemoryCache) : Prop where
  total : cache.totalValueNum = cache.results.length
  persist : cache.persistValueNum = persistentNum cache.results
  ascending : cache.results.Pairwise fun older newer => older.id < newer.id
  bounded :
    cache.maxBufferSize < cache.results.length →
      cache.maxBufferSize / 2 ≤ persistentNum cache.results

/-- An upload with this result in it has succeeded. -/
def Delivered (attempts : List Attempt) (r : AgentData) : Prop :=
  ∃ attempt ∈ attempts, attempt.success = true ∧ r ∈ attempt.data

/-- After a successful upload of it, a result is not in any later attempt. -/
def SentOnce (attempts : List Attempt) : Prop :=
  attempts.Pairwise fun earlier later => earlier.success = true → ∀ r ∈ earlier.data, r ∉ later.data

/-- What holds in a state: nothing persistent is lost, and nothing is sent again. -/
structure Sound (state : State) : Prop where
  consistent : Consistent state.cache
  kept :
    ∀ r ∈ state.written, r.persistent = true →
      r ∈ state.cache.results ∨ Delivered state.attempts r
  once : SentOnce state.attempts
  gone : ∀ r, Delivered state.attempts r → r ∉ state.cache.results

def TakesPlace (before after : MemoryCache) (old new : AgentData) : Prop :=
  old.persistent = false ∧ before.maxBufferSize ≤ before.results.length ∧
    after.results.length = before.results.length ∧
      new ∈ after.results ∧ new ∉ before.results ∧ old.id < new.id

/-- A step drops a result only after a successful upload of it, or for a newer result. -/
def DropsFor (state next : State) : Prop :=
  ∀ r ∈ state.cache.results, r ∉ next.cache.results →
    (∃ attempt, next.attempts = state.attempts ++ [attempt] ∧ attempt.success = true ∧
      r ∈ attempt.data) ∨
    ∃ new, TakesPlace state.cache next.cache r new

def ReplacesPersistent (cache : MemoryCache) (r : Result) : Prop :=
  r.persistent = false ∧ cache.maxBufferSize ≤ cache.totalValueNum ∧
    ∃ old ∈ cache.results.find? (fun old => old.itemid == r.itemid), old.persistent = true

instance (cache : MemoryCache) (r : Result) : Decidable (ReplacesPersistent cache r) :=
  inferInstanceAs (Decidable (_ ∧ _))

/-- No persistent result is replaced, and the counters do not overflow. -/
def Fits (state : State) : Input → Prop
  | .result r _ =>
    ¬ReplacesPersistent state.cache r ∧ state.cache.results.length + 1 < 2 ^ 31 ∧
      state.cache.lastDataID + 1 < 2 ^ 64
  | .uploader _ => True

instance (state : State) (input : Input) : Decidable (Fits state input) :=
  match input with
  | .result _ _ => inferInstanceAs (Decidable (_ ∧ _))
  | .uploader _ => inferInstanceAs (Decidable True)

/-! ## Lists -/

variable {results before after : List AgentData} {old new r : AgentData} {index : Nat}

theorem exists_split (found : results[index]? = some old) :
    ∃ before after, results = before ++ old :: after ∧
      results.eraseIdx index = before ++ after := by
  induction results generalizing index with
  | nil => simp at found
  | cons first rest ih =>
    cases index with
    | zero =>
      obtain rfl : first = old := by simpa using found
      exact ⟨[], rest, rfl, rfl⟩
    | succ index =>
      obtain ⟨before, after, split, erased⟩ := ih (by simpa using found)
      refine ⟨first :: before, after, ?_, ?_⟩
      · rw [split, cons_append]
      · rw [eraseIdx_cons_succ, erased, cons_append]

theorem int32_eq {value : Int} (nonneg : 0 ≤ value) (fits : value < 2 ^ 31) :
    int32 value = value := by
  unfold int32
  rw [Int.bmod_def]
  omega

/-! ## Replacing -/

theorem persistentNum_le (results : List AgentData) : persistentNum results ≤ results.length :=
  countP_le_length

theorem exists_of_findIdx? {p : AgentData → Bool} (found : results.findIdx? p = some index) :
    ∃ old, results[index]? = some old ∧ p old = true := by
  obtain ⟨bound, holds, -⟩ := findIdx?_eq_some_iff_getElem.mp found
  exact ⟨results[index], getElem?_eq_getElem bound, holds⟩

theorem find?_of_findIdx? {p : AgentData → Bool} (found : results.findIdx? p = some index) :
    results.find? p = results[index]? := by
  rw [find?_eq_bind_findIdx?_getElem?, found]
  rfl

theorem replaced_spec {cache : MemoryCache} {p : Int} (consistent : Consistent cache)
    (room : cache.results.length + 1 < 2 ^ 31)
    (sameItem : new.persistent = false →
      ∀ old, cache.results.find? (fun old => old.itemid == new.itemid) = some old →
        old.persistent = false)
    (found : replaced cache new = some (index, p)) :
    ∃ old, cache.results[index]? = some old ∧ old.persistent = false ∧
      p = cache.persistValueNum + if new.persistent then 1 else 0 := by
  have few := persistentNum_le cache.results
  have counted := consistent.persist
  unfold replaced at found
  cases isPersistent : new.persistent with
  | true =>
    simp only [isPersistent, if_true] at found
    split_ifs at found with few'
    obtain ⟨position, isFirst, same⟩ := map_eq_some_iff.mp found
    obtain ⟨rfl, rfl⟩ := Prod.mk.inj same
    obtain ⟨old, isOld, notPersistent⟩ := exists_of_findIdx? isFirst
    refine ⟨old, isOld, by simpa using notPersistent, ?_⟩
    rw [int32_eq (by omega) (by omega)]
    rfl
  | false =>
    simp only [isPersistent, Bool.false_eq_true, if_false] at found
    cases sameIndex : cache.results.findIdx? fun r => r.itemid == new.itemid with
    | some position =>
      rw [sameIndex] at found
      obtain ⟨rfl, rfl⟩ := Prod.mk.inj (some.inj found)
      obtain ⟨old, isOld, -⟩ := exists_of_findIdx? sameIndex
      refine ⟨old, isOld, sameItem isPersistent old ?_, by simp⟩
      rw [find?_of_findIdx? sameIndex, isOld]
    | none =>
      rw [sameIndex] at found
      simp only [not_false_eq_true, true_or, if_true] at found
      obtain ⟨position, isFirst, same⟩ := map_eq_some_iff.mp found
      obtain ⟨rfl, rfl⟩ := Prod.mk.inj same
      obtain ⟨old, isOld, notPersistent⟩ := exists_of_findIdx? isFirst
      exact ⟨old, isOld, by simpa using notPersistent, by simp⟩

theorem replaced_none {cache : MemoryCache} (notFound : replaced cache new = none) :
    (new.persistent = true ∧ cache.maxBufferSize / 2 ≤ cache.persistValueNum) ∨
      persistentNum cache.results = cache.results.length := by
  have allPersistent (noOther : (cache.results.findIdx? fun r => !r.persistent) = none) :
      persistentNum cache.results = cache.results.length := by
    rw [persistentNum, countP_eq_length]
    intro r member
    simpa using findIdx?_eq_none_iff.mp noOther r member
  unfold replaced at notFound
  cases isPersistent : new.persistent with
  | true =>
    simp only [isPersistent, if_true] at notFound
    split_ifs at notFound with few
    · exact Or.inr (allPersistent (map_eq_none_iff.mp notFound))
    · refine Or.inl ⟨rfl, ?_⟩
      simpa using few
  | false =>
    simp only [isPersistent, Bool.false_eq_true, if_false] at notFound
    cases sameIndex : cache.results.findIdx? fun r => r.itemid == new.itemid with
    | some position =>
      rw [sameIndex] at notFound
      cases notFound
    | none =>
      rw [sameIndex] at notFound
      simp only [not_false_eq_true, true_or, if_true] at notFound
      exact Or.inr (allPersistent (map_eq_none_iff.mp notFound))

/-! ## Placing a new result -/

theorem persistentNum_append (results : List AgentData) (new : AgentData) :
    persistentNum (results ++ [new]) =
      persistentNum results + if new.persistent then 1 else 0 := by
  simp [persistentNum, countP_append, countP_singleton]

theorem append_consistent {cache : MemoryCache} (consistent : Consistent cache)
    (newer : ∀ r ∈ cache.results, r.id < new.id) (room : cache.results.length + 1 < 2 ^ 31)
    (bounded : cache.maxBufferSize < cache.results.length + 1 →
      cache.maxBufferSize / 2 ≤ persistentNum cache.results) :
    Consistent (append cache new) := by
  have few := persistentNum_le cache.results
  refine ⟨?_, ?_, ?_, ?_⟩
  · simp only [append, length_append, length_singleton]
    rw [consistent.total, int32_eq (by omega) (by omega)]
    omega
  · simp only [append, persistentNum_append]
    rw [consistent.persist]
    split_ifs
    · rw [int32_eq (by omega) (by omega)]
      omega
    · omega
  · simp only [append]
    rw [pairwise_append]
    refine ⟨consistent.ascending, pairwise_singleton _ _, fun r member last isLast => ?_⟩
    rw [mem_singleton.mp isLast]
    exact newer r member
  · simp only [append, length_append, length_singleton, persistentNum_append]
    intro long
    have half := bounded (by omega)
    omega

theorem replace_consistent {cache : MemoryCache} {p : Int} (consistent : Consistent cache)
    (newer : ∀ r ∈ cache.results, r.id < new.id)
    (split : cache.results = before ++ old :: after) (notPersistent : old.persistent = false)
    (counted : p = cache.persistValueNum + if new.persistent then 1 else 0) :
    Consistent { cache with results := before ++ after ++ [new], persistValueNum := p } := by
  have sameNum : persistentNum cache.results = persistentNum (before ++ after) := by
    rw [split]
    simp [persistentNum, countP_append, notPersistent]
  have sameLength : cache.results.length = (before ++ after ++ [new]).length := by
    rw [split]
    simp only [length_append, length_cons, length_nil]
    omega
  have more : persistentNum (before ++ after) ≤ persistentNum (before ++ after ++ [new]) := by
    rw [persistentNum_append]
    exact Nat.le_add_right _ _
  have isSub : (before ++ after).Sublist cache.results := by
    rw [split]
    exact (List.Sublist.refl before).append (sublist_cons_self old after)
  refine ⟨?_, ?_, ?_, ?_⟩
  · rw [consistent.total, sameLength]
  · rw [counted, consistent.persist, sameNum, persistentNum_append]
    split_ifs
    · rfl
    · rfl
  · rw [pairwise_append]
    refine ⟨consistent.ascending.sublist isSub, pairwise_singleton _ _,
      fun r member last isLast => ?_⟩
    rw [mem_singleton.mp isLast]
    exact newer r (isSub.subset member)
  · intro long
    have half := consistent.bounded (by rw [sameLength]; exact long)
    rw [sameNum] at half
    dsimp only
    omega

/-! ## The invariant -/

/-- What is sent has smaller identifiers than what is cached. -/
structure Invariant (state : State) : Prop where
  size : 2 ≤ state.cache.maxBufferSize
  consistent : Consistent state.cache
  kept :
    ∀ r ∈ state.written, r.persistent = true →
      r ∈ state.cache.results ∨ Delivered state.attempts r
  once : SentOnce state.attempts
  cached : ∀ r ∈ state.cache.results, r.id ≤ state.cache.lastDataID
  sent : ∀ r, Delivered state.attempts r → r.id ≤ state.cache.lastDataID
  sentBefore : ∀ r, Delivered state.attempts r → ∀ other ∈ state.cache.results, r.id < other.id

theorem sound_of_invariant {state : State} (invariant : Invariant state) : Sound state where
  consistent := invariant.consistent
  kept := invariant.kept
  once := invariant.once
  gone r delivered member := Nat.lt_irrefl r.id (invariant.sentBefore r delivered r member)

theorem invariant_start {maxBufferSize : Int} (size : 2 ≤ maxBufferSize) (uploader : Bool) :
    Invariant (start maxBufferSize uploader) where
  size := size
  consistent := by
    refine ⟨rfl, rfl, List.Pairwise.nil, fun long => ?_⟩
    change maxBufferSize < 0 at long
    omega
  kept := fun r member => (nomatch member)
  once := List.Pairwise.nil
  cached := fun r member => (nomatch member)
  sent := fun r ⟨_, member, _⟩ => (nomatch member)
  sentBefore := fun r ⟨_, member, _⟩ => (nomatch member)

theorem delivered_append {attempts : List Attempt} {attempt : Attempt} :
    Delivered (attempts ++ [attempt]) r ↔
      Delivered attempts r ∨ attempt.success = true ∧ r ∈ attempt.data := by
  constructor
  · rintro ⟨other, member, success, inData⟩
    rcases mem_append.mp member with isEarlier | isLast
    · exact Or.inl ⟨other, isEarlier, success, inData⟩
    · rw [mem_singleton.mp isLast] at success inData
      exact Or.inr ⟨success, inData⟩
  · rintro (⟨other, member, success, inData⟩ | ⟨success, inData⟩)
    · exact ⟨other, mem_append_left _ member, success, inData⟩
    · exact ⟨attempt, mem_append_right _ (mem_singleton_self _), success, inData⟩

theorem invariant_upload {state : State} (invariant : Invariant state) (success : Bool) :
    Invariant (upload success state) := by
  have once : SentOnce (state.attempts ++ [⟨state.cache.results, success⟩]) := by
    rw [SentOnce, pairwise_append]
    refine ⟨invariant.once, pairwise_singleton _ _, ?_⟩
    intro earlier member last isLast succeeded r inData isCached
    rw [mem_singleton.mp isLast] at isCached
    exact Nat.lt_irrefl r.id
      (invariant.sentBefore r ⟨earlier, member, succeeded, inData⟩ r isCached)
  unfold upload
  split_ifs with isEmpty succeeded
  · exact invariant
  · subst succeeded
    exact
      { size := invariant.size
        consistent := by
          refine ⟨rfl, rfl, List.Pairwise.nil, fun long => ?_⟩
          have size := invariant.size
          change state.cache.maxBufferSize < 0 at long
          omega
        kept := by
          intro r member isPersistent
          rw [delivered_append]
          rcases invariant.kept r member isPersistent with isCached | delivered
          · exact Or.inr (Or.inr ⟨rfl, isCached⟩)
          · exact Or.inr (Or.inl delivered)
        once := once
        cached := fun r member => (nomatch member)
        sent := by
          intro r delivered
          rcases delivered_append.mp delivered with earlier | ⟨-, isCached⟩
          · exact invariant.sent r earlier
          · exact invariant.cached r isCached
        sentBefore := fun r _ other member => (nomatch member) }
  · have sameDelivered : ∀ r, Delivered (state.attempts ++ [⟨state.cache.results, success⟩]) r →
        Delivered state.attempts r := by
      intro r delivered
      rcases delivered_append.mp delivered with earlier | ⟨isSuccess, -⟩
      · exact earlier
      · exact absurd isSuccess succeeded
    exact
      { size := invariant.size
        consistent := invariant.consistent
        kept := by
          intro r member isPersistent
          rw [delivered_append]
          rcases invariant.kept r member isPersistent with isCached | delivered
          · exact Or.inl isCached
          · exact Or.inr (Or.inl delivered)
        once := once
        cached := invariant.cached
        sent := fun r delivered => invariant.sent r (sameDelivered r delivered)
        sentBefore := fun r delivered => invariant.sentBefore r (sameDelivered r delivered) }

theorem invariant_place {state : State} (invariant : Invariant state) {cache : MemoryCache}
    (consistent : Consistent cache) (sameSize : cache.maxBufferSize = state.cache.maxBufferSize)
    (isLast : cache.lastDataID = new.id) (isNext : new.id = state.cache.lastDataID + 1)
    (subset : ∀ r ∈ cache.results, r ∈ state.cache.results ∨ r = new)
    (keeps : ∀ r ∈ state.cache.results, r.persistent = true → r ∈ cache.results)
    (isPlaced : new ∈ cache.results) :
    Invariant ⟨cache, state.attempts, state.written ++ [new]⟩ where
  size := by rw [sameSize]; exact invariant.size
  consistent := consistent
  kept := by
    intro r member isPersistent
    rcases mem_append.mp member with isOld | isNew
    · rcases invariant.kept r isOld isPersistent with isCached | delivered
      · exact Or.inl (keeps r isCached isPersistent)
      · exact Or.inr delivered
    · rw [mem_singleton.mp isNew]
      exact Or.inl isPlaced
  once := invariant.once
  cached := by
    intro r member
    rcases subset r member with isOld | rfl
    · have older := invariant.cached r isOld
      dsimp only
      omega
    · exact Nat.le_of_eq isLast.symm
  sent := by
    intro r delivered
    have older := invariant.sent r delivered
    dsimp only
    omega
  sentBefore := by
    intro r delivered other member
    rcases subset other member with isOld | rfl
    · exact invariant.sentBefore r delivered other isOld
    · have older := invariant.sent r delivered
      omega

/-! ## Steps -/

theorem upload_drops {success : Bool} {state : State} (member : r ∈ state.cache.results)
    (dropped : r ∉ (upload success state).cache.results) :
    (upload success state).attempts = state.attempts ++ [⟨state.cache.results, true⟩] := by
  unfold upload at dropped ⊢
  split_ifs at dropped ⊢ with isEmpty succeeded
  · exact absurd member dropped
  · rw [succeeded]
  · exact absurd member dropped

/-- Appending to the cache drops nothing, and the upload after it only what was sent. -/
theorem addResult_drops (success : Bool) (state : State) (new : AgentData) :
    DropsFor state (addResult success new state) := by
  intro r member dropped
  have appended : r ∈ (append state.cache new).results := mem_append_left _ member
  unfold addResult at dropped ⊢
  dsimp only at dropped ⊢
  split_ifs at dropped ⊢
  · exact Or.inl ⟨_, upload_drops appended dropped, rfl, appended⟩
  · exact absurd appended dropped

theorem invariant_addResult {state : State} (invariant : Invariant state) (success : Bool)
    (isNext : new.id = state.cache.lastDataID + 1) (room : state.cache.results.length + 1 < 2 ^ 31)
    (bounded : state.cache.maxBufferSize < state.cache.results.length + 1 →
      state.cache.maxBufferSize / 2 ≤ persistentNum state.cache.results) :
    Invariant
      (addResult success new
        ⟨{ state.cache with lastDataID := new.id }, state.attempts, state.written ++ [new]⟩) := by
  have newer : ∀ r ∈ state.cache.results, r.id < new.id := by
    intro r member
    have older := invariant.cached r member
    omega
  have consistent : Consistent { state.cache with lastDataID := new.id } :=
    ⟨invariant.consistent.total, invariant.consistent.persist, invariant.consistent.ascending,
      invariant.consistent.bounded⟩
  have appended : Invariant ⟨append { state.cache with lastDataID := new.id } new, state.attempts,
      state.written ++ [new]⟩ := by
    apply invariant_place invariant (append_consistent consistent newer room bounded) rfl rfl isNext
    · intro r member
      rcases mem_append.mp member with isOld | isNew
      · exact Or.inl isOld
      · exact Or.inr (mem_singleton.mp isNew)
    · intro r member _
      exact mem_append_left _ member
    · exact mem_append_right _ (mem_singleton_self _)
  unfold addResult
  dsimp only
  split_ifs
  · exact invariant_upload appended success
  · exact appended

theorem invariant_insertResult {state : State} (invariant : Invariant state) (success : Bool)
    (isNext : new.id = state.cache.lastDataID + 1) (room : state.cache.results.length + 1 < 2 ^ 31)
    (full : state.cache.maxBufferSize ≤ state.cache.totalValueNum)
    (sameItem : new.persistent = false →
      ∀ old, state.cache.results.find? (fun old => old.itemid == new.itemid) = some old →
        old.persistent = false) :
    let next := insertResult success new
      ⟨{ state.cache with lastDataID := new.id }, state.attempts, state.written ++ [new]⟩
    Invariant next ∧ DropsFor state next := by
  have consistent : Consistent { state.cache with lastDataID := new.id } :=
    ⟨invariant.consistent.total, invariant.consistent.persist, invariant.consistent.ascending,
      invariant.consistent.bounded⟩
  have newer : ∀ r ∈ state.cache.results, r.id < new.id := by
    intro r member
    have older := invariant.cached r member
    omega
  dsimp only
  unfold insertResult
  split
  case h_1 notFound =>
    refine ⟨invariant_addResult invariant success isNext room fun _ => ?_, ?_⟩
    · have size := invariant.size
      have total := invariant.consistent.total
      have persist := invariant.consistent.persist
      rcases replaced_none notFound with ⟨-, half⟩ | allPersistent
      · dsimp only at half
        omega
      · dsimp only at allPersistent
        omega
    · intro r member dropped
      exact addResult_drops success _ new r member dropped
  case h_2 index p found =>
    obtain ⟨old, isOld, notPersistent, counted⟩ :=
      replaced_spec consistent room sameItem found
    obtain ⟨before, after, split, erased⟩ := exists_split isOld
    dsimp only at split erased ⊢
    rw [erased]
    refine ⟨?_, ?_⟩
    · apply invariant_place invariant
        (replace_consistent consistent newer split notPersistent counted) rfl rfl isNext
      · intro r member
        rcases mem_append.mp member with isOther | isNew
        · rw [split]
          rcases mem_append.mp isOther with isBefore | isAfter
          · exact Or.inl (mem_append_left _ isBefore)
          · exact Or.inl (mem_append_right _ (mem_cons_of_mem _ isAfter))
        · exact Or.inr (mem_singleton.mp isNew)
      · intro r member isPersistent
        rw [split] at member
        apply mem_append_left
        rcases mem_append.mp member with isBefore | isRest
        · exact mem_append_left _ isBefore
        · rcases mem_cons.mp isRest with rfl | isAfter
          · rw [notPersistent] at isPersistent
            cases isPersistent
          · exact mem_append_right _ isAfter
      · exact mem_append_right _ (mem_singleton_self _)
    · intro r member dropped
      have isOldOne : r = old := by
        rw [split] at member
        rcases mem_append.mp member with isBefore | isRest
        · exact absurd (mem_append_left _ (mem_append_left _ isBefore)) dropped
        · rcases mem_cons.mp isRest with same | isAfter
          · exact same
          · exact absurd (mem_append_left _ (mem_append_right _ isAfter)) dropped
      have total := invariant.consistent.total
      refine Or.inr ⟨new, ?_, ?_, ?_, ?_, ?_, ?_⟩
      · rw [isOldOne]
        exact notPersistent
      · omega
      · rw [split]
        simp only [length_append, length_cons, length_nil]
        omega
      · exact mem_append_right _ (mem_singleton_self _)
      · intro isCached
        exact Nat.lt_irrefl _ (newer new isCached)
      · exact newer r member

theorem invariant_step {state next : State} {input : Input} (invariant : Invariant state)
    (fits : Fits state input) (executed : step state input = some next) :
    Invariant next ∧ DropsFor state next := by
  cases input with
  | uploader success =>
    obtain rfl := some.inj executed
    refine ⟨invariant_upload invariant success, fun r member dropped => ?_⟩
    exact Or.inl ⟨_, upload_drops member dropped, rfl, member⟩
  | result r success =>
    obtain ⟨notReplaced, room, identified⟩ := fits
    obtain rfl := some.inj executed
    have isNext : (agentData (nextID state.cache.lastDataID) r).id = state.cache.lastDataID + 1 :=
      nextID_eq identified
    unfold write
    dsimp only
    split_ifs with full
    · apply invariant_insertResult invariant success isNext room full
      intro notPersistent old isFirst
      by_contra isPersistent
      exact notReplaced ⟨notPersistent, full, old, isFirst, by simpa using isPersistent⟩
    · refine ⟨invariant_addResult invariant success isNext room fun long => ?_, ?_⟩
      · have total := invariant.consistent.total
        omega
      · intro other member dropped
        exact addResult_drops success _ _ other member dropped

/--
In every run that never replaces a persistent result: the counters, the order and
the bound, no persistent result lost or sent again, and nothing dropped but what
was sent and what a newer result has replaced.
-/
theorem run_sound {maxBufferSize : Int} (size : 2 ≤ maxBufferSize) (uploader : Bool)
    {inputs : List Input} {state : State}
    (guarded : Guarded step Fits (start maxBufferSize uploader) inputs)
    (executed : run step (start maxBufferSize uploader) inputs = some state) :
    Sound state ∧
      ∀ input next, Fits state input → step state input = some next → DropsFor state next := by
  have invariant : Invariant state :=
    guarded_run_invariant (fun _ _ _ invariant fits executed =>
      (invariant_step invariant fits executed).1) (invariant_start size uploader) guarded executed
  exact ⟨sound_of_invariant invariant, fun input next fits executed =>
    (invariant_step invariant fits executed).2⟩

def textResult (itemid : Nat) (persistent : Bool) : Result where
  itemid := itemid
  value := some "value"
  ts := none
  error := none
  lastLogsize := none
  mtime := none
  eventSource := none
  eventID := none
  eventSeverity := none
  eventTimestamp := none
  persistent := persistent

/-- A persistent result replaces the other one when the buffer of four is full. -/
def fullRun : List Input :=
  [.result (textResult 1 false) true, .result (textResult 2 true) true,
    .result (textResult 1 false) true, .result (textResult 1 false) true,
    .result (textResult 3 true) false, .uploader true]

theorem run_sound_fullRun :
    ∃ state, run step (start 4 false) fullRun = some state ∧ Sound state := by
  have guarded : Guarded step Fits (start 4 false) fullRun := by
    repeat' apply guarded_cons
    all_goals first | rfl | decide | trivial
  exact ⟨_, rfl, (@run_sound 4 (by decide) false fullRun _ guarded rfl).1⟩

/-- A persistent result is overwritten by a value of the same item, and still counted. -/
theorem overwritten_not_sound :
    ∃ state,
      run step (start 2 false)
        [.result (textResult 1 true) true, .result (textResult 2 false) true,
          .result (textResult 1 false) true] = some state ∧ ¬Sound state := by
  refine ⟨_, rfl, fun sound => ?_⟩
  have counted := sound.consistent.persist
  revert counted
  decide

end Zabbix.ResultCache.MemoryRuns
