import Zabbix.Memory.System

/-!
# What processes may rely on

Through all calls and stores of others a block keeps what was stored in it.  When every block has
been freed, the heap is a single free chunk again, in whatever order blocks came and went.
-/

namespace Zabbix.Memory.Isolation

open List Option
open Library.Transition Alloc Layout Memory.Representation Placement Operations Frames
open Memory.System

variable {heap : Heap} {layout : List Chunk} {lists : Nat → List Nat}
variable {state next : State} {block : Block} {offset : Nat}

/-! ## Stored data -/

/-- A call or store that is not for the block at the address. -/
def Spares (ptr : Nat) : Label → Prop
  | .malloc _ => True
  | .realloc old _ => old ≠ ptr
  | .free other => other ≠ ptr
  | .store other _ => other ≠ ptr

theorem mem_without {live : List Block} {ptr : Nat} (isLive : block ∈ live)
    (spared : ptr ≠ block.ptr) : block ∈ without live ptr :=
  (mem_eraseP_of_neg (by simpa using spared)).mpr isLive

section Words

variable (backed : Backed state.live (usedOnly layout)) (isLive : block ∈ state.live)
variable (within : offset < block.size)

include backed isLive within

theorem userWord_of_live : UserWord layout (block.ptr + offset) := by
  obtain ⟨chunk, isUsed, place, fitting⟩ := backed.sizes block isLive
  obtain ⟨member, used⟩ := mem_usedOnly.mp isUsed
  refine ⟨chunk, member, used, ?_, ?_⟩ <;> simp only [← place, chunkPtr, memSizeField] <;> omega

theorem otherWord_of_live (rep : Rep heap layout lists) {other : Chunk} (isOther : other ∈ layout)
    (different : chunkPtr other ≠ block.ptr) : OtherWord layout other (block.ptr + offset) := by
  refine ⟨userWord_of_live backed isLive within, ?_⟩
  obtain ⟨chunk, isUsed, place, fitting⟩ := backed.sizes block isLive
  have notOther : chunk ≠ other := fun same => different (same ▸ place)
  have apart := rep.tiles.pairwise_apart.forall (mem_usedOnly.mp isUsed).1 isOther notOther
  simp only [Apart, Chunk.stop, overhead] at apart
  simp only [← place, chunkPtr, memSizeField]
  omega

end Words

theorem memMalloc_keeps (rep : Rep heap layout lists) (size : Nat) :
    Keeps heap (memMalloc heap size).1 (UserWord layout) := by
  obtain ⟨missing, -⟩ | ⟨-, -, -, -, -, -, -, -, -, keeps⟩ := memMalloc_spec rep size
  · rw [missing]
    exact fun _ _ => rfl
  · exact keeps

theorem step_spares {label : Label} (consistent : Consistent state) (isLive : block ∈ state.live)
    (spared : Spares block.ptr label) (stepped : step state label = some next) :
    block ∈ next.live ∧ ∀ offset < block.size,
      next.heap.mem (block.ptr + offset) = state.heap.mem (block.ptr + offset) := by
  obtain ⟨layout, lists, rep, backed⟩ := consistent
  have isMalloc (size : Nat) {live : List Block} (stays : block ∈ live)
      (isNext : next = if userPtr (memMalloc state.heap size).2 = 0 then
          { state with heap := (memMalloc state.heap size).1 }
        else ⟨(memMalloc state.heap size).1,
          withResult live (userPtr (memMalloc state.heap size).2) size⟩) :
      block ∈ next.live ∧ ∀ offset < block.size,
        next.heap.mem (block.ptr + offset) = state.heap.mem (block.ptr + offset) := by
    have keeps (offset : Nat) (within : offset < block.size) :=
      memMalloc_keeps rep size _ (userWord_of_live backed isLive within)
    subst isNext
    split_ifs
    · exact ⟨isLive, keeps⟩
    · exact ⟨mem_cons_of_mem _ stays, keeps⟩
  cases label with
  | malloc size =>
    simp only [step, zbxMemMalloc] at stepped
    split_ifs at stepped
    · cases stepped
    · exact isMalloc size isLive (some.inj stepped).symm
  | realloc old size =>
    have stays := mem_without isLive spared
    simp only [step, zbxMemRealloc] at stepped
    split_ifs at stepped with isOld bad isNull
    · cases stepped
    · exact isMalloc size stays (some.inj stepped).symm
    · obtain ⟨chunk, member, used, rfl⟩ := backed.chunk_of_ptr (isOld.resolve_left isNull)
      rcases memRealloc_spec rep member used size with ⟨missing, -⟩ |
        ⟨heap', kept, -, -, moved, -, -, -, -, -, keeps⟩
      · rw [show memRealloc state.heap (chunkPtr chunk) size = some (state.heap, 0)
          from missing] at stepped
        obtain rfl := some.inj stepped
        exact ⟨isLive, fun _ _ => rfl⟩
      · rw [show memRealloc state.heap (chunkPtr chunk) size = some (heap', kept.addr)
          from moved] at stepped
        have same (offset : Nat) (within : offset < block.size) :=
          keeps _ (otherWord_of_live backed isLive within rep member spared)
        simp only [map_some, some.injEq] at stepped
        subst stepped
        split_ifs
        · exact ⟨isLive, same⟩
        · exact ⟨mem_cons_of_mem _ stays, same⟩
  | free ptr =>
    simp only [step, zbxMemFree] at stepped
    split_ifs at stepped with isOld isNull
    · cases stepped
    · obtain ⟨chunk, member, used, rfl⟩ := backed.chunk_of_ptr isOld
      obtain ⟨-, -, -, -, -, -, -, -, keeps⟩ := memFree_spec rep member used
      obtain rfl := some.inj stepped
      exact ⟨mem_without isLive spared, fun offset within =>
        keeps _ (otherWord_of_live backed isLive within rep member spared)⟩
  | store ptr image =>
    simp only [step, map_eq_some_iff] at stepped
    obtain ⟨target, found, rfl⟩ := stepped
    have isTarget := find?_some found
    obtain rfl := beq_iff_eq.mp isTarget
    obtain ⟨chunk, isUsed, place, fitting⟩ := backed.sizes target (mem_of_find?_eq_some found)
    refine ⟨isLive, fun offset within => if_neg ?_⟩
    have outside := (otherWord_of_live backed isLive within rep (mem_usedOnly.mp isUsed).1
      (place.trans_ne spared)).2
    simp only [← place, chunkPtr, memSizeField]
    omega

theorem run_spares {labels : List Label} (consistent : Consistent state)
    (isLive : block ∈ state.live) (spared : ∀ label ∈ labels, Spares block.ptr label)
    (executed : run step state labels = some next) :
    block ∈ next.live ∧ ∀ offset < block.size,
      next.heap.mem (block.ptr + offset) = state.heap.mem (block.ptr + offset) := by
  induction labels generalizing state with
  | nil =>
    obtain rfl := some.inj executed
    exact ⟨isLive, fun _ _ => rfl⟩
  | cons label labels ih =>
    obtain ⟨middle, stepped, executed⟩ := bind_eq_some_iff.mp executed
    obtain ⟨spares, rest⟩ := forall_mem_cons.mp spared
    obtain ⟨stays, same⟩ := step_spares consistent isLive spares stepped
    obtain ⟨isLast, sameLast⟩ :=
      ih (step_consistent state label middle consistent stepped) stays rest executed
    exact ⟨isLast, fun offset within => (sameLast offset within).trans (same offset within)⟩

/-- What is stored in a live block is there for as long as nobody frees or reallocates the block
or stores in it, whatever is called for other blocks in between. -/
theorem stored_run {mem image : Words} {base size descrLength paramLength : Nat}
    {labels later : List Label} {final : State}
    (created : zbxMemCreate mem base size descrLength paramLength = some heap)
    (large : zbxMemRequiredSize 1 descrLength paramLength + memMinAlloc ≤ size)
    (executed : run step ⟨heap, []⟩ labels = some state) (isLive : block ∈ state.live)
    (stored : run step state (.store block.ptr image :: later) = some final)
    (spared : ∀ label ∈ later, Spares block.ptr label) :
    block ∈ final.live ∧ ∀ offset < block.size,
      final.heap.mem (block.ptr + offset) = image (block.ptr + offset) := by
  have consistent := consistent_run created large executed
  obtain ⟨middle, stepped, finished⟩ := run_cons_eq_some.mp stored
  have consistentMiddle := step_consistent _ _ _ consistent stepped
  obtain ⟨layout, lists, rep, backed⟩ := consistent
  simp only [step, map_eq_some_iff] at stepped
  obtain ⟨target, found, rfl⟩ := stepped
  have isTarget := find?_some found
  obtain rfl : target = block := by
    have unique := backed.ptrs.nodup_iff.mpr (usedPtrs_nodup rep)
    exact inj_on_of_nodup_map unique (mem_of_find?_eq_some found) isLive (beq_iff_eq.mp isTarget)
  obtain ⟨isLast, same⟩ := run_spares consistentMiddle isLive spared finished
  refine ⟨isLast, fun offset within => (same offset within).trans ?_⟩
  simp only [Heap.copyFrom]
  rw [if_pos (by omega), Nat.add_sub_cancel_left]

theorem stored_run_one :
    ∃ final, run step ⟨sampleHeap, []⟩ [.malloc 20, .store 4440 id, .malloc 30] = some final ∧
      ⟨4440, 20⟩ ∈ final.live ∧ ∀ offset < 20, final.heap.mem (4440 + offset) = 4440 + offset := by
  have created : zbxMemCreate (fun _ => 0) 4096 1000 5 4 = some sampleHeap := rfl
  have enabled : (run step ⟨sampleHeap, []⟩ [.malloc 20]).map State.live = some [⟨4440, 20⟩] := by
    decide +kernel
  have stores : ((run step ⟨sampleHeap, []⟩ [.malloc 20]).bind fun state =>
      run step state [.store 4440 id, .malloc 30]).isSome = true := by decide +kernel
  obtain ⟨state, executed, live⟩ := map_eq_some_iff.mp enabled
  have isLive : ⟨4440, 20⟩ ∈ state.live := by simp [live]
  rw [executed] at stores
  obtain ⟨final, stored⟩ := isSome_iff_exists.mp stores
  exact ⟨final, run_append_eq_some.mpr ⟨state, executed, stored⟩,
    stored_run created (by decide) executed isLive stored (by simp [Spares])⟩

/-! ## Freed heaps -/

/-- What no call changes. -/
def area (heap : Heap) : Nat × Nat :=
  (heap.loBound, heap.hiBound)

theorem area_unlink (heap : Heap) (chunk : Nat) : area (memUnlinkChunk heap chunk) = area heap := by
  unfold memUnlinkChunk
  dsimp only
  split_ifs <;> rfl

theorem area_link (heap : Heap) (chunk : Nat) : area (memLinkChunk heap chunk) = area heap := by
  unfold memLinkChunk
  dsimp only
  split_ifs <;> rfl

theorem area_carve (heap : Heap) (chunk available size : Nat) :
    area (carveChunk heap chunk available size) = area heap := by
  unfold carveChunk
  split_ifs
  · rfl
  · exact area_link _ _

theorem area_malloc (heap : Heap) (size : Nat) : area (memMalloc heap size).1 = area heap := by
  unfold memMalloc
  dsimp only
  split_ifs
  · rfl
  · exact (area_carve _ _ _ _).trans (area_unlink _ _)

theorem area_free (heap : Heap) (ptr : Nat) : area (memFree heap ptr) = area heap := by
  unfold memFree
  dsimp only
  split_ifs
  · exact (area_link _ _).trans ((area_unlink _ _).trans (area_unlink _ _))
  · exact (area_link _ _).trans (area_unlink _ _)
  · exact (area_link _ _).trans (area_unlink _ _)
  · exact area_link _ _

theorem area_shrink (heap : Heap) (chunk available size : Nat) :
    area (shrinkChunk heap chunk available size) = area heap := by
  unfold shrinkChunk
  dsimp only
  split_ifs
  · exact (area_link _ _).trans (area_unlink _ _)
  · exact area_link _ _

theorem area_copy (heap : Heap) (image : Words) (target source count : Nat) :
    area (heap.copyFrom image target source count) = area heap :=
  rfl

theorem area_realloc {result : Heap × Nat} {old size : Nat}
    (moved : memRealloc heap old size = some result) : area result.1 = area heap := by
  unfold memRealloc at moved
  dsimp only at moved
  obtain ⟨-, moved⟩ | ⟨-, moved⟩ := ite_eq_iff.mp moved
  · obtain ⟨-, moved⟩ | ⟨-, moved⟩ := ite_eq_iff.mp moved <;> obtain rfl := some.inj moved
    · rfl
    · exact area_shrink _ _ _ _
  obtain ⟨-, moved⟩ | ⟨-, moved⟩ := ite_eq_iff.mp moved
  · obtain rfl := some.inj moved
    exact (area_carve _ _ _ _).trans (area_unlink _ _)
  obtain ⟨-, moved⟩ | ⟨-, moved⟩ := ite_eq_iff.mp moved
  · obtain rfl := some.inj moved
    rw [area_free, area_copy, area_malloc]
  obtain ⟨-, moved⟩ | ⟨-, moved⟩ := ite_eq_iff.mp moved
  · obtain rfl := some.inj moved
    rfl
  obtain ⟨-, moved⟩ | ⟨-, moved⟩ := ite_eq_iff.mp moved
  · cases moved
  · obtain rfl := some.inj moved
    rw [area_copy, area_malloc, area_free]

theorem step_area {label : Label} (stepped : step state label = some next) :
    area next.heap = area state.heap := by
  cases label with
  | malloc size =>
    simp only [step, zbxMemMalloc] at stepped
    split_ifs at stepped
    · cases stepped
    · obtain rfl := some.inj stepped
      dsimp only
      split_ifs <;> exact area_malloc _ _
  | realloc old size =>
    simp only [step, zbxMemRealloc] at stepped
    split_ifs at stepped
    · cases stepped
    · obtain rfl := some.inj stepped
      dsimp only
      split_ifs <;> exact area_malloc _ _
    · obtain ⟨_, isResult, rfl⟩ := map_eq_some_iff.mp stepped
      obtain ⟨_, isMoved, rfl⟩ := map_eq_some_iff.mp isResult
      dsimp only
      split_ifs <;> exact area_realloc isMoved
  | free ptr =>
    simp only [step, zbxMemFree] at stepped
    split_ifs at stepped
    · cases stepped
    · obtain rfl := some.inj stepped
      exact area_free _ _
  | store ptr image =>
    obtain ⟨_, -, rfl⟩ := map_eq_some_iff.mp stepped
    rfl

theorem run_area {labels : List Label} (executed : run step state labels = some next) :
    area next.heap = area state.heap := by
  induction labels generalizing state with
  | nil => exact congrArg (area ∘ State.heap) (some.inj executed).symm
  | cons label labels ih =>
    obtain ⟨middle, stepped, executed⟩ := run_cons_eq_some.mp executed
    exact (ih executed).trans (step_area stepped)

/-- When no block is live, the heap is a single free chunk as after its creation, and a block of
any size up to this chunk can be had. -/
theorem emptied_run {mem : Words} {base size descrLength paramLength : Nat} {labels : List Label}
    (created : zbxMemCreate mem base size descrLength paramLength = some heap)
    (large : zbxMemRequiredSize 1 descrLength paramLength + memMinAlloc ≤ size)
    (executed : run step ⟨heap, []⟩ labels = some state) (emptied : state.live = []) :
    ∃ chunk lists, HeapInvariant state [chunk] lists ∧ chunk.used = false ∧
      chunk.addr = heap.loBound ∧ chunk.stop = heap.hiBound ∧ state.heap.freeSize = chunk.size ∧
      ∀ size, memProperAllocSize size ≤ chunk.size → (memMalloc state.heap size).2 ≠ 0 := by
  have sameArea : area state.heap = area heap := run_area executed
  obtain ⟨sameLow, sameHigh⟩ := Prod.mk.inj sameArea
  obtain ⟨layout, lists, rep, backed⟩ := consistent_run created large executed
  have noUsed : usedOnly layout = [] := by
    have permuted := backed.ptrs
    rw [emptied] at permuted
    exact map_eq_nil_iff.mp permuted.nil_eq.symm
  have areFree (chunk : Chunk) (member : chunk ∈ layout) : chunk.used = false := by
    simpa using filter_eq_nil_iff.mp noUsed chunk member
  obtain ⟨chunk, rfl⟩ : ∃ chunk, layout = [chunk] := by
    cases layout with
    | nil =>
      obtain ⟨chunk, lists, -, created⟩ := zbxMemCreate_spec created large
      have isWhole := created.tiles
      have isEmpty := rep.tiles
      simp only [tiles_cons, tiles_nil, Chunk.stop, overhead] at isWhole isEmpty
      omega
    | cons first rest =>
      cases rest with
      | nil => exact ⟨first, rfl⟩
      | cons second rest =>
        obtain isUsed | isUsed := (separated_cons.mp rep.separated).1 second rfl
        · rw [areFree first mem_cons_self] at isUsed
          cases isUsed
        · rw [areFree second (mem_cons_of_mem _ mem_cons_self)] at isUsed
          cases isUsed
  have free := areFree chunk (mem_singleton_self chunk)
  refine ⟨chunk, lists, heapInvariant_of_rep rep backed, free, rep.tiles.1.trans sameLow,
    rep.tiles.2.trans sameHigh, ?_, ?_⟩
  · rw [rep.freeSum]
    simp [sizeSum, free]
  · intro size fits
    obtain ⟨-, tooSmall⟩ | ⟨block, -, -, place, notNull, -⟩ := memMalloc_spec rep size
    · have isSmall := tooSmall chunk (mem_singleton_self chunk) free
      omega
    · exact place ▸ notNull

theorem emptied_run_two :
    ∃ state, run step ⟨sampleHeap, []⟩
        [.malloc 20, .malloc 30, .free 4440, .free 4480] = some state ∧
      ∃ chunk lists, HeapInvariant state [chunk] lists := by
  have created : zbxMemCreate (fun _ => 0) 4096 1000 5 4 = some sampleHeap := rfl
  have enabled : ((run step ⟨sampleHeap, []⟩
      [.malloc 20, .malloc 30, .free 4440, .free 4480]).map State.live) =
    some [] := by decide +kernel
  obtain ⟨state, executed, emptied⟩ := map_eq_some_iff.mp enabled
  obtain ⟨chunk, lists, invariant, -⟩ := emptied_run created (by decide) executed emptied
  exact ⟨state, executed, chunk, lists, invariant⟩

end Zabbix.Memory.Isolation
