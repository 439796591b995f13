import Zabbix.Library.Transition
import Zabbix.Memory.Operations

/-!
# Runs of the allocator

A state is a heap together with the live blocks its users know: the addresses
they were given and the sizes they asked for.  The labels are the calls of the
public interface on live blocks, and stores of the users into their blocks.
-/

namespace Zabbix.Memory.System

open List Option

open Library.Transition Library.LinkedList Alloc Layout Buckets Memory.Representation Placement
open Operations
open Search

/-- A block in use: its address, and the size that was requested. -/
structure Block where
  ptr : Nat
  size : Nat
deriving DecidableEq, Repr

/-- A heap and the blocks in use. -/
structure State where
  heap : Heap
  live : List Block

/-- The calls of the public interface, and stores into a block. -/
inductive Label where
  | malloc (size : Nat)
  | realloc (old size : Nat)
  | free (ptr : Nat)
  | store (ptr : Nat) (image : Words)

/-- The live blocks without the one at `ptr`. -/
def without (live : List Block) (ptr : Nat) : List Block :=
  live.eraseP fun block => ptr == block.ptr

/-- The live blocks after a call that returned `ptr`. -/
def withResult (live : List Block) (ptr size : Nat) : List Block :=
  ⟨ptr, size⟩ :: live

/-- One call or store; a call that fails leaves the blocks as they are. -/
def step (state : State) : Label → Option State
  | .malloc size =>
    (zbxMemMalloc state.heap size).map fun (heap, ptr) =>
      if ptr = 0 then { state with heap }
      else { heap, live := withResult state.live ptr size }
  | .realloc old size =>
    if old = 0 ∨ old ∈ state.live.map Block.ptr then
      (zbxMemRealloc state.heap old size).map fun (heap, ptr) =>
        if ptr = 0 then { state with heap }
        else { heap, live := withResult (without state.live old) ptr size }
    else
      none
  | .free ptr =>
    if ptr ∈ state.live.map Block.ptr then
      (zbxMemFree state.heap ptr).map fun heap =>
        { heap, live := without state.live ptr }
    else
      none
  | .store ptr image =>
    (state.live.find? fun block => block.ptr == ptr).map fun block =>
      { state with heap := state.heap.copyFrom image ptr ptr block.size }

/-! ## Live blocks and used chunks -/

/-- The address that users have for a chunk. -/
def chunkPtr (chunk : Chunk) : Nat :=
  chunk.addr + memSizeField

/-- The live blocks are the user areas of the given used chunks. -/
structure Backed (live : List Block) (chunks : List Chunk) : Prop where
  ptrs : (live.map Block.ptr).Perm (chunks.map chunkPtr)
  sizes : ∀ block ∈ live, ∃ chunk ∈ chunks,
    chunkPtr chunk = block.ptr ∧ block.size ≤ chunk.size

variable {heap : Heap} {live : List Block} {chunks chunks' others layout : List Chunk}
variable {lists : Nat → List Nat} {chunk kept : Chunk}

theorem Backed.add (backed : Backed live others)
    (permuted : chunks.Perm (kept :: others)) {size : Nat} (enough : size ≤ kept.size) :
    Backed (withResult live (chunkPtr kept) size) chunks where
  ptrs := (backed.ptrs.cons (chunkPtr kept)).trans (permuted.map chunkPtr).symm
  sizes block member := by
    rcases mem_cons.mp member with rfl | member
    · exact ⟨kept, permuted.mem_iff.mpr mem_cons_self, rfl, enough⟩
    · obtain ⟨chunk, isIn, place, fitting⟩ := backed.sizes block member
      exact ⟨chunk, permuted.mem_iff.mpr (mem_cons_of_mem _ isIn), place, fitting⟩

theorem map_ptr_without (live : List Block) (ptr : Nat) :
    (without live ptr).map Block.ptr = (live.map Block.ptr).erase ptr := by
  rw [erase_eq_eraseP, eraseP_map]
  rfl

theorem Backed.remove (backed : Backed live chunks) (nodup : (chunks.map chunkPtr).Nodup)
    (permuted : chunks.Perm (chunk :: others)) :
    Backed (without live (chunkPtr chunk)) others where
  ptrs := by
    rw [map_ptr_without]
    have erased := (backed.ptrs.trans (permuted.map chunkPtr)).erase (chunkPtr chunk)
    rwa [map_cons, erase_cons_head] at erased
  sizes block member := by
    have isLive : block ∈ live := mem_of_mem_eraseP member
    obtain ⟨backing, isIn, place, fitting⟩ := backed.sizes block isLive
    rcases mem_cons.mp (permuted.mem_iff.mp isIn) with rfl | isOther
    · have remains : block.ptr ∈ (live.map Block.ptr).erase (chunkPtr backing) := by
        rw [← map_ptr_without]
        exact List.mem_map_of_mem member
      have unique : (live.map Block.ptr).Nodup := backed.ptrs.nodup_iff.mpr nodup
      exact absurd place.symm (unique.mem_erase_iff.mp remains).1
    · exact ⟨backing, isOther, place, fitting⟩

theorem usedPtrs_nodup (rep : Rep heap layout lists) :
    ((usedOnly layout).map chunkPtr).Nodup := by
  refine List.Pairwise.map chunkPtr ?_ (rep.tiles.pairwise.sublist filter_sublist)
  intro first second follows same
  simp only [Chunk.stop, overhead, chunkPtr] at follows same
  omega

theorem Backed.chunk_of_ptr (backed : Backed live (usedOnly layout)) {ptr : Nat}
    (isLive : ptr ∈ live.map Block.ptr) :
    ∃ chunk ∈ layout, chunk.used = true ∧ chunkPtr chunk = ptr := by
  obtain ⟨chunk, member, place⟩ := List.mem_map.mp (backed.ptrs.mem_iff.mp isLive)
  obtain ⟨inLayout, used⟩ := mem_usedOnly.mp member
  exact ⟨chunk, inLayout, used, place⟩

/-! ## Creation -/

theorem emptyWindow (heap : Heap) (aligned : 8 ∣ heap.loBound) (positive : 0 < heap.loBound)
    (bounded : heap.hiBound ≤ heap.loBound + memMaxSize)
    (empty : ∀ index, heap.buckets index = 0)
    (totalSum : heap.totalSize = heap.hiBound - heap.loBound - overhead) :
    Window heap [] [] heap.loBound heap.hiBound [] fun _ => [] where
  aligned := aligned
  positive := positive
  bounded := bounded
  tilesBefore := rfl
  tilesAfter := rfl
  tagged := by simp
  inside := by simp
  spaced := ⟨List.Pairwise.nil, by simp, by simp⟩
  bucketed :=
    { listed := fun index => List.Perm.refl _
      threaded := fun index => threaded_nil (empty index) }
  totalSum := totalSum

/-- The last statements of `zbx_mem_create` link the only chunk. -/
theorem singleChunk_eq (mem : Words) (low high total : Nat) (most : total < 2 ^ 63) :
    memSetNextChunk
        (memSetPrevChunk
          (memSetChunkSize
            { mem, loBound := low, hiBound := high
              buckets := Function.update (fun _ => 0) (memBucketBySize total) low
              freeSize := total, usedSize := 0, totalSize := total } low total) low 0) low 0 =
      memLinkChunk
        (memSetChunkSize
          { mem, loBound := low, hiBound := high, buckets := fun _ => 0
            freeSize := total, usedSize := 0, totalSize := total } low total) low := by
  have first : (setTag
      { mem, loBound := low, hiBound := high, buckets := fun _ => 0
        freeSize := total, usedSize := 0, totalSize := total } ⟨low, total, false⟩).mem low =
      tag ⟨low, total, false⟩ :=
    (tagged_setTag _ ⟨low, total, false⟩).1
  have read : chunkSize (tag ⟨low, total, false⟩) = total := chunkSize_tag most
  rw [← first] at read
  rw [memSetChunkSize_eq, memSetChunkSize_eq]
  unfold memLinkChunk
  dsimp only at read ⊢
  rw [read]
  rfl

theorem singleChunk_spec (mem : Words) (low high total : Nat) (aligned : 8 ∣ low)
    (positive : 0 < low) (highAligned : 8 ∣ high) (bounded : high ≤ low + memMaxSize)
    (sum : low + total + overhead = high) (least : 24 ≤ total) :
    ∃ chunk lists, chunk.used = false ∧
      Rep
        (memSetNextChunk
          (memSetPrevChunk
            (memSetChunkSize
              { mem, loBound := low, hiBound := high
                buckets := Function.update (fun _ => 0) (memBucketBySize total) low
                freeSize := total, usedSize := 0, totalSize := total } low total) low 0)
          low 0)
        [chunk] lists := by
  simp only [overhead, memMaxSize] at sum bounded
  have window := emptyWindow
    { mem, loBound := low, hiBound := high, buckets := fun _ => 0
      freeSize := total, usedSize := 0, totalSize := total } aligned positive bounded
    (fun _ => rfl) (by simp only [overhead]; omega)
  obtain ⟨lists, rep, -⟩ := merge_spec window sum (by omega) least isChain_nil
    isChain_nil (by simp [LastUsed]) (by simp [HeadUsed]) (by simp) (by simp)
  rw [singleChunk_eq mem low high total (by omega)]
  exact ⟨_, lists, rfl, rep⟩

theorem zbxMemCreate_spec {mem : Words} {base size descrLength paramLength : Nat}
    (created : zbxMemCreate mem base size descrLength paramLength = some heap)
    (large : zbxMemRequiredSize 1 descrLength paramLength + memMinAlloc ≤ size) :
    ∃ chunk lists, chunk.used = false ∧ Rep heap [chunk] lists := by
  unfold zbxMemCreate at created
  by_cases within : memMinSize ≤ size ∧ size ≤ memMaxSize
  · rw [if_pos within, some.injEq] at created
    obtain ⟨-, most⟩ := within
    subst created
    unfold zbxMemRequiredSize at large
    simp only [sizeofMemInfo, zbxPtrSize, memBucketCount, memMaxBucketSize, memMinBucketSize,
      memMinAlloc, memSizeField, memMaxSize, align8] at large most ⊢
    refine singleChunk_spec _ _ _ _ ?_ ?_ ?_ ?_ ?_ ?_
    all_goals try simp only [overhead, memMaxSize]
    all_goals omega
  · rw [if_neg within] at created
    cases created

/-! ## Runs -/

/-- Some layout is what the heap holds, and its used chunks are the live blocks. -/
def Consistent (state : State) : Prop :=
  ∃ layout lists, Rep state.heap layout lists ∧ Backed state.live (usedOnly layout)

theorem userPtr_addr (notNull : chunk.addr ≠ 0) : userPtr chunk.addr = chunkPtr chunk :=
  if_neg notNull

theorem chunkPtr_ne_zero (chunk : Chunk) : chunkPtr chunk ≠ 0 := by
  simp only [chunkPtr, memSizeField]
  omega

theorem malloc_consistent {size : Nat} (rep : Rep heap layout lists)
    (backed : Backed live (usedOnly layout)) :
    memMalloc heap size = (heap, 0) ∨
      userPtr (memMalloc heap size).2 ≠ 0 ∧
        Consistent ⟨(memMalloc heap size).1,
          withResult live (userPtr (memMalloc heap size).2) size⟩ := by
  rcases memMalloc_spec rep size with ⟨missing, -⟩ |
    ⟨kept, layout', lists', place, notNull, -, enough, permuted, grown, -⟩
  · exact Or.inl missing
  · right
    rw [place, userPtr_addr notNull]
    have proper := (memProperAllocSize_spec size).2.2.1
    exact ⟨chunkPtr_ne_zero kept, layout', lists', grown, backed.add permuted (by omega)⟩

theorem without_zero (backed : Backed live chunks) : without live 0 = live := by
  refine eraseP_of_forall_not ?_
  intro block member
  obtain ⟨chunk, -, place, -⟩ := backed.sizes block member
  have notNull := chunkPtr_ne_zero chunk
  rw [beq_iff_eq, ← place]
  exact Ne.symm notNull

/-- Every call and every store preserves consistency. -/
theorem step_consistent (state : State) (label : Label) (next : State)
    (consistent : Consistent state) (stepped : step state label = some next) :
    Consistent next := by
  obtain ⟨layout, lists, rep, backed⟩ := consistent
  cases label with
  | malloc size =>
    simp only [step, zbxMemMalloc] at stepped
    split_ifs at stepped
    · cases stepped
    · simp only [map_some, some.injEq] at stepped
      rcases malloc_consistent rep backed with missing | ⟨notNull, consistent⟩
      · rw [missing] at stepped
        subst stepped
        exact ⟨layout, lists, rep, backed⟩
      · rw [if_neg notNull] at stepped
        subst stepped
        exact consistent
  | realloc old size =>
    simp only [step, zbxMemRealloc] at stepped
    split_ifs at stepped with isLive bad isNull
    · cases stepped
    · subst isNull
      simp only [map_some, some.injEq] at stepped
      rw [without_zero backed] at stepped
      rcases malloc_consistent rep backed with missing | ⟨notNull, consistent⟩
      · rw [missing] at stepped
        subst stepped
        exact ⟨layout, lists, rep, backed⟩
      · rw [if_neg notNull] at stepped
        subst stepped
        exact consistent
    · obtain ⟨block, member, used, rfl⟩ :=
        backed.chunk_of_ptr (isLive.resolve_left isNull)
      rcases memRealloc_spec rep member used size with ⟨missing, -⟩ |
        ⟨heap', kept, layout', lists', moved, enough, -, replaced, rep', -⟩
      · rw [show memRealloc state.heap (chunkPtr block) size = some (state.heap, 0)
          from missing] at stepped
        simp only [map_some, some.injEq, userPtr, if_true] at stepped
        subst stepped
        exact ⟨layout, lists, rep, backed⟩
      · obtain ⟨keptUsed, others, before, after⟩ := replaced
        have keptMember : kept ∈ layout' :=
          (mem_usedOnly.mp (after.mem_iff.mpr mem_cons_self)).1
        have notNull := addr_ne_zero rep' keptMember
        have proper := (memProperAllocSize_spec size).2.2.1
        rw [show memRealloc state.heap (chunkPtr block) size = some (heap', kept.addr)
          from moved] at stepped
        simp only [map_some, some.injEq, userPtr_addr notNull,
          chunkPtr_ne_zero, if_false] at stepped
        subst stepped
        have removed := backed.remove (usedPtrs_nodup rep) before
        exact ⟨layout', lists', rep', removed.add after (by omega)⟩
  | free ptr =>
    simp only [step, zbxMemFree] at stepped
    split_ifs at stepped with isLive isNull
    · cases stepped
    · obtain ⟨block, member, used, rfl⟩ := backed.chunk_of_ptr isLive
      obtain ⟨-, layout', lists', -, -, -, released, rep', -⟩ := memFree_spec rep member used
      simp only [map_some, some.injEq] at stepped
      subst stepped
      exact ⟨layout', lists', rep', backed.remove (usedPtrs_nodup rep) released⟩
  | store ptr image =>
    simp only [step, map_eq_some_iff] at stepped
    obtain ⟨block, found, rfl⟩ := stepped
    have isLive := mem_of_find?_eq_some found
    have place := find?_some found
    rw [beq_iff_eq] at place
    obtain ⟨chunk, isUsed, samePlace, fitting⟩ := backed.sizes block isLive
    obtain ⟨member, used⟩ := mem_usedOnly.mp isUsed
    refine ⟨layout, lists, ?_, backed⟩
    rw [← place, ← samePlace]
    exact store_spec rep member used image _ _ fitting

theorem consistent_run {mem : Words} {base size descrLength paramLength : Nat}
    {heap : Heap} {labels : List Label} {state : State}
    (created : zbxMemCreate mem base size descrLength paramLength = some heap)
    (large : zbxMemRequiredSize 1 descrLength paramLength + memMinAlloc ≤ size)
    (executed : run step ⟨heap, []⟩ labels = some state) : Consistent state := by
  obtain ⟨chunk, lists, free, rep⟩ := zbxMemCreate_spec created large
  have initial : Consistent ⟨heap, []⟩ := by
    refine ⟨[chunk], lists, rep, ?_, by simp⟩
    simp [usedOnly, free]
  exact run_invariant step_consistent initial executed

/-- What the heap, its buckets and the live blocks look like. -/
structure HeapInvariant (state : State) (layout : List Chunk) (lists : Nat → List Nat) :
    Prop where
  /-- The chunks tile the heap, with equal size fields on both sides. -/
  tiles : Tiles state.heap.loBound layout state.heap.hiBound
  tagged : ∀ chunk ∈ layout, Tagged state.heap.mem chunk
  /-- No two adjacent chunks are free. -/
  separated : layout.IsChain fun first second => first.used ∨ second.used
  /-- Every bucket is a doubly linked list. -/
  threaded : ∀ index,
    Threaded (nextOf state.heap index) (memGetPrevChunk state.heap) 0 (lists index)
  /-- A free chunk is in the bucket for its size, a used chunk is in no bucket. -/
  bucket : ∀ chunk ∈ layout, ∀ index, chunk.addr ∈ lists index ↔
    chunk.used = false ∧ memBucketBySize chunk.size = index
  listed : ∀ index, ∀ node ∈ lists index, ∃ chunk ∈ layout, chunk.addr = node
  /-- Live blocks are the used chunks, aligned, disjoint, and large enough. -/
  live : (state.live.map Block.ptr).Perm ((usedOnly layout).map chunkPtr)
  large : ∀ block ∈ state.live, ∃ chunk ∈ layout, chunk.used = true ∧
    chunkPtr chunk = block.ptr ∧ block.size ≤ chunk.size
  aligned : ∀ block ∈ state.live, 8 ∣ block.ptr
  disjoint : state.live.Pairwise fun first second =>
    first.ptr + first.size ≤ second.ptr ∨ second.ptr + second.size ≤ first.ptr
  /-- The counters. -/
  usedSum : state.heap.usedSize = sizeSum true layout
  freeSum : state.heap.freeSize = sizeSum false layout
  totalSum : state.heap.totalSize =
    state.heap.usedSize + state.heap.freeSize + 16 * (layout.length - 1)

theorem heapInvariant_of_rep {state : State} (rep : Rep state.heap layout lists)
    (backed : Backed state.live (usedOnly layout)) :
    HeapInvariant state layout lists where
  tiles := rep.tiles
  tagged := rep.tagged
  separated := rep.separated
  threaded := rep.bucketed.threaded
  bucket chunk member index := by
    rw [(rep.bucketed.listed index).mem_iff, mem_freeAddrs]
    constructor
    · rintro ⟨other, isIn, free, place, same⟩
      obtain rfl := eq_of_addr_eq rep.tiles.pairwise_apart isIn member same
      exact ⟨free, place⟩
    · rintro ⟨free, place⟩
      exact ⟨chunk, member, free, place, rfl⟩
  listed index node member := by
    obtain ⟨chunk, isIn, -, same, -⟩ := chunk_of_node rep member
    exact ⟨chunk, isIn, same⟩
  live := backed.ptrs
  large block member := by
    obtain ⟨chunk, isUsed, place, fitting⟩ := backed.sizes block member
    obtain ⟨isIn, used⟩ := mem_usedOnly.mp isUsed
    exact ⟨chunk, isIn, used, place, fitting⟩
  aligned block member := by
    obtain ⟨chunk, isUsed, place, -⟩ := backed.sizes block member
    have addrAligned := rep.tiles.aligned rep.aligned
      (fun other isIn => (rep.fits other isIn).aligned) (mem_usedOnly.mp isUsed).1
    rw [← place, chunkPtr, memSizeField]
    exact Nat.dvd_add addrAligned (Nat.dvd_refl 8)
  disjoint := by
    have unique : (state.live.map Block.ptr).Nodup :=
      backed.ptrs.nodup_iff.mpr (usedPtrs_nodup rep)
    refine (pairwise_map.mp unique).imp_of_mem ?_
    intro first second memberFirst memberSecond different
    obtain ⟨chunk, isUsed, place, fitting⟩ := backed.sizes first memberFirst
    obtain ⟨other, isUsed', place', fitting'⟩ := backed.sizes second memberSecond
    have apart := rep.tiles.pairwise_apart.forall (mem_usedOnly.mp isUsed).1
      (mem_usedOnly.mp isUsed').1 (by
        rintro rfl
        exact different (place.symm.trans place'))
    simp only [chunkPtr, memSizeField, Apart, Chunk.stop, overhead] at place place' apart
    omega
  usedSum := rep.usedSum
  freeSum := rep.freeSum
  totalSum := by
    have total := rep.tiles.total
    rw [rep.totalSum, rep.usedSum, rep.freeSum]
    simp only [overhead] at total ⊢
    omega

/--
In every run from the creation of a large enough heap, the heap is tiled by
chunks that its size fields, buckets, counters and live blocks agree on.
-/
theorem heapInvariant_run {mem : Words} {base size descrLength paramLength : Nat}
    {heap : Heap} {labels : List Label} {state : State}
    (created : zbxMemCreate mem base size descrLength paramLength = some heap)
    (large : zbxMemRequiredSize 1 descrLength paramLength + memMinAlloc ≤ size)
    (executed : run step ⟨heap, []⟩ labels = some state) :
    ∃ layout lists, HeapInvariant state layout lists := by
  obtain ⟨layout, lists, rep, backed⟩ := consistent_run created large executed
  exact ⟨layout, lists, heapInvariant_of_rep rep backed⟩

/-- A heap of 1000 bytes at address 4096. -/
def sampleHeap : Heap :=
  (zbxMemCreate (fun _ => 0) 4096 1000 5 4).getD ⟨fun _ => 0, fun _ => 0, 0, 0, 0, 0, 0⟩

/-- Two blocks, a failing call, a block that moves and shrinks, and a release. -/
def sampleCalls : List Label :=
  [.malloc 20, .malloc 30, .malloc 5000, .realloc 4440 200, .realloc 4528 40, .free 4480]

theorem heapInvariant_sampleRun :
    ∃ state, run step ⟨sampleHeap, []⟩ sampleCalls = some state ∧
      ∃ layout lists, HeapInvariant state layout lists := by
  have created : zbxMemCreate (fun _ => 0) 4096 1000 5 4 = some sampleHeap := rfl
  have enabled : (run step ⟨sampleHeap, []⟩ sampleCalls).isSome = true := by decide +kernel
  obtain ⟨state, executed⟩ := isSome_iff_exists.mp enabled
  exact ⟨state, executed, heapInvariant_run created (by decide) executed⟩

end Zabbix.Memory.System
