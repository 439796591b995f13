import Zabbix.Memory.System

/-!
# Reallocation keeps the data

`__mem_realloc` on a live block of a reachable heap.  Where it returns a block,
the words that fit into it are those of the old block, and the words of all
other blocks are as before; where it returns `NULL`, nothing has changed and
nothing could hold the size.
-/

namespace Zabbix.Memory.Reallocation

open Library.Transition Alloc Layout Buckets Memory.Representation Placement Operations Search
open Frames
open Memory.System

/--
`__mem_realloc` on a live block of a reachable heap always returns, that is the
exit after releasing the old block is never taken.  If it returns a block, the
old data is at its front and the words of all other blocks are unchanged.  If
it returns `NULL`, the heap is unchanged, and neither a free chunk nor the old
one merged with its free neighbours can hold the size.
-/
theorem memRealloc_run {mem : Words} {base totalSize descrLength paramLength : Nat}
    {heap : Heap} {labels : List Label} {state : State}
    (created : zbxMemCreate mem base totalSize descrLength paramLength = some heap)
    (large : zbxMemRequiredSize 1 descrLength paramLength + memMinAlloc ≤ totalSize)
    (executed : run step ⟨heap, []⟩ labels = some state) :
    ∃ layout lists, HeapInvariant state layout lists ∧
      ∀ old ∈ state.live, ∀ size,
        let oldSize := chunkSize (state.heap.mem (old.ptr - memSizeField))
        ∃ after newChunk, memRealloc state.heap old.ptr size = some (after, newChunk) ∧
          (newChunk ≠ 0 →
            (∀ offset < min oldSize (memProperAllocSize size),
              after.mem (newChunk + memSizeField + offset) =
                state.heap.mem (old.ptr + offset)) ∧
            ∀ block ∈ state.live, block.ptr ≠ old.ptr →
              ∀ offset < chunkSize (state.heap.mem (block.ptr - memSizeField)),
                after.mem (block.ptr + offset) = state.heap.mem (block.ptr + offset)) ∧
          (newChunk = 0 → after = state.heap ∧
            (∀ chunk ∈ layout, chunk.used = false → chunk.size < memProperAllocSize size) ∧
            releasedSize state.heap (old.ptr - memSizeField) oldSize <
              memProperAllocSize size) := by
  obtain ⟨layout, lists, rep, backed⟩ := consistent_run created large executed
  refine ⟨layout, lists, heapInvariant_of_rep rep backed, ?_⟩
  intro old isLive size oldSize
  obtain ⟨chunk, member, used, place⟩ :=
    backed.chunk_of_ptr (List.mem_map_of_mem isLive)
  have start : old.ptr - memSizeField = chunk.addr := by
    rw [← place, chunkPtr, Nat.add_sub_cancel]
  have isSize : oldSize = chunk.size := by
    simp only [oldSize]
    rw [start, chunkSize_first rep member]
  rw [isSize, start, ← place]
  rcases memRealloc_spec rep member used size with
    ⟨failed, allSmall, small⟩ | ⟨after, new, -, -, moved, -, notNull, -, -, same, kept⟩
  · exact ⟨state.heap, 0, failed, fun notNull => absurd rfl notNull,
      fun _ => ⟨rfl, allSmall, small⟩⟩
  · refine ⟨after, new.addr, moved, fun _ => ⟨same, ?_⟩, fun isNull => absurd isNull notNull⟩
    intro block isBlock different offset within
    obtain ⟨owner, isOwner, ownerUsed, ownerPlace⟩ :=
      backed.chunk_of_ptr (List.mem_map_of_mem isBlock)
    have ownerStart : block.ptr - memSizeField = owner.addr := by
      rw [← ownerPlace, chunkPtr, Nat.add_sub_cancel]
    rw [ownerStart, chunkSize_first rep isOwner] at within
    have notOld : owner ≠ chunk := by
      rintro rfl
      exact different ownerPlace.symm
    have apart := rep.tiles.pairwise_apart.forall isOwner member notOld
    simp only [Apart, Chunk.stop, overhead] at apart
    rw [← ownerPlace, chunkPtr]
    refine kept _ ⟨⟨owner, isOwner, ownerUsed, ?_, ?_⟩, ?_⟩
    · simp only [memSizeField]
      omega
    · simp only [memSizeField]
      omega
    · simp only [memSizeField]
      omega

/-- A block that moves: its words come along, and the other block keeps its own. -/
theorem memRealloc_sampleRun :
    ∃ state layout lists, run step ⟨sampleHeap, []⟩ [.malloc 20, .malloc 30] = some state ∧
      HeapInvariant state layout lists ∧
      ∃ old ∈ state.live, ∃ after newChunk,
        memRealloc state.heap old.ptr 200 = some (after, newChunk) := by
  have created : zbxMemCreate (fun _ => 0) 4096 1000 5 4 = some sampleHeap := rfl
  have enabled : ((run step ⟨sampleHeap, []⟩ [.malloc 20, .malloc 30]).map fun state =>
      state.live.length) = some 2 := by decide +kernel
  obtain ⟨state, executed, two⟩ := Option.map_eq_some_iff.mp enabled
  obtain ⟨layout, lists, invariant, reallocs⟩ := memRealloc_run created (by decide) executed
  obtain ⟨old, rest, shape⟩ : ∃ old rest, state.live = old :: rest :=
    List.exists_cons_of_length_pos (by omega)
  have isLive : old ∈ state.live := shape ▸ List.mem_cons_self
  obtain ⟨after, newChunk, moved, -⟩ := reallocs old isLive 200
  exact ⟨state, layout, lists, executed, invariant, old, isLive, after, newChunk, moved⟩

end Zabbix.Memory.Reallocation
