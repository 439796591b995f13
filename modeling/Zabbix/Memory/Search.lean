import Zabbix.Memory.Representation

/-!
# The search for a free chunk

`__mem_malloc` takes the first chunk of the first bucket that is not empty, and
searches the last bucket for the first chunk that is large enough.  The search
finds a chunk exactly when the heap has one: every chunk of a later bucket is
large enough, and the fuel of the first-fit loop exceeds the number of chunks.
-/

namespace Zabbix.Memory.Search

open Alloc Layout Buckets Memory.Representation Library.LinkedList List

variable {heap : Heap} {layout : List Chunk} {lists : Nat → List Nat} {chunk : Chunk}

/-! ## Sizes -/

theorem memProperAllocSize_spec (size : Nat) :
    8 ∣ memProperAllocSize size ∧ 24 ≤ memProperAllocSize size ∧
      size ≤ memProperAllocSize size ∧ memProperAllocSize size ≤ size + 24 := by
  unfold memProperAllocSize memMinAlloc
  split_ifs <;> omega

theorem memProperAllocSize_idem (size : Nat) :
    memProperAllocSize (memProperAllocSize size) = memProperAllocSize size := by
  obtain ⟨aligned, least, -⟩ := memProperAllocSize_spec size
  generalize memProperAllocSize size = proper at aligned least ⊢
  unfold memProperAllocSize memMinAlloc
  rw [if_pos least]
  omega

theorem memBucketBySize_lt (size : Nat) : memBucketBySize size < memBucketCount := by
  unfold memBucketBySize memBucketCount memMaxBucketSize memMinBucketSize memMinAlloc
  split_ifs <;> omega

theorem size_le_of_bucket {size available : Nat} (aligned : 8 ∣ size)
    (availableAligned : 8 ∣ available) (least : 24 ≤ size) (availableLeast : 24 ≤ available)
    (later : memBucketBySize size ≤ memBucketBySize available)
    (notLast : memBucketBySize available ≠ memBucketCount - 1) :
    size ≤ available := by
  unfold memBucketBySize memBucketCount memMaxBucketSize memMinBucketSize memMinAlloc
    at later notLast
  split_ifs at later notLast <;> omega

theorem bucket_mono {size available : Nat} (enough : size ≤ available) :
    memBucketBySize size ≤ memBucketBySize available := by
  unfold memBucketBySize memBucketCount memMaxBucketSize memMinBucketSize memMinAlloc
  split_ifs <;> omega

/-! ## Buckets -/

theorem searchBuckets_spec (buckets : Nat → Nat) (room index : Nat) :
    index ≤ searchBuckets buckets room index ∧
      searchBuckets buckets room index ≤ index + room ∧
      (∀ earlier, index ≤ earlier → earlier < searchBuckets buckets room index →
        buckets earlier = 0) ∧
      (searchBuckets buckets room index < index + room →
        buckets (searchBuckets buckets room index) ≠ 0) := by
  induction room generalizing index with
  | zero =>
    refine ⟨Nat.le_refl _, Nat.le_refl _, ?_, ?_⟩
    · intro earlier later before
      exact absurd before (Nat.not_lt.mpr later)
    · intro before
      exact absurd before (Nat.lt_irrefl _)
  | succ room ih =>
    unfold searchBuckets
    by_cases empty : buckets index = 0
    · rw [if_pos empty]
      obtain ⟨low, high, skipped, found⟩ := ih (index + 1)
      refine ⟨by omega, by omega, ?_, ?_⟩
      · intro earlier later before
        rcases Nat.eq_or_lt_of_le later with rfl | later
        · exact empty
        · exact skipped earlier later before
      · intro before
        exact found (by omega)
    · rw [if_neg empty]
      refine ⟨Nat.le_refl _, by omega, ?_, fun _ => empty⟩
      intro earlier later before
      exact absurd before (Nat.not_lt.mpr later)

theorem firstFit_spec (size : Nat) {index : Nat} {nodes : List Nat} {node fuel : Nat}
    (notNull : ∀ other ∈ nodes, other ≠ 0)
    (path : Path (nextOf heap index) (memGetPrevChunk heap) 0 node nodes)
    (room : nodes.length < fuel) :
    firstFit heap size fuel (nextOf heap index node) = 0 ∧
        (∀ other ∈ nodes, chunkSize (heap.mem other) < size) ∨
      firstFit heap size fuel (nextOf heap index node) ∈ nodes ∧
        size ≤ chunkSize (heap.mem (firstFit heap size fuel (nextOf heap index node))) := by
  induction nodes generalizing node fuel with
  | nil =>
    left
    obtain ⟨fuel, rfl⟩ : ∃ less, fuel = less + 1 := ⟨fuel - 1, by simp at room; omega⟩
    rw [show nextOf heap index node = 0 from path]
    simp [firstFit]
  | cons follower rest ih =>
    obtain ⟨fuel, rfl⟩ : ∃ less, fuel = less + 1 := ⟨fuel - 1, by omega⟩
    obtain ⟨forward, -, later⟩ := path
    have followerNotNull := notNull follower mem_cons_self
    rw [forward, firstFit]
    by_cases small : chunkSize (heap.mem follower) < size
    · rw [if_pos ⟨followerNotNull, small⟩]
      have next : memGetNextChunk heap follower = nextOf heap index follower := by
        rw [nextOf, if_neg followerNotNull]
      rw [next]
      rcases ih (fun other member => notNull other (mem_cons_of_mem _ member))
        later (by simpa using room) with ⟨missing, allSmall⟩ | ⟨found, enough⟩
      · refine Or.inl ⟨missing, ?_⟩
        intro other member
        rcases mem_cons.mp member with rfl | member
        · exact small
        · exact allSmall other member
      · exact Or.inr ⟨mem_cons_of_mem _ found, enough⟩
    · rw [if_neg (fun both => small both.2)]
      exact Or.inr ⟨mem_cons_self, Nat.le_of_not_lt small⟩

/-! ## Selection -/

variable (rep : Rep heap layout lists)

include rep

theorem chunk_of_node {index node : Nat}
    (member : node ∈ lists index) :
    ∃ chunk ∈ layout, chunk.used = false ∧ chunk.addr = node ∧
      memBucketBySize chunk.size = index ∧ chunkSize (heap.mem node) = chunk.size := by
  obtain ⟨chunk, isIn, free, bucket, rfl⟩ :=
    mem_freeAddrs.mp ((rep.bucketed.listed index).mem_iff.mp member)
  refine ⟨chunk, isIn, free, rfl, bucket, ?_⟩
  rw [(rep.tagged chunk isIn).1, chunkSize_tag (rep.fits chunk isIn).most]

theorem node_of_chunk (member : chunk ∈ layout)
    (free : chunk.used = false) :
    chunk.addr ∈ lists (memBucketBySize chunk.size) :=
  (rep.bucketed.listed _).mem_iff.mpr (mem_freeAddrs.mpr ⟨chunk, member, free, rfl, rfl⟩)

theorem layout_length_le :
    layout.length ≤ heap.hiBound - heap.loBound := by
  have total := rep.tiles.total
  simp only [overhead] at total
  omega

theorem bucket_length_le (index : Nat) :
    (lists index).length ≤ heap.hiBound - heap.loBound := by
  refine Nat.le_trans ?_ (layout_length_le rep)
  rw [(rep.bucketed.listed index).length_eq, freeAddrs, length_map]
  exact length_filter_le _ _

theorem bucket_eq_zero {index : Nat} :
    heap.buckets index = 0 ↔ lists index = [] := by
  have threaded := rep.bucketed.threaded index
  have first := threaded.first_eq
  rw [nextOf, if_pos rfl] at first
  rw [first]
  cases shape : lists index with
  | nil => simp
  | cons node rest =>
    have notNull : node ≠ 0 := threaded.ne_null (by simp [shape])
    simp [notNull]

/-- The selected chunk is free and large enough; nothing fits where there is none. -/
theorem selectChunk_spec {size : Nat}
    (aligned : 8 ∣ size) (least : 24 ≤ size) :
    (selectChunk heap size = 0 ∧ ∀ chunk ∈ layout, chunk.used = false → chunk.size < size) ∨
      ∃ chunk ∈ layout, chunk.used = false ∧ chunk.addr = selectChunk heap size ∧
        size ≤ chunk.size := by
  have startLt := memBucketBySize_lt size
  obtain ⟨low, high, skipped, found⟩ := searchBuckets_spec heap.buckets
    (memBucketCount - 1 - memBucketBySize size) (memBucketBySize size)
  unfold selectChunk
  dsimp only
  generalize searchBuckets heap.buckets (memBucketCount - 1 - memBucketBySize size)
    (memBucketBySize size) = index at low high skipped found ⊢
  by_cases isLast : index = memBucketCount - 1
  · rw [if_pos isLast]
    have threaded := rep.bucketed.threaded index
    have search := firstFit_spec size
      (fun node member => threaded.ne_null member) threaded.2
      (Nat.lt_succ_of_le (bucket_length_le rep index))
    rw [show nextOf heap index 0 = heap.buckets index from if_pos rfl] at search
    rcases search with ⟨missing, allSmall⟩ | ⟨isNode, enough⟩
    · refine Or.inl ⟨missing, ?_⟩
      intro chunk member free
      by_contra fitting
      have node := node_of_chunk rep member free
      have later := bucket_mono (Nat.le_of_not_lt fitting)
      have chunkLt := memBucketBySize_lt chunk.size
      rcases Nat.eq_or_lt_of_le (show memBucketBySize chunk.size ≤ index by omega)
        with same | earlier
      · rw [same] at node
        have small := allSmall chunk.addr node
        rw [(rep.tagged chunk member).1, chunkSize_tag (rep.fits chunk member).most] at small
        exact fitting small
      · have empty := (bucket_eq_zero rep).mp (skipped _ later earlier)
        simp [empty] at node
    · obtain ⟨chunk, member, free, place, -, sizeEq⟩ := chunk_of_node rep isNode
      exact Or.inr ⟨chunk, member, free, place, sizeEq ▸ enough⟩
  · rw [if_neg isLast]
    have notEmpty := found (by omega)
    have first := (rep.bucketed.threaded index).first_eq
    rw [nextOf, if_pos rfl] at first
    have isNode : heap.buckets index ∈ lists index := by
      rw [first] at notEmpty ⊢
      cases shape : lists index with
      | nil => simp [shape] at notEmpty
      | cons node rest => simp
    obtain ⟨chunk, member, free, place, bucket, -⟩ := chunk_of_node rep isNode
    have fits := rep.fits chunk member
    refine Or.inr ⟨chunk, member, free, place, ?_⟩
    exact size_le_of_bucket aligned fits.aligned least fits.least (bucket ▸ low)
      (bucket ▸ isLast)

end Zabbix.Memory.Search
