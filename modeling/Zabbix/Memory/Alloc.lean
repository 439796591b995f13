import Mathlib.Data.Nat.Bitwise

/-!
# The shared memory allocator

A translation of `memalloc.c` for 8-byte pointers and size fields.  Shared
memory is a function from addresses to words; every size field and every link
of a free chunk is one word at an address divisible by 8.  Address 0 is `NULL`.

A chunk at `chunk` with size `size` consists of its left size field at `chunk`,
`size` bytes of allocatable memory from `chunk + 8` on, and its right size field
at `chunk + 8 + size`.  While the chunk is free, the words at `chunk + 8` and
`chunk + 16` link it into a bucket.
-/

namespace Zabbix.Memory.Alloc

def memSizeField : Nat := 8

def zbxPtrSize : Nat := 8

def memMinAlloc : Nat := 24

def memMinBucketSize : Nat := memMinAlloc

/-- `MEM_MAX_BUCKET_SIZE`: free chunks from this size on share one bucket. -/
def memMaxBucketSize : Nat := 256

def memBucketCount : Nat := (memMaxBucketSize - memMinBucketSize) / 8 + 1

def memFlgUsed : Nat := 2 ^ 63

def memMinSize : Nat := 128

/-- `MEM_MAX_SIZE`: 64 GB. -/
def memMaxSize : Nat := 0x1000000000

/-- `sizeof(zbx_mem_info_t)`. -/
def sizeofMemInfo : Nat := 80

/-- Memory as a function from addresses to words. -/
abbrev Words := Nat → Nat

/-- `zbx_mem_info_t` together with the memory it manages. -/
structure Heap where
  mem : Words
  buckets : Nat → Nat
  loBound : Nat
  hiBound : Nat
  freeSize : Int
  usedSize : Int
  totalSize : Int

/-- Store a word. -/
def Heap.write (heap : Heap) (address value : Nat) : Heap :=
  { heap with mem := Function.update heap.mem address value }

def freeChunk (word : Nat) : Bool :=
  word &&& memFlgUsed = 0

def chunkSize (word : Nat) : Nat :=
  word &&& (memFlgUsed - 1)

/-- `ALIGN8`, and `ALIGNPTR` for 8-byte pointers. -/
def align8 (address : Nat) : Nat :=
  (address + 7) / 8 * 8

def memProperAllocSize (size : Nat) : Nat :=
  if memMinAlloc ≤ size then size + (8 - size % 8) % 8 else memMinAlloc

def memBucketBySize (size : Nat) : Nat :=
  if size < memMinBucketSize then 0
  else if size < memMaxBucketSize then (size - memMinBucketSize) / 8
  else memBucketCount - 1

def memSetChunkSize (heap : Heap) (chunk size : Nat) : Heap :=
  (heap.write chunk size).write (chunk + memSizeField + size) size

def memSetUsedChunkSize (heap : Heap) (chunk size : Nat) : Heap :=
  (heap.write chunk (memFlgUsed ||| size)).write
    (chunk + memSizeField + size) (memFlgUsed ||| size)

def memGetPrevChunk (heap : Heap) (chunk : Nat) : Nat :=
  heap.mem (chunk + memSizeField)

def memGetNextChunk (heap : Heap) (chunk : Nat) : Nat :=
  heap.mem (chunk + memSizeField + zbxPtrSize)

def memSetPrevChunk (heap : Heap) (chunk prev : Nat) : Heap :=
  heap.write (chunk + memSizeField) prev

def memSetNextChunk (heap : Heap) (chunk next : Nat) : Heap :=
  heap.write (chunk + memSizeField + zbxPtrSize) next

def Heap.setBucket (heap : Heap) (index chunk : Nat) : Heap :=
  { heap with buckets := Function.update heap.buckets index chunk }

def memLinkChunk (heap : Heap) (chunk : Nat) : Heap :=
  let index := memBucketBySize (chunkSize (heap.mem chunk))
  let first := heap.buckets index
  let heap := if first ≠ 0 then memSetPrevChunk heap first chunk else heap
  (memSetNextChunk (memSetPrevChunk heap chunk 0) chunk first).setBucket index chunk

/--
`mem_unlink_chunk`.  The pointer to the next field of a missing previous chunk is
the bucket itself.
-/
def memUnlinkChunk (heap : Heap) (chunk : Nat) : Heap :=
  let index := memBucketBySize (chunkSize (heap.mem chunk))
  let prevChunk := memGetPrevChunk heap chunk
  let nextChunk := memGetNextChunk heap chunk
  let heap :=
    if prevChunk ≠ 0 then memSetNextChunk heap prevChunk nextChunk
    else heap.setBucket index nextChunk
  if nextChunk ≠ 0 then memSetPrevChunk heap nextChunk prevChunk else heap

/-! ## Allocation -/

/-- The first bucket from `index` on that is not empty, or the last one. -/
def searchBuckets (buckets : Nat → Nat) : Nat → Nat → Nat
  | 0, index => index
  | room + 1, index =>
    if buckets index = 0 then searchBuckets buckets room (index + 1) else index

/--
The first-fit search of the last bucket.  The fuel bounds the length of the
list; the caller passes the size of the heap.
-/
def firstFit (heap : Heap) (size : Nat) : Nat → Nat → Nat
  | 0, _ => 0
  | fuel + 1, chunk =>
    if chunk ≠ 0 ∧ chunkSize (heap.mem chunk) < size then
      firstFit heap size fuel (memGetNextChunk heap chunk)
    else
      chunk

/-- The chunk which `__mem_malloc` selects, or `NULL`. -/
def selectChunk (heap : Heap) (size : Nat) : Nat :=
  let start := memBucketBySize size
  let index := searchBuckets heap.buckets (memBucketCount - 1 - start) start
  let chunk := heap.buckets index
  if index = memBucketCount - 1 then
    firstFit heap size (heap.hiBound - heap.loBound + 1) chunk
  else
    chunk

/--
Either use the full chunk or split it.  `chunk` is not linked, it has `size`
usable bytes or more, and the rest of its `available` bytes becomes a free chunk
where it is large enough.
-/
def carveChunk (heap : Heap) (chunk available size : Nat) : Heap :=
  if available < size + 2 * memSizeField + memMinAlloc then
    memSetUsedChunkSize
      { heap with
        usedSize := heap.usedSize + available
        freeSize := heap.freeSize - available }
      chunk available
  else
    let newChunk := chunk + memSizeField + size + memSizeField
    let newChunkSize := available - size - 2 * memSizeField
    let heap := memLinkChunk (memSetChunkSize heap newChunk newChunkSize) newChunk
    memSetUsedChunkSize
      { heap with
        usedSize := heap.usedSize + size
        freeSize := heap.freeSize - available + newChunkSize }
      chunk size

/-- `__mem_malloc`: the heap and the chunk, which is 0 for `NULL`. -/
def memMalloc (heap : Heap) (size : Nat) : Heap × Nat :=
  let size := memProperAllocSize size
  let chunk := selectChunk heap size
  if chunk = 0 then
    (heap, 0)
  else
    let available := chunkSize (heap.mem chunk)
    (carveChunk (memUnlinkChunk heap chunk) chunk available size, chunk)

/-! ## Release -/

/-- `prev_free` of `__mem_free`. -/
def prevFree (heap : Heap) (chunk : Nat) : Bool :=
  heap.loBound < chunk ∧ freeChunk (heap.mem (chunk - memSizeField))

/-- `next_free` of `__mem_free` and `__mem_realloc`. -/
def nextFree (heap : Heap) (nextChunk : Nat) : Bool :=
  nextChunk < heap.hiBound ∧ freeChunk (heap.mem nextChunk)

def memFree (heap : Heap) (ptr : Nat) : Heap :=
  let chunk := ptr - memSizeField
  let size := chunkSize (heap.mem chunk)
  let heap :=
    { heap with usedSize := heap.usedSize - size, freeSize := heap.freeSize + size }
  let nextChunk := chunk + memSizeField + size + memSizeField
  let prevSize := chunkSize (heap.mem (chunk - memSizeField))
  let prevChunk := chunk - memSizeField - prevSize - memSizeField
  let nextSize := chunkSize (heap.mem nextChunk)
  if prevFree heap chunk ∧ nextFree heap nextChunk then
    let heap := { heap with freeSize := heap.freeSize + 4 * memSizeField }
    let merged := size + 4 * memSizeField + chunkSize (heap.mem prevChunk) + nextSize
    let heap := memUnlinkChunk (memUnlinkChunk heap prevChunk) nextChunk
    memLinkChunk (memSetChunkSize heap prevChunk merged) prevChunk
  else if prevFree heap chunk then
    let heap := { heap with freeSize := heap.freeSize + 2 * memSizeField }
    let merged := size + 2 * memSizeField + chunkSize (heap.mem prevChunk)
    let heap := memUnlinkChunk heap prevChunk
    memLinkChunk (memSetChunkSize heap prevChunk merged) prevChunk
  else if nextFree heap nextChunk then
    let heap := { heap with freeSize := heap.freeSize + 2 * memSizeField }
    let merged := size + 2 * memSizeField + nextSize
    let heap := memUnlinkChunk heap nextChunk
    memLinkChunk (memSetChunkSize heap chunk merged) chunk
  else
    memLinkChunk (memSetChunkSize heap chunk size) chunk

/-! ## Reallocation -/

/-- `memcpy` of `count` bytes from a memory image into the heap. -/
def Heap.copyFrom (heap : Heap) (image : Words) (target source count : Nat) : Heap :=
  { heap with
    mem := fun address =>
      if target ≤ address ∧ address < target + count then
        image (source + (address - target))
      else
        heap.mem address }

/-- The part of `__mem_realloc` for a block that becomes smaller. -/
def shrinkChunk (heap : Heap) (chunk available size : Nat) : Heap :=
  let nextChunk := chunk + memSizeField + available + memSizeField
  let newChunk := chunk + memSizeField + size + memSizeField
  if nextFree heap nextChunk then
    -- merge with next chunk
    let newChunkSize := chunkSize (heap.mem nextChunk) + (available - size)
    let heap :=
      { heap with
        usedSize := heap.usedSize - (available - size : Nat)
        freeSize := heap.freeSize + (available - size : Nat) }
    let heap := memUnlinkChunk heap nextChunk
    memSetUsedChunkSize
      (memLinkChunk (memSetChunkSize heap newChunk newChunkSize) newChunk) chunk size
  else
    -- split the current one
    let newChunkSize := available - size - 2 * memSizeField
    let heap :=
      { heap with
        usedSize := heap.usedSize - (available - size : Nat)
        freeSize := heap.freeSize + newChunkSize }
    memSetUsedChunkSize
      (memLinkChunk (memSetChunkSize heap newChunk newChunkSize) newChunk) chunk size

/--
`__mem_realloc`: the heap and the chunk, which is 0 for `NULL`.  The result is
`none` where the code exits.
-/
def memRealloc (heap : Heap) (old size : Nat) : Option (Heap × Nat) :=
  let size := memProperAllocSize size
  let chunk := old - memSizeField
  let available := chunkSize (heap.mem chunk)
  let nextChunk := chunk + memSizeField + available + memSizeField
  let nextSize := chunkSize (heap.mem nextChunk)
  if size ≤ available then
    -- do not reallocate if not much is freed
    if available / 4 < size then some (heap, chunk)
    else some (shrinkChunk heap chunk available size, chunk)
  else if nextFree heap nextChunk ∧ size ≤ available + 2 * memSizeField + nextSize then
    let joined := available + (2 * memSizeField + nextSize)
    let heap :=
      { heap with
        usedSize := heap.usedSize - available
        freeSize := heap.freeSize + (available + 2 * memSizeField : Nat) }
    some (carveChunk (memUnlinkChunk heap nextChunk) chunk joined size, chunk)
  else
    let (grown, newChunk) := memMalloc heap size
    if newChunk ≠ 0 then
      let copied := grown.copyFrom grown.mem (newChunk + memSizeField)
        (chunk + memSizeField) available
      some (memFree copied old, newChunk)
    else
      -- would there be enough space if the current chunk were freed first?
      let prevSize := chunkSize (heap.mem (chunk - memSizeField))
      let reachable := available +
        (if nextFree heap nextChunk then nextSize + 2 * memSizeField else 0) +
        (if prevFree heap chunk then prevSize + 2 * memSizeField else 0)
      if reachable < size then
        some (heap, 0)
      else
        let (moved, newChunk) := memMalloc (memFree heap old) size
        if newChunk = 0 then none
        else
          some
            (moved.copyFrom heap.mem (newChunk + memSizeField)
              (chunk + memSizeField) available, newChunk)

/-! ## Creation -/

/-- `zbx_mem_required_size`, for the lengths of `descr` and `param`. -/
def zbxMemRequiredSize (chunksNum descrLength paramLength : Nat) : Nat :=
  7 + sizeofMemInfo + (zbxPtrSize - 1) + zbxPtrSize * memBucketCount +
    (descrLength + 1) + (paramLength + 1) +
    (memSizeField - 1 + 8) + (memSizeField - 1 + 8) +
    (chunksNum - 1) * memSizeField * 2 + chunksNum * (memMinAlloc - 1)

/--
`zbx_mem_create` in a segment that is attached at `base` and contains `mem`;
`none` is a size out of bounds.
-/
def zbxMemCreate (mem : Words) (base size descrLength paramLength : Nat) : Option Heap :=
  if memMinSize ≤ size ∧ size ≤ memMaxSize then
    let info := align8 base
    let size := size - (info + sizeofMemInfo - base)
    let base := info + sizeofMemInfo
    let buckets := align8 base
    let size := size - (buckets + memBucketCount * zbxPtrSize - base)
    let base := buckets + memBucketCount * zbxPtrSize
    let size := size - (descrLength + 1) - (paramLength + 1)
    let base := base + (descrLength + 1) + (paramLength + 1)
    let loBound := align8 base
    let hiBound := align8 (base + size - 8)
    let totalSize := hiBound - loBound - 2 * memSizeField
    let heap : Heap :=
      { mem, loBound, hiBound
        buckets := Function.update (fun _ => 0) (memBucketBySize totalSize) loBound
        freeSize := totalSize
        usedSize := 0
        totalSize := totalSize }
    some
      (memSetNextChunk
        (memSetPrevChunk (memSetChunkSize heap loBound totalSize) loBound 0) loBound 0)
  else
    none

/-! ## Public interface -/

/-- The address that a caller gets for a chunk. -/
def userPtr (chunk : Nat) : Nat :=
  if chunk = 0 then 0 else chunk + memSizeField

/--
`__zbx_mem_malloc` for a heap that allows out of memory; the result is `none`
where the code exits.
-/
def zbxMemMalloc (heap : Heap) (size : Nat) : Option (Heap × Nat) :=
  if size = 0 ∨ memMaxSize < size then none
  else
    let (heap, chunk) := memMalloc heap size
    some (heap, userPtr chunk)

/-- `__zbx_mem_realloc`, for a `NULL` or a live `old`. -/
def zbxMemRealloc (heap : Heap) (old size : Nat) : Option (Heap × Nat) :=
  if size = 0 ∨ memMaxSize < size then none
  else
    let result := if old = 0 then some (memMalloc heap size) else memRealloc heap old size
    result.map fun (heap, chunk) => (heap, userPtr chunk)

def zbxMemFree (heap : Heap) (ptr : Nat) : Option Heap :=
  if ptr = 0 then none else some (memFree heap ptr)

end Zabbix.Memory.Alloc
