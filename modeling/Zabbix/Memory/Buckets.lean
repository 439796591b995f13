import Zabbix.Memory.Alloc
import Zabbix.Memory.Layout
import Zabbix.Library.LinkedList

/-!
# The buckets of free chunks

The size fields of a chunk, and the doubly linked lists that thread the free
chunks of one bucket.  `Bucketed` says that the buckets thread exactly the given
free chunks; `Bucketed.unlink` and `Bucketed.link` are the two operations on
them, with what they leave alone.
-/

namespace Zabbix.Memory.Buckets

open Alloc Layout Library.LinkedList List

/-! ## Size fields -/

/-- The size fields of a chunk. -/
def tag (chunk : Chunk) : Nat :=
  if chunk.used then memFlgUsed ||| chunk.size else chunk.size

/-- The sizes a chunk may have. -/
structure Fits (chunk : Chunk) : Prop where
  aligned : 8 ∣ chunk.size
  least : 24 ≤ chunk.size
  most : chunk.size < 2 ^ 63

/-- Both size fields of a chunk are set. -/
def Tagged (words : Words) (chunk : Chunk) : Prop :=
  words chunk.addr = tag chunk ∧
    words (chunk.addr + memSizeField + chunk.size) = tag chunk

theorem usedTag_eq {size : Nat} (most : size < 2 ^ 63) :
    memFlgUsed ||| size = 2 ^ 63 + size := by
  have joined := Nat.two_pow_add_eq_or_of_lt most 1
  rw [Nat.mul_one] at joined
  exact joined.symm

theorem chunkSize_tag {chunk : Chunk} (most : chunk.size < 2 ^ 63) :
    chunkSize (tag chunk) = chunk.size := by
  have mask (word : Nat) : chunkSize word = word % 2 ^ 63 :=
    Nat.and_two_pow_sub_one_eq_mod word 63
  rw [mask, tag]
  split_ifs
  · rw [usedTag_eq most, Nat.add_mod_left, Nat.mod_eq_of_lt most]
  · exact Nat.mod_eq_of_lt most

theorem freeChunk_tag {chunk : Chunk} (most : chunk.size < 2 ^ 63) :
    freeChunk (tag chunk) = !chunk.used := by
  have bit (word : Nat) : freeChunk word = !word.testBit 63 := by
    have masked := Nat.and_two_pow word 63
    unfold freeChunk memFlgUsed
    rw [masked]
    cases word.testBit 63 <;> simp
  rw [bit, tag]
  cases chunk.used with
  | false =>
    rw [if_neg Bool.false_ne_true, Nat.testBit_lt_two_pow most]
  | true =>
    rw [if_pos rfl, Nat.testBit_or, memFlgUsed, Nat.testBit_two_pow_self, Bool.true_or]

/-! ## Links -/

/-- The chunk after a given one in a bucket; the bucket itself stands at 0. -/
def nextOf (heap : Heap) (index node : Nat) : Nat :=
  if node = 0 then heap.buckets index else memGetNextChunk heap node

def LinkWord (chunks : List Chunk) (address : Nat) : Prop :=
  ∃ chunk ∈ chunks, chunk.used = false ∧
    (address = chunk.addr + 8 ∨ address = chunk.addr + 16)

def freeAddrs (index : Nat) (chunks : List Chunk) : List Nat :=
  (chunks.filter fun chunk =>
    !chunk.used && memBucketBySize chunk.size == index).map Chunk.addr

theorem freeAddrs_append (index : Nat) (before after : List Chunk) :
    freeAddrs index (before ++ after) = freeAddrs index before ++ freeAddrs index after := by
  simp [freeAddrs]

theorem mem_freeAddrs {index address : Nat} {chunks : List Chunk} :
    address ∈ freeAddrs index chunks ↔
      ∃ chunk ∈ chunks, chunk.used = false ∧ memBucketBySize chunk.size = index ∧
        chunk.addr = address := by
  simp [freeAddrs, and_assoc]

/-- The buckets thread exactly the given free chunks. -/
structure Bucketed (heap : Heap) (chunks : List Chunk) (lists : Nat → List Nat) : Prop where
  listed : ∀ index, (lists index).Perm (freeAddrs index chunks)
  threaded : ∀ index,
    Threaded (nextOf heap index) (memGetPrevChunk heap) 0 (lists index)

variable {heap other : Heap} {chunks : List Chunk} {lists : Nat → List Nat}

theorem Bucketed.congr (bucketed : Bucketed heap chunks lists)
    (sameBuckets : ∀ index, other.buckets index = heap.buckets index)
    (sameWords : ∀ address, LinkWord chunks address → other.mem address = heap.mem address) :
    Bucketed other chunks lists where
  listed := bucketed.listed
  threaded index := by
    have linkWord (node : Nat) (member : node ∈ lists index) :
        LinkWord chunks (node + 8) ∧ LinkWord chunks (node + 16) := by
      obtain ⟨chunk, isIn, free, -, rfl⟩ :=
        mem_freeAddrs.mp ((bucketed.listed index).mem_iff.mp member)
      exact ⟨⟨chunk, isIn, free, Or.inl rfl⟩, ⟨chunk, isIn, free, Or.inr rfl⟩⟩
    refine (bucketed.threaded index).congr ?_ ?_ ?_
    · simp [nextOf, sameBuckets]
    · intro node member
      simp only [nextOf, (bucketed.threaded index).ne_null member, if_false]
      exact sameWords _ (linkWord node member).2
    · intro node member
      exact sameWords _ (linkWord node member).1

theorem freeAddrs_perm {index : Nat} {first second : List Chunk}
    (permuted : first.Perm second) :
    (freeAddrs index first).Perm (freeAddrs index second) :=
  (permuted.filter _).map _

/-- Chunks that do not overlap, with room for their links. -/
structure Spaced (chunks : List Chunk) : Prop where
  apart : chunks.Pairwise Apart
  fits : ∀ chunk ∈ chunks, Fits chunk
  positive : ∀ chunk ∈ chunks, chunk.addr ≠ 0

theorem Spaced.perm {chunks' : List Chunk} (spaced : Spaced chunks)
    (permuted : chunks.Perm chunks') :
    Spaced chunks' where
  apart := permuted.pairwise spaced.apart Apart.symm
  fits chunk member := spaced.fits chunk (permuted.mem_iff.mpr member)
  positive chunk member := spaced.positive chunk (permuted.mem_iff.mpr member)

theorem Spaced.sublist {chunks' : List Chunk} (spaced : Spaced chunks)
    (part : chunks'.Sublist chunks) :
    Spaced chunks' where
  apart := spaced.apart.sublist part
  fits chunk member := spaced.fits chunk (part.subset member)
  positive chunk member := spaced.positive chunk (part.subset member)

theorem Bucketed.far (bucketed : Bucketed heap chunks lists) (spaced : Spaced chunks)
    {index index' node node' : Nat}
    (member : node ∈ lists index) (member' : node' ∈ lists index')
    (different : node ≠ node') :
    node + 40 ≤ node' ∨ node' + 40 ≤ node := by
  obtain ⟨chunk, isIn, -, -, rfl⟩ :=
    mem_freeAddrs.mp ((bucketed.listed index).mem_iff.mp member)
  obtain ⟨chunk', isIn', -, -, rfl⟩ :=
    mem_freeAddrs.mp ((bucketed.listed index').mem_iff.mp member')
  have apart := spaced.apart.forall isIn isIn' (fun same => different (by rw [same]))
  have fits := spaced.fits chunk isIn
  have fits' := spaced.fits chunk' isIn'
  have least := fits.least
  have least' := fits'.least
  simp only [Apart, Chunk.stop, overhead] at apart
  omega

theorem Bucketed.index_unique (bucketed : Bucketed heap chunks lists)
    (spaced : Spaced chunks) {index index' node : Nat}
    (member : node ∈ lists index) (member' : node ∈ lists index') :
    index = index' := by
  obtain ⟨chunk, isIn, -, rfl, rfl⟩ :=
    mem_freeAddrs.mp ((bucketed.listed index).mem_iff.mp member)
  obtain ⟨chunk', isIn', -, rfl, same⟩ :=
    mem_freeAddrs.mp ((bucketed.listed index').mem_iff.mp member')
  rw [eq_of_addr_eq spaced.apart isIn' isIn same]

/-! ## Unlinking -/

theorem memUnlinkChunk_mem (heap : Heap) (chunk address : Nat) :
    (memUnlinkChunk heap chunk).mem address =
      if memGetNextChunk heap chunk ≠ 0 ∧ address = memGetNextChunk heap chunk + 8 then
        memGetPrevChunk heap chunk
      else if memGetPrevChunk heap chunk ≠ 0 ∧
          address = memGetPrevChunk heap chunk + 16 then
        memGetNextChunk heap chunk
      else
        heap.mem address := by
  unfold memUnlinkChunk
  by_cases hasNext : memGetNextChunk heap chunk = 0
  · by_cases hasPrev : memGetPrevChunk heap chunk = 0
    · simp [hasNext, hasPrev, Heap.setBucket]
    · simp [hasNext, hasPrev, memSetNextChunk, Heap.write, memSizeField, zbxPtrSize,
        Function.update_apply]
  · by_cases hasPrev : memGetPrevChunk heap chunk = 0
    · simp [hasNext, hasPrev, Heap.setBucket, memSetPrevChunk, Heap.write, memSizeField,
        Function.update_apply]
    · simp [hasNext, hasPrev, memSetNextChunk, memSetPrevChunk, Heap.write, memSizeField,
        zbxPtrSize, Function.update_apply]

theorem memUnlinkChunk_buckets (heap : Heap) (chunk index : Nat) :
    (memUnlinkChunk heap chunk).buckets index =
      if memGetPrevChunk heap chunk = 0 ∧
          index = memBucketBySize (chunkSize (heap.mem chunk)) then
        memGetNextChunk heap chunk
      else
        heap.buckets index := by
  unfold memUnlinkChunk
  by_cases hasPrev : memGetPrevChunk heap chunk = 0
  · by_cases hasNext : memGetNextChunk heap chunk = 0
    · simp [hasNext, hasPrev, Heap.setBucket, Function.update_apply]
    · simp [hasNext, hasPrev, Heap.setBucket, memSetPrevChunk, Heap.write,
        Function.update_apply]
  · by_cases hasNext : memGetNextChunk heap chunk = 0
    · simp [hasNext, hasPrev, memSetNextChunk, Heap.write]
    · simp [hasNext, hasPrev, memSetNextChunk, memSetPrevChunk, Heap.write]

theorem freeAddrs_cons_free {index : Nat} {chunk : Chunk} {rest : List Chunk}
    (free : chunk.used = false) :
    freeAddrs index (chunk :: rest) =
      if memBucketBySize chunk.size = index then chunk.addr :: freeAddrs index rest
      else freeAddrs index rest := by
  simp only [freeAddrs, filter_cons, free, Bool.not_false, Bool.true_and, beq_iff_eq]
  split_ifs
  · rfl
  · rfl

theorem Bucketed.unlink {chunk : Chunk} {rest : List Chunk}
    (bucketed : Bucketed heap (chunk :: rest) lists) (spaced : Spaced (chunk :: rest))
    (free : chunk.used = false) (tagged : heap.mem chunk.addr = tag chunk) :
    (∃ lists', Bucketed (memUnlinkChunk heap chunk.addr) rest lists') ∧
      ∀ address, ¬LinkWord rest address →
        (memUnlinkChunk heap chunk.addr).mem address = heap.mem address := by
  have fits := spaced.fits chunk mem_cons_self
  have bucket : memBucketBySize (chunkSize (heap.mem chunk.addr)) =
      memBucketBySize chunk.size := by
    rw [tagged, chunkSize_tag fits.most]
  obtain ⟨index, sameIndex⟩ : ∃ index, memBucketBySize chunk.size = index := ⟨_, rfl⟩
  rw [sameIndex] at bucket
  have member : chunk.addr ∈ lists index :=
    (bucketed.listed index).mem_iff.mpr
      (mem_freeAddrs.mpr ⟨chunk, mem_cons_self, free, sameIndex, rfl⟩)
  have threaded := bucketed.threaded index
  obtain ⟨before, after, split⟩ := append_of_mem member
  have nodup : (lists index).Nodup := (nodup_cons.mp threaded.1).2
  have erased : (lists index).erase chunk.addr = before ++ after := by
    rw [split] at nodup ⊢
    have fresh : chunk.addr ∉ before := fun earlier =>
      (nodup_append.mp nodup).2.2 _ earlier _ mem_cons_self rfl
    rw [erase_append_right _ fresh, erase_cons_head]
  rw [split] at threaded
  obtain ⟨prevIn, nextIn⟩ := threaded.neighbours
  have nextValue : nextOf heap index chunk.addr = memGetNextChunk heap chunk.addr := by
    rw [nextOf, if_neg (spaced.positive chunk mem_cons_self)]
  rw [nextValue] at nextIn
  have mem := memUnlinkChunk_mem heap chunk.addr
  have buckets := memUnlinkChunk_buckets heap chunk.addr
  rw [bucket] at buckets
  generalize prevValue : memGetPrevChunk heap chunk.addr = prev at prevIn mem buckets
  generalize nextValue' : memGetNextChunk heap chunk.addr = next at nextIn mem buckets
  rw [nextValue'] at nextValue
  -- the neighbours are other nodes of the same bucket
  have prevNode : prev ≠ 0 → prev ∈ lists index ∧ prev ≠ chunk.addr := by
    intro notNull
    have inside := (mem_cons.mp prevIn).resolve_left notNull
    rw [split] at nodup ⊢
    refine ⟨mem_append_left _ inside, ?_⟩
    exact (nodup_append.mp nodup).2.2 prev inside chunk.addr mem_cons_self
  have nextNode : next ≠ 0 → next ∈ lists index ∧ next ≠ chunk.addr := by
    intro notNull
    have inside : next ∈ after := by simpa [notNull] using nextIn
    rw [split] at nodup ⊢
    refine ⟨mem_append_right _ (mem_cons_of_mem _ inside), ?_⟩
    rintro rfl
    exact (nodup_cons.mp (nodup_append.mp nodup).2.1).1 inside
  have neighboursFar : prev ≠ 0 → next ≠ 0 → prev + 40 ≤ next ∨ next + 40 ≤ prev := by
    intro prevNotNull nextNotNull
    refine bucketed.far spaced (prevNode prevNotNull).1 (nextNode nextNotNull).1 ?_
    have inBefore := (mem_cons.mp prevIn).resolve_left prevNotNull
    have inAfter : next ∈ after := by simpa [nextNotNull] using nextIn
    rw [split] at nodup
    exact (nodup_append.mp nodup).2.2 prev inBefore next
      (mem_cons_of_mem _ inAfter)
  have linkOf (node : Nat) (isNode : node ∈ lists index) (notChunk : node ≠ chunk.addr) :
      LinkWord rest (node + 8) ∧ LinkWord rest (node + 16) := by
    obtain ⟨other, isIn, isFree, -, rfl⟩ :=
      mem_freeAddrs.mp ((bucketed.listed index).mem_iff.mp isNode)
    have inRest : other ∈ rest :=
      (mem_cons.mp isIn).resolve_left fun same => notChunk (by rw [same])
    exact ⟨⟨other, inRest, isFree, Or.inl rfl⟩, ⟨other, inRest, isFree, Or.inr rfl⟩⟩
  refine ⟨⟨Function.update lists index (before ++ after), ?_, ?_⟩, ?_⟩
  · intro other
    have listed := bucketed.listed other
    rw [freeAddrs_cons_free free, sameIndex] at listed
    by_cases same : index = other
    · subst same
      rw [if_pos rfl] at listed
      rw [Function.update_self, ← erased]
      exact (listed.erase chunk.addr).trans (by rw [erase_cons_head])
    · rw [if_neg same] at listed
      rwa [Function.update_of_ne (Ne.symm same)]
  · intro other
    by_cases same : other = index
    · subst same
      rw [Function.update_self]
      have isNode (node : Nat) (inside : node ∈ before ++ after) : node ∈ lists other := by
        rw [split]
        rcases mem_append.mp inside with inside | inside
        · exact mem_append_left _ inside
        · exact mem_append_right _ (mem_cons_of_mem _ inside)
      have farFrom (node : Nat) (inside : node ∈ before ++ after) :
          (prev ≠ 0 → node ≠ prev → node + 40 ≤ prev ∨ prev + 40 ≤ node) ∧
            (next ≠ 0 → node ≠ next → node + 40 ≤ next ∨ next + 40 ≤ node) :=
        ⟨fun notNull => bucketed.far spaced (isNode node inside) (prevNode notNull).1,
          fun notNull => bucketed.far spaced (isNode node inside) (nextNode notNull).1⟩
      refine threaded.unlink ?_ ?_ ?_ ?_
      · rw [prevValue, nextValue, nextOf, memGetNextChunk, buckets, mem]
        by_cases notNull : prev = 0
        · simp [notNull]
        · have far := neighboursFar notNull
          rw [if_neg notNull, if_neg, if_pos ⟨notNull, rfl⟩]
          rintro ⟨nextNotNull, sameWord⟩
          have far := far nextNotNull
          simp only [memSizeField, zbxPtrSize] at sameWord
          omega
      · intro notNull
        rw [nextValue] at notNull ⊢
        rw [prevValue, memGetPrevChunk, mem]
        exact if_pos ⟨notNull, rfl⟩
      · intro node inside notPrev
        rw [prevValue] at notPrev
        rcases mem_cons.mp inside with rfl | inside
        · have prevNotNull : prev ≠ 0 := Ne.symm notPrev
          simp [nextOf, buckets, prevNotNull]
        · have notNull : node ≠ 0 := (bucketed.threaded other).ne_null (isNode node inside)
          have far := farFrom node inside
          simp only [nextOf, notNull, if_false, memGetNextChunk, mem, memSizeField, zbxPtrSize]
          rw [if_neg, if_neg]
          · rintro ⟨prevNotNull, sameWord⟩
            exact notPrev (by omega)
          · rintro ⟨nextNotNull, sameWord⟩
            have farNext := far.2 nextNotNull
            omega
      · intro node inside notNext
        rw [nextValue] at notNext
        have far := farFrom node inside
        simp only [memGetPrevChunk, mem, memSizeField]
        rw [if_neg, if_neg]
        · rintro ⟨prevNotNull, sameWord⟩
          have farPrev := far.1 prevNotNull
          omega
        · rintro ⟨nextNotNull, sameWord⟩
          exact notNext (by omega)
    · rw [Function.update_of_ne same]
      have farFrom (node : Nat) (inside : node ∈ lists other) :
          (prev ≠ 0 → node + 40 ≤ prev ∨ prev + 40 ≤ node) ∧
            (next ≠ 0 → node + 40 ≤ next ∨ next + 40 ≤ node) := by
        constructor
        · intro notNull
          refine bucketed.far spaced inside (prevNode notNull).1 ?_
          rintro rfl
          exact same (bucketed.index_unique spaced inside (prevNode notNull).1)
        · intro notNull
          refine bucketed.far spaced inside (nextNode notNull).1 ?_
          rintro rfl
          exact same (bucketed.index_unique spaced inside (nextNode notNull).1)
      refine (bucketed.threaded other).congr ?_ ?_ ?_
      · simp [nextOf, buckets, same]
      · intro node inside
        have far := farFrom node inside
        simp only [nextOf, (bucketed.threaded other).ne_null inside, if_false,
          memGetNextChunk, mem, memSizeField, zbxPtrSize]
        rw [if_neg, if_neg]
        · rintro ⟨notNull, sameWord⟩
          have farPrev := far.1 notNull
          omega
        · rintro ⟨notNull, sameWord⟩
          have farNext := far.2 notNull
          omega
      · intro node inside
        have far := farFrom node inside
        simp only [memGetPrevChunk, mem, memSizeField]
        rw [if_neg, if_neg]
        · rintro ⟨notNull, sameWord⟩
          have farPrev := far.1 notNull
          omega
        · rintro ⟨notNull, sameWord⟩
          have farNext := far.2 notNull
          omega
  · intro address notLink
    rw [mem, if_neg, if_neg]
    · rintro ⟨notNull, rfl⟩
      exact notLink (linkOf prev (prevNode notNull).1 (prevNode notNull).2).2
    · rintro ⟨notNull, rfl⟩
      exact notLink (linkOf next (nextNode notNull).1 (nextNode notNull).2).1

/-! ## Linking -/

theorem memLinkChunk_mem (heap : Heap) (chunk address : Nat) :
    (memLinkChunk heap chunk).mem address =
      if address = chunk + 16 then
        heap.buckets (memBucketBySize (chunkSize (heap.mem chunk)))
      else if address = chunk + 8 then 0
      else if heap.buckets (memBucketBySize (chunkSize (heap.mem chunk))) ≠ 0 ∧
          address = heap.buckets (memBucketBySize (chunkSize (heap.mem chunk))) + 8 then
        chunk
      else
        heap.mem address := by
  unfold memLinkChunk
  by_cases empty : heap.buckets (memBucketBySize (chunkSize (heap.mem chunk))) = 0
  · simp [empty, memSetNextChunk, memSetPrevChunk, Heap.setBucket, Heap.write,
      memSizeField, zbxPtrSize, Function.update_apply]
  · simp [empty, memSetNextChunk, memSetPrevChunk, Heap.setBucket, Heap.write,
      memSizeField, zbxPtrSize, Function.update_apply]

theorem memLinkChunk_buckets (heap : Heap) (chunk index : Nat) :
    (memLinkChunk heap chunk).buckets index =
      if index = memBucketBySize (chunkSize (heap.mem chunk)) then chunk
      else heap.buckets index := by
  unfold memLinkChunk
  by_cases empty : heap.buckets (memBucketBySize (chunkSize (heap.mem chunk))) = 0
  · simp [empty, memSetNextChunk, memSetPrevChunk, Heap.setBucket, Heap.write,
      Function.update_apply]
  · simp [empty, memSetNextChunk, memSetPrevChunk, Heap.setBucket, Heap.write,
      Function.update_apply]

theorem Bucketed.link {chunk : Chunk} {rest : List Chunk}
    (bucketed : Bucketed heap rest lists) (spaced : Spaced (chunk :: rest))
    (free : chunk.used = false) (tagged : heap.mem chunk.addr = tag chunk) :
    (∃ lists', Bucketed (memLinkChunk heap chunk.addr) (chunk :: rest) lists') ∧
      ∀ address, ¬LinkWord (chunk :: rest) address →
        (memLinkChunk heap chunk.addr).mem address = heap.mem address := by
  have fits := spaced.fits chunk mem_cons_self
  have spacedRest := spaced.sublist (sublist_cons_self chunk rest)
  have positive := spaced.positive chunk mem_cons_self
  have bucket : memBucketBySize (chunkSize (heap.mem chunk.addr)) =
      memBucketBySize chunk.size := by
    rw [tagged, chunkSize_tag fits.most]
  obtain ⟨index, sameIndex⟩ : ∃ index, memBucketBySize chunk.size = index := ⟨_, rfl⟩
  rw [sameIndex] at bucket
  have mem := memLinkChunk_mem heap chunk.addr
  have buckets := memLinkChunk_buckets heap chunk.addr
  rw [bucket] at mem buckets
  have first := (bucketed.threaded index).first_eq
  rw [nextOf, if_pos rfl] at first
  have firstNode : heap.buckets index ≠ 0 → heap.buckets index ∈ lists index := by
    intro notNull
    rw [first] at notNull ⊢
    cases shape : lists index with
    | nil => simp [shape] at notNull
    | cons node others => simp
  -- the new chunk is far from every node
  have farNew (other node : Nat) (inside : node ∈ lists other) :
      node + 40 ≤ chunk.addr ∨ chunk.addr + 40 ≤ node := by
    obtain ⟨known, isIn, -, -, rfl⟩ :=
      mem_freeAddrs.mp ((bucketed.listed other).mem_iff.mp inside)
    have apart := rel_of_pairwise_cons spaced.apart isIn
    have least := fits.least
    have knownLeast := (spacedRest.fits known isIn).least
    simp only [Apart, Chunk.stop, overhead] at apart
    omega
  have farFirst (other node : Nat) (inside : node ∈ lists other)
      (notNull : heap.buckets index ≠ 0) (different : node ≠ heap.buckets index) :
      node + 40 ≤ heap.buckets index ∨ heap.buckets index + 40 ≤ node :=
    bucketed.far spacedRest inside (firstNode notNull) different
  refine ⟨⟨Function.update lists index (chunk.addr :: lists index), ?_, ?_⟩, ?_⟩
  · intro other
    have listed := bucketed.listed other
    rw [freeAddrs_cons_free free, sameIndex]
    by_cases same : index = other
    · subst same
      rw [if_pos rfl, Function.update_self]
      exact listed.cons chunk.addr
    · rwa [if_neg same, Function.update_of_ne (Ne.symm same)]
  · intro other
    by_cases same : other = index
    · subst same
      rw [Function.update_self]
      refine (bucketed.threaded other).push positive ?_ ?_ ?_ ?_ ?_ ?_ ?_
      · intro inside
        have far := farNew other chunk.addr inside
        omega
      · simp [nextOf, buckets]
      · simp [nextOf, positive, memGetNextChunk, mem, memSizeField, zbxPtrSize]
      · simp [memGetPrevChunk, mem, memSizeField]
      · intro notNull
        simp only [nextOf, if_true] at notNull ⊢
        have far := farNew other _ (firstNode notNull)
        simp only [memGetPrevChunk, mem, memSizeField]
        rw [if_neg (by omega), if_neg (by omega), if_pos ⟨notNull, trivial⟩]
      · intro node inside
        have far := farNew other node inside
        simp only [nextOf, (bucketed.threaded other).ne_null inside, if_false,
          memGetNextChunk, mem, memSizeField, zbxPtrSize]
        rw [if_neg (by omega), if_neg (by omega), if_neg]
        rintro ⟨notNull, sameWord⟩
        have farther := farFirst other node inside notNull (by omega)
        omega
      · intro node inside notFirst
        simp only [nextOf, if_true] at notFirst
        have far := farNew other node inside
        simp only [memGetPrevChunk, mem, memSizeField]
        rw [if_neg (by omega), if_neg (by omega), if_neg]
        rintro ⟨notNull, sameWord⟩
        omega
    · rw [Function.update_of_ne same]
      have notFirst (node : Nat) (inside : node ∈ lists other)
          (notNull : heap.buckets index ≠ 0) : node ≠ heap.buckets index := by
        rintro rfl
        exact same (bucketed.index_unique spacedRest inside (firstNode notNull))
      refine (bucketed.threaded other).congr ?_ ?_ ?_
      · simp [nextOf, buckets, same]
      · intro node inside
        have far := farNew other node inside
        simp only [nextOf, (bucketed.threaded other).ne_null inside, if_false,
          memGetNextChunk, mem, memSizeField, zbxPtrSize]
        rw [if_neg (by omega), if_neg (by omega), if_neg]
        rintro ⟨notNull, sameWord⟩
        have farther := farFirst other node inside notNull (notFirst node inside notNull)
        omega
      · intro node inside
        have far := farNew other node inside
        simp only [memGetPrevChunk, mem, memSizeField]
        rw [if_neg (by omega), if_neg (by omega), if_neg]
        rintro ⟨notNull, sameWord⟩
        have farther := farFirst other node inside notNull (notFirst node inside notNull)
        omega
  · intro address notLink
    rw [mem, if_neg, if_neg, if_neg]
    · rintro ⟨notNull, rfl⟩
      obtain ⟨known, isIn, isFree, -, same⟩ :=
        mem_freeAddrs.mp ((bucketed.listed index).mem_iff.mp (firstNode notNull))
      exact notLink ⟨known, mem_cons_of_mem _ isIn, isFree, Or.inl (by rw [same])⟩
    · rintro rfl
      exact notLink ⟨chunk, mem_cons_self, free, Or.inl rfl⟩
    · rintro rfl
      exact notLink ⟨chunk, mem_cons_self, free, Or.inr rfl⟩

end Zabbix.Memory.Buckets
