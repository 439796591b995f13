import Zabbix.Memory.Buckets

/-!
# The heap representation, seen through a window

`Rep` says that a layout of chunks is what the memory holds: every chunk has its
size on both ends, no two neighbours are free, the buckets thread exactly the
free chunks, and the counters are the sums of the sizes.

An operation rewrites a few neighbouring chunks.  While it works, the heap is
described by `Window`: the chunks before and after the rewritten area are as
they should be, and of the area itself only the free chunks that are linked
into a bucket are known.
-/

namespace Zabbix.Memory.Representation

open Alloc Layout Buckets Library.LinkedList List

/-- Of two neighbouring chunks one is used. -/
def Separated (layout : List Chunk) : Prop :=
  layout.IsChain fun first second => first.used ∨ second.used

/-- The memory, the buckets and the counters hold the given layout. -/
structure Rep (heap : Heap) (layout : List Chunk) (lists : Nat → List Nat) : Prop where
  aligned : 8 ∣ heap.loBound
  positive : 0 < heap.loBound
  bounded : heap.hiBound ≤ heap.loBound + memMaxSize
  tiles : Tiles heap.loBound layout heap.hiBound
  fits : ∀ chunk ∈ layout, Fits chunk
  tagged : ∀ chunk ∈ layout, Tagged heap.mem chunk
  separated : Separated layout
  bucketed : Bucketed heap layout lists
  usedSum : heap.usedSize = sizeSum true layout
  freeSum : heap.freeSize = sizeSum false layout
  totalSum : heap.totalSize = heap.hiBound - heap.loBound - overhead

/--
The heap outside the addresses from `start` to `stop`, and the free chunks inside
that are linked.
-/
structure Window (heap : Heap) (before after : List Chunk) (start stop : Nat)
    (inner : List Chunk) (lists : Nat → List Nat) : Prop where
  aligned : 8 ∣ heap.loBound
  positive : 0 < heap.loBound
  bounded : heap.hiBound ≤ heap.loBound + memMaxSize
  tilesBefore : Tiles heap.loBound before start
  tilesAfter : Tiles stop after heap.hiBound
  tagged : ∀ chunk ∈ before ++ after, Tagged heap.mem chunk
  inside : ∀ chunk ∈ inner, start ≤ chunk.addr ∧ chunk.stop ≤ stop
  spaced : Spaced (inner ++ (before ++ after))
  bucketed : Bucketed heap (inner ++ (before ++ after)) lists
  totalSum : heap.totalSize = heap.hiBound - heap.loBound - overhead

/-- The bounds and the counters of two heaps agree. -/
structure SameInfo (heap other : Heap) : Prop where
  loBound : other.loBound = heap.loBound
  hiBound : other.hiBound = heap.hiBound
  totalSize : other.totalSize = heap.totalSize
  usedSize : other.usedSize = heap.usedSize
  freeSize : other.freeSize = heap.freeSize

variable {heap other : Heap} {lists : Nat → List Nat}
variable {before after inner mid : List Chunk} {chunk : Chunk} {start stop : Nat}

theorem SameInfo.trans {third : Heap} (first : SameInfo heap other)
    (second : SameInfo other third) :
    SameInfo heap third where
  loBound := second.loBound.trans first.loBound
  hiBound := second.hiBound.trans first.hiBound
  totalSize := second.totalSize.trans first.totalSize
  usedSize := second.usedSize.trans first.usedSize
  freeSize := second.freeSize.trans first.freeSize

theorem sameInfo_unlink (heap : Heap) (address : Nat) :
    SameInfo heap (memUnlinkChunk heap address) := by
  unfold memUnlinkChunk memSetNextChunk memSetPrevChunk Heap.write Heap.setBucket
  constructor <;> dsimp only <;> split_ifs <;> rfl

theorem sameInfo_link (heap : Heap) (address : Nat) :
    SameInfo heap (memLinkChunk heap address) := by
  unfold memLinkChunk memSetNextChunk memSetPrevChunk Heap.write Heap.setBucket
  constructor <;> dsimp only <;> split_ifs <;> rfl

/-! ## Links and size fields -/

theorem not_linkWord_of_mem {chunks : List Chunk} (spaced : Spaced chunks)
    (member : chunk ∈ chunks) :
    ¬LinkWord chunks chunk.addr ∧ ¬LinkWord chunks (chunk.addr + 8 + chunk.size) := by
  have least := (spaced.fits chunk member).least
  constructor <;> rintro ⟨linked, isIn, -, isLink⟩
  all_goals
    have linkedLeast := (spaced.fits linked isIn).least
    by_cases same : chunk = linked
    · subst same
      omega
    · have apart := spaced.apart.forall member isIn same
      simp only [Apart, Chunk.stop, overhead] at apart
      omega

variable (window : Window heap before after start stop inner lists)

include window

theorem Window.outside (member : chunk ∈ before ++ after) :
    chunk.stop ≤ start ∨ stop ≤ chunk.addr := by
  rcases mem_append.mp member with member | member
  · exact Or.inl (window.tilesBefore.bounds member).2
  · exact Or.inr (window.tilesAfter.bounds member).1

theorem Window.congr (loBound : other.loBound = heap.loBound)
    (hiBound : other.hiBound = heap.hiBound)
    (totalSize : other.totalSize = heap.totalSize)
    (buckets : other.buckets = heap.buckets)
    (outside : ∀ address, address < start ∨ stop ≤ address →
      other.mem address = heap.mem address)
    (links : ∀ address, LinkWord inner address → other.mem address = heap.mem address) :
    Window other before after start stop inner lists where
  aligned := loBound ▸ window.aligned
  positive := loBound ▸ window.positive
  bounded := by
    rw [hiBound, loBound]
    exact window.bounded
  tilesBefore := loBound ▸ window.tilesBefore
  tilesAfter := hiBound ▸ window.tilesAfter
  tagged chunk member := by
    have place := window.outside member
    have tagged := window.tagged chunk member
    simp only [Chunk.stop, overhead] at place
    refine ⟨(outside _ (by omega)).trans tagged.1, (outside _ ?_).trans tagged.2⟩
    simp only [memSizeField]
    omega
  inside := window.inside
  spaced := window.spaced
  bucketed := by
    refine window.bucketed.congr (fun index => by rw [buckets]) ?_
    rintro address ⟨linked, member, free, isLink⟩
    rcases mem_append.mp member with isInner | isOutside
    · exact links address ⟨linked, isInner, free, isLink⟩
    · have place := window.outside isOutside
      have least := (window.spaced.fits linked member).least
      simp only [Chunk.stop, overhead] at place
      exact outside address (by omega)
  totalSum := by
    rw [totalSize, loBound, hiBound]
    exact window.totalSum

theorem Window.relink {inner' : List Chunk} {lists' : Nat → List Nat} (info : SameInfo heap other)
    (inside : ∀ chunk ∈ inner', start ≤ chunk.addr ∧ chunk.stop ≤ stop)
    (spaced : Spaced (inner' ++ (before ++ after)))
    (bucketed : Bucketed other (inner' ++ (before ++ after)) lists')
    (frame : ∀ address, ¬LinkWord (inner' ++ (before ++ after)) address →
      other.mem address = heap.mem address) :
    Window other before after start stop inner' lists' where
  aligned := info.loBound ▸ window.aligned
  positive := info.loBound ▸ window.positive
  bounded := by
    rw [info.hiBound, info.loBound]
    exact window.bounded
  tilesBefore := info.loBound ▸ window.tilesBefore
  tilesAfter := info.hiBound ▸ window.tilesAfter
  tagged chunk member := by
    have kept := window.tagged chunk member
    have notLink := not_linkWord_of_mem spaced (mem_append_right inner' member)
    exact ⟨(frame _ notLink.1).trans kept.1, (frame _ notLink.2).trans kept.2⟩
  inside := inside
  spaced := spaced
  bucketed := bucketed
  totalSum := by
    rw [info.totalSize, info.loBound, info.hiBound]
    exact window.totalSum

omit window

theorem Window.unlink
    (window : Window heap before after start stop (chunk :: inner) lists)
    (free : chunk.used = false) (tagged : heap.mem chunk.addr = tag chunk) :
    (∃ lists', Window (memUnlinkChunk heap chunk.addr) before after start stop
        inner lists') ∧
      ∀ address, ¬LinkWord (inner ++ (before ++ after)) address →
        (memUnlinkChunk heap chunk.addr).mem address = heap.mem address := by
  obtain ⟨⟨lists', bucketed⟩, frame⟩ := window.bucketed.unlink window.spaced free tagged
  exact ⟨⟨lists', window.relink (sameInfo_unlink heap chunk.addr)
    (fun other member => window.inside other (mem_cons_of_mem _ member))
    (window.spaced.sublist (sublist_cons_self _ _)) bucketed frame⟩, frame⟩

theorem Window.link (window : Window heap before after start stop inner lists)
    (free : chunk.used = false) (tagged : heap.mem chunk.addr = tag chunk)
    (fits : Fits chunk) (from_start : start ≤ chunk.addr) (to_stop : chunk.stop ≤ stop)
    (apart : ∀ other ∈ inner, Apart chunk other) :
    (∃ lists', Window (memLinkChunk heap chunk.addr) before after start stop
        (chunk :: inner) lists') ∧
      ∀ address, ¬LinkWord (chunk :: inner ++ (before ++ after)) address →
        (memLinkChunk heap chunk.addr).mem address = heap.mem address := by
  have low : heap.loBound ≤ start := window.tilesBefore.le
  have spaced : Spaced (chunk :: inner ++ (before ++ after)) := by
    refine ⟨List.Pairwise.cons ?_ window.spaced.apart, ?_, ?_⟩
    · intro other member
      rcases mem_append.mp member with isInner | isOutside
      · exact apart other isInner
      · rcases window.outside isOutside with place | place
        · exact Or.inr (by omega)
        · exact Or.inl (by omega)
    · intro other member
      rcases mem_cons.mp member with rfl | member
      · exact fits
      · exact window.spaced.fits other member
    · intro other member
      rcases mem_cons.mp member with rfl | member
      · have positive := window.positive
        omega
      · exact window.spaced.positive other member
  obtain ⟨⟨lists', bucketed⟩, frame⟩ := window.bucketed.link spaced free tagged
  have inside : ∀ other ∈ chunk :: inner, start ≤ other.addr ∧ other.stop ≤ stop :=
    forall_mem_cons.mpr ⟨⟨from_start, to_stop⟩, window.inside⟩
  exact ⟨⟨lists', window.relink (sameInfo_link heap chunk.addr) inside spaced bucketed frame⟩,
    frame⟩

/-! ## Opening and closing a window -/

def freeOnly (chunks : List Chunk) : List Chunk :=
  chunks.filter fun chunk => !chunk.used

theorem freeAddrs_freeOnly (index : Nat) (chunks : List Chunk) :
    freeAddrs index (freeOnly chunks) = freeAddrs index chunks := by
  simp only [freeAddrs, freeOnly, List.filter_filter]
  congr 2
  funext chunk
  cases chunk.used <;> simp

theorem Rep.spaced {layout : List Chunk} (rep : Rep heap layout lists) : Spaced layout where
  apart := rep.tiles.pairwise_apart
  fits := rep.fits
  positive chunk member := by
    have bounds := rep.tiles.bounds member
    have positive := rep.positive
    omega

/-- Around the chunks in the middle of a layout, only the free ones are linked. -/
theorem Rep.open (rep : Rep heap (before ++ (mid ++ after)) lists) :
    ∃ start stop, Tiles start mid stop ∧
      Window heap before after start stop (freeOnly mid) lists := by
  obtain ⟨start, tilesBefore, tilesRest⟩ := tiles_append.mp rep.tiles
  obtain ⟨stop, tilesMid, tilesAfter⟩ := tiles_append.mp tilesRest
  have outer {chunk : Chunk} (member : chunk ∈ before ++ after) :
      chunk ∈ before ++ (mid ++ after) := by
    rcases mem_append.mp member with member | member
    · exact mem_append_left _ member
    · exact mem_append_right _ (mem_append_right _ member)
  have inMid {chunk : Chunk} (member : chunk ∈ freeOnly mid) : chunk ∈ mid :=
    (mem_filter.mp member).1
  have middle : (mid ++ (before ++ after)).Perm (before ++ (mid ++ after)) := by
    rw [← append_assoc, ← append_assoc]
    exact perm_append_comm.append_right after
  have all : Spaced (mid ++ (before ++ after)) := rep.spaced.perm middle.symm
  refine ⟨start, stop, tilesMid, ?_⟩
  exact
    { aligned := rep.aligned
      positive := rep.positive
      bounded := rep.bounded
      tilesBefore := tilesBefore
      tilesAfter := tilesAfter
      tagged := fun chunk member => rep.tagged chunk (outer member)
      inside := fun chunk member => tilesMid.bounds (inMid member)
      spaced := all.sublist (List.Sublist.append_right filter_sublist _)
      bucketed :=
        { listed := fun index => by
            have same : freeAddrs index (freeOnly mid ++ (before ++ after)) =
                freeAddrs index (mid ++ (before ++ after)) := by
              rw [freeAddrs_append, freeAddrs_freeOnly, ← freeAddrs_append]
            rw [same]
            exact (rep.bucketed.listed index).trans (freeAddrs_perm middle.symm)
          threaded := rep.bucketed.threaded }
      totalSum := rep.totalSum }

theorem Window.close
    (window : Window heap before after start stop inner lists)
    (tiles : Tiles start mid stop)
    (linked : inner.Perm (freeOnly mid))
    (fits : ∀ chunk ∈ mid, Fits chunk)
    (tagged : ∀ chunk ∈ mid, Tagged heap.mem chunk)
    (separated : Separated (before ++ (mid ++ after)))
    (usedSum : heap.usedSize = sizeSum true (before ++ (mid ++ after)))
    (freeSum : heap.freeSize = sizeSum false (before ++ (mid ++ after))) :
    Rep heap (before ++ (mid ++ after)) lists where
  aligned := window.aligned
  positive := window.positive
  bounded := window.bounded
  tiles := tiles_append.mpr ⟨start, window.tilesBefore,
    tiles_append.mpr ⟨stop, tiles, window.tilesAfter⟩⟩
  fits chunk member := by
    have outer (isOuter : chunk ∈ before ++ after) : Fits chunk :=
      window.spaced.fits chunk (mem_append_right _ isOuter)
    rcases mem_append.mp member with member | member
    · exact outer (mem_append_left _ member)
    · rcases mem_append.mp member with member | member
      · exact fits chunk member
      · exact outer (mem_append_right _ member)
  tagged chunk member := by
    rcases mem_append.mp member with member | member
    · exact window.tagged chunk (mem_append_left _ member)
    · rcases mem_append.mp member with member | member
      · exact tagged chunk member
      · exact window.tagged chunk (mem_append_right _ member)
  separated := separated
  bucketed :=
    { listed := fun index => by
        refine (window.bucketed.listed index).trans ?_
        have middle : (freeAddrs index mid ++ freeAddrs index (before ++ after)).Perm
            (freeAddrs index (before ++ (mid ++ after))) := by
          rw [← freeAddrs_append]
          apply freeAddrs_perm
          rw [← append_assoc, ← append_assoc]
          exact perm_append_comm.append_right after
        rw [freeAddrs_append]
        refine List.Perm.trans (List.Perm.append_right _ ?_) middle
        rw [← freeAddrs_freeOnly index mid]
        exact freeAddrs_perm linked
      threaded := window.bucketed.threaded }
  usedSum := usedSum
  freeSum := freeSum
  totalSum := window.totalSum

/-! ## Storing size fields -/

def setTag (heap : Heap) (chunk : Chunk) : Heap :=
  (heap.write chunk.addr (tag chunk)).write
    (chunk.addr + memSizeField + chunk.size) (tag chunk)

theorem memSetChunkSize_eq (heap : Heap) (address size : Nat) :
    memSetChunkSize heap address size = setTag heap ⟨address, size, false⟩ :=
  rfl

theorem memSetUsedChunkSize_eq (heap : Heap) (address size : Nat) :
    memSetUsedChunkSize heap address size = setTag heap ⟨address, size, true⟩ :=
  rfl

theorem setTag_mem (heap : Heap) (chunk : Chunk) (address : Nat) :
    (setTag heap chunk).mem address =
      if address = chunk.addr ∨ address = chunk.addr + 8 + chunk.size then tag chunk
      else heap.mem address := by
  simp only [setTag, Heap.write, memSizeField, Function.update_apply]
  split_ifs <;> simp_all

theorem tagged_setTag (heap : Heap) (chunk : Chunk) : Tagged (setTag heap chunk).mem chunk := by
  simp [Tagged, setTag_mem, memSizeField]

theorem tagged_setTag_of_apart {other : Chunk} (tagged : Tagged heap.mem other)
    (apart : Apart chunk other) :
    Tagged (setTag heap chunk).mem other := by
  simp only [Apart, Chunk.stop, overhead] at apart
  simp only [Tagged, setTag_mem, memSizeField] at tagged ⊢
  rw [if_neg (by omega), if_neg (by omega)]
  exact tagged

theorem Window.setTag (window : Window heap before after start stop inner lists)
    (from_start : start ≤ chunk.addr) (to_stop : chunk.stop ≤ stop)
    (apart : ∀ other ∈ inner, Apart chunk other) :
    Window (setTag heap chunk) before after start stop inner lists := by
  simp only [Chunk.stop, overhead] at to_stop
  refine window.congr rfl rfl rfl rfl ?_ ?_
  · intro address place
    rw [setTag_mem, if_neg (by omega)]
  · rintro address ⟨linked, member, -, isLink⟩
    have far := apart linked member
    have least := (window.spaced.fits linked (mem_append_left _ member)).least
    simp only [Apart, Chunk.stop, overhead] at far
    rw [setTag_mem, if_neg (by omega)]

/-- Set the size fields of a free chunk and put it into its bucket. -/
def insertFree (heap : Heap) (chunk : Chunk) : Heap :=
  memLinkChunk (setTag heap chunk) chunk.addr

theorem sameInfo_setTag (heap : Heap) (chunk : Chunk) : SameInfo heap (setTag heap chunk) :=
  ⟨rfl, rfl, rfl, rfl, rfl⟩

theorem sameInfo_insertFree (heap : Heap) (chunk : Chunk) :
    SameInfo heap (insertFree heap chunk) :=
  (sameInfo_setTag heap chunk).trans (sameInfo_link _ _)

theorem Window.insertFree (window : Window heap before after start stop [] lists)
    (free : chunk.used = false) (fits : Fits chunk)
    (from_start : start ≤ chunk.addr) (to_stop : chunk.stop ≤ stop) :
    ∃ lists', Window (insertFree heap chunk) before after start stop [chunk] lists' ∧
      Tagged (insertFree heap chunk).mem chunk ∧
      ∀ address, ¬LinkWord (chunk :: (before ++ after)) address →
        (insertFree heap chunk).mem address = (Representation.setTag heap chunk).mem address := by
  have tagged := tagged_setTag heap chunk
  obtain ⟨⟨lists', linked⟩, frame⟩ :=
    (window.setTag from_start to_stop (by simp)).link free tagged.1 fits from_start to_stop
      (by simp)
  have notLink := not_linkWord_of_mem linked.spaced mem_cons_self
  exact ⟨lists', linked,
    ⟨(frame _ notLink.1).trans tagged.1, (frame _ notLink.2).trans tagged.2⟩, frame⟩

end Zabbix.Memory.Representation
