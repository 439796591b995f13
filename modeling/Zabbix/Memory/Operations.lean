import Zabbix.Memory.Placement
import Zabbix.Memory.Search

/-!
# Allocation, release and reallocation

One specification for each operation of the allocator: the representation is
restored for a new layout, the used chunks change by exactly the block that the
operation returns or releases, and the words of all other used chunks are as
before, as are the words that a resized block keeps.
-/

namespace Zabbix.Memory.Operations

open Alloc Layout Buckets Memory.Representation Frames Placement Search List

variable {heap other : Heap} {lists : Nat → List Nat}
variable {before after mid layout layout' others : List Chunk}
variable {chunk block prev next kept owner : Chunk}
variable {start stop : Nat}

/-! ## Reading size fields -/

theorem chunkSize_first (rep : Rep heap layout lists) (member : chunk ∈ layout) :
    chunkSize (heap.mem chunk.addr) = chunk.size := by
  rw [(rep.tagged chunk member).1, chunkSize_tag (rep.fits chunk member).most]

theorem chunkSize_last (rep : Rep heap layout lists) (member : chunk ∈ layout) :
    chunkSize (heap.mem (chunk.stop - 8)) = chunk.size := by
  have last : chunk.stop - 8 = chunk.addr + memSizeField + chunk.size := by
    simp only [Chunk.stop, overhead, memSizeField]
    omega
  rw [last, (rep.tagged chunk member).2, chunkSize_tag (rep.fits chunk member).most]

theorem addr_ne_zero (rep : Rep heap layout lists) (member : chunk ∈ layout) :
    chunk.addr ≠ 0 := by
  have bounds := rep.tiles.bounds member
  have positive := rep.positive
  omega

theorem stop_eq_addr (rep : Rep heap (before ++ block :: next :: after) lists) :
    next.addr = block.stop := by
  obtain ⟨_, _, _, later⟩ := tiles_append.mp rep.tiles
  exact later.1

theorem addr_eq_stop (rep : Rep heap ((before ++ [prev]) ++ block :: after) lists) :
    block.addr = prev.stop := by
  have tiles := rep.tiles
  rw [append_assoc, singleton_append] at tiles
  obtain ⟨_, _, _, later⟩ := tiles_append.mp tiles
  exact later.1

theorem nextFree_iff (rep : Rep heap (before ++ block :: after) lists) :
    nextFree heap block.stop = true ↔
      ∃ next rest, after = next :: rest ∧ next.used = false := by
  cases after with
  | nil =>
    obtain ⟨_, _, _, last⟩ := tiles_append.mp rep.tiles
    rw [tiles_nil] at last
    simp [nextFree, last]
  | cons next rest =>
    have place := stop_eq_addr rep
    have member : next ∈ before ++ block :: next :: rest := by simp
    have bounds := rep.tiles.bounds member
    have inside : next.addr < heap.hiBound := by
      have to_stop := bounds.2
      simp only [Chunk.stop, overhead] at to_stop
      omega
    have tagged := (rep.tagged next member).1
    rw [← place]
    simp [nextFree, inside, tagged, freeChunk_tag (rep.fits next member).most]

theorem prevFree_iff (rep : Rep heap (before ++ block :: after) lists) :
    prevFree heap block.addr = true ↔
      ∃ rest prev, before = rest ++ [prev] ∧ prev.used = false := by
  rcases eq_nil_or_concat before with rfl | ⟨rest, prev, rfl⟩
  · have first : block.addr = heap.loBound := rep.tiles.1
    simp [prevFree, first]
  · rw [concat_eq_append] at rep ⊢
    have place := addr_eq_stop rep
    have member : prev ∈ (rest ++ [prev]) ++ block :: after := by simp
    have bounds := rep.tiles.bounds member
    have inside : heap.loBound < block.addr := by
      rw [place]
      simp only [Chunk.stop, overhead]
      omega
    have last : block.addr - memSizeField = prev.addr + memSizeField + prev.size := by
      rw [place]
      simp only [Chunk.stop, overhead, memSizeField]
      omega
    have tagged := (rep.tagged prev member).2
    simp [prevFree, inside, last, tagged, freeChunk_tag (rep.fits prev member).most]

/-! ## Allocation -/

theorem memMalloc_spec (rep : Rep heap layout lists) (size : Nat) :
    (memMalloc heap size = (heap, 0) ∧
        ∀ chunk ∈ layout, chunk.used = false → chunk.size < memProperAllocSize size) ∨
      ∃ block layout' lists', (memMalloc heap size).2 = block.addr ∧ block.addr ≠ 0 ∧
        block.used = true ∧ memProperAllocSize size ≤ block.size ∧
        (usedOnly layout').Perm (block :: usedOnly layout) ∧
        Rep (memMalloc heap size).1 layout' lists' ∧
        Keeps heap (memMalloc heap size).1 (UserWord layout) := by
  obtain ⟨aligned, least, -⟩ := memProperAllocSize_spec size
  unfold memMalloc
  dsimp only
  rcases selectChunk_spec rep aligned least with ⟨missing, allSmall⟩ |
    ⟨chunk, member, free, place, enough⟩
  · exact Or.inl ⟨if_pos missing, allSmall⟩
  · right
    have notNull := addr_ne_zero rep member
    rw [← place, if_neg notNull]
    dsimp only
    rw [chunkSize_first rep member]
    have fits := rep.fits chunk member
    obtain ⟨before, after, rfl⟩ := append_of_mem member
    obtain ⟨separatedBefore, separatedAfter⟩ := separated_split rep.separated
    have headUsed := headUsed_of_separated rep.separated free
    have opened : Rep heap (before ++ ([chunk] ++ after)) lists := by simpa using rep
    obtain ⟨start, stop, lists', ⟨rfl, last⟩, window, info, unlinkKeeps⟩ :=
      vacate opened (Recounted.refl heap)
    rw [show freeOnly [chunk] = [chunk] by simp [freeOnly, free]] at window info unlinkKeeps
    obtain ⟨block, tail, lists'', blockPlace, used, large, noUsed, carved, keeps⟩ :=
      carve_spec window last ⟨fits.aligned, fits.least, fits.most⟩ aligned least enough
        separatedBefore separatedAfter headUsed
        (by rw [info.usedSize, rep.usedSum]; simp [free])
        (by rw [info.freeSize, rep.freeSum]; simp [free]; ring)
    refine ⟨block, _, lists'', blockPlace.symm, by rwa [blockPlace], used, large, ?_, carved, ?_⟩
    · refine usedOnly_middle.trans ?_
      rw [usedOnly_cons_used used, noUsed, usedOnly_append, usedOnly_append,
        usedOnly_cons_free free]
      exact List.Perm.refl _
    · intro address isUser
      have isOuter := @UserWord.outer before after [chunk] _ isUser (by simp [free])
      exact (keeps address (Or.inl isOuter)).trans (unlinkKeeps address isUser)

/-! ## Release -/

/-- The usable bytes that a chunk has once it is free. -/
def releasedSize (heap : Heap) (chunk size : Nat) : Nat :=
  let nextChunk := chunk + memSizeField + size + memSizeField
  let nextSize := chunkSize (heap.mem nextChunk)
  let prevSize := chunkSize (heap.mem (chunk - memSizeField))
  size + (if nextFree heap nextChunk then nextSize + 2 * memSizeField else 0) +
    (if prevFree heap chunk then prevSize + 2 * memSizeField else 0)

theorem next_cases (rep : Rep heap (before ++ block :: after) lists) :
    nextFree heap block.stop = false ∧ HeadUsed after ∨
      ∃ next rest, after = next :: rest ∧ next.used = false ∧
        nextFree heap block.stop = true ∧ next.addr = block.stop ∧
        chunkSize (heap.mem block.stop) = next.size ∧ HeadUsed rest := by
  cases follows : nextFree heap block.stop with
  | false =>
    refine Or.inl ⟨rfl, fun first isFirst => ?_⟩
    obtain ⟨rest, rfl⟩ := head?_eq_some_iff.mp isFirst
    by_contra free
    have isFree := (nextFree_iff rep).mpr ⟨first, rest, rfl, by simpa using free⟩
    simp [follows] at isFree
  | true =>
    obtain ⟨next, rest, rfl, free⟩ := (nextFree_iff rep).mp follows
    have place := stop_eq_addr rep
    refine Or.inr ⟨next, rest, rfl, free, rfl, place, ?_,
      headUsed_of_cons (separated_split rep.separated).2 free⟩
    rw [← place]
    exact chunkSize_first rep (by simp)

theorem prev_cases (rep : Rep heap (before ++ block :: after) lists) :
    prevFree heap block.addr = false ∧ LastUsed before ∨
      ∃ rest prev, before = rest ++ [prev] ∧ prev.used = false ∧
        prevFree heap block.addr = true ∧ block.addr = prev.stop ∧
        chunkSize (heap.mem (block.addr - memSizeField)) = prev.size ∧
        block.addr - memSizeField - prev.size - memSizeField = prev.addr ∧
        chunkSize (heap.mem prev.addr) = prev.size ∧ LastUsed rest := by
  cases precedes : prevFree heap block.addr with
  | false =>
    refine Or.inl ⟨rfl, fun last isLast => ?_⟩
    obtain ⟨rest, rfl⟩ := getLast?_eq_some_iff.mp isLast
    by_contra free
    have isFree := (prevFree_iff rep).mpr ⟨rest, last, rfl, by simpa using free⟩
    simp [precedes] at isFree
  | true =>
    obtain ⟨rest, prev, rfl, free⟩ := (prevFree_iff rep).mp precedes
    have member : prev ∈ (rest ++ [prev]) ++ block :: after := by simp
    have place := addr_eq_stop rep
    refine Or.inr ⟨rest, prev, rfl, free, rfl, place, ?_, ?_, chunkSize_first rep member,
      lastUsed_of_separated (separated_append.mp rep.separated).1 free⟩
    · rw [place]
      exact chunkSize_last rep member
    · rw [place]
      simp only [Chunk.stop, overhead, memSizeField]
      omega

@[simp]
theorem prevFree_recount (heap : Heap) (usedSize freeSize : Int) (chunk : Nat) :
    prevFree { heap with usedSize := usedSize, freeSize := freeSize } chunk =
      prevFree heap chunk :=
  rfl

@[simp]
theorem nextFree_recount (heap : Heap) (usedSize freeSize : Int) (chunk : Nat) :
    nextFree { heap with usedSize := usedSize, freeSize := freeSize } chunk =
      nextFree heap chunk :=
  rfl

theorem release_spec (rep : Rep heap layout lists) (block : Chunk) (mid free : List Chunk)
    (start size : Nat) (isLayout : layout = before ++ (mid ++ after)) {vacated : Heap} (recounted : Recounted heap other)
    (alone : usedOnly mid = [block]) (isFree : freeOnly mid = free)
    (tiles : Tiles start mid (start + size + overhead))
    (lastUsed : LastUsed before) (headUsed : HeadUsed after)
    (usedSum : other.usedSize = heap.usedSize - sizeSum true mid)
    (freeSum : other.freeSize = heap.freeSize - sizeSum false mid + size)
    (isVacated : unlinkAll other free = vacated) :
    ∃ merged layout' lists', merged ∈ layout' ∧ merged.used = false ∧ merged.size = size ∧
      (usedOnly layout).Perm (block :: usedOnly layout') ∧
      Rep (memLinkChunk (memSetChunkSize vacated start size) start) layout' lists' ∧
      Keeps heap (memLinkChunk (memSetChunkSize vacated start size) start)
        (OtherWord layout block) := by
  subst isLayout isFree isVacated
  obtain ⟨first, stop, lists', tilesFirst, window, info, unlinkKeeps⟩ := vacate rep recounted
  have isIn : block ∈ usedOnly mid := by rw [alone]; exact mem_cons_self
  have member := (mem_usedOnly.mp isIn).1
  obtain ⟨rfl, rfl⟩ := tilesFirst.unique tiles (ne_nil_of_mem member)
  have fits := rep.fits block (by simp [member])
  have aligned := tiles.aligned_length (forall_mem_append.mp
    (forall_mem_append.mp fun chunk isIn => (rep.fits chunk isIn).aligned).2).1
  have bounds := tiles.bounds member
  have least := fits.least
  simp only [Chunk.stop, overhead] at aligned bounds
  obtain ⟨separatedBefore, separatedRest, -⟩ := separated_append.mp rep.separated
  obtain ⟨-, separatedAfter, -⟩ := separated_append.mp separatedRest
  obtain ⟨lists'', merged, keeps⟩ := merge_spec window rfl (by omega) (by omega)
    separatedBefore separatedAfter lastUsed headUsed
    (by rw [info.usedSize, usedSum, rep.usedSum]; simp; ring)
    (by rw [info.freeSize, freeSum, rep.freeSum]; simp; ring)
  refine ⟨_, _, lists'', mem_append_right _ mem_cons_self, rfl, rfl, ?_, merged,
    fun address isOther => ?_⟩
  · refine usedOnly_middle.trans ?_
    rw [alone]
    simp [usedOnly]
  · refine (keeps address (users_around isOther fun chunk isIn used => ?_)).trans
      (unlinkKeeps address isOther.1)
    exact mem_singleton.mp (alone ▸ mem_usedOnly.mpr ⟨isIn, used⟩)

theorem memFree_spec (rep : Rep heap layout lists) (member : block ∈ layout)
    (used : block.used = true) :
    ∃ merged layout' lists', merged ∈ layout' ∧ merged.used = false ∧
      merged.size = releasedSize heap block.addr block.size ∧
      (usedOnly layout).Perm (block :: usedOnly layout') ∧
      Rep (memFree heap (block.addr + memSizeField)) layout' lists' ∧
      Keeps heap (memFree heap (block.addr + memSizeField)) (OtherWord layout block) := by
  have readSize := chunkSize_first rep member
  have stops : block.addr + memSizeField + block.size + memSizeField = block.stop := by
    simp only [Chunk.stop, overhead, memSizeField]
    omega
  have recounted (freeSize : Int) : Recounted heap
      { heap with usedSize := heap.usedSize - block.size, freeSize } :=
    ⟨rfl, rfl, rfl, rfl, rfl⟩
  obtain ⟨before, after, rfl⟩ := append_of_mem member
  unfold memFree releasedSize
  dsimp only
  rw [Nat.add_sub_cancel, readSize, stops]
  rcases prev_cases rep with ⟨precedes, lastUsed⟩ |
    ⟨before, prev, rfl, freePrev, precedes, place, readPrev, prevPlace, readFirst, lastUsed⟩
  · rcases next_cases rep with ⟨follows, headUsed⟩ |
      ⟨next, after, rfl, freeNext, follows, meet, readNext, headUsed⟩
    · simp only [prevFree_recount, nextFree_recount, precedes, follows, Bool.false_eq_true,
        and_self, if_false, Nat.add_zero]
      exact release_spec rep block [block] [] block.addr block.size rfl
        (recounted (heap.freeSize + block.size)) (by simp [usedOnly, used])
        (by simp [freeOnly, used]) ⟨rfl, rfl⟩ lastUsed headUsed
        (by simp [used]) (by simp [used]) rfl
    · simp only [prevFree_recount, nextFree_recount, precedes, follows, Bool.false_eq_true,
        false_and, if_true, if_false, readNext, Nat.add_zero]
      obtain ⟨merged, layout', lists', isIn, free, isSize, released⟩ := release_spec rep
        block [block, next] [next] block.addr (block.size + 2 * memSizeField + next.size) (by simp)
        (recounted (heap.freeSize + block.size + 2 * memSizeField))
        (by simp [usedOnly, used, freeNext]) (by simp [freeOnly, used, freeNext])
        ⟨rfl, meet, by simp only [tiles_nil, meet, Chunk.stop, overhead, memSizeField]; omega⟩
        lastUsed headUsed (by simp [used, freeNext]) (by simp [used, freeNext]; ring) rfl
      simp only [unlinkAll, foldl, meet] at released
      refine ⟨merged, layout', lists', isIn, free, isSize.trans ?_, released⟩
      ring
  · rcases next_cases rep with ⟨follows, headUsed⟩ |
      ⟨next, after, rfl, freeNext, follows, meet, readNext, headUsed⟩
    · simp only [prevFree_recount, nextFree_recount, precedes, follows, Bool.false_eq_true,
        and_false, if_true, if_false, readPrev, prevPlace, readFirst, Nat.add_zero]
      obtain ⟨merged, layout', lists', isIn, free, isSize, released⟩ := release_spec rep
        block [prev, block] [prev] prev.addr (block.size + 2 * memSizeField + prev.size) (by simp)
        (recounted (heap.freeSize + block.size + 2 * memSizeField))
        (by simp [usedOnly, used, freePrev]) (by simp [freeOnly, used, freePrev])
        ⟨rfl, place, by simp only [tiles_nil, place, Chunk.stop, overhead, memSizeField]; omega⟩
        lastUsed headUsed (by simp [used, freePrev]) (by simp [used, freePrev]; ring) rfl
      refine ⟨merged, layout', lists', isIn, free, isSize.trans ?_, released⟩
      ring
    · simp only [prevFree_recount, nextFree_recount, precedes, follows, and_self, if_true,
        readNext, readPrev, prevPlace, readFirst]
      obtain ⟨merged, layout', lists', isIn, free, isSize, released⟩ := release_spec rep
        block [prev, block, next] [prev, next] prev.addr
        (block.size + 4 * memSizeField + prev.size + next.size) (by simp)
        (recounted (heap.freeSize + block.size + 4 * memSizeField))
        (by simp [usedOnly, used, freePrev, freeNext])
        (by simp [freeOnly, used, freePrev, freeNext])
        ⟨rfl, place, meet, by
          simp only [tiles_nil, meet, place, Chunk.stop, overhead, memSizeField]
          omega⟩
        lastUsed headUsed (by simp [used, freePrev, freeNext])
        (by simp [used, freePrev, freeNext]; ring) rfl
      simp only [unlinkAll, foldl, meet] at released
      refine ⟨merged, layout', lists', isIn, free, isSize.trans ?_, released⟩
      ring

/-! ## Reallocation -/

/-- One used block of a layout takes the place of another. -/
structure Replaced (layout layout' : List Chunk) (block kept : Chunk) : Prop where
  used : kept.used = true
  others : ∃ others, (usedOnly layout).Perm (block :: others) ∧
    (usedOnly layout').Perm (kept :: others)

/-- The words that a block has, at least, after it has been resized. -/
def SameData (heap other : Heap) (block : Chunk) (newChunk size : Nat) : Prop :=
  ∀ offset < min block.size size,
    other.mem (newChunk + memSizeField + offset) = heap.mem (block.addr + memSizeField + offset)

theorem shrink_spec (rep : Rep heap layout lists) (block : Chunk) (free : List Chunk)
    (size restSize : Nat) (isLayout : layout = before ++ ((block :: free) ++ after))
    {vacated : Heap} (recounted : Recounted heap other) (used : block.used = true)
    (areFree : ∀ chunk ∈ free, chunk.used = false) (smaller : size ≤ block.size)
    (tiles : Tiles block.addr (block :: free)
      (block.addr + size + overhead + restSize + overhead))
    (aligned : 8 ∣ size) (least : 24 ≤ size) (restAligned : 8 ∣ restSize)
    (restLeast : 24 ≤ restSize) (headUsed : HeadUsed after)
    (usedSum : other.usedSize = heap.usedSize - block.size + size)
    (freeSum : other.freeSize = heap.freeSize - sizeSum false free + restSize)
    (isVacated : unlinkAll other free = vacated) :
    ∃ layout' lists' shrunk,
      memSetUsedChunkSize (memLinkChunk (memSetChunkSize vacated
        (block.addr + memSizeField + size + memSizeField) restSize)
        (block.addr + memSizeField + size + memSizeField)) block.addr size = shrunk ∧
      Replaced layout layout' block ⟨block.addr, size, true⟩ ∧ Rep shrunk layout' lists' ∧
      SameData heap shrunk block block.addr size ∧ Keeps heap shrunk (OtherWord layout block) := by
  subst isLayout isVacated
  have isFree : freeOnly (block :: free) = free := by
    simpa [freeOnly, used] using areFree
  have noneUsed : sizeSum true free = 0 := sum_eq_zero fun part member => by
    obtain ⟨chunk, isIn, rfl⟩ := List.mem_map.mp member
    simp [areFree chunk isIn]
  obtain ⟨start, stop, lists', tilesFirst, window, info, unlinkKeeps⟩ := vacate rep recounted
  obtain ⟨rfl, rfl⟩ := tilesFirst.unique tiles (cons_ne_nil _ _)
  rw [isFree] at window info unlinkKeeps
  obtain ⟨separatedBefore, separatedRest, -⟩ := separated_append.mp rep.separated
  obtain ⟨-, separatedAfter, -⟩ := separated_append.mp separatedRest
  obtain ⟨rest, lists'', shrunk, restFree, isShrunk, placed, keeps⟩ := split_spec window size
    restSize rfl aligned least restAligned restLeast separatedBefore separatedAfter headUsed
    (by rw [info.usedSize, usedSum, rep.usedSum]; simp [used, noneUsed]; ring)
    (by rw [info.freeSize, freeSum, rep.freeSum]; simp [used]; ring)
  refine ⟨_, lists'', shrunk, isShrunk, ⟨rfl, usedOnly (before ++ after),
    usedOnly_middle.trans ?_, usedOnly_middle.trans ?_⟩, placed, fun offset within => ?_,
    fun address isOther => ?_⟩
  · rw [usedOnly_cons_used used, show usedOnly free = [] by simpa [usedOnly] using areFree]
    exact List.Perm.refl _
  · simp [usedOnly, restFree]
  · simp only [memSizeField]
    refine (keeps _ (Or.inr (by omega))).trans (unlinkKeeps _ ?_)
    exact ⟨block, by simp, used, by omega, by omega⟩
  · refine (keeps address (Or.inl (users_around isOther ?_))).trans (unlinkKeeps _ isOther.1)
    rintro chunk (_ | ⟨_, isIn⟩) chunkUsed
    · rfl
    · simp [areFree chunk isIn] at chunkUsed

theorem shrinkChunk_spec (rep : Rep heap (before ++ block :: after) lists)
    (used : block.used = true) {size : Nat} (aligned : 8 ∣ size) (least : 24 ≤ size)
    (much : size ≤ block.size / 4) :
    ∃ layout' lists' shrunk, shrinkChunk heap block.addr block.size size = shrunk ∧
      Replaced (before ++ block :: after) layout' block ⟨block.addr, size, true⟩ ∧
      Rep shrunk layout' lists' ∧ SameData heap shrunk block block.addr size ∧
      Keeps heap shrunk (OtherWord (before ++ block :: after) block) := by
  have blockAligned := (rep.fits block (by simp)).aligned
  have stops : block.addr + memSizeField + block.size + memSizeField = block.stop := by
    simp only [Chunk.stop, overhead, memSizeField]
    omega
  have recounted (usedSize freeSize : Int) : Recounted heap { heap with usedSize, freeSize } :=
    ⟨rfl, rfl, rfl, rfl, rfl⟩
  unfold shrinkChunk
  dsimp only
  rw [stops]
  rcases next_cases rep with ⟨follows, headUsed⟩ |
    ⟨next, after, rfl, free, follows, meet, readNext, headUsed⟩
  · rw [if_neg (by simp [follows])]
    exact shrink_spec rep block [] size (block.size - size - 2 * memSizeField) rfl
      (recounted (heap.usedSize - (block.size - size : Nat))
        (heap.freeSize + (block.size - size - 2 * memSizeField : Nat))) used (by simp) (by omega)
      ⟨rfl, by simp only [tiles_nil, Chunk.stop, overhead, memSizeField]; omega⟩ aligned least
      (by simp only [memSizeField]; omega) (by simp only [memSizeField]; omega) headUsed
      (by push_cast; omega) (by simp) rfl
  · have nextAligned := (rep.fits next (by simp)).aligned
    rw [if_pos follows, readNext, ← meet]
    exact shrink_spec rep block [next] size (next.size + (block.size - size)) rfl
      (recounted (heap.usedSize - (block.size - size : Nat))
        (heap.freeSize + (block.size - size : Nat))) used (by simp [free]) (by omega)
      ⟨rfl, meet, by simp only [tiles_nil, meet, Chunk.stop, overhead]; omega⟩ aligned least
      (by omega) (by omega) headUsed (by push_cast; omega) (by simp [free]; omega) rfl

theorem growChunk_spec (rep : Rep heap (before ++ block :: next :: after) lists)
    (used : block.used = true) (free : next.used = false) {size : Nat}
    (aligned : 8 ∣ size) (least : 24 ≤ size) (larger : block.size < size)
    (enough : size ≤ block.size + 2 * memSizeField + next.size) :
    ∃ kept layout' lists' grown,
      carveChunk
        (memUnlinkChunk
          { heap with
            usedSize := heap.usedSize - block.size
            freeSize := heap.freeSize + (block.size + 2 * memSizeField : Nat) }
          next.addr)
        block.addr (block.size + (2 * memSizeField + next.size)) size = grown ∧
      kept.addr = block.addr ∧ size ≤ kept.size ∧
      Replaced (before ++ block :: next :: after) layout' block kept ∧ Rep grown layout' lists' ∧
      SameData heap grown block block.addr size ∧
      Keeps heap grown (OtherWord (before ++ block :: next :: after) block) := by
  have fits := rep.fits block (by simp)
  have blockAligned := fits.aligned
  have blockLeast := fits.least
  have nextAligned := (rep.fits next (by simp)).aligned
  obtain ⟨separatedBefore, separatedAfter⟩ := separated_split rep.separated
  have opened : Rep heap (before ++ ([block, next] ++ after)) lists := by simpa using rep
  have counted : Recounted heap
      { heap with
        usedSize := heap.usedSize - block.size
        freeSize := heap.freeSize + (block.size + 2 * memSizeField : Nat) } :=
    ⟨rfl, rfl, rfl, rfl, rfl⟩
  obtain ⟨start, stop, lists', ⟨rfl, meet, last⟩, window, info, unlinkKeeps⟩ :=
    vacate opened counted
  rw [show freeOnly [block, next] = [next] by simp [freeOnly, used, free]] at window info unlinkKeeps
  have low := window.tilesBefore.le
  have high := window.tilesAfter.le
  have bounded := window.bounded
  simp only [tiles_nil, Chunk.stop, overhead, memMaxSize] at meet last bounded
  simp only [memSizeField] at enough ⊢
  obtain ⟨kept, tail, lists'', place, keptUsed, large, noUsed, carved, keeps⟩ :=
    @carve_spec _ _ _ _ _ _ (block.size + (2 * 8 + next.size)) size window
      (by simp only [overhead]; omega) ⟨by simp only; omega, by simp only; omega,
        by simp only; omega⟩ aligned least (by omega) separatedBefore
      (separated_tail separatedAfter) (headUsed_of_cons separatedAfter free)
      (by rw [info.usedSize, rep.usedSum]; simp [used, free]; ring)
      (by rw [info.freeSize, rep.freeSum]; simp [used, free, memSizeField]; ring)
  refine ⟨kept, _, lists'', _, rfl, place, large, ⟨keptUsed, usedOnly (before ++ after), ?_,
    usedOnly_middle.trans ?_⟩, carved, fun offset within => ?_, fun address isOther => ?_⟩
  · refine (@usedOnly_middle before after [block, next]).trans ?_
    simp [usedOnly, used, free]
  · rw [usedOnly_cons_used keptUsed, noUsed]
    exact List.Perm.refl _
  · simp only [memSizeField]
    refine (keeps _ (Or.inr (by omega))).trans (unlinkKeeps _ ?_)
    exact ⟨block, by simp, used, by omega, by omega⟩
  · have isOpened : OtherWord (before ++ ([block, next] ++ after)) block address := isOther
    refine (keeps address (Or.inl (users_around isOpened ?_))).trans (unlinkKeeps _ isOther.1)
    simp [free]

/-- The contents of a used chunk belong to its user. -/
theorem store_spec (rep : Rep heap layout lists) (member : block ∈ layout)
    (used : block.used = true) (image : Words) (source count : Nat)
    (within : count ≤ block.size) :
    Rep (heap.copyFrom image (block.addr + memSizeField) source count) layout lists := by
  obtain ⟨before, after, rfl⟩ := append_of_mem member
  exact rep_store rep used image source count within

theorem apart_of_perm (rep : Rep heap layout lists)
    (permuted : (usedOnly layout).Perm (kept :: others)) (member : owner ∈ others) :
    Apart kept owner := by
  have apart : (usedOnly layout).Pairwise Apart :=
    rep.tiles.pairwise_apart.sublist filter_sublist
  have listed := (permuted.pairwise_iff fun apart => Apart.symm apart).mp apart
  exact (pairwise_cons.mp listed).1 owner member

theorem copyFrom_mem_of_apart {image : Words} {source count address : Nat}
    (within : count ≤ kept.size) (apart : Apart kept owner) (low : owner.addr + 8 ≤ address)
    (high : address < owner.addr + 8 + owner.size) :
    (heap.copyFrom image (kept.addr + memSizeField) source count).mem address =
      heap.mem address := by
  simp only [Apart, Chunk.stop, overhead] at apart
  refine if_neg ?_
  simp only [memSizeField]
  omega

theorem copyFrom_mem_self {image : Words} {target source count offset : Nat}
    (within : offset < count) :
    (heap.copyFrom image target source count).mem (target + offset) = image (source + offset) := by
  refine (if_pos (by omega)).trans ?_
  rw [Nat.add_sub_cancel_left]

theorem moveThenFree_spec (member : block ∈ layout) (used : block.used = true) {grown : Heap}
    (repGrown : Rep grown layout' lists) (keptUsed : kept.used = true)
    (permuted : (usedOnly layout').Perm (kept :: usedOnly layout))
    (keeps : Keeps heap grown (UserWord layout)) (larger : block.size ≤ kept.size) :
    ∃ freed lists' released,
      memFree (grown.copyFrom grown.mem (kept.addr + memSizeField) (block.addr + memSizeField)
        block.size) (block.addr + memSizeField) = released ∧
      Replaced layout freed block kept ∧ Rep released freed lists' ∧
      SameData heap released block kept.addr kept.size ∧
      Keeps heap released (OtherWord layout block) := by
  have isUsed : block ∈ usedOnly layout := mem_usedOnly.mpr ⟨member, used⟩
  have isIn {chunk : Chunk} (listed : chunk ∈ kept :: usedOnly layout) : chunk ∈ layout' :=
    (mem_usedOnly.mp (permuted.mem_iff.mpr listed)).1
  have keptMember := isIn mem_cons_self
  have blockMember := isIn (mem_cons_of_mem kept isUsed)
  obtain ⟨-, freed, lists', -, -, -, removed, repFreed, released⟩ := memFree_spec
    (store_spec repGrown keptMember keptUsed grown.mem (block.addr + memSizeField) block.size
      larger) blockMember used
  have blockApart := apart_of_perm repGrown permuted isUsed
  have erased := perm_cons_erase isUsed
  refine ⟨freed, lists', _, rfl, ⟨keptUsed, _, erased, ?_⟩, repFreed, fun offset within => ?_, ?_⟩
  · have both := removed.symm.trans (permuted.trans (erased.cons kept))
    exact (both.trans (List.Perm.swap block kept _)).cons_inv
  · have inBlock : offset < block.size := (Nat.lt_min.mp within).1
    have inKept : UserWord layout' (kept.addr + memSizeField + offset) :=
      ⟨kept, keptMember, keptUsed, by simp only [memSizeField]; omega,
        by simp only [memSizeField]; omega⟩
    simp only [Apart, Chunk.stop, overhead] at blockApart
    rw [released _ ⟨inKept, by simp only [memSizeField]; omega⟩, copyFrom_mem_self inBlock]
    exact keeps _ ⟨block, member, used, by simp only [memSizeField]; omega,
      by simp only [memSizeField]; omega⟩
  · rintro address ⟨⟨owner, isOwner, ownerUsed, low, high⟩, elsewhere⟩
    have ownerListed : owner ∈ usedOnly layout := mem_usedOnly.mpr ⟨isOwner, ownerUsed⟩
    have ownerMember := isIn (mem_cons_of_mem kept ownerListed)
    rw [released _ ⟨⟨owner, ownerMember, ownerUsed, low, high⟩, elsewhere⟩,
      copyFrom_mem_of_apart larger (apart_of_perm repGrown permuted ownerListed) low high]
    exact keeps _ ⟨owner, isOwner, ownerUsed, low, high⟩

theorem freeThenMove_spec {freed : Heap} {freedLayout : List Chunk}
    (released : (usedOnly layout).Perm (block :: usedOnly freedLayout))
    (freedKeeps : Keeps heap freed (OtherWord layout block)) {moved : Heap}
    (repMoved : Rep moved layout' lists) (keptUsed : kept.used = true)
    (permuted : (usedOnly layout').Perm (kept :: usedOnly freedLayout))
    (movedKeeps : Keeps freed moved (UserWord freedLayout)) (larger : block.size ≤ kept.size) :
    ∃ copied, moved.copyFrom heap.mem (kept.addr + memSizeField) (block.addr + memSizeField)
        block.size = copied ∧
      Replaced layout layout' block kept ∧ Rep copied layout' lists ∧
      SameData heap copied block kept.addr kept.size ∧
      Keeps heap copied (OtherWord layout block) := by
  have keptMember : kept ∈ layout' :=
    (mem_usedOnly.mp (permuted.mem_iff.mpr mem_cons_self)).1
  refine ⟨_, rfl, ⟨keptUsed, _, released, permuted⟩,
    store_spec repMoved keptMember keptUsed _ _ _ larger,
    fun offset within => copyFrom_mem_self (Nat.lt_min.mp within).1, ?_⟩
  rintro address ⟨⟨owner, isOwner, ownerUsed, low, high⟩, elsewhere⟩
  have different : owner ≠ block := by
    rintro rfl
    omega
  have listed := released.mem_iff.mp (mem_usedOnly.mpr ⟨isOwner, ownerUsed⟩)
  have ownerListed := (mem_cons.mp listed).resolve_left different
  rw [copyFrom_mem_of_apart larger (apart_of_perm repMoved permuted ownerListed) low high,
    movedKeeps _ ⟨owner, (mem_usedOnly.mp ownerListed).1, ownerUsed, low, high⟩]
  exact freedKeeps _ ⟨⟨owner, isOwner, ownerUsed, low, high⟩, elsewhere⟩

/-- `__mem_realloc` moves or resizes one block and keeps its data and all other blocks; or it
leaves the heap as it is, because nothing could hold the size. -/
theorem memRealloc_spec (rep : Rep heap layout lists) (member : block ∈ layout)
    (used : block.used = true) (size : Nat) :
    memRealloc heap (block.addr + memSizeField) size = some (heap, 0) ∧
        (∀ chunk ∈ layout, chunk.used = false → chunk.size < memProperAllocSize size) ∧
        releasedSize heap block.addr block.size < memProperAllocSize size ∨
      ∃ heap' kept layout' lists',
        memRealloc heap (block.addr + memSizeField) size = some (heap', kept.addr) ∧
        memProperAllocSize size ≤ kept.size ∧ kept.addr ≠ 0 ∧
        Replaced layout layout' block kept ∧ Rep heap' layout' lists' ∧
        SameData heap heap' block kept.addr (memProperAllocSize size) ∧
        Keeps heap heap' (OtherWord layout block) := by
  obtain ⟨aligned, least, -⟩ := memProperAllocSize_spec size
  have idem := memProperAllocSize_idem size
  unfold memRealloc
  dsimp only
  generalize memProperAllocSize size = proper at aligned least idem ⊢
  have readSize := chunkSize_first rep member
  have notNull := addr_ne_zero rep member
  have stops : block.addr + memSizeField + block.size + memSizeField = block.stop := by
    simp only [Chunk.stop, overhead, memSizeField]
    omega
  have weaker {other : Heap} {newChunk size : Nat} (enough : proper ≤ size)
      (same : SameData heap other block newChunk size) :
      SameData heap other block newChunk proper := fun offset within =>
    same offset (Nat.lt_of_lt_of_le within (by omega))
  rw [Nat.add_sub_cancel, readSize, stops]
  by_cases smaller : proper ≤ block.size
  · right
    rw [if_pos smaller]
    by_cases keeps : block.size / 4 < proper
    · rw [if_pos keeps]
      have erased := perm_cons_erase (mem_usedOnly.mpr ⟨member, used⟩)
      exact ⟨heap, block, layout, lists, rfl, smaller, notNull, ⟨used, _, erased, erased⟩, rep,
        fun _ _ => rfl, fun _ _ => rfl⟩
    · rw [if_neg keeps]
      obtain ⟨before, after, rfl⟩ := append_of_mem member
      obtain ⟨layout', lists', shrunk, rfl, shrinks⟩ :=
        shrinkChunk_spec rep used aligned least (Nat.le_of_not_lt keeps)
      exact ⟨_, ⟨block.addr, proper, true⟩, layout', lists', rfl, Nat.le_refl _, notNull, shrinks⟩
  · rw [if_neg smaller]
    by_cases grows : nextFree heap block.stop = true ∧
        proper ≤ block.size + 2 * memSizeField + chunkSize (heap.mem block.stop)
    · right
      rw [if_pos grows]
      obtain ⟨before, after, rfl⟩ := append_of_mem member
      rcases next_cases rep with ⟨follows, -⟩ | ⟨next, after, rfl, free, -, place, readNext, -⟩
      · simp [follows] at grows
      · rw [readNext] at grows ⊢
        rw [← place]
        obtain ⟨kept, layout', lists', grown, rfl, keptPlace, large, replaced, repGrown, same,
          others⟩ := growChunk_spec rep used free aligned least (Nat.lt_of_not_le smaller) grows.2
        exact ⟨_, kept, layout', lists', by rw [keptPlace], large, keptPlace ▸ notNull, replaced,
          repGrown, keptPlace ▸ same, others⟩
    · rw [if_neg grows]
      rcases memMalloc_spec rep proper with ⟨missing, allSmall⟩ |
        ⟨kept, layout', lists', keptPlace, keptNotNull, keptUsed, enough, permuted, grown,
          mallocKeeps⟩
      · rw [missing]
        dsimp only
        rw [if_neg (by simp)]
        rw [idem] at allSmall
        by_cases hopeless : releasedSize heap block.addr block.size < proper
        · left
          refine ⟨?_, allSmall, hopeless⟩
          unfold releasedSize at hopeless
          dsimp only at hopeless
          rw [stops] at hopeless
          rw [if_pos hopeless]
        · right
          have reachable := hopeless
          unfold releasedSize at reachable
          dsimp only at reachable
          rw [stops] at reachable
          rw [if_neg reachable]
          obtain ⟨merged, freed, lists', memberMerged, mergedFree, mergedSize, released,
            repFreed, freedKeeps⟩ := memFree_spec rep member used
          rcases memMalloc_spec repFreed proper with ⟨-, tooSmall⟩ |
            ⟨kept, layout', lists'', keptPlace, keptNotNull, keptUsed, enough, permuted, moved,
              movedKeeps⟩
          · have small := tooSmall merged memberMerged mergedFree
            omega
          · rw [idem] at enough
            rw [keptPlace, if_neg keptNotNull]
            obtain ⟨copied, rfl, replaced, repCopied, same, others⟩ := freeThenMove_spec released
              freedKeeps moved keptUsed permuted movedKeeps (by omega)
            exact ⟨_, kept, layout', lists'', rfl, enough, keptNotNull, replaced, repCopied,
              weaker enough same, others⟩
      · right
        rw [idem] at enough
        rw [keptPlace, if_pos keptNotNull]
        obtain ⟨freed, lists'', released, rfl, replaced, repFreed, same, others⟩ :=
          moveThenFree_spec member used grown keptUsed permuted mallocKeeps (by omega)
        exact ⟨_, kept, freed, lists'', rfl, enough, keptNotNull, replaced, repFreed,
          weaker enough same, others⟩

end Zabbix.Memory.Operations
