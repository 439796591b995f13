import Mathlib.Data.List.Chain
import Mathlib.Tactic.Ring
import Zabbix.Memory.Frames

/-!
# Placing chunks into a window

The operations of the allocator end in one of three ways: the window holds one
used chunk, a used chunk followed by a free one, or one free chunk.  Each way
restores the representation, provided that a free chunk has no free neighbour,
and spares the words of users.  `carve_spec` is the common end of an allocation
and of a growth in place.
-/

namespace Zabbix.Memory.Placement

open Alloc Layout Buckets Memory.Representation Frames List

variable {heap other : Heap} {lists : Nat → List Nat}
variable {before after mid layout : List Chunk} {chunk block rest : Chunk}
variable {start stop : Nat}

/-! ## Neighbours -/

def HeadUsed (chunks : List Chunk) : Prop :=
  ∀ first ∈ chunks.head?, first.used = true

def LastUsed (chunks : List Chunk) : Prop :=
  ∀ last ∈ chunks.getLast?, last.used = true

theorem separated_append :
    Separated (before ++ after) ↔
      Separated before ∧ Separated after ∧
        ∀ last ∈ before.getLast?, ∀ first ∈ after.head?,
          last.used = true ∨ first.used = true :=
  isChain_append

@[simp]
theorem separated_singleton : Separated [chunk] :=
  isChain_singleton chunk

theorem separated_cons :
    Separated (chunk :: after) ↔
      (∀ first ∈ after.head?, chunk.used = true ∨ first.used = true) ∧ Separated after :=
  isChain_cons

/-- A used chunk may stand between any two lists. -/
theorem separated_used (separatedBefore : Separated before) (separatedAfter : Separated after)
    (used : chunk.used = true) :
    Separated (before ++ chunk :: after) := by
  refine separated_append.mpr ⟨separatedBefore, ?_, ?_⟩
  · exact separated_cons.mpr ⟨fun _ _ => Or.inl used, separatedAfter⟩
  · intro last _ first isFirst
    rw [head?_cons, Option.mem_some_iff] at isFirst
    exact Or.inr (isFirst ▸ used)

theorem separated_free (separatedBefore : Separated before) (separatedAfter : Separated after)
    (lastUsed : LastUsed before) (headUsed : HeadUsed after) :
    Separated (before ++ chunk :: after) := by
  refine separated_append.mpr ⟨separatedBefore, ?_, ?_⟩
  · exact separated_cons.mpr ⟨fun first isFirst => Or.inr (headUsed first isFirst),
      separatedAfter⟩
  · intro last isLast _ _
    exact Or.inl (lastUsed last isLast)

theorem separated_tail (separated : Separated (chunk :: after)) : Separated after :=
  (separated_cons.mp separated).2

theorem headUsed_of_cons (separated : Separated (chunk :: after))
    (free : chunk.used = false) :
    HeadUsed after := by
  intro first isFirst
  exact ((separated_cons.mp separated).1 first isFirst).resolve_left (by simp [free])

variable (separated : Separated (before ++ chunk :: after))

include separated

theorem separated_split :
    Separated before ∧ Separated after := by
  obtain ⟨separatedBefore, later, -⟩ := separated_append.mp separated
  exact ⟨separatedBefore, separated_tail later⟩

theorem headUsed_of_separated (free : chunk.used = false) :
    HeadUsed after :=
  headUsed_of_cons (separated_append.mp separated).2.1 free

theorem lastUsed_of_separated (free : chunk.used = false) :
    LastUsed before := by
  obtain ⟨-, -, seam⟩ := separated_append.mp separated
  intro last isLast
  exact (seam last isLast chunk (by simp)).resolve_right (by simp [free])

omit separated

/-! ## Used chunks -/

def usedOnly (chunks : List Chunk) : List Chunk :=
  chunks.filter fun chunk => chunk.used

theorem usedOnly_append : usedOnly (before ++ after) = usedOnly before ++ usedOnly after :=
  filter_append _ _

@[simp]
theorem usedOnly_nil : usedOnly [] = [] :=
  rfl

theorem usedOnly_cons_used (used : chunk.used = true) :
    usedOnly (chunk :: after) = chunk :: usedOnly after :=
  filter_cons_of_pos used

theorem usedOnly_cons_free (free : chunk.used = false) :
    usedOnly (chunk :: after) = usedOnly after :=
  filter_cons_of_neg (by simp [free])

theorem mem_usedOnly : chunk ∈ usedOnly layout ↔ chunk ∈ layout ∧ chunk.used = true :=
  mem_filter

theorem usedOnly_middle :
    (usedOnly (before ++ (mid ++ after))).Perm (usedOnly mid ++ usedOnly (before ++ after)) := by
  simp only [usedOnly_append, ← append_assoc]
  exact perm_append_comm.append_right _

/-! ## The three ways to fill a window -/

theorem placeUsed (window : Window heap before after start stop [] lists)
    (used : chunk.used = true) (first : chunk.addr = start) (last : chunk.stop = stop)
    (fits : Fits chunk)
    (separatedBefore : Separated before) (separatedAfter : Separated after)
    (usedSum : heap.usedSize = sizeSum true (before ++ after) + chunk.size)
    (freeSum : heap.freeSize = sizeSum false (before ++ after)) :
    Rep (setTag heap chunk) (before ++ ([chunk] ++ after)) lists := by
  have placed := window.setTag (Nat.le_of_eq first.symm) (Nat.le_of_eq last) (by simp)
  refine placed.close ⟨first, last⟩ (by simp [freeOnly, used]) (by simpa using fits) ?_
    (separated_used separatedBefore separatedAfter used) ?_ ?_
  · simpa using tagged_setTag heap chunk
  · simp only [sizeSum_append, sizeSum_cons, sizeSum_nil, used, if_true] at usedSum ⊢
    exact usedSum.trans (by push_cast; ring)
  · have same : (setTag heap chunk).freeSize = heap.freeSize := rfl
    simp only [same, sizeSum_append, sizeSum_cons, sizeSum_nil, used] at freeSum ⊢
    simpa using freeSum

theorem placePair (window : Window heap before after start stop [rest] lists)
    (used : block.used = true) (free : rest.used = false)
    (first : block.addr = start) (meet : rest.addr = block.stop) (last : rest.stop = stop)
    (fitsBlock : Fits block) (tagged : Tagged heap.mem rest)
    (separatedBefore : Separated before) (separatedAfter : Separated after)
    (headUsed : HeadUsed after)
    (usedSum : heap.usedSize = sizeSum true (before ++ after) + block.size)
    (freeSum : heap.freeSize = sizeSum false (before ++ after) + rest.size) :
    Rep (setTag heap block) (before ++ ([block, rest] ++ after)) lists := by
  have apart : Apart block rest := Or.inl (Nat.le_of_eq meet.symm)
  have toStop : block.stop ≤ stop := by
    rw [← last, ← meet]
    simp only [Chunk.stop]
    omega
  have placed := window.setTag (Nat.le_of_eq first.symm) toStop (by simpa using apart)
  have fitsRest : Fits rest :=
    window.spaced.fits rest (mem_append_left _ mem_cons_self)
  refine placed.close ⟨first, meet, last⟩ (by simp [freeOnly, used, free]) ?_ ?_ ?_ ?_ ?_
  · simpa using ⟨fitsBlock, fitsRest⟩
  · simpa using ⟨tagged_setTag heap block, tagged_setTag_of_apart tagged apart⟩
  · refine separated_used separatedBefore ?_ used
    exact separated_cons.mpr ⟨fun first isFirst => Or.inr (headUsed first isFirst), separatedAfter⟩
  · simp only [sizeSum_append, sizeSum_cons, sizeSum_nil, used, free] at usedSum ⊢
    simp only [Bool.false_eq_true, if_true, if_false] at usedSum ⊢
    exact usedSum.trans (by push_cast; ring)
  · simp only [sizeSum_append, sizeSum_cons, sizeSum_nil, used, free] at freeSum ⊢
    simp only [Bool.true_eq_false, if_true, if_false] at freeSum ⊢
    exact freeSum.trans (by push_cast; ring)

theorem placeFree (window : Window heap before after start stop [chunk] lists)
    (free : chunk.used = false) (first : chunk.addr = start) (last : chunk.stop = stop)
    (tagged : Tagged heap.mem chunk)
    (separatedBefore : Separated before) (separatedAfter : Separated after)
    (lastUsed : LastUsed before) (headUsed : HeadUsed after)
    (usedSum : heap.usedSize = sizeSum true (before ++ after))
    (freeSum : heap.freeSize = sizeSum false (before ++ after) + chunk.size) :
    Rep heap (before ++ ([chunk] ++ after)) lists := by
  have fits : Fits chunk :=
    window.spaced.fits chunk (mem_append_left _ mem_cons_self)
  refine window.close ⟨first, last⟩ (by simp [freeOnly, free]) (by simpa using fits)
    (by simpa using tagged) ?_ ?_ ?_
  · exact separated_free separatedBefore separatedAfter lastUsed headUsed
  · simp only [sizeSum_append, sizeSum_cons, sizeSum_nil, free] at usedSum ⊢
    simpa using usedSum
  · simp only [sizeSum_append, sizeSum_cons, sizeSum_nil, free, if_true] at freeSum ⊢
    exact freeSum.trans (by push_cast; ring)

/-- The contents of a used chunk belong to its user. -/
theorem rep_store (rep : Rep heap (before ++ ([chunk] ++ after)) lists)
    (used : chunk.used = true) (image : Words) (source count : Nat)
    (within : count ≤ chunk.size) :
    Rep (heap.copyFrom image (chunk.addr + 8) source count)
      (before ++ ([chunk] ++ after)) lists := by
  obtain ⟨start, stop, ⟨first, last⟩, window⟩ := rep.open
  have member : chunk ∈ before ++ ([chunk] ++ after) := by simp
  have fits := rep.fits chunk member
  have tagged := rep.tagged chunk member
  have noFree : freeOnly [chunk] = [] := by simp [freeOnly, used]
  rw [noFree] at window
  have stops : chunk.stop = stop := last
  have same (address : Nat)
      (far : address < chunk.addr + 8 ∨ chunk.addr + 8 + chunk.size ≤ address) :
      (heap.copyFrom image (chunk.addr + 8) source count).mem address = heap.mem address :=
    if_neg (by omega)
  have stored : Window (heap.copyFrom image (chunk.addr + 8) source count) before after
      start stop [] lists := by
    refine window.congr rfl rfl rfl rfl ?_ ?_
    · intro address far
      simp only [Chunk.stop, overhead] at stops
      exact same address (by omega)
    · rintro address ⟨linked, member, -⟩
      cases member
  refine stored.close ⟨first, last⟩ (by rw [noFree]) (by simpa using fits) ?_
    rep.separated rep.usedSum rep.freeSum
  intro other isOther
  rw [mem_singleton] at isOther
  subst isOther
  exact ⟨(same _ (by omega)).trans tagged.1,
    (same _ (by simp only [memSizeField]; omega)).trans tagged.2⟩

/-! ## Merging, splitting and carving -/

theorem merge_spec (window : Window heap before after start stop [] lists) {size : Nat}
    (total : start + size + overhead = stop) (aligned : 8 ∣ size) (least : 24 ≤ size)
    (separatedBefore : Separated before) (separatedAfter : Separated after)
    (lastUsed : LastUsed before) (headUsed : HeadUsed after)
    (usedSum : heap.usedSize = sizeSum true (before ++ after))
    (freeSum : heap.freeSize = sizeSum false (before ++ after) + size) :
    ∃ lists', Rep (memLinkChunk (memSetChunkSize heap start size) start)
        (before ++ ([⟨start, size, false⟩] ++ after)) lists' ∧
      Keeps heap (memLinkChunk (memSetChunkSize heap start size) start)
        (UserWord (before ++ after)) := by
  have low := window.tilesBefore.le
  have high := window.tilesAfter.le
  have bounded := window.bounded
  have fits : Fits ⟨start, size, false⟩ := by
    refine ⟨aligned, least, ?_⟩
    simp only [memMaxSize, overhead] at bounded total ⊢
    omega
  have first : start ≤ Chunk.addr ⟨start, size, false⟩ := Nat.le_refl start
  obtain ⟨lists', linked, tagged, -⟩ := window.insertFree rfl fits first (Nat.le_of_eq total)
  have info := sameInfo_insertFree heap ⟨start, size, false⟩
  have keeps := insertFree_keeps window rfl fits first (Nat.le_of_eq total)
  exact ⟨lists', placeFree linked rfl rfl total tagged separatedBefore separatedAfter
    lastUsed headUsed (info.usedSize.trans usedSum) (info.freeSize.trans freeSum),
    fun address isUser => keeps address (Or.inl isUser)⟩

def BlockWords (before after : List Chunk) (start size : Nat) : Nat → Prop :=
  Around before after fun address => start + 8 ≤ address ∧ address < start + 8 + size

theorem split_spec (window : Window heap before after start stop [] lists)
    (size restSize : Nat) (total : start + size + overhead + restSize + overhead = stop)
    (aligned : 8 ∣ size) (least : 24 ≤ size)
    (restAligned : 8 ∣ restSize) (restLeast : 24 ≤ restSize)
    (separatedBefore : Separated before) (separatedAfter : Separated after)
    (headUsed : HeadUsed after)
    (usedSum : heap.usedSize = sizeSum true (before ++ after) + size)
    (freeSum : heap.freeSize = sizeSum false (before ++ after) + restSize) :
    ∃ rest lists' after', rest.used = false ∧
      memSetUsedChunkSize (memLinkChunk (memSetChunkSize heap
          (start + memSizeField + size + memSizeField) restSize)
          (start + memSizeField + size + memSizeField)) start size = after' ∧
      Rep after' (before ++ ([⟨start, size, true⟩, rest] ++ after)) lists' ∧
      Keeps heap after' (BlockWords before after start size) := by
  have low := window.tilesBefore.le
  have high := window.tilesAfter.le
  have bounded := window.bounded
  simp only [memMaxSize, overhead] at bounded total
  obtain ⟨rest, isRest⟩ : ∃ rest : Chunk,
      rest = ⟨start + memSizeField + size + memSizeField, restSize, false⟩ := ⟨_, rfl⟩
  have restAddr : rest.addr = start + 8 + size + 8 := by rw [isRest]; rfl
  have restSized : rest.size = restSize := by rw [isRest]
  have free : rest.used = false := by rw [isRest]
  have restFits : Fits rest :=
    ⟨restSized ▸ restAligned, restSized ▸ restLeast, by rw [restSized]; omega⟩
  have restStop : rest.stop = stop := by
    simp only [Chunk.stop, overhead, restAddr, restSized]
    omega
  have from_start : start ≤ rest.addr := by omega
  obtain ⟨lists', linked, tagged, -⟩ :=
    window.insertFree free restFits from_start (Nat.le_of_eq restStop)
  have info := sameInfo_insertFree heap rest
  have placed : Rep (setTag (insertFree heap rest) ⟨start, size, true⟩)
      (before ++ ([⟨start, size, true⟩, rest] ++ after)) lists' := placePair linked rfl free rfl
    (by simp only [restAddr, Chunk.stop, overhead]; omega) restStop
    ⟨aligned, least, by simp only; omega⟩ tagged separatedBefore separatedAfter headUsed
    (info.usedSize.trans usedSum) (info.freeSize.trans (restSized ▸ freeSum))
  have inserted := insertFree_keeps window free restFits from_start (Nat.le_of_eq restStop)
  have set := @setTag_keeps _ _ _ _ _ ⟨start, size, true⟩ _ _ linked (Nat.le_refl start) (by
    simp only [Chunk.stop, overhead]
    omega)
  refine ⟨rest, lists', _, free, ?_, placed, fun address place => ?_⟩
  · rw [memSetUsedChunkSize_eq, memSetChunkSize_eq, ← isRest, insertFree, isRest]
  · refine (set address ?_).trans (inserted address ?_)
    · exact place.imp_right fun inside => ⟨by simp only; omega, by simp only; omega⟩
    · exact place.imp_right fun inside => ⟨by omega, by omega⟩

theorem insertFree_recount (heap : Heap) (chunk size : Nat) (usedSize freeSize : Int) :
    memLinkChunk (memSetChunkSize { heap with usedSize, freeSize } chunk size) chunk =
      { memLinkChunk (memSetChunkSize heap chunk size) chunk with usedSize, freeSize } := by
  unfold memLinkChunk memSetChunkSize memSetNextChunk memSetPrevChunk Heap.write Heap.setBucket
  dsimp only
  split_ifs <;> rfl

theorem carve_spec {available size : Nat}
    (window : Window heap before after start stop [] lists)
    (total : start + available + overhead = stop)
    (fits : Fits ⟨start, available, true⟩)
    (aligned : 8 ∣ size) (least : 24 ≤ size) (enough : size ≤ available)
    (separatedBefore : Separated before) (separatedAfter : Separated after)
    (headUsed : HeadUsed after)
    (usedSum : heap.usedSize = sizeSum true (before ++ after))
    (freeSum : heap.freeSize = sizeSum false (before ++ after) + available) :
    ∃ block tail lists', block.addr = start ∧ block.used = true ∧ size ≤ block.size ∧
      usedOnly tail = [] ∧
      Rep (carveChunk heap start available size) (before ++ ((block :: tail) ++ after))
        lists' ∧
      Keeps heap (carveChunk heap start available size) (BlockWords before after start size) := by
  have recounted (usedSize freeSize : Int) : Recounted heap { heap with usedSize, freeSize } :=
    ⟨rfl, rfl, rfl, rfl, rfl⟩
  have availableAligned := fits.aligned
  simp only at availableAligned
  unfold carveChunk
  by_cases small : available < size + 2 * memSizeField + memMinAlloc
  · rw [if_pos small]
    have counted := (recounted (heap.usedSize + available) (heap.freeSize - available)).window
      window
    refine ⟨⟨start, available, true⟩, [], lists, rfl, rfl, enough, rfl, ?_, ?_⟩
    · rw [memSetUsedChunkSize_eq]
      exact placeUsed counted rfl rfl total fits separatedBefore separatedAfter
        (by simp [usedSum]) (by simp [freeSum])
    · have set := @setTag_keeps _ _ _ _ _ ⟨start, available, true⟩ _ _ counted
        (Nat.le_refl start) (Nat.le_of_eq total)
      intro address place
      exact set address
        (place.imp_right fun ⟨first, last⟩ => ⟨by simp only; omega, by simp only; omega⟩)
  · rw [if_neg small]
    simp only [memSizeField, memMinAlloc, overhead] at small total
    have counted := (recounted (heap.usedSize + size)
      (heap.freeSize - available + (available - size - 2 * memSizeField : Nat))).window window
    obtain ⟨rest, lists', after', restFree, isAfter, placed, keeps⟩ := split_spec counted size
      (available - size - 2 * memSizeField) (by simp only [overhead, memSizeField]; omega)
      aligned least (by simp only [memSizeField]; omega) (by simp only [memSizeField]; omega)
      separatedBefore separatedAfter headUsed (by simp [usedSum]) (by simp [freeSum])
    have info := (sameInfo_setTag heap ⟨start + memSizeField + size + memSizeField,
      available - size - 2 * memSizeField, false⟩).trans
      (sameInfo_link _ (start + memSizeField + size + memSizeField))
    refine ⟨⟨start, size, true⟩, [rest], lists', rfl, rfl, Nat.le_refl _,
      by simp [usedOnly, restFree], ?_⟩
    rw [← memSetChunkSize_eq] at info
    dsimp only
    rw [info.usedSize, info.freeSize]
    subst isAfter
    rw [insertFree_recount] at placed keeps
    exact ⟨placed, keeps⟩

end Zabbix.Memory.Placement
