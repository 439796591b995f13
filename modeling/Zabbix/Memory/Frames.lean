import Zabbix.Memory.Representation

/-!
# What the allocator leaves alone

The words of a block belong to its user.  Every operation of the allocator
stores links into free chunks, and size fields at the ends of chunks, so the
words of used chunks are not links.
-/

namespace Zabbix.Memory.Frames

open Alloc Layout Buckets Memory.Representation List

/-- A word in the usable bytes of one of the used chunks. -/
def UserWord (chunks : List Chunk) (address : Nat) : Prop :=
  ∃ chunk ∈ chunks, chunk.used = true ∧ chunk.addr + 8 ≤ address ∧
    address < chunk.addr + 8 + chunk.size

/-- A change of the heap that spares some words. -/
def Keeps (heap other : Heap) (spared : Nat → Prop) : Prop :=
  ∀ address, spared address → other.mem address = heap.mem address

/-- The words of users outside a window, and some words inside. -/
def Around (before after : List Chunk) (inside : Nat → Prop) (address : Nat) : Prop :=
  UserWord (before ++ after) address ∨ inside address

def OtherWord (layout : List Chunk) (block : Chunk) (address : Nat) : Prop :=
  UserWord layout address ∧ (address < block.addr + 8 ∨ block.addr + 8 + block.size ≤ address)

/-- Two heaps that differ in the counters only. -/
structure Recounted (heap other : Heap) : Prop where
  mem : other.mem = heap.mem
  buckets : other.buckets = heap.buckets
  loBound : other.loBound = heap.loBound
  hiBound : other.hiBound = heap.hiBound
  totalSize : other.totalSize = heap.totalSize

variable {heap other : Heap} {lists : Nat → List Nat}
variable {before after inner mid layout : List Chunk} {chunk block : Chunk}
variable {start stop address : Nat}

theorem Recounted.refl (heap : Heap) : Recounted heap heap :=
  ⟨rfl, rfl, rfl, rfl, rfl⟩

theorem Recounted.window (recounted : Recounted heap other)
    (window : Window heap before after start stop inner lists) :
    Window other before after start stop inner lists :=
  window.congr recounted.loBound recounted.hiBound recounted.totalSize recounted.buckets
    (fun _ _ => by rw [recounted.mem]) (fun _ _ => by rw [recounted.mem])

theorem not_linkWord_of_user (spaced : Spaced layout) (isUser : UserWord layout address) :
    ¬LinkWord layout address := by
  rintro ⟨linked, isIn, free, isLink⟩
  obtain ⟨owner, member, used, low, high⟩ := isUser
  have least := (spaced.fits linked isIn).least
  have different : owner ≠ linked := by
    rintro rfl
    rw [used] at free
    cases free
  have apart := spaced.apart.forall member isIn different
  simp only [Apart, Chunk.stop, overhead] at apart
  omega

theorem UserWord.mono {more : List Chunk} (isUser : UserWord layout address)
    (included : ∀ chunk ∈ layout, chunk.used = true → chunk ∈ more) : UserWord more address := by
  obtain ⟨owner, member, used, place⟩ := isUser
  exact ⟨owner, included owner member used, used, place⟩

theorem user_outside (window : Window heap before after start stop inner lists)
    (isUser : UserWord (before ++ after) address) : address < start ∨ stop ≤ address := by
  obtain ⟨owner, member, -, low, high⟩ := isUser
  have place := window.outside member
  simp only [Chunk.stop, overhead] at place
  omega

theorem UserWord.outer (isUser : UserWord (before ++ (mid ++ after)) address)
    (notMid : ∀ chunk ∈ mid, chunk.used = true →
      address < chunk.addr + 8 ∨ chunk.addr + 8 + chunk.size ≤ address) :
    UserWord (before ++ after) address := by
  obtain ⟨owner, member, used, low, high⟩ := isUser
  refine ⟨owner, ?_, used, low, high⟩
  rcases mem_append.mp member with isBefore | isRest
  · exact mem_append_left _ isBefore
  · rcases mem_append.mp isRest with isMid | isAfter
    · have outside := notMid owner isMid used
      omega
    · exact mem_append_right _ isAfter

theorem users_around (isOther : OtherWord (before ++ (mid ++ after)) block address)
    (alone : ∀ chunk ∈ mid, chunk.used = true → chunk = block) :
    UserWord (before ++ after) address :=
  isOther.1.outer fun chunk member used => alone chunk member used ▸ isOther.2

/-! ## Windows -/

theorem setTag_keeps (window : Window heap before after start stop inner lists)
    (from_start : start ≤ chunk.addr) (to_stop : chunk.stop ≤ stop) :
    Keeps heap (setTag heap chunk)
      (Around before after fun address =>
        address ≠ chunk.addr ∧ address ≠ chunk.addr + 8 + chunk.size) := by
  intro address place
  rw [setTag_mem, if_neg]
  simp only [Chunk.stop, overhead] at to_stop
  rcases place with isUser | ⟨notFirst, notLast⟩
  · have outside := user_outside window isUser
    omega
  · omega

theorem insertFree_keeps (window : Window heap before after start stop [] lists)
    (free : chunk.used = false) (fits : Fits chunk) (from_start : start ≤ chunk.addr)
    (to_stop : chunk.stop ≤ stop) :
    Keeps heap (insertFree heap chunk)
      (Around before after fun address => start ≤ address ∧ address < chunk.addr) := by
  obtain ⟨lists', linked, -, frame⟩ := window.insertFree free fits from_start to_stop
  have spaced := linked.spaced
  have least := fits.least
  have set := setTag_keeps window from_start to_stop
  simp only [Chunk.stop, overhead] at to_stop
  rintro address (isUser | ⟨low, high⟩)
  · have notLink := not_linkWord_of_user spaced
      (isUser.mono fun owner member _ => mem_append_right [chunk] member)
    exact (frame address notLink).trans (set address (Or.inl isUser))
  · refine (frame address ?_).trans (set address (Or.inr (by omega)))
    rintro ⟨owner, member, -, isLink⟩
    rcases mem_cons.mp member with rfl | isOutside
    · omega
    · have place := window.outside isOutside
      have ownerLeast := (spaced.fits owner member).least
      simp only [Chunk.stop, overhead] at place
      omega

/-! ## Several chunks leave their buckets -/

/-- `mem_unlink_chunk` for one chunk after another. -/
def unlinkAll (heap : Heap) (chunks : List Chunk) : Heap :=
  chunks.foldl (fun heap chunk => memUnlinkChunk heap chunk.addr) heap

theorem unlinkAll_spec {free : List Chunk}
    (window : Window heap before after start stop free lists)
    (areFree : ∀ chunk ∈ free, chunk.used = false ∧ heap.mem chunk.addr = tag chunk) :
    (∃ lists', Window (unlinkAll heap free) before after start stop [] lists') ∧
      SameInfo heap (unlinkAll heap free) ∧
      ∀ address, ¬LinkWord (free ++ (before ++ after)) address →
        (unlinkAll heap free).mem address = heap.mem address := by
  induction free generalizing heap lists with
  | nil => exact ⟨⟨lists, window⟩, ⟨rfl, rfl, rfl, rfl, rfl⟩, fun _ _ => rfl⟩
  | cons chunk rest ih =>
    obtain ⟨isFree, tagged⟩ := areFree chunk mem_cons_self
    obtain ⟨⟨lists', unlinked⟩, frame⟩ := window.unlink isFree tagged
    obtain ⟨later, info, frameRest⟩ := ih unlinked fun other member => by
      obtain ⟨otherFree, otherTagged⟩ := areFree other (mem_cons_of_mem _ member)
      have notLink := not_linkWord_of_mem unlinked.spaced (mem_append_left _ member)
      exact ⟨otherFree, (frame _ notLink.1).trans otherTagged⟩
    refine ⟨later, (sameInfo_unlink heap chunk.addr).trans info, fun address notLink => ?_⟩
    have notRest : ¬LinkWord (rest ++ (before ++ after)) address :=
      fun ⟨linked, member, isLink⟩ => notLink ⟨linked, mem_cons_of_mem _ member, isLink⟩
    exact (frameRest address notRest).trans (frame address notRest)

/-- The chunks in the middle of a layout are taken out, and no word of a user changes. -/
theorem vacate (rep : Rep heap (before ++ (mid ++ after)) lists)
    (recounted : Recounted heap other) :
    ∃ start stop lists', Tiles start mid stop ∧
      Window (unlinkAll other (freeOnly mid)) before after start stop [] lists' ∧
      SameInfo other (unlinkAll other (freeOnly mid)) ∧
      Keeps heap (unlinkAll other (freeOnly mid)) (UserWord (before ++ (mid ++ after))) := by
  obtain ⟨start, stop, tiles, window⟩ := rep.open
  have inMid {chunk : Chunk} (member : chunk ∈ freeOnly mid) :
      chunk ∈ mid ∧ chunk.used = false := by simpa [freeOnly] using member
  obtain ⟨⟨lists', unlinked⟩, info, frame⟩ := unlinkAll_spec (recounted.window window)
    fun chunk member => ⟨(inMid member).2, by
      rw [recounted.mem]
      exact (rep.tagged chunk (by simp [(inMid member).1])).1⟩
  refine ⟨start, stop, lists', tiles, unlinked, info, fun address isUser => ?_⟩
  rw [frame, recounted.mem]
  rintro ⟨linked, member, isLink⟩
  refine not_linkWord_of_user rep.spaced isUser ⟨linked, ?_, isLink⟩
  rcases mem_append.mp member with isFree | isOuter
  · simp [(inMid isFree).1]
  · rcases mem_append.mp isOuter with isBefore | isAfter
    · exact mem_append_left _ isBefore
    · simp [isAfter]

end Zabbix.Memory.Frames
