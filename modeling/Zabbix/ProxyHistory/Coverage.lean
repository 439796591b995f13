import Zabbix.ProxyHistory.Records

/-!
# What a request covers

A request of the data sender holds the objects of records in the order of their ids,
and it leaves out no record up to its last id that is neither superseded nor turned down
by the checks of the sender.
-/

namespace Zabbix.ProxyHistory.Coverage

open Library.OrderedLog Records Gathering List

variable {Content : Type} {table data rows : List (ZbxHistoryData Content)}
variable {low lastid : Nat}

/-! ## A batch -/

/-- The data read so far follow on from `low`. -/
def Fetched.Follows (table : List (ZbxHistoryData Content)) (low : Nat) : Fetched Content → Prop
  | .done data _ => ∃ reached, Read ZbxHistoryData.id table low data reached
  | .missing data lastid => Read ZbxHistoryData.id table low data lastid

theorem fetchRows_follows (retries : Bool) (ordered : Ordered ZbxHistoryData.id table)
    (isRead : Read ZbxHistoryData.id table low data lastid)
    (next : rows <+: after ZbxHistoryData.id lastid table) :
    Fetched.Follows table low (fetchRows data lastid retries rows) := by
  induction rows generalizing data lastid retries with
  | nil => exact ⟨lastid, isRead⟩
  | cons row rows ih =>
    rw [fetchRows]
    split
    · exact isRead
    · obtain ⟨longer, later⟩ := isRead.concat ordered next
      exact ih true longer later

theorem selectHistory_front (table : List (ZbxHistoryData Content)) (visible lastid limit : Nat) :
    selectHistory table visible lastid limit <+: after ZbxHistoryData.id lastid table :=
  ( take_prefix _ _).trans (after_take_front visible lastid table)

theorem proxyGetHistoryData_read (totalRetries : Nat) (visible : Nat → Nat) (retries : Bool)
    (ordered : Ordered ZbxHistoryData.id table)
    (isRead : Read ZbxHistoryData.id table low data lastid) :
    ∃ reached, Read ZbxHistoryData.id table low
      (proxyGetHistoryData table totalRetries visible data lastid retries).1 reached := by
  induction totalRetries generalizing visible data lastid retries with
  | zero =>
    have follows := fetchRows_follows retries ordered isRead
      (selectHistory_front table (visible 0) lastid (zbxMaxHrecords - data.length))
    rw [proxyGetHistoryData]
    split
    next data retries fetched =>
      rw [fetched] at follows
      exact follows
    next data lastid fetched =>
      rw [fetched] at follows
      exact ⟨lastid, follows⟩
  | succ totalRetries ih =>
    have follows := fetchRows_follows retries ordered isRead
      (selectHistory_front table (visible 0) lastid (zbxMaxHrecords - data.length))
    rw [proxyGetHistoryData]
    split
    next data retries fetched =>
      rw [fetched] at follows
      exact follows
    next data lastid fetched =>
      rw [fetched] at follows
      exact ih _ _ follows

/-! ## Duplicate novalue updates -/

/-- A later record of the table makes a record without a value obsolete. -/
def Superseded (table : List (ZbxHistoryData Content)) (hd : ZbxHistoryData Content) : Prop :=
  hd.isOnlyNovalue ∧
    ∃ later ∈ table, hd.id < later.id ∧ later.itemid = hd.itemid ∧ later.isOnlyNovalue

theorem Superseded.mono {hd : ZbxHistoryData Content} {others : List (ZbxHistoryData Content)}
    (superseded : Superseded table hd) (part : ∀ later ∈ table, later ∈ others) :
    Superseded others hd := by
  obtain ⟨isOnly, later, isLater, above⟩ := superseded
  exact ⟨isOnly, later, part later isLater, above⟩

theorem filterNovalue_sublist (itemidsAdded : List Nat) (data : List (ZbxHistoryData Content)) :
    (filterNovalue itemidsAdded data).Sublist data := by
  fun_induction filterNovalue itemidsAdded data with
  | case1 => exact List.Sublist.slnil
  | case2 itemidsAdded hd data isOnly isAdded ih => exact ih.cons hd
  | case3 itemidsAdded hd data isOnly notAdded ih => exact ih.cons_cons hd
  | case4 itemidsAdded hd data notOnly ih => exact ih.cons_cons hd

theorem mem_filterNovalue (itemidsAdded : List Nat) {hd : ZbxHistoryData Content}
    (descending : data.Pairwise fun first second => second.id < first.id) (isData : hd ∈ data) :
    hd ∈ filterNovalue itemidsAdded data ∨ Superseded data hd ∨
      hd.isOnlyNovalue ∧ hd.itemid ∈ itemidsAdded := by
  induction data generalizing itemidsAdded with
  | nil => cases isData
  | cons first data ih =>
    obtain ⟨above, descending⟩ := pairwise_cons.mp descending
    have wider : ∀ later ∈ data, later ∈ first :: data := fun _ => mem_cons_of_mem first
    rw [filterNovalue]
    rcases mem_cons.mp isData with rfl | isData
    · split
      next isOnly =>
        split
        next isIn => exact Or.inr (Or.inr ⟨isOnly, isIn⟩)
        next => exact Or.inl mem_cons_self
      next => exact Or.inl mem_cons_self
    · split
      next isOnly =>
        split
        next =>
          refine (ih itemidsAdded descending isData).imp_right (Or.imp_left ?_)
          exact fun superseded => superseded.mono wider
        next =>
          rcases ih (first.itemid :: itemidsAdded) descending isData with
            isKept | superseded | ⟨isOnlyToo, isIn⟩
          · exact Or.inl (mem_cons_of_mem first isKept)
          · exact Or.inr (Or.inl (superseded.mono wider))
          · rcases mem_cons.mp isIn with same | isIn
            · exact Or.inr (Or.inl ⟨isOnlyToo, first, mem_cons_self, above hd isData,
                same.symm, isOnly⟩)
            · exact Or.inr (Or.inr ⟨isOnlyToo, isIn⟩)
      next =>
        refine (ih itemidsAdded descending isData).imp (mem_cons_of_mem first) (Or.imp_left ?_)
        exact fun superseded => superseded.mono wider

/-- The records of a batch that are left, in the order of their ids. -/
def batchRecords (data : List (ZbxHistoryData Content)) : List (ZbxHistoryData Content) :=
  (filterNovalue [] data.reverse).reverse

theorem batchRecords_sublist (data : List (ZbxHistoryData Content)) :
    (batchRecords data).Sublist data := by
  have reversed := (filterNovalue_sublist [] data.reverse).reverse
  rwa [reverse_reverse] at reversed

theorem mem_batchRecords {hd : ZbxHistoryData Content} (ordered : Ordered ZbxHistoryData.id data)
    (isData : hd ∈ data) :
    hd ∈ batchRecords data ∨ Superseded data hd := by
  have descending : data.reverse.Pairwise fun first second => second.id < first.id :=
    pairwise_reverse.mpr ordered
  rcases mem_filterNovalue [] descending (mem_reverse.mpr isData) with
    isKept | superseded | ⟨_, isIn⟩
  · exact Or.inl (mem_reverse.mpr isKept)
  · exact Or.inr (superseded.mono fun later isLater => mem_reverse.mp isLater)
  · cases isIn

theorem batchRecords_ne_nil (isData : data ≠ []) : batchRecords data ≠ [] := by
  obtain ⟨before, newest, rfl⟩ := eq_nil_or_concat data |>.resolve_left isData
  intro isEmpty
  have noneLeft : filterNovalue [] (newest :: before.reverse) = [] := by
    simpa [batchRecords] using isEmpty
  rw [filterNovalue] at noneLeft
  split at noneLeft
  · rw [if_neg not_mem_nil] at noneLeft
    cases noneLeft
  · cases noneLeft

/-! ## Adding the records -/

variable {packet : Nat → Nat → ZbxHistoryData Content → Nat}
variable {dcItems : ItemCache} {records : List (ZbxHistoryData Content)}
variable {request result : Request Content}

/-- The records from the front up to the new last id are added, where the checks let them. -/
structure Adds (dcItems : ItemCache) (records : List (ZbxHistoryData Content))
    (request result : Request Content) (seen unseen : List (ZbxHistoryData Content)) : Prop where
  split : records = seen ++ unseen
  rows : result.rows = request.rows ++ (seen.filter (isAdded dcItems)).map historyRow
  lastid : result.lastid = (seen.getLast?.map ZbxHistoryData.id).getD request.lastid
  some : records ≠ [] → seen ≠ []

theorem getLast?_cons_getD (hd : ZbxHistoryData Content) (seen : List (ZbxHistoryData Content))
    (lastid : Nat) :
    (((hd :: seen).getLast?).map ZbxHistoryData.id).getD lastid =
      (seen.getLast?.map ZbxHistoryData.id).getD hd.id := by
  rw [getLast?_cons]
  cases seen.getLast? <;> rfl

theorem proxyAddHistData_adds (packet : Nat → Nat → ZbxHistoryData Content → Nat)
    (dcItems : ItemCache) (records : List (ZbxHistoryData Content)) (request : Request Content) :
    ∃ seen unseen,
      Adds dcItems records request (proxyAddHistData packet dcItems records request) seen
        unseen := by
  induction records generalizing request with
  | nil => exact ⟨[], [], rfl, (append_nil _).symm, rfl, fun notEmpty => notEmpty⟩
  | cons hd records ih =>
    rw [proxyAddHistData]
    split
    next isIn =>
      dsimp only
      split
      next =>
        refine ⟨[hd], records, rfl, ?_, rfl, fun _ => cons_ne_nil _ _⟩
        rw [filter_cons_of_pos isIn, filter_nil, map_cons, map_nil]
      next =>
        obtain ⟨seen, unseen, adds⟩ := ih
          { recordsNum := request.recordsNum + 1
            bufferOffset := packet request.recordsNum request.bufferOffset hd
            lastid := hd.id
            rows := request.rows ++ [historyRow hd] }
        refine ⟨hd :: seen, unseen, congrArg (hd :: ·) adds.split, ?_, ?_,
          fun _ => cons_ne_nil _ _⟩
        · rw [adds.rows, filter_cons_of_pos isIn, map_cons, append_assoc,
            singleton_append]
        · rw [adds.lastid, getLast?_cons_getD]
    next isOut =>
      obtain ⟨seen, unseen, adds⟩ := ih { request with lastid := hd.id }
      refine ⟨hd :: seen, unseen, congrArg (hd :: ·) adds.split, ?_, ?_,
        fun _ => cons_ne_nil _ _⟩
      · rw [adds.rows, filter_cons_of_neg isOut]
      · rw [adds.lastid, getLast?_cons_getD]

theorem Adds.newest {seen unseen : List (ZbxHistoryData Content)}
    (adds : Adds dcItems (batchRecords data) request result seen unseen) (isData : data ≠ []) :
    ∃ before newest, seen = before ++ [newest] ∧ newest ∈ data ∧ result.lastid = newest.id := by
  obtain ⟨before, newest, same⟩ :=
    eq_nil_or_concat seen |>.resolve_left (adds.some (batchRecords_ne_nil isData))
  rw [concat_eq_append] at same
  refine ⟨before, newest, same, (batchRecords_sublist data).subset ?_, ?_⟩
  · rw [adds.split, same]
    simp
  · rw [adds.lastid, same, getLast?_concat]
    rfl

/-! ## The whole request -/

/-- The objects made of the table from `start` up to `reached`. -/
structure Covers (table : List (ZbxHistoryData Content)) (steady : ZbxHistoryData Content → Prop)
    (start reached : Nat) (rows : List (HistoryRow Content)) : Prop where
  ordered : rows.Pairwise fun first second => first.id < second.id
  inside : ∀ row ∈ rows, start < row.id ∧ row.id ≤ reached
  complete : ∀ hd ∈ table, steady hd → ¬ Superseded table hd → start < hd.id →
    hd.id ≤ reached → historyRow hd ∈ rows
  visible : reached = start ∨ ∃ hd ∈ table, hd.id = reached
  forward : start ≤ reached

variable {steady : ZbxHistoryData Content → Prop} {start : Nat}

theorem Covers.nil (start : Nat) :
    Covers table steady start start [] where
  ordered := List.Pairwise.nil
  inside := nofun
  complete := fun _ _ _ _ above below => absurd below (Nat.not_le_of_lt above)
  visible := Or.inl rfl
  forward := Nat.le_refl start

theorem Covers.batch (packet : Nat → Nat → ZbxHistoryData Content → Nat) (dcItems : ItemCache)
    (ordered : Ordered ZbxHistoryData.id table)
    (covers : Covers table steady start low request.rows)
    {reached : Nat} (isRead : Read ZbxHistoryData.id table low data reached) (isData : data ≠ [])
    (accepted : ∀ hd, steady hd → isAdded dcItems hd = true) :
    Covers table steady start
      (proxyAddHistData packet dcItems (batchRecords data) request).lastid
      (proxyAddHistData packet dcItems (batchRecords data) request).rows := by
  obtain ⟨seen, unseen, adds⟩ :=
    proxyAddHistData_adds packet dcItems (batchRecords data) request
  revert adds
  generalize proxyAddHistData packet dcItems (batchRecords data) request = result
  intro adds
  have dataOrdered := isRead.ordered ordered
  have recordsOrdered : Ordered ZbxHistoryData.id (seen ++ unseen) :=
    adds.split ▸ dataOrdered.sublist (batchRecords_sublist data)
  obtain ⟨seenOrdered, -, apart⟩ := pairwise_append.mp recordsOrdered
  have isBatch : ∀ hd ∈ seen, hd ∈ data := fun hd isSeen =>
    (batchRecords_sublist data).subset (adds.split ▸ mem_append_left unseen isSeen)
  obtain ⟨before, newest, rfl, newestData, lastid⟩ := adds.newest isData
  have newestMem := isRead.mem newestData
  have upTo : ∀ hd ∈ before ++ [newest], hd.id ≤ newest.id := by
    intro hd isSeen
    rcases mem_append.mp isSeen with isBefore | isNewest
    · exact ((pairwise_append.mp seenOrdered).2.2 hd isBefore newest (by simp)).le
    · rw [mem_singleton.mp isNewest]
  rw [lastid]
  constructor
  · rw [adds.rows]
    refine pairwise_append.mpr ⟨covers.ordered, ?_, ?_⟩
    · rw [pairwise_map]
      exact seenOrdered.sublist filter_sublist
    · intro old isOld new isNew
      obtain ⟨hd, isSeen, rfl⟩ := mem_map.mp isNew
      have above := (isRead.mem (isBatch hd (mem_of_mem_filter isSeen))).2
      exact Nat.lt_of_le_of_lt (covers.inside old isOld).2 above
  · intro row isRow
    rw [adds.rows] at isRow
    rcases mem_append.mp isRow with isOld | isNew
    · have bounds := covers.inside row isOld
      exact ⟨bounds.1, bounds.2.trans newestMem.2.le⟩
    · obtain ⟨hd, isSeen, rfl⟩ := mem_map.mp isNew
      have isSeen := mem_of_mem_filter isSeen
      exact ⟨Nat.lt_of_le_of_lt covers.forward (isRead.mem (isBatch hd isSeen)).2, upTo hd isSeen⟩
  · intro hd isIn isSteady notSuperseded above below
    rw [adds.rows]
    by_cases isOld : hd.id ≤ low
    · exact mem_append_left _ (covers.complete hd isIn isSteady notSuperseded above isOld)
    · have isHd : hd ∈ data :=
        isRead.complete ordered newestData isIn (Nat.lt_of_not_le isOld) below
      have isRecord : hd ∈ before ++ [newest] ++ unseen := by
        refine adds.split ▸ (mem_batchRecords dataOrdered isHd).resolve_right ?_
        exact fun superseded =>
          notSuperseded (superseded.mono fun later isLater => (isRead.mem isLater).1)
      have isSeen : hd ∈ before ++ [newest] := by
        refine (mem_append.mp isRecord).resolve_right fun isUnseen => ?_
        exact absurd (apart newest (by simp) hd isUnseen) (Nat.not_lt_of_le below)
      refine mem_append_right _ (mem_map_of_mem ?_)
      exact mem_filter.mpr ⟨isSeen, accepted hd isSteady⟩
  · exact Or.inr ⟨newest, newestMem.1, rfl⟩
  · exact covers.forward.trans newestMem.2.le

variable (ordered : Ordered ZbxHistoryData.id table)

include ordered

theorem histLoop_covers {batches : List Batch}
    {id : Nat} {more isMore : Bool}
    (accepted : ∀ batch ∈ batches, ∀ hd, steady hd → isAdded batch.dcItems hd = true)
    (covers : Covers table steady start id request.rows)
    (isLast : request.lastid = id ∨ request.lastid = 0 ∧ request.rows = [])
    (looped : histLoop packet table batches id request more = some (result, isMore)) :
    result.lastid = 0 ∧ result.rows = [] ∨
      Covers table steady start result.lastid result.rows := by
  induction batches generalizing id request more with
  | nil =>
    rw [histLoop] at looped
    split at looped
    · cases looped
    · cases looped
      exact isLast.elim (fun same => Or.inr (same ▸ covers)) Or.inl
  | cons batch batches ih =>
    have ended : result = request → result.lastid = 0 ∧ result.rows = [] ∨
        Covers table steady start result.lastid result.rows := by
      rintro rfl
      exact isLast.elim (fun same => Or.inr (same ▸ covers)) Or.inl
    rw [histLoop] at looped
    split at looped
    · dsimp only at looped
      obtain ⟨reached, isRead⟩ := proxyGetHistoryData_read maxTotalRetries batch.visible true
        ordered (Read.nil ZbxHistoryData.id table id)
      have added := fun isData => covers.batch packet batch.dcItems ordered isRead isData
        (accepted batch mem_cons_self)
      split at looped
      · cases looped
        exact ended rfl
      next isData =>
        have longer := added isData
        split at looped
        · cases looped
          exact Or.inr longer
        · exact ih (fun other isOther => accepted other (mem_cons_of_mem batch isOther))
            longer (Or.inl rfl) looped
    · cases looped
      exact ended rfl

theorem histLoop_returns {batches : List Batch}
    {id : Nat} (request : Request Content) (more : Bool)
    (enough : (after ZbxHistoryData.id id table).length < batches.length) :
    (histLoop packet table batches id request more).isSome := by
  induction batches generalizing id request more with
  | nil => cases enough
  | cons batch batches ih =>
    rw [histLoop]
    split
    · dsimp only
      obtain ⟨reached, isRead⟩ := proxyGetHistoryData_read maxTotalRetries batch.visible true
        ordered (Read.nil ZbxHistoryData.id table id)
      split
      · rfl
      next isData =>
        split
        · rfl
        · obtain ⟨seen, unseen, adds⟩ := proxyAddHistData_adds packet batch.dcItems
            (batchRecords (proxyGetHistoryData table maxTotalRetries batch.visible [] id true).1)
            request
          obtain ⟨before, newest, -, isNewest, lastid⟩ := adds.newest isData
          obtain ⟨isRecord, above⟩ := isRead.mem isNewest
          have fewer := length_after_lt isRecord above
          rw [← lastid] at fewer
          exact ih _ _ (Nat.lt_of_lt_of_le fewer (Nat.le_of_lt_succ enough))
    · rfl

theorem proxyGetHistData_covers {offset : Nat}
    {batches : List Batch} {more : Bool}
    (accepted : ∀ batch ∈ batches, ∀ hd, steady hd → isAdded batch.dcItems hd = true)
    (gathered : proxyGetHistData packet table lastid offset batches = some (result, more)) :
    result.lastid = 0 ∧ result.rows = [] ∨
      Covers table steady lastid result.lastid result.rows :=
  histLoop_covers ordered accepted (Covers.nil lastid) (Or.inr ⟨rfl, rfl⟩) gathered

end Zabbix.ProxyHistory.Coverage
