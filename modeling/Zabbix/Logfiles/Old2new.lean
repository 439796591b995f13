import Zabbix.Library.Matching
import Mathlib.Data.List.Range

/-!
# Old and new log files

The array of possible mappings from old to new log files, a row after the other, and its
resolution to unique mappings.
-/

namespace Zabbix.Logfiles.Old2new

open Library.Matching List Option

/-- The element of an array with `nCols` columns. -/
def element (arr : List Char) (nCols row col : Nat) : Char :=
  arr.getD (row * nCols + col) '0'

def isMapping (c : Char) : Bool :=
  c = '1' || c = '2'

/-- The loops of `cross_out` over a row and over a column.  A protected row or column is `true`. -/
def crossOut (arr : List Char) (nRows nCols row col : Nat) (pRows pCols : List Bool) : List Char :=
  let arr :=
    (range nCols).foldl
      (fun arr i =>
        if pCols.getD i false = false ∧ col ≠ i then arr.set (row * nCols + i) '0' else arr) arr
  (range nRows).foldl
    (fun arr i =>
      if pRows.getD i false = false ∧ row ≠ i then arr.set (i * nCols + col) '0' else arr) arr

/-- The loop of `is_uniq_row` and `is_uniq_col` over what is left of a row or a column, from the
index `i`; `ret` is what was found before. -/
def uniqLoop (elements : List Char) (i : Nat) (ret : Option Nat) : Option Nat :=
  match elements with
  | [] => ret
  | c :: elements =>
    if isMapping c then
      if ret.isSome then none else uniqLoop elements (i + 1) (some i)
    else uniqLoop elements (i + 1) ret

def isUniqRow (arr : List Char) (nCols row : Nat) : Option Nat :=
  uniqLoop ((range nCols).map fun i => element arr nCols row i) 0 none

def isUniqCol (arr : List Char) (nRows nCols col : Nat) : Option Nat :=
  uniqLoop ((range nRows).map fun i => element arr nCols i col) 0 none

def isOld2newUniqueMapping (old2new : List Char) (numOld numNew : Nat) : Bool :=
  (range numOld).all (fun i => (isUniqRow old2new numNew i).isSome) &&
    (range numNew).all fun i => (isUniqCol old2new numOld numNew i).isSome

/-- The rows and the columns of the mappings that are unique already. -/
def protectedLoop (old2new : List Char) (numOld numNew : Nat) : List Bool × List Bool :=
  (range numOld).foldl
    (fun (protectedRows, protectedCols) i =>
      match isUniqRow old2new numNew i with
      | none => (protectedRows, protectedCols)
      | some c =>
        if (isUniqCol old2new numOld numNew c).isSome then
          (protectedRows.set i true, protectedCols.set c true)
        else (protectedRows, protectedCols))
    (replicate numOld false, replicate numNew false)

/-- The loop over rows, each of which is looked through in the given order of columns. -/
def resolveRows (numOld numNew : Nat) (protectedRows protectedCols : List Bool)
    (rows cols : List Nat) (old2new : List Char) : List Char :=
  rows.foldl
    (fun old2new i =>
      if protectedRows.getD i false then old2new
      else
        match cols.find? fun j =>
          isMapping (element old2new numNew i j) && !protectedCols.getD j false with
        | none => old2new
        | some j => crossOut old2new numOld numNew i j protectedRows protectedCols)
    old2new

def resolveOld2new (old2new : List Char) (numOld numNew : Nat) : List Char :=
  if isOld2newUniqueMapping old2new numOld numNew then old2new
  else
    let (protectedRows, protectedCols) := protectedLoop old2new numOld numNew
    if numOld ≤ numNew then
      resolveRows numOld numNew protectedRows protectedCols (range numOld)
        (range numNew) old2new
    else
      resolveRows numOld numNew protectedRows protectedCols (range numOld).reverse
        (range numNew).reverse old2new

example : resolveOld2new "111111".toList 3 2 = "001001".toList := by
  decide

/-! ## Arrays -/

def HasMappings (arr : List Char) : Prop :=
  ∀ c ∈ arr, c = '0' ∨ c = '1' ∨ c = '2'

structure MappingArray (numOld numNew : Nat) where
  elements : List Char
  size : elements.length = numOld * numNew
  hasMappings : HasMappings elements

/-- A mapping of an old file to a new one that an array has. -/
def Maps (arr : List Char) (numOld numNew row col : Nat) : Prop :=
  row < numOld ∧ col < numNew ∧ element arr numNew row col ≠ '0'

/-- Unique mappings only, all of which were there before, and as many as can be had without taking
one of them back. -/
structure IsResolved (numOld numNew : Nat) (before after : List Char) : Prop where
  isMatching : IsMatching (Maps after numOld numNew)
  kept : ∀ row col, Maps after numOld numNew row col →
    Maps before numOld numNew row col ∧ element after numNew row col = element before numNew row col
  unique : ∀ row col, Sole (Maps before numOld numNew) row col → Maps after numOld numNew row col
  maximal : ∀ row col, Maps before numOld numNew row col →
    (∃ other, Maps after numOld numNew row other) ∨ ∃ other, Maps after numOld numNew other col

variable {arr : List Char} {numOld numNew row col : Nat}

theorem element_set (arr : List Char) (place nCols row col : Nat) :
    element (arr.set place '0') nCols row col =
      if place = row * nCols + col then '0' else element arr nCols row col := by
  rw [element, element, getD_eq_getElem?_getD, getD_eq_getElem?_getD, getElem?_set]
  by_cases same : place = row * nCols + col
  · rw [if_pos same, if_pos same]
    split_ifs <;> rfl
  · rw [if_neg same, if_neg same]

theorem element_foldl (places : List Nat) (crosses : Nat → Prop) [DecidablePred crosses]
    (place : Nat → Nat) (arr : List Char) (nCols row col : Nat) :
    element (places.foldl (fun arr i => if crosses i then arr.set (place i) '0' else arr) arr)
        nCols row col =
      if ∃ i ∈ places, crosses i ∧ place i = row * nCols + col then '0'
      else element arr nCols row col := by
  induction places generalizing arr with
  | nil => rw [foldl_nil, if_neg (by simp)]
  | cons first places ih =>
    rw [foldl_cons, ih]
    simp only [exists_mem_cons_iff]
    by_cases isLater : ∃ i ∈ places, crosses i ∧ place i = row * nCols + col
    · rw [if_pos isLater, if_pos (Or.inr isLater)]
    · simp only [if_neg isLater, or_iff_left isLater]
      by_cases isCrossed : crosses first
      · rw [if_pos isCrossed, element_set]
        simp only [isCrossed, true_and]
      · rw [if_neg isCrossed, if_neg fun both => isCrossed both.1]

theorem place_eq_iff {nCols row col row' col' : Nat} (isCol : col < nCols) (isCol' : col' < nCols) :
    row * nCols + col = row' * nCols + col' ↔ row = row' ∧ col = col' := by
  constructor
  · intro same
    have sameCol : col = col' := by
      have remainder := congrArg (· % nCols) same
      simpa [Nat.mod_eq_of_lt isCol, Nat.mod_eq_of_lt isCol'] using remainder
    have sameRow : row * nCols = row' * nCols := by omega
    exact ⟨Nat.eq_of_mul_eq_mul_right (by omega) sameRow, sameCol⟩
  · rintro ⟨rfl, rfl⟩
    rfl

theorem element_crossOut {pRows pCols : List Bool} {i j : Nat} (isRow : i < numOld)
    (isCol : j < numNew) (col_lt : col < numNew) :
    element (crossOut arr numOld numNew row col pRows pCols) numNew i j =
      if (i = row ∧ j ≠ col ∧ pCols.getD j false = false) ∨
          (j = col ∧ i ≠ row ∧ pRows.getD i false = false) then '0'
      else element arr numNew i j := by
  rw [crossOut, element_foldl, element_foldl]
  have inRow : (∃ k ∈ range numNew, (pCols.getD k false = false ∧ col ≠ k) ∧
      row * numNew + k = i * numNew + j) ↔ i = row ∧ j ≠ col ∧ pCols.getD j false = false := by
    constructor
    · rintro ⟨k, isPlace, ⟨isOpen, isOther⟩, same⟩
      obtain ⟨rfl, rfl⟩ := (place_eq_iff (mem_range.mp isPlace) isCol).mp same
      exact ⟨rfl, fun same => isOther same.symm, isOpen⟩
    · rintro ⟨rfl, isOther, isOpen⟩
      exact ⟨j, mem_range.mpr isCol, ⟨isOpen, fun same => isOther same.symm⟩, rfl⟩
  have inCol : (∃ k ∈ range numOld, (pRows.getD k false = false ∧ row ≠ k) ∧
      k * numNew + col = i * numNew + j) ↔ j = col ∧ i ≠ row ∧ pRows.getD i false = false := by
    constructor
    · rintro ⟨k, -, ⟨isOpen, isOther⟩, same⟩
      obtain ⟨rfl, rfl⟩ := (place_eq_iff col_lt isCol).mp same
      exact ⟨rfl, fun same => isOther same.symm, isOpen⟩
    · rintro ⟨rfl, isOther, isOpen⟩
      exact ⟨i, mem_range.mpr isRow, ⟨isOpen, fun same => isOther same.symm⟩, rfl⟩
  simp only [inRow, inCol]
  by_cases isCrossed : j = col ∧ i ≠ row ∧ pRows.getD i false = false
  · rw [if_pos isCrossed, if_pos (Or.inr isCrossed)]
  · simp only [if_neg isCrossed, or_iff_left isCrossed]

/-! ## Unique mappings -/

theorem uniqLoop_some (elements : List Char) (i found : Nat) :
    uniqLoop elements i (some found) =
      if elements.any isMapping then none else some found := by
  induction elements generalizing i with
  | nil => rfl
  | cons c elements ih =>
    rw [uniqLoop, any_cons, ih]
    by_cases isOther : isMapping c = true
    · simp [isOther]
    · simp [isOther]

theorem uniqLoop_eq_some_iff {elementAt : Nat → Char} {start count found : Nat} :
    uniqLoop ((range' start count).map elementAt) start none = some found ↔
      (start ≤ found ∧ found < start + count) ∧ isMapping (elementAt found) = true ∧
        ∀ i, start ≤ i → i < start + count → isMapping (elementAt i) = true → i = found := by
  induction count generalizing start with
  | zero => exact iff_of_false nofun fun bounds => by omega
  | succ count ih =>
    rw [range'_succ, map_cons, uniqLoop]
    by_cases isFound : isMapping (elementAt start) = true
    · rw [if_pos isFound, if_neg (by simp), uniqLoop_some]
      constructor
      · intro same
        split_ifs at same with noOther
        obtain rfl := some.inj same
        refine ⟨by omega, isFound, fun i atLeast isLess isOther => ?_⟩
        by_contra different
        have isIn : i ∈ range' (start + 1) count := mem_range'_1.mpr (by omega)
        exact noOther (any_eq_true.mpr ⟨_, List.mem_map_of_mem isIn, isOther⟩)
      · rintro ⟨-, -, isOnly⟩
        obtain rfl := isOnly start le_rfl (by omega) isFound
        refine if_neg fun hasOther => ?_
        obtain ⟨c, isIn, isOther⟩ := any_eq_true.mp hasOther
        obtain ⟨i, isIndex, rfl⟩ := List.mem_map.mp isIn
        have bounds := mem_range'_1.mp isIndex
        have same := isOnly i (by omega) (by omega) isOther
        omega
    · rw [if_neg isFound, ih]
      constructor
      · rintro ⟨bounds, isMap, isOnly⟩
        refine ⟨by omega, isMap, fun i atLeast isLess isOther => ?_⟩
        obtain rfl | isLater := atLeast.eq_or_lt
        · exact absurd isOther isFound
        · exact isOnly i isLater (by omega) isOther
      · rintro ⟨bounds, isMap, isOnly⟩
        have isLater : start ≠ found := by
          rintro rfl
          exact isFound isMap
        exact ⟨by omega, isMap, fun i atLeast isLess => isOnly i (by omega) (by omega)⟩

variable (hasMappings : HasMappings arr)

include hasMappings

theorem isMapping_iff (nCols row col : Nat) :
    isMapping (element arr nCols row col) = true ↔ element arr nCols row col ≠ '0' := by
  have isEntry : element arr nCols row col = '0' ∨ element arr nCols row col = '1' ∨
      element arr nCols row col = '2' := by
    rw [element, getD_eq_getElem?_getD]
    cases found : arr[row * nCols + col]? with
    | none => exact Or.inl rfl
    | some c => exact hasMappings c (mem_of_getElem? found)
  obtain isEntry | isEntry | isEntry := isEntry
  all_goals
    rw [isEntry]
    decide

theorem isUniqRow_eq_some_iff (isRow : row < numOld) :
    isUniqRow arr numNew row = some col ↔
      Maps arr numOld numNew row col ∧ ∀ other, Maps arr numOld numNew row other → other = col := by
  rw [isUniqRow, range_eq_range', uniqLoop_eq_some_iff]
  simp only [isMapping_iff hasMappings, Maps]
  constructor
  · rintro ⟨bounds, isMap, isOnly⟩
    exact ⟨⟨isRow, by omega, isMap⟩, fun other isOther =>
      isOnly other (Nat.zero_le _) (by omega) isOther.2.2⟩
  · rintro ⟨⟨-, isCol, isMap⟩, isOnly⟩
    exact ⟨by omega, isMap, fun i _ isLess isOther => isOnly i ⟨isRow, by omega, isOther⟩⟩

theorem isUniqCol_eq_some_iff (isCol : col < numNew) :
    isUniqCol arr numOld numNew col = some row ↔
      Maps arr numOld numNew row col ∧ ∀ other, Maps arr numOld numNew other col → other = row := by
  rw [isUniqCol, range_eq_range', uniqLoop_eq_some_iff]
  simp only [isMapping_iff hasMappings, Maps]
  constructor
  · rintro ⟨bounds, isMap, isOnly⟩
    exact ⟨⟨by omega, isCol, isMap⟩, fun other isOther =>
      isOnly other (Nat.zero_le _) (by omega) isOther.2.2⟩
  · rintro ⟨⟨isRow, -, isMap⟩, isOnly⟩
    exact ⟨by omega, isMap, fun i _ isLess isOther => isOnly i ⟨by omega, isCol, isOther⟩⟩

/-- A row whose only mapping is the only one of its column. -/
theorem isSole_iff (isRow : row < numOld) :
    (isUniqRow arr numNew row = some col ∧ (isUniqCol arr numOld numNew col).isSome) ↔
      Sole (Maps arr numOld numNew) row col := by
  rw [isUniqRow_eq_some_iff hasMappings isRow, isSome_iff_exists]
  constructor
  · rintro ⟨⟨isMap, isOnly⟩, other, isOther⟩
    rw [isUniqCol_eq_some_iff hasMappings isMap.2.1] at isOther
    obtain rfl := isOther.2 row isMap
    exact ⟨isMap, isOnly, isOther.2⟩
  · rintro ⟨isMap, isOnly, isOnlyCol⟩
    exact ⟨⟨isMap, isOnly⟩, row, (isUniqCol_eq_some_iff hasMappings isMap.2.1).mpr
      ⟨isMap, isOnlyCol⟩⟩

omit hasMappings

/-! ## Protected rows and columns -/

/-- The rows and the columns with a mapping that is unique are protected. -/
structure Protects (arr : List Char) (numOld numNew : Nat) (pRows pCols : List Bool) : Prop where
  row_iff : ∀ row < numOld,
    pRows.getD row false = true ↔ ∃ col, Sole (Maps arr numOld numNew) row col
  col_iff : ∀ col < numNew,
    pCols.getD col false = true ↔ ∃ row, Sole (Maps arr numOld numNew) row col

theorem getD_set_true (marks : List Bool) {i : Nat} (isIndex : i < marks.length) (j : Nat) :
    (marks.set i true).getD j false = true ↔ i = j ∨ marks.getD j false = true := by
  rw [getD_eq_getElem?_getD, getD_eq_getElem?_getD, getElem?_set]
  by_cases same : i = j
  · rw [if_pos same, if_pos (same ▸ isIndex)]
    exact iff_of_true rfl (Or.inl same)
  · rw [if_neg same, or_iff_right same]

/-- What the loop over the first rows protects. -/
structure ProtectsTo (arr : List Char) (numOld numNew : Nat) (bound : Nat)
    (marks : List Bool × List Bool) : Prop where
  rows_length : marks.1.length = numOld
  cols_length : marks.2.length = numNew
  row_iff : ∀ row < numOld, marks.1.getD row false = true ↔
    row < bound ∧ ∃ col, Sole (Maps arr numOld numNew) row col
  col_iff : ∀ col < numNew, marks.2.getD col false = true ↔
    ∃ row < bound, Sole (Maps arr numOld numNew) row col

theorem ProtectsTo.next {marks : List Bool × List Bool} {bound : Nat}
    (protects : ProtectsTo arr numOld numNew bound marks) (hasMappings : HasMappings arr)
    (isRow : bound < numOld) :
    ProtectsTo arr numOld numNew (bound + 1)
      (match isUniqRow arr numNew bound with
      | none => (marks.1, marks.2)
      | some c =>
        if (isUniqCol arr numOld numNew c).isSome then (marks.1.set bound true, marks.2.set c true)
        else (marks.1, marks.2)) := by
  have unchanged (noSole : ∀ col, ¬Sole (Maps arr numOld numNew) bound col) :
      ProtectsTo arr numOld numNew (bound + 1) (marks.1, marks.2) := by
    refine ⟨protects.rows_length, protects.cols_length, fun row isRow => ?_, fun col isCol => ?_⟩
    · rw [protects.row_iff row isRow]
      refine and_congr_left fun ⟨col, sole⟩ => ?_
      have isOther : row ≠ bound := by
        rintro rfl
        exact noSole col sole
      omega
    · rw [protects.col_iff col isCol]
      constructor
      · rintro ⟨row, isLess, sole⟩
        exact ⟨row, by omega, sole⟩
      · rintro ⟨row, isLess, sole⟩
        have isOther : row ≠ bound := by
          rintro rfl
          exact noSole col sole
        exact ⟨row, by omega, sole⟩
  cases found : isUniqRow arr numNew bound with
  | none =>
    refine unchanged fun col sole => ?_
    rw [((isSole_iff hasMappings isRow).mpr sole).1] at found
    cases found
  | some c =>
    simp only
    split_ifs with isUniq
    · have sole := (isSole_iff hasMappings isRow).mp ⟨found, isUniq⟩
      refine ⟨by rw [length_set, protects.rows_length],
        by rw [length_set, protects.cols_length], fun row isRow' => ?_, fun col isCol => ?_⟩
      · rw [getD_set_true _ (protects.rows_length ▸ isRow), protects.row_iff row isRow']
        constructor
        · rintro (rfl | ⟨isLess, isSole⟩)
          · exact ⟨by omega, c, sole⟩
          · exact ⟨by omega, isSole⟩
        · rintro ⟨isLess, isSole⟩
          by_cases same : bound = row
          · exact Or.inl same
          · exact Or.inr ⟨by omega, isSole⟩
      · rw [getD_set_true _ (protects.cols_length ▸ sole.1.2.1), protects.col_iff col isCol]
        constructor
        · rintro (rfl | ⟨row, isLess, isSole⟩)
          · exact ⟨bound, by omega, sole⟩
          · exact ⟨row, by omega, isSole⟩
        · rintro ⟨row, isLess, isSole⟩
          by_cases same : row = bound
          · subst same
            exact Or.inl (isSole.2.1 c sole.1)
          · exact Or.inr ⟨row, by omega, isSole⟩
    · refine unchanged fun col sole => isUniq ?_
      obtain ⟨isRowUniq, isColUniq⟩ := (isSole_iff hasMappings isRow).mpr sole
      rw [isRowUniq] at found
      exact some.inj found ▸ isColUniq

theorem protectedLoop_protects (hasMappings : HasMappings arr) :
    Protects arr numOld numNew (protectedLoop arr numOld numNew).1
      (protectedLoop arr numOld numNew).2 := by
  have run (bound : Nat) (isBound : bound ≤ numOld) :
      ProtectsTo arr numOld numNew bound
        ((range bound).foldl
          (fun (protectedRows, protectedCols) i =>
            match isUniqRow arr numNew i with
            | none => (protectedRows, protectedCols)
            | some c =>
              if (isUniqCol arr numOld numNew c).isSome then
                (protectedRows.set i true, protectedCols.set c true)
              else (protectedRows, protectedCols))
          (replicate numOld false, replicate numNew false)) := by
    induction bound with
    | zero =>
      refine ⟨length_replicate, length_replicate, fun row isRow => ?_,
        fun col isCol => ?_⟩
      · simp [isRow]
      · simp [isCol]
    | succ bound ih =>
      rw [range_succ, foldl_append]
      exact (ih (by omega)).next hasMappings isBound
  have all := run numOld le_rfl
  refine ⟨fun row isRow => (all.row_iff row isRow).trans (and_iff_right isRow),
    fun col isCol => (all.col_iff col isCol).trans ?_⟩
  constructor
  · rintro ⟨row, -, sole⟩
    exact ⟨row, sole⟩
  · rintro ⟨row, sole⟩
    exact ⟨row, sole.1.1, sole⟩

/-! ## The loop over the rows -/

/-- What holds when some rows have been resolved. -/
structure Resolving (before arr : List Char) (numOld numNew : Nat) (done : List Nat) : Prop where
  element_eq : ∀ row < numOld, ∀ col < numNew,
    element arr numNew row col = element before numNew row col ∨ element arr numNew row col = '0'
  reduces : Reduces (Maps before numOld numNew) (Maps arr numOld numNew)
  sole : ∀ row ∈ done, ∀ col, Maps arr numOld numNew row col →
    Sole (Maps arr numOld numNew) row col

variable {before : List Char} {pRows pCols : List Bool} {done : List Nat}

variable (resolving : Resolving before arr numOld numNew done)

include resolving

theorem Resolving.isMapping_iff
    (hasMappings : HasMappings before) (isRow : row < numOld) (isCol : col < numNew) :
    isMapping (element arr numNew row col) = true ↔ element arr numNew row col ≠ '0' := by
  obtain same | isNone := resolving.element_eq row isRow col isCol
  · rw [same, Old2new.isMapping_iff hasMappings]
  · rw [isNone]
    decide

variable (protects : Protects before numOld numNew pRows pCols)

include protects

variable (isMap : Maps arr numOld numNew row col)

include isMap

theorem Resolving.row_isProtected
    (isProtected : pCols.getD col false = true) : pRows.getD row false = true := by
  obtain ⟨other, sole⟩ := (protects.col_iff col isMap.2.1).mp isProtected
  obtain rfl := sole.2.2 row (resolving.reduces.1 _ _ isMap)
  exact (protects.row_iff row isMap.1).mpr ⟨col, sole⟩

theorem Resolving.col_isProtected
    (isProtected : pRows.getD row false = true) : pCols.getD col false = true := by
  obtain ⟨other, sole⟩ := (protects.row_iff row isMap.1).mp isProtected
  obtain rfl := sole.2.1 col (resolving.reduces.1 _ _ isMap)
  exact (protects.col_iff col isMap.2.1).mpr ⟨row, sole⟩

theorem Resolving.maps_crossOut
    (isOpenRow : pRows.getD row false = false) (isOpenCol : pCols.getD col false = false) :
    Maps (Old2new.crossOut arr numOld numNew row col pRows pCols) numOld numNew =
      Library.Matching.crossOut (Maps arr numOld numNew) row col := by
  funext i j
  refine propext ?_
  constructor
  · rintro ⟨isRow, isCol, isLeft⟩
    rw [element_crossOut isRow isCol isMap.2.1] at isLeft
    split_ifs at isLeft with isCrossed
    · exact absurd rfl isLeft
    · have isOther : Maps arr numOld numNew i j := ⟨isRow, isCol, isLeft⟩
      refine ⟨isOther, ?_⟩
      constructor
      · rintro rfl
        by_contra different
        have isProtected : pCols.getD j false = true := by
          by_contra isOpen
          exact isCrossed (Or.inl ⟨rfl, different, Bool.not_eq_true _ ▸ isOpen⟩)
        rw [resolving.row_isProtected protects isOther isProtected] at isOpenRow
        cases isOpenRow
      · rintro rfl
        by_contra different
        have isProtected : pRows.getD i false = true := by
          by_contra isOpen
          exact isCrossed (Or.inr ⟨rfl, different, Bool.not_eq_true _ ▸ isOpen⟩)
        rw [resolving.col_isProtected protects isOther isProtected] at isOpenCol
        cases isOpenCol
  · rintro ⟨⟨isRow, isCol, isLeft⟩, same⟩
    refine ⟨isRow, isCol, ?_⟩
    rw [element_crossOut isRow isCol isMap.2.1, if_neg]
    · exact isLeft
    · rintro (⟨sameRow, different, -⟩ | ⟨sameCol, different, -⟩)
      · exact different (same.mp sameRow)
      · exact different (same.mpr sameCol)

omit isMap

theorem Resolving.next (hasMappings : HasMappings before)
    (cols : List Nat) (allCols : ∀ j, j ∈ cols ↔ j < numNew) (isRow : row < numOld) :
    Resolving before (resolveRows numOld numNew pRows pCols [row] cols arr) numOld numNew
      (row :: done) := by
  simp only [resolveRows, foldl_cons, foldl_nil]
  by_cases isProtected : pRows.getD row false = true
  · rw [if_pos isProtected]
    refine ⟨resolving.element_eq, resolving.reduces, forall_mem_cons.mpr
      ⟨fun col isMap => ?_, resolving.sole⟩⟩
    obtain ⟨other, sole⟩ := (protects.row_iff row isRow).mp isProtected
    obtain rfl := sole.2.1 col (resolving.reduces.1 _ _ isMap)
    exact resolving.reduces.sole sole
  · rw [if_neg isProtected]
    split
    · next noMapping =>
        refine ⟨resolving.element_eq, resolving.reduces, forall_mem_cons.mpr
          ⟨fun col isMap => ?_, resolving.sole⟩⟩
        have isMapping := (resolving.isMapping_iff hasMappings isRow isMap.2.1).mpr isMap.2.2
        have notFound := find?_eq_none.mp noMapping col ((allCols col).mpr isMap.2.1)
        rw [isMapping, Bool.true_and, Bool.not_eq_true, Bool.not_eq_false'] at notFound
        exact absurd (resolving.row_isProtected protects isMap notFound) isProtected
    · next col found =>
        have isCol := (allCols col).mp (mem_of_find?_eq_some found)
        have isFound := find?_some found
        rw [Bool.and_eq_true, resolving.isMapping_iff hasMappings isRow isCol,
          Bool.not_eq_true'] at isFound
        have isMap : Maps arr numOld numNew row col := ⟨isRow, isCol, isFound.1⟩
        have maps_eq := resolving.maps_crossOut protects isMap
          (Bool.eq_false_iff.mpr isProtected) isFound.2
        refine ⟨fun i isRow' j isCol' => ?_, ?_, forall_mem_cons.mpr ⟨?_, ?_⟩⟩
        · rw [element_crossOut isRow' isCol' isCol]
          split_ifs with isCrossed
          · exact Or.inr rfl
          · exact resolving.element_eq i isRow' j isCol'
        · rw [maps_eq]
          exact resolving.reduces.trans (crossOut_reduces isMap)
        · rw [maps_eq]
          rintro other ⟨isOther, same⟩
          obtain rfl := same.mp rfl
          exact sole_crossOut isMap
        · rw [maps_eq]
          rintro i isDone j ⟨isOther, -⟩
          exact (crossOut_reduces isMap).sole (resolving.sole i isDone j isOther)

omit protects resolving

theorem Resolving.run (protects : Protects before numOld numNew pRows pCols)
    (hasMappings : HasMappings before) (cols : List Nat) (allCols : ∀ j, j ∈ cols ↔ j < numNew)
    (rows : List Nat) (areRows : ∀ i ∈ rows, i < numOld)
    (resolving : Resolving before arr numOld numNew done) :
    Resolving before (resolveRows numOld numNew pRows pCols rows cols arr) numOld numNew
      (rows.reverse ++ done) := by
  induction rows generalizing arr done with
  | nil => exact resolving
  | cons row rows ih =>
    obtain ⟨isRow, areRows⟩ := forall_mem_cons.mp areRows
    rw [reverse_cons, append_assoc]
    exact ih areRows (resolving.next protects hasMappings cols allCols isRow)

theorem Resolving.isResolved (resolving : Resolving before arr numOld numNew done)
    (allRows : ∀ i < numOld, i ∈ done) : IsResolved numOld numNew before arr where
  isMatching row col isMap := resolving.sole row (allRows row isMap.1) col isMap
  kept row col isMap := by
    refine ⟨resolving.reduces.1 row col isMap, ?_⟩
    exact (resolving.element_eq row isMap.1 col isMap.2.1).resolve_right isMap.2.2
  unique row col sole := (resolving.reduces.sole sole).1
  maximal row col isMap := resolving.reduces.maximal isMap

theorem Resolving.start (before : List Char) (numOld numNew : Nat) :
    Resolving before before numOld numNew [] :=
  ⟨fun _ _ _ _ => Or.inl rfl, Reduces.refl _, nofun⟩

theorem isResolved_unchanged (hasMappings : HasMappings arr)
    (isUnique : isOld2newUniqueMapping arr numOld numNew = true) :
    IsResolved numOld numNew arr arr := by
  rw [isOld2newUniqueMapping, Bool.and_eq_true, List.all_eq_true, List.all_eq_true] at isUnique
  obtain ⟨uniqueRows, uniqueCols⟩ := isUnique
  have rows : ∀ i ∈ range numOld, ∀ j, Maps arr numOld numNew i j →
      Sole (Maps arr numOld numNew) i j := by
    intro i isRow j isMap
    obtain ⟨col, found⟩ := isSome_iff_exists.mp (uniqueRows i isRow)
    have isOnly := ((isUniqRow_eq_some_iff hasMappings isMap.1).mp found).2
    obtain rfl := isOnly j isMap
    have isUniqCol := uniqueCols j (mem_range.mpr isMap.2.1)
    exact (isSole_iff hasMappings isMap.1).mp ⟨found, isUniqCol⟩
  have resolving : Resolving arr arr numOld numNew (range numOld) :=
    ⟨fun _ _ _ _ => Or.inl rfl, Reduces.refl _, rows⟩
  exact resolving.isResolved fun i isRow => mem_range.mpr isRow

/-- Every array of possible mappings is resolved to unique ones. -/
theorem resolveOld2new_isResolved (numOld numNew : Nat) (old2new : MappingArray numOld numNew) :
    IsResolved numOld numNew old2new.elements
      (resolveOld2new old2new.elements numOld numNew) := by
  obtain ⟨before, size, hasMappings⟩ := old2new
  have protects := @protectedLoop_protects before numOld numNew hasMappings
  have start := Resolving.start before numOld numNew
  rw [resolveOld2new]
  split_ifs with isUnique isWide
  · exact isResolved_unchanged hasMappings isUnique
  · have resolving := start.run protects hasMappings (range numNew)
      (fun j => mem_range) (range numOld) fun i => mem_range.mp
    exact resolving.isResolved fun i isRow => by simpa using isRow
  · have resolving := start.run protects hasMappings (range numNew).reverse
      (fun j => by simp) (range numOld).reverse fun i => by simp
    exact resolving.isResolved fun i isRow => by simpa using isRow

end Zabbix.Logfiles.Old2new
