import Mathlib.Data.List.Induction

/-!
# Arrays of cells

A block of memory for values, whose cells have no value until they are written.  Access to a cell
outside the block, and reading a cell without a value, gives no result.
-/

namespace Zabbix.Library.Cells

open List Option

abbrev Cells (α : Type*) := List (Option α)

variable {α : Type*} {before after cells : Cells α} {value other : α} {values : List α}

def read (cells : Cells α) (pos : Nat) : Option α :=
  cells[pos]?.join

def write (cells : Cells α) (pos : Nat) (value : α) : Option (Cells α) :=
  if pos < cells.length then some (cells.set pos (some value)) else none

/-- The block with another size: cells are cut off, or added without values. -/
def resize (cells : Cells α) (size : Nat) : Cells α :=
  cells.take size ++ List.replicate (size - cells.length) none

/-- Cells are copied to another place of the block, as if they were read before. -/
def move (cells : Cells α) (target source count : Nat) : Option (Cells α) :=
  if source + count ≤ cells.length ∧ target + count ≤ cells.length then
    some (cells.take target ++ ((cells.drop source).take count ++ cells.drop (target + count)))
  else none

/-- Cells are filled one after another from the next. -/
def shiftDown (cells : Cells α) (pos : Nat) : Nat → Option (Cells α)
  | 0 => some cells
  | turns + 1 =>
    (read cells (pos + 1)).bind fun value =>
      (write cells pos value).bind fun cells => shiftDown cells (pos + 1) turns

/-- Cells are filled one before another from the one before. -/
def shiftUp (cells : Cells α) (pos : Nat) : Nat → Option (Cells α)
  | 0 => some cells
  | turns + 1 =>
    (read cells (pos - 1)).bind fun value =>
      (write cells pos value).bind fun cells => shiftUp cells (pos - 1) turns

/-! ## Access -/

theorem read_append : read (before ++ some value :: after) before.length = some value := by
  simp [read]

theorem write_append {cell : Option α} :
    write (before ++ cell :: after) before.length value =
      some (before ++ some value :: after) := by
  have inside : before.length < (before ++ cell :: after).length := by simp
  rw [write, if_pos inside, set_append_right _ _ (Nat.le_refl _), Nat.sub_self, set_cons_zero]

theorem length_write {cells' : Cells α} {pos : Nat}
    (isWritten : write cells pos value = some cells') : cells'.length = cells.length := by
  rw [write] at isWritten
  split_ifs at isWritten
  obtain rfl := some.inj isWritten
  exact length_set

/-! ## Blocks that change their size -/

theorem length_resize (cells : Cells α) (size : Nat) : (resize cells size).length = size := by
  rw [resize, length_append, length_take, length_replicate]
  omega

theorem resize_grow {size : Nat} (grows : cells.length ≤ size) :
    resize cells size = cells ++ List.replicate (size - cells.length) none := by
  rw [resize, take_of_length_le grows]

theorem resize_shrink {size : Nat} (isSize : before.length = size) :
    resize (before ++ after) size = before := by
  rw [resize, ← isSize, take_left, length_append, Nat.sub_eq_zero_of_le (by omega),
    replicate_zero, append_nil]

/-! ## Cells that are moved -/

theorem move_eq {moved : Cells α} {target : Nat}
    (fits : target + moved.length ≤ (before ++ (moved ++ after)).length) :
    move (before ++ (moved ++ after)) target before.length moved.length =
      some ((before ++ (moved ++ after)).take target ++
        (moved ++ (before ++ (moved ++ after)).drop (target + moved.length))) := by
  have inside : before.length + moved.length ≤ (before ++ (moved ++ after)).length := by
    simp
  rw [move, if_pos ⟨inside, fits⟩, drop_left, take_left]

/-- The values between are moved one cell down. -/
theorem shiftDown_eq :
    shiftDown (before ++ ((value :: values).map some ++ after)) before.length values.length =
      some (before ++ (values.map some ++
        (some ((value :: values).getLast (cons_ne_nil _ _)) :: after))) := by
  induction values generalizing before value with
  | nil => rfl
  | cons next values ih =>
    have isNext : read (before ++ (some value :: some next :: (values.map some ++ after)))
        (before.length + 1) = some next := by
      have atNext := @read_append _ (before ++ [some value]) (values.map some ++ after) next
      rwa [length_append, append_assoc] at atNext
    have isWritten := @write_append _ before (some next :: (values.map some ++ after)) next
      (some value)
    have isShifted := @ih (before ++ [some next]) next
    rw [length_append, append_assoc, append_assoc] at isShifted
    simp only [map_cons, cons_append, length_cons, shiftDown] at isShifted ⊢
    rw [isNext, bind_some, isWritten, bind_some]
    simpa using isShifted

/-- The values between are moved one cell up. -/
theorem shiftUp_eq :
    shiftUp (before ++ ((values ++ [value]).map some ++ after)) (before.length + values.length)
        values.length =
      some (before ++ (some ((values ++ [value]).head (by simp)) ::
        (values.map some ++ after))) := by
  induction values using List.reverseRecOn generalizing after value with
  | nil => rfl
  | append_singleton values last ih =>
    have isLast : read (before ++ values.map some ++ some last :: (some value :: after))
        (before ++ values.map some).length = some last := read_append
    have isWritten := @write_append _ (before ++ values.map some ++ [some last]) after last
      (some value)
    have isShifted := @ih (some last :: after) last
    rw [length_append, length_singleton, shiftUp]
    simp only [map_append, map_cons, map_nil, append_assoc,
      cons_append, nil_append, length_append, length_map,
      length_singleton] at isLast isWritten isShifted ⊢
    have isBefore : before.length + (values.length + 1) - 1 = before.length + values.length := by
      omega
    rw [isBefore, isLast, bind_some, isWritten, bind_some, isShifted]
    cases values <;> rfl

end Zabbix.Library.Cells

/-!
# Rings of cells

Values in consecutive cells of a block, which go on with the first cell after the last one.  One
cell is always free.
-/

namespace Zabbix.Library.Ring

open Cells List

variable {α : Type*} {cells : Cells α} {tail head : Nat} {contents : List α} {value : α}

/-- The values are in the cells from the tail to before the head. -/
inductive IsRing : Cells α → Nat → Nat → List α → Prop where
  | straight (before after : Cells α) (contents : List α) (hasRoom : after ≠ []) :
      IsRing (before ++ (contents.map some ++ after)) before.length
        (before.length + contents.length) contents
  | wrapped (first last : List α) (middle : Cells α) (nonempty : first ≠ []) (hasRoom : middle ≠ []) :
      IsRing (last.map some ++ (middle ++ first.map some)) (last.length + middle.length)
        last.length (first ++ last)

theorem IsRing.straight_of {before after : Cells α} (hasRoom : after ≠ [])
    (isCells : cells = before ++ (contents.map some ++ after)) (isTail : tail = before.length)
    (isHead : head = before.length + contents.length) : IsRing cells tail head contents := by
  subst isCells isTail isHead
  exact .straight before after contents hasRoom

theorem IsRing.wrapped_of {first last : List α} {middle : Cells α} (nonempty : first ≠ [])
    (hasRoom : middle ≠ []) (isCells : cells = last.map some ++ (middle ++ first.map some))
    (isTail : tail = last.length + middle.length) (isHead : head = last.length)
    (isContents : contents = first ++ last) : IsRing cells tail head contents := by
  subst isCells isTail isHead isContents
  exact .wrapped first last middle nonempty hasRoom

/-- The position after another one, where the first follows the last. -/
def next (pos size : Nat) : Nat :=
  if pos + 1 = size then 0 else pos + 1

/-! ## Positions -/

variable (ring : IsRing cells tail head contents)

include ring

theorem IsRing.tail_lt : tail < cells.length := by
  cases ring with
  | straight before after contents hasRoom =>
    have positive := length_pos_iff.mpr hasRoom
    simp only [length_append]
    omega
  | wrapped first last middle nonempty hasRoom =>
    have positive := length_pos_iff.mpr nonempty
    simp only [length_append, length_map]
    omega

theorem IsRing.head_lt : head < cells.length := by
  cases ring with
  | straight before after contents hasRoom =>
    have positive := length_pos_iff.mpr hasRoom
    simp only [length_append, length_map]
    omega
  | wrapped first last middle nonempty hasRoom =>
    have positive := length_pos_iff.mpr hasRoom
    simp only [length_append, length_map]
    omega

theorem IsRing.length_lt :
    contents.length < cells.length := by
  cases ring with
  | straight before after contents hasRoom =>
    have positive := length_pos_iff.mpr hasRoom
    simp only [length_append, length_map]
    omega
  | wrapped first last middle nonempty hasRoom =>
    have positive := length_pos_iff.mpr hasRoom
    simp only [length_append, length_map]
    omega

/-- The number of values, by the positions. -/
theorem IsRing.length_eq :
    (if head < tail then head + cells.length - tail else head - tail) = contents.length := by
  cases ring with
  | straight before after contents hasRoom =>
    rw [if_neg (by omega)]
    omega
  | wrapped first last middle nonempty hasRoom =>
    have positive := length_pos_iff.mpr hasRoom
    rw [if_pos (by omega)]
    simp only [length_append, length_map]
    omega

theorem IsRing.eq_nil_iff : tail = head ↔ contents = [] := by
  cases ring with
  | straight before after contents hasRoom =>
    rw [← length_eq_zero_iff]
    omega
  | wrapped first last middle nonempty hasRoom =>
    have positive := length_pos_iff.mpr hasRoom
    exact iff_of_false (by omega) (append_ne_nil_of_left_ne_nil nonempty last)

/-! ## Values that come and go -/

theorem IsRing.push (hasRoom : contents.length + 2 ≤ cells.length) :
    ∃ cells', write cells head value = some cells' ∧
      IsRing cells' tail (next head cells.length) (contents ++ [value]) := by
  cases ring with
  | straight before after contents notFull =>
    obtain ⟨cell, after, rfl⟩ := exists_cons_of_ne_nil notFull
    have isWritten := @write_append _ (before ++ contents.map some) after value cell
    rw [append_assoc, length_append, length_map] at isWritten
    refine ⟨_, isWritten, ?_⟩
    simp only [length_append, length_map, length_cons] at hasRoom
    cases after with
    | cons cell' after =>
      refine IsRing.straight_of (cons_ne_nil cell' after) (by simp) rfl ?_
      rw [next, if_neg, length_append, length_singleton, Nat.add_assoc]
      simp only [length_append, length_map, length_cons]
      omega
    | nil =>
      rw [length_nil] at hasRoom
      have notEmpty : before ≠ [] := length_pos_iff.mp (by omega)
      refine @IsRing.wrapped_of _ _ _ _ _ (contents ++ [value]) [] before (by simp) notEmpty
        (by simp) (by simp) ?_ (by simp)
      rw [next, if_pos (by simp; omega), length_nil]
  | wrapped first last middle nonempty notFull =>
    obtain ⟨cell, middle, rfl⟩ := exists_cons_of_ne_nil notFull
    have isWritten := @write_append _ (last.map some) (middle ++ first.map some) value cell
    rw [length_map] at isWritten
    refine ⟨_, isWritten, ?_⟩
    simp only [length_append, length_map, length_cons] at hasRoom
    have notEmpty : middle ≠ [] := length_pos_iff.mp (by omega)
    refine @IsRing.wrapped_of _ _ _ _ _ first (last ++ [value]) middle nonempty notEmpty (by simp)
      ?_ ?_ (by simp)
    · simp only [length_append, length_cons, length_nil]
      omega
    · rw [next, if_neg, length_append, length_singleton]
      simp only [length_append, length_map, length_cons]
      omega

omit ring

theorem IsRing.pop (ring : IsRing cells tail head (value :: contents)) :
    read cells tail = some value ∧ IsRing cells (next tail cells.length) head contents := by
  generalize isWhole : value :: contents = whole at ring
  cases ring with
  | straight before after whole hasRoom =>
    subst isWhole
    refine ⟨read_append, ?_⟩
    have positive := length_pos_iff.mpr hasRoom
    refine @IsRing.straight_of _ _ _ _ _ (before ++ [some value]) after hasRoom (by simp) ?_ ?_
    · rw [next, if_neg, length_append, length_singleton]
      simp only [length_append, length_map, length_cons]
      omega
    · simp only [length_append, length_cons, length_nil]
      omega
  | wrapped first last middle nonempty hasRoom =>
    obtain ⟨value', first, rfl⟩ := exists_cons_of_ne_nil nonempty
    obtain ⟨rfl, rfl⟩ := List.cons.inj isWhole
    have isRead := @read_append _ (last.map some ++ middle) (first.map some) value
    rw [length_append, length_map, append_assoc] at isRead
    refine ⟨isRead, ?_⟩
    cases first with
    | nil =>
      refine @IsRing.straight_of _ _ _ _ _ [] (middle ++ [some value]) (by simp) (by simp) ?_
        (by simp)
      rw [next, if_pos, length_nil]
      simp only [length_append, length_map, length_cons, length_nil]
      omega
    | cons second first =>
      refine @IsRing.wrapped_of _ _ _ _ _ (second :: first) last (middle ++ [some value])
        (cons_ne_nil _ _) (by simp) (by simp) ?_ rfl rfl
      rw [next, if_neg, length_append, length_singleton, Nat.add_assoc]
      simp only [length_append, length_map, length_cons]
      omega

/-! ## Blocks that change their size -/

theorem IsRing.resize_straight (ring : IsRing cells tail head contents) (notWrapped : tail ≤ head)
    {size : Nat} (grows : cells.length ≤ size) : IsRing (resize cells size) tail head contents := by
  rw [resize_grow grows]
  cases ring with
  | straight before after contents hasRoom =>
    generalize List.replicate _ _ = added
    rw [append_assoc, append_assoc]
    exact .straight before (after ++ added) contents
      (append_ne_nil_of_left_ne_nil hasRoom added)
  | wrapped first last middle nonempty hasRoom =>
    have positive := length_pos_iff.mpr hasRoom
    omega

/-- The values up to the last cell are moved to the new last cell. -/
theorem IsRing.resize_wrapped (ring : IsRing cells tail head contents) (isWrapped : head < tail)
    {size : Nat} (grows : cells.length ≤ size) :
    ∃ cells', move (resize cells size) (tail + (size - cells.length)) tail
        (cells.length - tail) = some cells' ∧
      cells'.length = size ∧ IsRing cells' (tail + (size - cells.length)) head contents := by
  rw [resize_grow grows]
  cases ring with
  | straight before after contents hasRoom => omega
  | wrapped first last middle nonempty hasRoom =>
    generalize isAdded : size -
      (last.map some ++ (middle ++ first.map some) : Cells α).length = added
    have isTail : last.length + middle.length =
        (last.map some ++ middle : Cells α).length := by simp
    have isCount : (last.map some ++ (middle ++ first.map some) : Cells α).length -
        (last.length + middle.length) = (first.map some : Cells α).length := by
      simp only [length_append, length_map]
      omega
    have sameCells : (last.map some ++ (middle ++ first.map some)) ++
        List.replicate added none = (last.map some ++ middle) ++
          (first.map some ++ List.replicate added none) := by
      simp only [append_assoc]
    rw [isCount, sameCells, isTail, move_eq (by
      simp only [length_append, length_map, length_replicate]
      omega)]
    refine ⟨_, rfl, ?_, ?_⟩
    · simp only [length_append, length_map, length_take, length_drop,
        length_replicate] at isAdded grows ⊢
      omega
    · have isFirst : ((last.map some ++ middle) ++ (first.map some ++ List.replicate added none)
          : Cells α).take ((last.map some ++ middle : Cells α).length + added) =
            last.map some ++ (middle ++ (first.map some ++ List.replicate added none).take
              added) := by
        rw [take_length_add_append, append_assoc]
      have isRest : ((last.map some ++ middle) ++ (first.map some ++ List.replicate added none)
          : Cells α).drop ((last.map some ++ middle : Cells α).length + added +
            (first.map some : Cells α).length) = [] := by
        refine drop_eq_nil_of_le ?_
        simp only [length_append, length_map, length_replicate]
        omega
      rw [isFirst, isRest, append_nil, append_assoc]
      refine IsRing.wrapped_of nonempty (append_ne_nil_of_left_ne_nil hasRoom _) rfl ?_ rfl
        rfl
      simp only [length_append, length_map, length_take, length_replicate]
      omega

/-- All but one free cell after the values are cut off. -/
theorem IsRing.shrink_first (ring : IsRing cells 0 head contents) :
    IsRing (resize cells (contents.length + 1)) 0 head contents := by
  generalize isTail : 0 = tail at ring
  cases ring with
  | straight before after contents hasRoom =>
    obtain rfl := length_eq_zero_iff.mp isTail.symm
    obtain ⟨cell, after, rfl⟩ := exists_cons_of_ne_nil hasRoom
    have sameCells : [] ++ (contents.map some ++ cell :: after) =
        ([] ++ (contents.map some ++ [cell])) ++ after := by simp
    rw [sameCells, resize_shrink (by simp)]
    exact .straight [] [cell] contents (cons_ne_nil cell [])
  | wrapped first last middle nonempty hasRoom =>
    have positive := length_pos_iff.mpr hasRoom
    omega

/-- The values up to the last cell are moved down to leave one free cell. -/
theorem IsRing.shrink_wrapped (ring : IsRing cells tail head contents) (isWrapped : head < tail) :
    ∃ cells', move cells (head + 1) tail (cells.length - tail) = some cells' ∧
      IsRing (resize cells' (contents.length + 1)) (head + 1) head contents := by
  cases ring with
  | straight before after contents hasRoom => omega
  | wrapped first last middle nonempty hasRoom =>
    obtain ⟨cell, middle, rfl⟩ := exists_cons_of_ne_nil hasRoom
    have isTail : last.length + (cell :: middle).length =
        (last.map some ++ cell :: middle : Cells α).length := by simp
    have isCount : (last.map some ++ (cell :: middle ++ first.map some) : Cells α).length -
        (last.length + (cell :: middle).length) = (first.map some : Cells α).length := by
      simp only [length_append, length_map, length_cons]
      omega
    have sameCells : last.map some ++ (cell :: middle ++ first.map some) =
        (last.map some ++ cell :: middle) ++ (first.map some ++ []) := by
      simp only [append_assoc, append_nil, cons_append]
    rw [isCount, sameCells, isTail, move_eq (by
      simp only [length_append, length_map, length_cons]
      omega)]
    refine ⟨_, rfl, ?_⟩
    have isFirst : ((last.map some ++ cell :: middle) ++ (first.map some ++ []) : Cells α).take
        (last.length + 1) = last.map some ++ [cell] := by
      rw [append_assoc, ← @length_map _ _ last some, take_length_add_append]
      rfl
    rw [isFirst, ← append_assoc, resize_shrink (by simp; omega), append_assoc]
    exact IsRing.wrapped_of nonempty (cons_ne_nil cell []) rfl rfl rfl rfl

theorem IsRing.shrink_straight (ring : IsRing cells tail head contents) (notWrapped : tail ≤ head) :
    ∃ cells', move cells 0 tail contents.length = some cells' ∧
      IsRing (resize cells' (contents.length + 1)) 0 contents.length contents := by
  cases ring with
  | straight before after contents hasRoom =>
    have isCount : contents.length = (contents.map some : Cells α).length := by simp
    rw [isCount, move_eq (by simp; omega), ← isCount]
    refine ⟨_, rfl, ?_⟩
    rw [take_zero, nil_append, Nat.zero_add]
    have notEmpty : (before ++ (contents.map some ++ after)).drop contents.length ≠ [] := by
      have positive := length_pos_iff.mpr hasRoom
      refine length_pos_iff.mp ?_
      simp only [length_drop, length_append, length_map]
      omega
    have moved := IsRing.straight [] _ contents notEmpty
    rw [nil_append, length_nil, Nat.zero_add] at moved
    exact moved.shrink_first
  | wrapped first last middle nonempty hasRoom =>
    have positive := length_pos_iff.mpr hasRoom
    omega

end Zabbix.Library.Ring
