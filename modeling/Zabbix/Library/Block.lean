import Mathlib.Data.List.Infix

/-!
# Blocks of memory

A block is the list of its cells, and its length never changes.  `store` copies cells to a
place in it and gives nothing when they would not fit.  A block that is filled from the
front has what has been stored as a prefix.
-/

namespace Zabbix.Library.Block

open List

variable {Cell : Type*} {block content cells : List Cell} {offset : Nat}

/-- Copy cells to a place in a block. -/
def store (block : List Cell) (offset : Nat) (cells : List Cell) : Option (List Cell) :=
  if offset + cells.length ≤ block.length then
    some (block.take offset ++ cells ++ block.drop (offset + cells.length))
  else none

/-- What a successful store does to a block. -/
structure Stores (block : List Cell) (offset : Nat) (cells result : List Cell) : Prop where
  size : result.length = block.length
  front : block.take offset ++ cells <+: result

theorem store_stores (inside : offset + cells.length ≤ block.length) :
    ∃ result, store block offset cells = some result ∧ Stores block offset cells result := by
  refine ⟨_, if_pos inside, ?_, prefix_append _ _⟩
  simp only [length_append, length_take, length_drop]
  omega

theorem store_behind (filled : content <+: block)
    (inside : content.length + cells.length ≤ block.length) :
    ∃ result, store block content.length cells = some result ∧
      result.length = block.length ∧ content ++ cells <+: result := by
  obtain ⟨result, stored, stores⟩ := store_stores inside
  refine ⟨result, stored, stores.size, ?_⟩
  have front := stores.front
  rwa [← prefix_iff_eq_take.mp filled] at front

theorem store_start (inside : cells.length ≤ block.length) :
    ∃ result, store block 0 cells = some result ∧
      result.length = block.length ∧ cells <+: result :=
  store_behind nil_prefix (by rwa [length_nil, Nat.zero_add])

theorem slice_filled (filled : content <+: block) (start count : Nat)
    (inside : start + count ≤ content.length) :
    (block.drop start).take count = (content.drop start).take count := by
  obtain ⟨rest, rfl⟩ := filled
  rw [drop_append_of_le_length (by omega), take_append_of_le_length]
  rw [length_drop]
  omega

end Zabbix.Library.Block
