import Mathlib.Algebra.GroupWithZero.Nat
import Mathlib.Data.List.Pairwise
import Mathlib.Data.List.Perm.Subperm
import Mathlib.Algebra.BigOperators.Group.List.Basic
import Mathlib.Algebra.Order.Group.Nat

/-!
# Layouts of a boundary-tag heap

A heap area between two addresses is tiled by chunks.  A chunk occupies its
usable bytes and a fixed overhead; it is free or used.  This module is about
such tilings on their own: how far chunks are apart, how a tiling splits at a
chunk, and the sums and address lists that a heap keeps about its chunks.
-/

namespace Zabbix.Memory.Layout

open List

/-- The two size fields of a chunk. -/
def overhead : Nat := 16

/-- A chunk of the heap area. -/
structure Chunk where
  addr : Nat
  size : Nat
  used : Bool
deriving DecidableEq, Repr

/-- The first address after a chunk. -/
def Chunk.stop (chunk : Chunk) : Nat :=
  chunk.addr + chunk.size + overhead

/-- The chunks follow each other from one address to another without a gap. -/
def Tiles : Nat → List Chunk → Nat → Prop
  | start, [], stop => start = stop
  | start, chunk :: rest, stop => chunk.addr = start ∧ Tiles chunk.stop rest stop

/-- Two chunks do not overlap. -/
def Apart (first second : Chunk) : Prop :=
  first.stop ≤ second.addr ∨ second.stop ≤ first.addr

variable {start middle stop : Nat} {before after layout : List Chunk} {chunk : Chunk}

theorem Apart.symm {first second : Chunk} (apart : Apart first second) :
    Apart second first :=
  Or.symm apart

@[simp]
theorem tiles_nil : Tiles start [] stop ↔ start = stop :=
  Iff.rfl

@[simp]
theorem tiles_cons {rest : List Chunk} :
    Tiles start (chunk :: rest) stop ↔ chunk.addr = start ∧ Tiles chunk.stop rest stop :=
  Iff.rfl

/-- A tiling can be cut between two of its chunks. -/
theorem tiles_append :
    Tiles start (before ++ after) stop ↔
      ∃ middle, Tiles start before middle ∧ Tiles middle after stop := by
  induction before generalizing start with
  | nil => simp
  | cons chunk rest ih =>
    simp only [cons_append, tiles_cons, ih]
    constructor
    · rintro ⟨first, middle, tilesRest, tilesAfter⟩
      exact ⟨middle, ⟨first, tilesRest⟩, tilesAfter⟩
    · rintro ⟨middle, ⟨first, tilesRest⟩, tilesAfter⟩
      exact ⟨first, middle, tilesRest, tilesAfter⟩

variable (tiles : Tiles start layout stop)

include tiles

theorem Tiles.le : start ≤ stop := by
  induction layout generalizing start with
  | nil => exact Nat.le_of_eq tiles
  | cons chunk rest ih =>
    have later := ih tiles.2
    have first := tiles.1
    simp only [Chunk.stop] at later
    omega

theorem Tiles.bounds (member : chunk ∈ layout) :
    start ≤ chunk.addr ∧ chunk.stop ≤ stop := by
  obtain ⟨before, after, rfl⟩ := append_of_mem member
  obtain ⟨middle, tilesBefore, first, tilesAfter⟩ := tiles_append.mp tiles
  exact ⟨first ▸ tilesBefore.le, tilesAfter.le⟩

/-- Different positions of a tiling hold chunks that are apart. -/
theorem Tiles.pairwise :
    layout.Pairwise fun first second => first.stop ≤ second.addr := by
  induction layout generalizing start with
  | nil => exact List.Pairwise.nil
  | cons chunk rest ih =>
    refine List.Pairwise.cons ?_ (ih tiles.2)
    intro other member
    exact (Tiles.bounds tiles.2 member).1

theorem Tiles.pairwise_apart :
    layout.Pairwise Apart :=
  tiles.pairwise.imp Or.inl

omit tiles

instance : Std.Symm Apart :=
  ⟨fun _ _ => Apart.symm⟩

theorem eq_of_addr_eq {chunks : List Chunk} (apart : chunks.Pairwise Apart)
    {first second : Chunk} (memberFirst : first ∈ chunks) (memberSecond : second ∈ chunks)
    (same : first.addr = second.addr) :
    first = second := by
  by_contra different
  have separate := apart.forall memberFirst memberSecond different
  simp only [Apart, Chunk.stop, overhead] at separate
  omega

/-! ## Sums -/

/-- The usable bytes of the used, or of the free chunks. -/
def sizeSum (used : Bool) (layout : List Chunk) : Nat :=
  (layout.map fun chunk => if chunk.used = used then chunk.size else 0).sum

@[simp]
theorem sizeSum_nil (used : Bool) : sizeSum used [] = 0 :=
  rfl

@[simp]
theorem sizeSum_cons (used : Bool) (rest : List Chunk) :
    sizeSum used (chunk :: rest) =
      (if chunk.used = used then chunk.size else 0) + sizeSum used rest :=
  rfl

@[simp]
theorem sizeSum_append (used : Bool) :
    sizeSum used (before ++ after) = sizeSum used before + sizeSum used after := by
  simp [sizeSum]

variable (tiles : Tiles start layout stop)

include tiles

theorem Tiles.total :
    start + sizeSum true layout + sizeSum false layout + overhead * layout.length = stop := by
  induction layout generalizing start with
  | nil => simpa using tiles
  | cons chunk rest ih =>
    have later := ih tiles.2
    have first := tiles.1
    simp only [sizeSum_cons, length_cons, Chunk.stop, Nat.mul_add] at later ⊢
    cases chunk.used <;> simp <;> omega

/-- The bounds of a tiled area are determined by its chunks. -/
theorem Tiles.unique {start' stop' : Nat}
    (other : Tiles start' layout stop') (notNil : layout ≠ []) : start = start' ∧ stop = stop' := by
  cases layout with
  | nil => exact absurd rfl notNil
  | cons chunk rest =>
    have total := tiles.2.total
    have otherTotal := other.2.total
    exact ⟨tiles.1.symm.trans other.1, total.symm.trans otherTotal⟩

theorem Tiles.aligned_length (sizes : ∀ chunk ∈ layout, 8 ∣ chunk.size) : 8 ∣ stop - start := by
  induction layout generalizing start with
  | nil => exact (Nat.sub_eq_zero_of_le (Nat.le_of_eq tiles.symm)).symm ▸ Nat.dvd_zero 8
  | cons chunk rest ih =>
    have later := ih tiles.2 fun other member => sizes other (mem_cons_of_mem _ member)
    have order := tiles.2.le
    have size := sizes chunk mem_cons_self
    have first := tiles.1
    simp only [Chunk.stop, overhead] at later order
    omega

theorem Tiles.aligned (base : 8 ∣ start)
    (sizes : ∀ chunk ∈ layout, 8 ∣ chunk.size) (member : chunk ∈ layout) :
    8 ∣ chunk.addr := by
  induction layout generalizing start with
  | nil => cases member
  | cons first rest ih =>
    have firstAligned : 8 ∣ first.addr := tiles.1 ▸ base
    rcases mem_cons.mp member with rfl | later
    · exact firstAligned
    · refine ih tiles.2 ?_ (fun other isIn => sizes other (mem_cons_of_mem _ isIn))
        later
      have size := sizes first mem_cons_self
      simp only [Chunk.stop, overhead]
      omega

end Zabbix.Memory.Layout
