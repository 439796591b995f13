import Mathlib.Logic.Equiv.Basic

/-!
# Heap order

The order of a binary heap, for positions that hold elements of any preorder.
`Around` is the order of a heap in which one element may stand wrongly: with
its children in order it can only rise, with its parent in order it can only
sink.  One exchange with the parent or with the least child moves the element
and keeps the rest in order.
-/

namespace Zabbix.Library.HeapOrder

variable {Element : Type*}

/-- Whatever stands at two positions is in order. -/
def InOrder (le : Element → Element → Prop) (heap : Nat → Option Element)
    (first second : Nat) : Prop :=
  ∀ lower, heap first = some lower → ∀ upper, heap second = some upper → le lower upper

/-- The position above. -/
def parent (position : Nat) : Nat :=
  (position - 1) / 2

/-- Every element is in order with the one above it. -/
def Ordered (le : Element → Element → Prop) (heap : Nat → Option Element) : Prop :=
  ∀ position, 0 < position → InOrder le heap (parent position) position

/-- The heap is in order but for the element at one position. -/
structure Around (le : Element → Element → Prop) (heap : Nat → Option Element)
    (hole : Nat) : Prop where
  except : ∀ position, 0 < position → position ≠ hole → parent position ≠ hole →
    InOrder le heap (parent position) position
  grand : 0 < hole → ∀ position, 0 < position → parent position = hole →
    InOrder le heap (parent hole) position

/-- The element at a position is in order with those below it. -/
def AboveChildren (le : Element → Element → Prop) (heap : Nat → Option Element)
    (hole : Nat) : Prop :=
  ∀ position, 0 < position → parent position = hole → InOrder le heap hole position

/-- The element at a position is in order with the one above it. -/
def BelowParent (le : Element → Element → Prop) (heap : Nat → Option Element)
    (hole : Nat) : Prop :=
  0 < hole → InOrder le heap (parent hole) hole

theorem parent_lt {position : Nat} (positive : 0 < position) : parent position < position := by
  unfold parent
  omega

variable {le : Element → Element → Prop} {heap : Nat → Option Element} {hole : Nat}

theorem Around.ordered (around : Around le heap hole) (below : AboveChildren le heap hole)
    (above : BelowParent le heap hole) : Ordered le heap := by
  intro position positive
  by_cases isHole : position = hole
  · exact isHole ▸ above (isHole ▸ positive)
  by_cases isChild : parent position = hole
  · rw [isChild]
    exact below position positive isChild
  · exact around.except position positive isHole isChild

theorem Ordered.around (ordered : Ordered le heap)
    (trans : ∀ first second third, le first second → le second third → le first third)
    (closed : ∀ position, 0 < position → (heap position).isSome → (heap (parent position)).isSome)
    {changed : Nat → Option Element}
    (kept : ∀ position ≠ hole, ∀ element, changed position = some element →
      heap position = some element) :
    Around le changed hole where
  except := by
    intro position positive isHole isChild lower isLower upper isUpper
    exact ordered position positive lower (kept _ isChild lower isLower) upper
      (kept _ isHole upper isUpper)
  grand := by
    intro positive position positivePosition isChild lower isLower upper isUpper
    have below := parent_lt positive
    have belowChild := parent_lt positivePosition
    have wasLower := kept _ (Nat.ne_of_lt below) lower isLower
    have wasUpper := kept _ (by omega) upper isUpper
    have held := closed position positivePosition (by rw [wasUpper]; rfl)
    rw [isChild] at held
    obtain ⟨middle, isMiddle⟩ := Option.isSome_iff_exists.mp held
    have upperHalf := ordered position positivePosition
    rw [isChild] at upperHalf
    exact trans _ _ _ (ordered hole positive lower wasLower middle isMiddle)
      (upperHalf middle isMiddle upper wasUpper)

theorem Ordered.root_le (ordered : Ordered le heap) (refl : ∀ element, le element element)
    (trans : ∀ first second third, le first second → le second third → le first third)
    (closed : ∀ position, 0 < position → (heap position).isSome → (heap (parent position)).isSome)
    (position : Nat) : InOrder le heap 0 position := by
  induction position using Nat.strongRecOn with
  | _ position ih =>
    intro least isLeast element isElement
    rcases Nat.eq_zero_or_pos position with rfl | positive
    · rw [isLeast] at isElement
      exact Option.some.inj isElement ▸ refl least
    · obtain ⟨middle, isMiddle⟩ := Option.isSome_iff_exists.mp
        (closed position positive (by rw [isElement]; rfl))
      exact trans _ _ _ (ih _ (parent_lt positive) least isLeast middle isMiddle)
        (ordered position positive middle isMiddle element isElement)

/-- Two positions exchanged. -/
def exchanged (heap : Nat → Option Element) (first second : Nat) : Nat → Option Element :=
  fun position => heap (Equiv.swap first second position)

@[simp]
theorem exchanged_left (first second : Nat) : exchanged heap first second first = heap second := by
  rw [exchanged, Equiv.swap_apply_left]

@[simp]
theorem exchanged_right (first second : Nat) : exchanged heap first second second = heap first := by
  rw [exchanged, Equiv.swap_apply_right]

theorem exchanged_other {first second position : Nat} (notFirst : position ≠ first)
    (notSecond : position ≠ second) : exchanged heap first second position = heap position := by
  rw [exchanged, Equiv.swap_apply_of_ne_of_ne notFirst notSecond]

theorem Around.rise (around : Around le heap hole)
    (trans : ∀ first second third, le first second → le second third → le first third)
    (positive : 0 < hole) {raised above : Element} (isRaised : heap hole = some raised)
    (isAbove : heap (parent hole) = some above) (less : le raised above) :
    Around le (exchanged heap (parent hole) hole) (parent hole) ∧
      AboveChildren le (exchanged heap (parent hole) hole) (parent hole) := by
  have lower := parent_lt positive
  refine ⟨⟨?_, ?_⟩, ?_⟩
  · intro position positivePosition isParent isSibling
    have notHole : position ≠ hole := by
      rintro rfl
      exact isSibling rfl
    unfold InOrder
    rw [exchanged_other isParent notHole]
    by_cases isChild : parent position = hole
    · rw [isChild, exchanged_right]
      exact around.grand positive position positivePosition isChild
    · rw [exchanged_other isSibling isChild]
      exact around.except position positivePosition notHole isChild
  · intro positiveParent position positivePosition isSibling grand isGrand element isElement
    have grandLower := parent_lt positiveParent
    rw [exchanged_other (Nat.ne_of_lt grandLower) (by omega)] at isGrand
    have fromGrand := around.except (parent hole) positiveParent (Nat.ne_of_lt lower)
      (by omega) grand isGrand above isAbove
    by_cases isHole : position = hole
    · rw [isHole, exchanged_right, isAbove] at isElement
      exact Option.some.inj isElement ▸ fromGrand
    · have notParent : position ≠ parent hole := by
        rintro rfl
        exact Nat.ne_of_lt grandLower isSibling
      rw [exchanged_other notParent isHole] at isElement
      have sibling := around.except position positivePosition isHole (by omega)
      rw [isSibling] at sibling
      exact trans _ _ _ fromGrand (sibling above isAbove element isElement)
  · intro position positivePosition isSibling top isTop element isElement
    rw [exchanged_left, isRaised] at isTop
    obtain rfl := Option.some.inj isTop
    by_cases isHole : position = hole
    · rw [isHole, exchanged_right, isAbove] at isElement
      exact Option.some.inj isElement ▸ less
    · have notParent : position ≠ parent hole := by
        have lowerPosition := parent_lt positivePosition
        omega
      rw [exchanged_other notParent isHole] at isElement
      have sibling := around.except position positivePosition isHole (by omega)
      rw [isSibling] at sibling
      exact trans _ _ _ less (sibling above isAbove element isElement)

theorem Around.sink (around : Around le heap hole) {child : Nat} (positive : 0 < child)
    (isChild : parent child = hole) {lowered least : Element} (isLowered : heap hole = some lowered)
    (isLeast : heap child = some least) (less : le least lowered)
    (leastChild : ∀ position, 0 < position → parent position = hole →
      InOrder le heap child position) :
    Around le (exchanged heap hole child) child ∧
      BelowParent le (exchanged heap hole child) child := by
  have lower : hole < child := isChild ▸ parent_lt positive
  refine ⟨⟨?_, ?_⟩, ?_⟩
  · intro position positivePosition notChild notGrandchild
    unfold InOrder
    by_cases isHole : position = hole
    · subst isHole
      have above := parent_lt positivePosition
      rw [exchanged_left, exchanged_other (Nat.ne_of_lt above) notGrandchild]
      exact around.grand positivePosition child positive isChild
    · rw [exchanged_other isHole notChild]
      by_cases isSibling : parent position = hole
      · rw [isSibling, exchanged_left, isLeast]
        intro first isFirst element isElement
        exact leastChild position positivePosition isSibling first (isLeast.trans isFirst)
          element isElement
      · rw [exchanged_other isSibling notGrandchild]
        exact around.except position positivePosition isHole isSibling
  · intro _ position positivePosition isGrandchild
    have above := parent_lt positivePosition
    unfold InOrder
    rw [isChild, exchanged_left, exchanged_other (by omega) (by omega)]
    have inOrder := around.except position positivePosition (by omega) (by omega)
    rw [isGrandchild] at inOrder
    exact inOrder
  · intro _
    unfold InOrder
    rw [isChild, exchanged_left, exchanged_right, isLowered, isLeast]
    rintro _ ⟨⟩ _ ⟨⟩
    exact less

end Zabbix.Library.HeapOrder
