import Mathlib.Data.List.TakeWhile

/-!
# Text

A C string is the list of its characters before the terminating zero, and a
pointer into it is the rest of the text from there.  `*s` is the head of the rest,
and it is `'\0'` when the rest is empty.
-/

namespace Zabbix.Common.Text

open List

abbrev Text := List Char

/-- The rest after blanks. -/
def skipBlanks (text : Text) : Text :=
  text.dropWhile (· = ' ')

def blanks (count : Nat) : Text :=
  replicate count ' '

variable {text rest : Text} {char : Char}

theorem length_skipBlanks_le (text : Text) : (skipBlanks text).length ≤ text.length :=
  (dropWhile_suffix _).length_le

@[simp]
theorem skipBlanks_nil : skipBlanks [] = [] :=
  rfl

@[simp]
theorem skipBlanks_blank (rest : Text) : skipBlanks (' ' :: rest) = skipBlanks rest :=
  dropWhile_cons_of_pos (by decide)

theorem skipBlanks_cons (isOther : char ≠ ' ') : skipBlanks (char :: rest) = char :: rest :=
  dropWhile_cons_of_neg (by simpa using isOther)

@[simp]
theorem skipBlanks_blanks (count : Nat) (rest : Text) :
    skipBlanks (blanks count ++ rest) = skipBlanks rest := by
  induction count with
  | zero => rfl
  | succ count ih =>
    rw [blanks, replicate_succ, cons_append, skipBlanks_blank]
    exact ih

theorem blanks_skipBlanks (text : Text) : ∃ count, text = blanks count ++ skipBlanks text := by
  induction text with
  | nil => exact ⟨0, rfl⟩
  | cons first rest ih =>
    by_cases isBlank : first = ' '
    · obtain ⟨count, same⟩ := ih
      subst isBlank
      refine ⟨count + 1, ?_⟩
      rw [skipBlanks_blank, blanks, replicate_succ, cons_append]
      exact congrArg (' ' :: ·) same
    · exact ⟨0, (skipBlanks_cons isBlank).symm⟩

theorem head?_skipBlanks (text : Text) : (skipBlanks text).head? ≠ some ' ' := by
  intro isBlank
  have notBlank := head?_dropWhile_not (fun char => decide (char = ' ')) text
  rw [skipBlanks] at isBlank
  rw [isBlank] at notBlank
  simp at notBlank

theorem split_while {kind : Char → Bool} (isKind : ∀ char ∈ text, kind char = true)
    (isEnd : kind char = false) (rest : Text) :
    (text ++ char :: rest).takeWhile kind = text ∧
      (text ++ char :: rest).dropWhile kind = char :: rest := by
  constructor
  · rw [takeWhile_append_of_pos isKind, takeWhile_cons_of_neg (by simp [isEnd]),
      append_nil]
  · rw [dropWhile_append_of_pos isKind, dropWhile_cons_of_neg (by simp [isEnd])]

theorem drop_length_takeWhile (continues : Char → Bool) (text : Text) :
    text.drop (text.takeWhile continues).length = text.dropWhile continues := by
  rw [takeWhile_eq_take_findIdx_not, dropWhile_eq_drop_findIdx_not, length_take,
    Nat.min_eq_left findIdx_le_length]

end Zabbix.Common.Text
