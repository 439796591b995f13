import Mathlib.Order.Lattice
import Mathlib.Data.List.Basic

/-!
# Logs in the order of a key

A log whose entries stand in strictly increasing order of a key, read from a
position on.  `after low log` is what a reader that has come up to `low` still has to
read.  A reader that takes a part of it from the front misses nothing up to the last
entry that it has taken.
-/

namespace Zabbix.Library.OrderedLog

open List

variable {Entry Key : Type*} [LinearOrder Key] {key : Entry → Key}
variable {log taken rest : List Entry} {entry : Entry} {low : Key}

/-- The entries stand in strictly increasing order of their keys. -/
def Ordered (key : Entry → Key) (log : List Entry) : Prop :=
  log.Pairwise fun first second => key first < key second

/-- The entries above a key. -/
def after (key : Entry → Key) (low : Key) (log : List Entry) : List Entry :=
  log.filter fun entry => low < key entry

@[simp]
theorem mem_after : entry ∈ after key low log ↔ entry ∈ log ∧ low < key entry := by
  simp [after]

theorem Ordered.sublist (ordered : Ordered key log) (part : taken.Sublist log) :
    Ordered key taken :=
  List.Pairwise.sublist part ordered

theorem Ordered.after (ordered : Ordered key log) (low : Key) : Ordered key (after key low log) :=
  ordered.sublist filter_sublist

theorem Ordered.concat (ordered : Ordered key log) (above : ∀ old ∈ log, key old < key entry) :
    Ordered key (log ++ [entry]) := by
  refine pairwise_append.mpr ⟨ordered, pairwise_singleton _ _, ?_⟩
  intro old isOld new isNew
  rw [mem_singleton.mp isNew]
  exact above old isOld

/-- A part that was visible earlier has a part of what is to be read, from the front. -/
theorem after_take_front (visible : Nat) (low : Key) (log : List Entry) :
    after key low (log.take visible) <+: after key low log :=
  ( take_prefix visible log).filter _

theorem after_after {high : Key} (below : low < high) (log : List Entry) :
    after key high (after key low log) = after key high log := by
  rw [after, after, List.filter_filter, after]
  refine filter_congr fun other _ => ?_
  by_cases isAbove : high < key other
  · simp [isAbove, lt_trans below isAbove]
  · simp [isAbove]

theorem after_cons (ordered : Ordered key log) (first : after key low log = entry :: rest) :
    rest = after key (key entry) log := by
  have isAfter : low < key entry :=
    (mem_after.mp (first ▸ (mem_cons_self : entry ∈ entry :: rest))).2
  have isOrdered : Ordered key (entry :: rest) := first ▸ ordered.after low
  have above := pairwise_cons.mp isOrdered
  calc
    rest = after key (key entry) (entry :: rest) := by
      rw [after, filter_cons_of_neg (by simp),
        filter_eq_self.mpr fun later isLater => decide_eq_true (above.1 later isLater)]
    _ = after key (key entry) (after key low log) := by rw [first]
    _ = after key (key entry) log := after_after isAfter log

theorem length_after_lt (isEntry : entry ∈ log) (above : low < key entry) :
    (after key (key entry) log).length < (after key low log).length := by
  rw [← after_after above log]
  refine length_filter_lt_length_iff_exists.mpr ⟨entry, mem_after.mpr ⟨isEntry, above⟩, ?_⟩
  simp

/-- What has been read from `low` on up to `reached`. -/
def Read (key : Entry → Key) (log : List Entry) (low : Key) (taken : List Entry) (reached : Key) :
    Prop :=
  after key low log = taken ++ after key reached log

variable {reached : Key}

theorem Read.nil (key : Entry → Key) (log : List Entry) (low : Key) : Read key log low [] low :=
  rfl

theorem Read.concat (ordered : Ordered key log) (isRead : Read key log low taken reached)
    (next : entry :: rest <+: after key reached log) :
    Read key log low (taken ++ [entry]) (key entry) ∧ rest <+: after key (key entry) log := by
  obtain ⟨later, together⟩ := next
  have behind : rest ++ later = after key (key entry) log :=
    after_cons ordered together.symm
  refine ⟨?_, later, behind⟩
  rw [Read, isRead, ← together, cons_append, behind, append_assoc, singleton_append]

theorem Read.mem (isRead : Read key log low taken reached) (isTaken : entry ∈ taken) :
    entry ∈ log ∧ low < key entry :=
  mem_after.mp (isRead ▸ mem_append_left _ isTaken)

theorem Read.ordered (ordered : Ordered key log) (isRead : Read key log low taken reached) :
    Ordered key taken :=
  (isRead ▸ ordered.after low : Ordered key (taken ++ _)).sublist (sublist_append_left _ _)

theorem Read.complete {other : Entry} (ordered : Ordered key log)
    (isRead : Read key log low taken reached) (isTaken : other ∈ taken) (isEntry : entry ∈ log)
    (above : low < key entry) (below : key entry ≤ key other) :
    entry ∈ taken := by
  have isOrdered : Ordered key (taken ++ after key reached log) := isRead ▸ ordered.after low
  have isAfter : entry ∈ after key low log := mem_after.mpr ⟨isEntry, above⟩
  rw [isRead] at isAfter
  refine (mem_append.mp isAfter).resolve_right fun isLater => ?_
  exact absurd ((pairwise_append.mp isOrdered).2.2 other isTaken entry isLater)
    (not_lt_of_ge below)

/-! ## Reading a limited number of entries -/

/-- A log with the order of its entries. -/
structure Log (key : Entry → Key) where
  entries : List Entry
  ordered : Ordered key entries

namespace Log

variable {log : Log key} {limit : Nat}

/-- The first entries above a key, at most `limit` of them. -/
def select (log : Log key) (low : Key) (limit : Nat) : List Entry :=
  (OrderedLog.after key low log.entries).take limit

/-- The key that a reader has come up to with some entries. -/
def comesTo (key : Entry → Key) (low : Key) (taken : List Entry) : Key :=
  (taken.getLast?.map key).getD low

omit [LinearOrder Key] in
@[simp]
theorem comesTo_nil : comesTo key low [] = low :=
  rfl

omit [LinearOrder Key] in
@[simp]
theorem comesTo_concat : comesTo key low (taken ++ [entry]) = key entry := by
  simp [comesTo]

omit [LinearOrder Key] in
@[simp]
theorem comesTo_cons : comesTo key low (entry :: rest) = comesTo key (key entry) rest := by
  rw [comesTo, getLast?_cons]
  cases last : rest.getLast? <;> simp [comesTo, last]

omit [LinearOrder Key] in
theorem comesTo_append (low : Key) (taken rest : List Entry) :
    comesTo key low (taken ++ rest) = comesTo key (comesTo key low taken) rest := by
  induction taken generalizing low with
  | nil => rfl
  | cons first taken ih => simp only [cons_append, comesTo_cons, ih]

theorem select_eq_after (short : (log.select low limit).length < limit) :
    log.select low limit = OrderedLog.after key low log.entries := by
  rw [select, length_take] at short
  exact take_of_length_le (by omega)

theorem select_ordered (log : Log key) (low : Key) (limit : Nat) :
    Ordered key (log.select low limit) :=
  (log.ordered.after low).sublist (take_sublist limit _)

theorem le_comesTo (isOrdered : Ordered key taken) (isTaken : entry ∈ taken) :
    key entry ≤ comesTo key low taken := by
  obtain ⟨before, newest, rfl⟩ := eq_nil_or_concat taken |>.resolve_left
    (ne_nil_of_mem isTaken)
  rw [concat_eq_append] at isOrdered isTaken ⊢
  rw [comesTo_concat]
  rcases mem_append.mp isTaken with isBefore | isNewest
  · exact le_of_lt ((pairwise_append.mp isOrdered).2.2 entry isBefore newest (by simp))
  · rw [mem_singleton.mp isNewest]

theorem low_le_comesTo (above : ∀ other ∈ taken, low < key other) :
    low ≤ comesTo key low taken := by
  rcases eq_nil_or_concat taken with rfl | ⟨before, newest, rfl⟩
  · exact le_refl low
  · rw [concat_eq_append] at above ⊢
    rw [comesTo_concat]
    exact le_of_lt (above newest (by simp))

theorem select_complete_iff (log : Log key) (low : Key) (limit : Nat) (positive : 0 < limit) :
    (∀ other ∈ log.entries, key other ≤ comesTo key low (log.select low limit)) ↔
      (OrderedLog.after key low log.entries).length ≤ limit := by
  have split : log.select low limit ++ (OrderedLog.after key low log.entries).drop limit =
      OrderedLog.after key low log.entries := take_append_drop limit _
  have isOrdered := log.ordered.after low
  rw [← split] at isOrdered
  constructor
  · intro complete
    by_contra longer
    obtain ⟨cut, isCut⟩ := exists_mem_of_length_pos
      (l := (OrderedLog.after key low log.entries).drop limit)
      (by rw [length_drop]; omega)
    have isEntry : cut ∈ log.entries := (mem_after.mp (mem_of_mem_drop isCut)).1
    obtain ⟨before, newest, isLast⟩ := eq_nil_or_concat (log.select low limit)
      |>.resolve_left (by
        intro isEmpty
        have noneTaken := congrArg List.length isEmpty
        rw [select, length_take, length_nil] at noneTaken
        omega)
    rw [concat_eq_append] at isLast
    have below := complete cut isEntry
    rw [isLast, comesTo_concat] at below
    rw [isLast] at isOrdered
    exact absurd ((pairwise_append.mp isOrdered).2.2 newest (by simp) cut isCut)
      (not_lt_of_ge below)
  · intro short other isOther
    by_cases above : low < key other
    · refine le_comesTo (log.select_ordered low limit) ?_
      rw [select, take_of_length_le short]
      exact mem_after.mpr ⟨isOther, above⟩
    · refine le_trans (le_of_not_gt above) (low_le_comesTo fun entry isTaken => ?_)
      exact (mem_after.mp (mem_of_mem_take isTaken)).2

end Log

end Zabbix.Library.OrderedLog
