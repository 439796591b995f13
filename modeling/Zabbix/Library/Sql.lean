import Zabbix.Library.OperatorChain
import Zabbix.Library.SqlText
import Mathlib.Data.List.Infix

/-!
# Queries of SQL

Queries that select columns of the rows for which a condition holds.  `and` binds tighter than
`or`, and the condition of `exists` may use the columns of the rows outside.  Rows are functions of
the names of their columns.
-/

namespace Zabbix.Library.Sql

open SqlText
open OperatorChain (Reading level chain Consumes Shortens)

inductive Operand where
  | column (name : List Char)
  | number (value : Nat)
  | literal (text : List Char)
deriving DecidableEq

/-- `existing` and `missing` are `exists` and `not exists`. -/
inductive Condition where
  | equals (left right : Operand)
  | isNull (operand : Operand)
  | like (operand : Operand) (pattern : List Char)
  | isIn (operand : Operand) (texts : List (List Char))
  | existing (table called : List Char) (filter : Condition)
  | missing (table called : List Char) (filter : Condition)
  | and (left right : Condition)
  | or (left right : Condition)

/-- The columns, the tables with their aliases, and the condition. -/
structure Select where
  columns : List (List Char)
  sources : List (List Char × List Char)
  filter : Condition

/-! ## Reading queries -/

abbrev ReadCondition :=
  Reading Unit Condition Token

def operandOf : Token → Option Operand
  | .name word => some (.column word)
  | .number value => some (.number value)
  | .literal text => some (.literal text)
  | _ => none

/-- The literals of a list, to its closing parenthesis. -/
def readLiterals : List Token → Option (List (List Char) × List Token)
  | .literal text :: .comma :: rest =>
    (readLiterals rest).map fun (texts, after) => (text :: texts, after)
  | .literal text :: .closing :: rest => some ([text], rest)
  | _ => none

/-- The part of a comparison after its first operand. -/
def readComparison (left : Operand) : List Token → Option (Condition × List Token)
  | .equals :: .keyword .binaryWord :: .literal text :: rest =>
    some (.equals left (.literal text), rest)
  | .equals :: token :: rest => (operandOf token).map fun right => (.equals left right, rest)
  | .keyword .isWord :: .keyword .nullWord :: rest => some (.isNull left, rest)
  | .keyword .likeWord :: .literal pattern :: rest => some (.like left pattern, rest)
  | .keyword .inWord :: .opening :: rest =>
    (readLiterals rest).map fun (texts, after) => (.isIn left texts, after)
  | _ => none

/-- A condition and the parenthesis after it. -/
def readClosing (inner : List Token → ReadCondition) (tokens : List Token) : ReadCondition :=
  (inner tokens).bind fun (condition, rest) =>
    match rest with
    | .closing :: rest => .ok (condition, rest)
    | _ => .error ()

/-- The condition in `exists`, after the keyword. -/
def readExists (inner : List Token → ReadCondition)
    (build : List Char → List Char → Condition → Condition) : List Token → ReadCondition
  | .opening :: .keyword .selectWord :: .keyword .nullWord :: .keyword .fromWord :: .name table ::
      .name called :: .keyword .whereWord :: rest =>
      (readClosing inner rest).map fun (filter, rest) => (build table called filter, rest)
  | _ => .error ()

/-- A condition without `and` and `or` outside parentheses. -/
def readOperand (inner : List Token → ReadCondition) : List Token → ReadCondition
  | .opening :: rest => readClosing inner rest
  | .keyword .notWord :: .keyword .existsWord :: rest => readExists inner .missing rest
  | .keyword .existsWord :: rest => readExists inner .existing rest
  | token :: rest =>
    match (operandOf token).bind fun left => readComparison left rest with
    | some read => .ok read
    | none => .error ()
  | [] => .error ()

def wordOperator (word : Keyword) : List Token → Option (Unit × List Token)
  | .keyword found :: rest => if found = word then some ((), rest) else none
  | _ => none

def readConjunction (inner : List Token → ReadCondition) : List Token → ReadCondition :=
  level (wordOperator .andWord) .ok (readOperand inner) fun _ left right => .ok (.and left right)

def readDisjunction (inner : List Token → ReadCondition) : List Token → ReadCondition :=
  level (wordOperator .orWord) .ok (readConjunction inner) fun _ left right => .ok (.or left right)

/-- A condition, whose parentheses are nested less deep than given. -/
def readCondition : Nat → List Token → ReadCondition
  | 0, _ => .error ()
  | deeper + 1, tokens => readDisjunction (readCondition deeper) tokens

def readNames : List Token → Option (List (List Char) × List Token)
  | .name word :: .comma :: rest =>
    (readNames rest).map fun (words, after) => (word :: words, after)
  | .name word :: rest => some ([word], rest)
  | _ => none

def readSources : List Token → Option (List (List Char × List Char) × List Token)
  | .name table :: .name called :: .comma :: rest =>
    (readSources rest).map fun (sources, after) => ((table, called) :: sources, after)
  | .name table :: .name called :: rest => some ([(table, called)], rest)
  | _ => none

def readWhere (columns : List (List Char)) (sources : List (List Char × List Char)) :
    List Token → Option Select
  | .keyword .whereWord :: rest =>
    match readCondition rest.length rest with
    | .ok (filter, []) => some { columns, sources, filter }
    | _ => none
  | _ => none

def readFrom (columns : List (List Char)) : List Token → Option Select
  | .keyword .fromWord :: rest =>
    (readSources rest).bind fun (sources, rest) => readWhere columns sources rest
  | _ => none

def readSelect : List Token → Option Select
  | .keyword .selectWord :: rest =>
    (readNames rest).bind fun (columns, rest) => readFrom columns rest
  | _ => none

/-! ## What queries mean -/

inductive Value where
  | null
  | number (value : Nat)
  | text (text : List Char)
deriving DecidableEq

abbrev Row := List Char → Value
abbrev Tables := List Char → List Row

/-- The rows in scope, by their aliases. -/
abbrev Scope := List (List Char × Row)

/-- The value of a column, whose name is after a dot. -/
def column (scope : Scope) (name : List Char) : Value :=
  match scope.lookup (name.takeWhile (· ≠ '.')) with
  | some row => row ((name.dropWhile (· ≠ '.')).drop 1)
  | none => .null

def Operand.value (scope : Scope) : Operand → Value
  | .column name => Sql.column scope name
  | .number value => .number value
  | .literal text => .text text

/-- Nothing is equal to `null`. -/
def same : Value → Value → Bool
  | .null, _ => false
  | left, right => left = right

/-- `%` stands for any text, `_` for any character, and a backslash is before a character that
stands for itself. -/
def likeMatches : List Char → List Char → Bool
  | [], text => text.isEmpty
  | '%' :: pattern, text => text.tails.any fun rest => likeMatches pattern rest
  | '_' :: pattern, text => !text.isEmpty && likeMatches pattern (text.drop 1)
  | '\\' :: c :: pattern, text => text.head? = some c && likeMatches pattern (text.drop 1)
  | c :: pattern, text => text.head? = some c && likeMatches pattern (text.drop 1)

def Condition.holds (tables : Tables) : Condition → Scope → Bool
  | .equals left right, scope => same (left.value scope) (right.value scope)
  | .isNull operand, scope => operand.value scope = .null
  | .like operand pattern, scope =>
    match operand.value scope with
    | .text text => likeMatches pattern text
    | _ => false
  | .isIn operand texts, scope => texts.any fun text => same (operand.value scope) (.text text)
  | .existing table called filter, scope =>
    (tables table).any fun row => filter.holds tables ((called, row) :: scope)
  | .missing table called filter, scope =>
    !(tables table).any fun row => filter.holds tables ((called, row) :: scope)
  | .and left right, scope => left.holds tables scope && right.holds tables scope
  | .or left right, scope => left.holds tables scope || right.holds tables scope

/-- A row of each table. -/
def scopes (tables : Tables) : List (List Char × List Char) → List Scope
  | [] => [[]]
  | (table, called) :: sources =>
    (tables table).flatMap fun row => (scopes tables sources).map fun scope =>
      (called, row) :: scope

def Select.rows (tables : Tables) (select : Select) : List (List Value) :=
  ((scopes tables select.sources).filter (select.filter.holds tables)).map fun scope =>
    select.columns.map (column scope)

/-- What a query returns. -/
def query (escapes : Bool) (tables : Tables) (sql : List Char) : Option (List (List Value)) :=
  ((lex escapes sql).bind readSelect).map fun select => select.rows tables

example : query false (fun _ => [fun _ => .number 1, fun _ => .number 2])
    "select p.id from problem p where p.id=2 or p.id=1 and p.id=3".toList =
      some [[.number 2]] := by
  decide

/-! ## Patterns -/

variable {first text : List Char}

/-- A character that stands for itself in a pattern. -/
def isPlain (c : Char) : Bool :=
  c ≠ '%' && c ≠ '_' && c ≠ '\\'

theorem likeMatches_cons {c : Char} (plain : isPlain c = true) (pattern text : List Char) :
    likeMatches (c :: pattern) text =
      (text.head? = some c && likeMatches pattern (text.drop 1)) := by
  simp only [isPlain, Bool.and_eq_true, decide_eq_true_eq] at plain
  rw [likeMatches.eq_5 text c pattern plain.1.1 plain.1.2]
  intro d later isBackslash
  exact absurd isBackslash plain.2

theorem likeMatches_plain {pattern : List Char} (arePlain : ∀ c ∈ first, isPlain c = true) :
    likeMatches (first ++ pattern) text = true ↔
      ∃ rest, text = first ++ rest ∧ likeMatches pattern rest = true := by
  induction first generalizing text with
  | nil => simp
  | cons c first ih =>
    obtain ⟨plain, areLater⟩ := List.forall_mem_cons.mp arePlain
    rw [List.cons_append, likeMatches_cons plain, Bool.and_eq_true, decide_eq_true_eq, ih areLater]
    cases text with
    | nil => exact iff_of_false (fun both => nomatch both.1) fun ⟨_, same, _⟩ => nomatch same
    | cons d text =>
      constructor
      · rintro ⟨isFirst, rest, isText, isMatch⟩
        exact ⟨rest, congrArg₂ List.cons (Option.some.inj isFirst) isText, isMatch⟩
      · rintro ⟨rest, same, isMatch⟩
        obtain ⟨rfl, isText⟩ := List.cons.inj same
        exact ⟨rfl, rest, isText, isMatch⟩

theorem likeMatches_any (text : List Char) : likeMatches ['%'] text = true := by
  rw [likeMatches, List.any_eq_true]
  exact ⟨[], (List.mem_tails _ _).mpr List.nil_suffix, rfl⟩

theorem likeMatches_contains (arePlain : ∀ c ∈ first, isPlain c = true) :
    likeMatches ('%' :: (first ++ ['%'])) text = true ↔ first <:+: text := by
  rw [likeMatches, List.any_eq_true]
  constructor
  · rintro ⟨rest, isTail, isMatch⟩
    obtain ⟨before, rfl⟩ := (List.mem_tails _ _).mp isTail
    obtain ⟨after, rfl, -⟩ := (likeMatches_plain arePlain).mp isMatch
    exact ⟨before, after, List.append_assoc ..⟩
  · rintro ⟨before, after, rfl⟩
    refine ⟨first ++ after, (List.mem_tails _ _).mpr ⟨before, (List.append_assoc ..).symm⟩, ?_⟩
    exact (likeMatches_plain arePlain).mpr ⟨after, rfl, likeMatches_any after⟩

end Zabbix.Library.Sql
