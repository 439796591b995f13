import Zabbix.ItemKey.ParseKey

/-!
# Replacing parts of an item key

`replace_key_params_dyn` for an item key (`ZBX_KEY_TYPE_ITEM`).  The text is split
at the position `i`: `done` is before it, and `rest` from there.  A replacement
changes the end of `done` only.  The function returns with the calls of the
callback that it made, in their order.
-/

namespace Zabbix.ItemKey.Replace

open Common.Text ParseKey

/-- The arguments of the callback: the text, and what it is. -/
structure Call where
  text : Text
  level : Int
  num : Nat
  quoted : Bool
deriving DecidableEq

/-- The callback returns success, and a new text to put in place of the old one. -/
abbrev ReplaceKeyParam := Call → Bool × Option Text

/-- A callback that never replaces anything. -/
def keep : ReplaceKeyParam :=
  fun _ => (true, none)

structure Progress where
  done : Text
  level : Int
  num : Nat
  calls : List Call
deriving DecidableEq

/-- Go on to the next character. -/
def Progress.advance (progress : Progress) (char : Char) : Progress :=
  { progress with done := progress.done ++ [char] }

/-- `replace_key_param` for the text from position `l` to the current one. -/
def replaceKeyParam (cb : ReplaceKeyParam) (progress : Progress) (l : Nat) (quoted : Bool) :
    Bool × Progress :=
  let call := ⟨progress.done.drop l, progress.level, progress.num, quoted⟩
  let (ret, param) := cb call
  (ret,
    { progress with
      done :=
        match param with
        | none => progress.done
        | some param => progress.done.take l ++ param
      calls := progress.calls ++ [call] })

/-- The number of the next parameter, which only a comma between parameters counts. -/
def Progress.nextNum (progress : Progress) : Progress :=
  if progress.level = 1 then { progress with num := progress.num + 1 } else progress

/-- Where the loop is, with the position where the parameter begins. -/
inductive ParserState where
  | new
  | ended
  | unquoted (l : Nat)
  | quoted (l : Nat)
deriving DecidableEq

/-- What the loop ends with: the last result of the callback, and the position. -/
structure Outcome where
  ret : Bool
  progress : Progress
  rest : Text
deriving DecidableEq

/-- The size of a state in the order of the steps that stay at one character. -/
def ParserState.rank : ParserState → Nat
  | .unquoted _ => 1
  | _ => 0

def replaceLoop (cb : ReplaceKeyParam) (progress : Progress) : ParserState → Text → Outcome
  | _, [] => ⟨true, progress, []⟩
  | .new, char :: rest =>
    if char = ' ' then replaceLoop cb (progress.advance char) .new rest
    else if char = ',' then
      let (ret, progress) := replaceKeyParam cb progress progress.done.length false
      let progress := progress.nextNum.advance char
      if ret then replaceLoop cb progress .new rest else ⟨false, progress, rest⟩
    else if char = '[' then
      -- multi-level arrays are not allowed
      if progress.level = 2 then ⟨true, progress, char :: rest⟩
      else
        let progress := { progress with level := progress.level + 1 }
        replaceLoop cb (progress.nextNum.advance char) .new rest
    else if char = ']' then
      let (ret, progress) := replaceKeyParam cb progress progress.done.length false
      let progress := { progress with level := progress.level - 1 }.advance char
      if ret then replaceLoop cb progress .ended rest else ⟨false, progress, rest⟩
    else if char = '"' then
      replaceLoop cb (progress.advance char) (.quoted progress.done.length) rest
    else replaceLoop cb (progress.advance char) (.unquoted progress.done.length) rest
  | .ended, char :: rest =>
    if char = ' ' then replaceLoop cb (progress.advance char) .ended rest
    else if char = ',' then replaceLoop cb (progress.nextNum.advance char) .new rest
    else if char = ']' then
      -- a redundant bracket
      if progress.level = 0 then ⟨true, progress, char :: rest⟩
      else
        replaceLoop cb ({ progress with level := progress.level - 1 }.advance char) .ended rest
    else ⟨true, progress, char :: rest⟩
  | .unquoted l, char :: rest =>
    if char = ']' ∨ char = ',' then
      let (ret, progress) := replaceKeyParam cb progress l false
      -- the delimiter is looked at once more after the parameter
      if ret then replaceLoop cb progress .ended (char :: rest)
      else ⟨false, progress, char :: rest⟩
    else replaceLoop cb (progress.advance char) (.unquoted l) rest
  | .quoted l, char :: rest =>
    if char = '"' ∧ progress.done.getLast? ≠ some '\\' then
      let (ret, progress) := replaceKeyParam cb (progress.advance char) l true
      if ret then replaceLoop cb progress .ended rest else ⟨false, progress, rest⟩
    else replaceLoop cb (progress.advance char) (.quoted l) rest
termination_by state text => (text.length, state.rank)
decreasing_by
  all_goals
    first
    | (apply Prod.Lex.left
       simp only [List.length_cons]
       omega)
    | (apply Prod.Lex.right
       exact Nat.zero_lt_one)

/-- The results: success, the new text, the calls, and the message of an error. -/
structure Replaced where
  ret : Bool
  data : Text
  calls : List Call
  error : Option String
deriving DecidableEq

/-- The end of `replace_key_params_dyn`. -/
def clean (outcome : Outcome) : Replaced :=
  let progress := outcome.progress
  let invalid := progress.done = [] ∨ outcome.rest ≠ [] ∨ progress.level ≠ 0
  { ret := outcome.ret && !invalid
    data := progress.done ++ outcome.rest
    calls := progress.calls
    error :=
      if invalid then some ("Invalid item key at position " ++ toString progress.done.length)
      else none }

def replaceKeyParamsDyn (data : Text) (cb : ReplaceKeyParam) : Replaced :=
  let start : Progress := ⟨data.takeWhile isKeyChar, 0, 0, []⟩
  let rest := data.dropWhile isKeyChar
  if start.done = [] ∨ (rest ≠ [] ∧ rest.head? ≠ some '[') then
    clean ⟨true, start, rest⟩
  else
    let (ret, progress) := replaceKeyParam cb start 0 false
    clean (if ret then replaceLoop cb progress .new rest else ⟨false, progress, rest⟩)

end Zabbix.ItemKey.Replace
