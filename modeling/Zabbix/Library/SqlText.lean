import Mathlib.Data.List.Basic

/-!
# Tokens of SQL

The text of a query is cut into keywords, names, numbers, string literals and signs.  A quote in a
literal is doubled; where backslashes escape, a quote or a backslash may also follow one.
-/

namespace Zabbix.Library.SqlText

open List Option

inductive Keyword where
  | selectWord
  | fromWord
  | whereWord
  | existsWord
  | notWord
  | isWord
  | nullWord
  | inWord
  | likeWord
  | binaryWord
  | andWord
  | orWord
deriving DecidableEq

/-- A name is qualified by the alias of its table where it is the name of a column. -/
inductive Token where
  | keyword (word : Keyword)
  | name (word : List Char)
  | number (value : Nat)
  | literal (text : List Char)
  | equals
  | opening
  | closing
  | comma
deriving DecidableEq

def keywordOf : List Char → Option Keyword
  | ['s', 'e', 'l', 'e', 'c', 't'] => some .selectWord
  | ['f', 'r', 'o', 'm'] => some .fromWord
  | ['w', 'h', 'e', 'r', 'e'] => some .whereWord
  | ['e', 'x', 'i', 's', 't', 's'] => some .existsWord
  | ['n', 'o', 't'] => some .notWord
  | ['i', 's'] => some .isWord
  | ['n', 'u', 'l', 'l'] => some .nullWord
  | ['i', 'n'] => some .inWord
  | ['l', 'i', 'k', 'e'] => some .likeWord
  | ['b', 'i', 'n', 'a', 'r', 'y'] => some .binaryWord
  | ['a', 'n', 'd'] => some .andWord
  | ['o', 'r'] => some .orWord
  | _ => none

def wordToken (word : List Char) : Token :=
  match keywordOf word with
  | some keyword => .keyword keyword
  | none => if word.all Char.isDigit then .number (Nat.ofDigitChars 10 word 0) else .name word

/-! ## Cutting a text into tokens -/

/-- What of a token has been read. -/
inductive Mode where
  | between
  | word (read : List Char)
  | literal (read : List Char)
  /-- A literal is over unless its quote is doubled. -/
  | quote (read : List Char)
  | escape (read : List Char)
deriving DecidableEq

def isBlank (c : Char) : Bool :=
  c = ' ' || c = '\t' || c = '\r' || c = '\n'

def isWordChar (c : Char) : Bool :=
  c.isAlphanum || c = '_' || c = '.'

def signToken : Char → Option Token
  | '=' => some .equals
  | '(' => some .opening
  | ')' => some .closing
  | ',' => some .comma
  | _ => none

/-- The token that the next character ends. -/
def pending : Mode → List Token
  | .word read => [wordToken read]
  | .quote read => [.literal read]
  | _ => []

/-- The text may end here. -/
def isComplete : Mode → Bool
  | .literal _ | .escape _ => false
  | _ => true

/-- A character that does not belong to the token before it. -/
def start (c : Char) : Option (List Token × Mode) :=
  if isBlank c then some ([], .between)
  else if isWordChar c then some ([], .word [c])
  else if c = '\'' then some ([], .literal [])
  else (signToken c).map fun token => ([token], .between)

variable (escapes : Bool)

/-- The tokens that are complete with the next character. -/
def next (mode : Mode) (c : Char) : Option (List Token × Mode) :=
  match mode with
  | .between => start c
  | .word read =>
    if isWordChar c then some ([], .word (read ++ [c]))
    else (start c).map fun (tokens, mode) => (wordToken read :: tokens, mode)
  | .literal read =>
    if c = '\'' then some ([], .quote read)
    else if escapes && c = '\\' then some ([], .escape read)
    else some ([], .literal (read ++ [c]))
  | .quote read =>
    if c = '\'' then some ([], .literal (read ++ [c]))
    else (start c).map fun (tokens, mode) => (.literal read :: tokens, mode)
  | .escape read =>
    if c = '\'' || c = '\\' then some ([], .literal (read ++ [c])) else none

def lexFrom : Mode → List Char → Option (List Token × Mode)
  | mode, [] => some ([], mode)
  | mode, c :: rest =>
    (next escapes mode c).bind fun (tokens, mode) =>
      (lexFrom mode rest).map fun (later, mode) => (tokens ++ later, mode)

/-- The tokens of a text, which must not end within a literal. -/
def lex (text : List Char) : Option (List Token) :=
  (lexFrom escapes .between text).bind fun (tokens, mode) =>
    if isComplete mode then some (tokens ++ pending mode) else none

example : lex true "pt.value= binary 'it\\'s'".toList =
    some [.name "pt.value".toList, .equals, .keyword .binaryWord, .literal "it's".toList] := by
  decide

/-! ## Texts after one another -/

variable {escapes} {mode mode' mode'' : Mode} {first second text : List Char}
  {tokens tokens' : List Token} {c : Char}

theorem lexFrom_cons {now : List Token} {inside : Mode}
    (isNext : next escapes mode c = some (now, inside)) (rest : List Char) :
    lexFrom escapes mode (c :: rest) =
      (lexFrom escapes inside rest).map fun (later, after) => (now ++ later, after) := by
  rw [lexFrom, isNext]
  rfl

theorem lexFrom_append (isFirst : lexFrom escapes mode first = some (tokens, mode'))
    (isSecond : lexFrom escapes mode' second = some (tokens', mode'')) :
    lexFrom escapes mode (first ++ second) = some (tokens ++ tokens', mode'') := by
  induction first generalizing mode tokens with
  | nil =>
    obtain ⟨rfl, rfl⟩ := Prod.mk.inj (some.inj isFirst)
    exact isSecond
  | cons c first ih =>
    obtain ⟨⟨now, inside⟩, isNext, isLater⟩ := bind_eq_some_iff.mp isFirst
    obtain ⟨⟨later, after⟩, isRest, same⟩ := map_eq_some_iff.mp isLater
    obtain ⟨rfl, rfl⟩ := Prod.mk.inj same
    rw [cons_append, lexFrom_cons isNext, ih isRest, map_some, append_assoc]

/-- The text is a sequence of tokens, the last of which may be ended by what follows. -/
def Spells (escapes : Bool) (text : List Char) (tokens : List Token) : Prop :=
  ∃ before mode, lexFrom escapes .between text = some (before, mode) ∧
    tokens = before ++ pending mode ∧ isComplete mode = true

theorem lex_of_spells (spells : Spells escapes text tokens) : lex escapes text = some tokens := by
  obtain ⟨before, mode, isRead, rfl, complete⟩ := spells
  rw [lex, isRead, bind_some]
  exact if_pos complete

/-- The text spells tokens and nothing after it belongs to the last one. -/
theorem spells_of_lexFrom (isRead : lexFrom escapes .between text = some (tokens, .between)) :
    Spells escapes text tokens :=
  ⟨tokens, .between, isRead, (append_nil tokens).symm, rfl⟩

theorem Spells.after_between (isRead : lexFrom escapes .between first = some (tokens, .between))
    (spells : Spells escapes second tokens') : Spells escapes (first ++ second) (tokens ++ tokens') := by
  obtain ⟨before, mode, isSecond, rfl, complete⟩ := spells
  exact ⟨tokens ++ before, mode, lexFrom_append isRead isSecond, (append_assoc ..).symm, complete⟩

/-- A character that ends a word and a literal. -/
def isBreak (c : Char) : Bool :=
  !isWordChar c && c ≠ '\''

theorem next_of_isBreak (breaks : isBreak c = true) (complete : isComplete mode = true) :
    next escapes mode c = (start c).map fun (tokens, after) => (pending mode ++ tokens, after) := by
  have notWord : isWordChar c = false := by
    simpa using (Bool.and_eq_true_iff.mp breaks).1
  have notQuote : c ≠ '\'' := by
    simpa using (Bool.and_eq_true_iff.mp breaks).2
  cases mode with
  | between => cases isStart : start c <;> simp [next, pending, isStart]
  | word read => simp [next, pending, notWord]
  | quote read => simp [next, pending, notQuote]
  | literal read | escape read => cases complete

/-- A text that begins with a break may follow any other. -/
theorem Spells.append_cons (spells : Spells escapes first tokens) (breaks : isBreak c = true)
    (later : Spells escapes (c :: second) tokens') :
    Spells escapes (first ++ c :: second) (tokens ++ tokens') := by
  obtain ⟨before, mode, isFirst, rfl, complete⟩ := spells
  obtain ⟨before', mode', isSecond, rfl, complete'⟩ := later
  refine ⟨before ++ (pending mode ++ before'), mode', lexFrom_append isFirst ?_, ?_, complete'⟩
  · obtain ⟨⟨now, inside⟩, isNext, isLater⟩ := bind_eq_some_iff.mp isSecond
    obtain ⟨⟨rest, after⟩, isRest, same⟩ := map_eq_some_iff.mp isLater
    obtain ⟨rfl, rfl⟩ := Prod.mk.inj same
    have isStart : start c = some (now, inside) := isNext
    have isBroken : next escapes mode c = some (pending mode ++ now, inside) := by
      rw [next_of_isBreak breaks complete, isStart, map_some]
    rw [lexFrom_cons isBroken, isRest, map_some]
    exact congrArg (fun tokens => some (tokens, after)) (append_assoc ..)
  · simp only [append_assoc]

theorem spells_nil : Spells escapes [] [] :=
  spells_of_lexFrom rfl

/-- The text may follow any other. -/
def StartsApart (text : List Char) : Prop :=
  ∀ c ∈ text.head?, isBreak c = true

theorem Spells.append (spells : Spells escapes first tokens) (apart : StartsApart second)
    (later : Spells escapes second tokens') : Spells escapes (first ++ second) (tokens ++ tokens') := by
  cases second with
  | cons c second => exact spells.append_cons (apart c rfl) later
  | nil =>
    have isEnd := (lex_of_spells later).symm.trans (lex_of_spells spells_nil)
    rw [some.inj isEnd, append_nil, append_nil]
    exact spells

theorem Spells.blank (isBlank : isBlank c = true) (spells : Spells escapes text tokens) :
    Spells escapes (c :: text) tokens := by
  have isRead : lexFrom escapes .between [c] = some ([], .between) := by
    simp [lexFrom, next, start, isBlank]
  exact Spells.after_between isRead spells

theorem Spells.blanks {blanks : List Char} (areBlank : ∀ c ∈ blanks, SqlText.isBlank c = true)
    (spells : Spells escapes text tokens) : Spells escapes (blanks ++ text) tokens := by
  induction blanks with
  | nil => exact spells
  | cons c blanks ih =>
    obtain ⟨isFirst, areLater⟩ := forall_mem_cons.mp areBlank
    exact (ih areLater).blank isFirst

/-! ## Words and literals -/

theorem not_isBlank_of_isWordChar (isWord : isWordChar c = true) : isBlank c = false := by
  rw [isBlank, Bool.or_eq_false_iff, Bool.or_eq_false_iff, Bool.or_eq_false_iff]
  refine ⟨⟨⟨?_, ?_⟩, ?_⟩, ?_⟩ <;>
    (rw [decide_eq_false_iff_not]; rintro rfl; exact absurd isWord (by decide))

theorem lexFrom_wordChars {word : List Char} (areWord : ∀ c ∈ word, isWordChar c = true)
    (read : List Char) : lexFrom escapes (.word read) word = some ([], .word (read ++ word)) := by
  induction word generalizing read with
  | nil => rw [lexFrom, append_nil]
  | cons c word ih =>
    obtain ⟨isFirst, areLater⟩ := forall_mem_cons.mp areWord
    have isNext : next escapes (.word read) c = some ([], .word (read ++ [c])) := by
      rw [next, if_pos isFirst]
    rw [lexFrom_cons isNext, ih areLater, append_assoc]
    rfl

theorem spells_word {word : List Char} (areWord : ∀ c ∈ word, isWordChar c = true)
    (nonempty : word ≠ []) : Spells escapes word [wordToken word] := by
  obtain ⟨c, others, rfl⟩ := exists_cons_of_ne_nil nonempty
  obtain ⟨isFirst, areLater⟩ := forall_mem_cons.mp areWord
  refine ⟨[], .word (c :: others), ?_, rfl, rfl⟩
  have isNext : next escapes .between c = some ([], .word [c]) := by
    rw [next, start, not_isBlank_of_isWordChar isFirst, if_neg Bool.false_ne_true, if_pos isFirst]
  rw [lexFrom_cons isNext, lexFrom_wordChars areLater]
  rfl

theorem keywordOf_digits {word : List Char} (areDigits : ∀ c ∈ word, c.isDigit = true) :
    keywordOf word = none := by
  unfold keywordOf
  split <;> first | rfl | exact absurd (areDigits _ mem_cons_self) (by decide)

theorem spells_number (value : Nat) :
    Spells escapes (Nat.toDigits 10 value) [.number value] := by
  have areDigits : ∀ c ∈ Nat.toDigits 10 value, c.isDigit = true :=
    fun _ member => Nat.isDigit_of_mem_toDigits (by decide) (by decide) member
  have isToken : wordToken (Nat.toDigits 10 value) = .number value := by
    rw [wordToken, keywordOf_digits areDigits]
    simp only [List.all_eq_true.mpr areDigits, if_true, Nat.ofDigitChars_ten_toDigits]
  have areWord : ∀ c ∈ Nat.toDigits 10 value, isWordChar c = true := by
    intro c member
    rw [isWordChar, Char.isAlphanum, areDigits c member, Bool.or_true, Bool.true_or, Bool.true_or]
  rw [← isToken]
  exact spells_word areWord Nat.toDigits_ne_nil

theorem spells_literal {before middle read literal : List Char}
    (isBefore : lexFrom escapes .between before = some (tokens, .literal read))
    (isInside : lexFrom escapes (.literal read) middle = some ([], .literal literal)) :
    Spells escapes (before ++ (middle ++ ['\''])) (tokens ++ [.literal literal]) := by
  have isEnd : lexFrom escapes (.literal literal) ['\''] = some ([], .quote literal) := rfl
  refine ⟨tokens, .quote literal, ?_, rfl, rfl⟩
  have isRead := lexFrom_append isBefore (lexFrom_append isInside isEnd)
  rwa [append_nil, append_nil] at isRead

end Zabbix.Library.SqlText
