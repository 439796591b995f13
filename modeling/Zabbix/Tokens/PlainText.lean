import Zabbix.Tokens.Calcitem
import Zabbix.Tokens.Containment

/-!
# Text without macros

The expansions leave a text without user macros as it is, and so do the parts of such a text.
-/

namespace Zabbix.Tokens.PlainText

open Common.Text Common.MacroContext Common.FunctionParams Common.WrittenParams Find List Option
open Tokens.Expression
open Containment Calcitem

/-! ## Expansion -/

section

variable {text : Text} {pos : Nat}

theorem NoMacro.firstMacro (noMacro : NoMacro text) (pos : Nat) : firstMacro text pos = none :=
  firstMacro_eq_none_iff.mpr fun l _ _ => noMacro l

theorem dcExpandUserMacrosInExpression_noMacro (noMacro : NoMacro text)
    (dcGetUserMacro : Resolver) : dcExpandUserMacrosInExpression text dcGetUserMacro = text :=
  expandLoop_of_noMacro dcGetUserMacro _ (NoMacro.firstMacro noMacro 0)

theorem expandPlainLoop_of_noMacro (dcGetUserMacro : Resolver) (turns : Nat) {lastPos : Nat}
    {str : Text} (noMacro : firstMacro text pos = none) :
    expandPlainLoop text dcGetUserMacro turns pos lastPos str = str ++ text.drop lastPos := by
  induction turns generalizing pos with
  | zero => rfl
  | succ turns ih =>
    rw [expandPlainLoop]
    cases found : zbxTokenFind text pos with
    | none => rfl
    | some token =>
      dsimp only
      cases isMacro : macroOf text token with
      | none => exact ih ((firstMacro_succ found isMacro).1.trans noMacro)
      | some userMacro =>
        rw [(firstMacro_of_find found isMacro).1] at noMacro
        cases noMacro

theorem dcExpandUserMacros_noMacro (noMacro : NoMacro text) (dcGetUserMacro : Resolver) :
    dcExpandUserMacros text dcGetUserMacro = text :=
  expandPlainLoop_of_noMacro dcGetUserMacro _ (NoMacro.firstMacro noMacro 0)

end

/-! ## Parts of a text -/

section

variable {text after rest name : Text} {c : Char} {before piece : Text}

/-- Whether the context of a macro is closed, and the macro after it. -/
def contextCloses (rest : Text) : Bool :=
  match skipBlanks rest with
  | '"' :: quoted =>
    (quotedLength quoted).any fun length =>
      (skipBlanks (quoted.drop (length + 1))).head? = some '}'
  | unquoted => unquoted.contains '}'

/-- What follows the name of a macro up to its end. -/
def macroCloses : Text → Bool
  | '}' :: _ => true
  | ':' :: rest => contextCloses rest
  | _ => false

theorem drop_blankCount (text : Text) : text.drop (blankCount text) = skipBlanks text :=
  drop_length_takeWhile _ _

theorem unquotedLength_isSome (text : Text) :
    (unquotedLength text).isSome = text.contains '}' := by
  fun_induction unquotedLength text with
  | case1 => rfl
  | case2 => simp
  | case3 c rest notBrace ih =>
    have isOther : ('}' == c) = false := by
      rw [beq_eq_false_iff_ne]
      rintro rfl
      exact notBrace rfl
    rw [isSome_map, ih, contains_cons, isOther, Bool.false_or]

theorem zbxUserMacroParse_isSome (start : Text) (isStart : start.length = 2) (rest : Text) :
    (zbxUserMacroParse (start ++ rest) false).isSome =
      (!(rest.takeWhile isMacroChar).isEmpty && macroCloses (rest.dropWhile isMacroChar)) := by
  have isRest : (start ++ rest).drop 2 = rest := drop_left' isStart
  have isTail : (start ++ rest).drop (2 + (rest.takeWhile isMacroChar).length) =
      rest.dropWhile isMacroChar := by
    rw [← drop_drop, isRest, drop_length_takeWhile]
  rw [zbxUserMacroParse, isRest, isTail]
  cases isName : rest.takeWhile isMacroChar with
  | nil => rfl
  | cons first name =>
    rw [isName] at isTail
    rw [if_neg (by simp)]
    simp only [isEmpty_cons, Bool.not_false, Bool.true_and]
    split
    next others shape => rw [shape]; rfl
    next context shape =>
      rw [shape] at isTail
      have isContext : (start ++ rest).drop (2 + (first :: name).length + 1) = context := by
        rw [← drop_drop, isTail]
        rfl
      have isWritten : (start ++ rest).drop
          (2 + (first :: name).length + 1 + blankCount context) = skipBlanks context := by
        rw [← drop_drop, isContext, drop_blankCount]
      simp only [Bool.false_and, Bool.false_eq_true, if_false, isContext, isWritten, shape,
        macroCloses, contextCloses]
      split
      next quoted isQuoted =>
        simp only [isQuoted]
        cases found : quotedLength quoted with
        | none => rfl
        | some length =>
          have isAfter : (start ++ rest).drop (2 + (first :: name).length + 1 +
              blankCount context + 1 + length + 1) = quoted.drop (length + 1) := by
            rw [Nat.add_assoc _ 1 length, Nat.add_assoc _ _ 1, ← drop_drop, isWritten,
              isQuoted, Nat.add_comm 1 length, drop_succ_cons]
          simp only [bind_some, isAfter, any_some]
          rw [← drop_drop, isAfter, drop_blankCount]
          split_ifs with isBrace
          · rw [isBrace]
            rfl
          · rw [decide_eq_false isBrace]
            rfl
      next notQuoted =>
        split
        next quoted isQuoted => exact absurd isQuoted (notQuoted quoted)
        next => rw [isSome_map, unquotedLength_isSome]
    next notBrace notColon =>
      rw [macroCloses]
      · rfl
      · exact notBrace
      · exact notColon

theorem skipBlanks_append (nonempty : skipBlanks text ≠ []) (after : Text) :
    skipBlanks (text ++ after) = skipBlanks text ++ after := by
  rw [skipBlanks, dropWhile_append, ← skipBlanks, if_neg (by simpa using nonempty)]

theorem quotedLength_append {length : Nat} (found : quotedLength text = some length)
    (after : Text) :
    quotedLength (text ++ after) = some length ∧ length < text.length := by
  fun_induction quotedLength text generalizing length with
  | case1 => cases found
  | case2 rest =>
    obtain rfl := some.inj found
    exact ⟨rfl, Nat.succ_pos _⟩
  | case3 rest ih =>
    obtain ⟨count, foundLater, rfl⟩ := map_eq_some_iff.mp found
    obtain ⟨isFound, isLess⟩ := ih foundLater
    refine ⟨?_, by simpa using isLess⟩
    rw [cons_append, cons_append, quotedLength, isFound]
    rfl
  | case4 c rest notQuote notEscape ih =>
    obtain ⟨count, foundLater, rfl⟩ := map_eq_some_iff.mp found
    obtain ⟨isFound, isLess⟩ := ih foundLater
    refine ⟨?_, by simpa using isLess⟩
    have notEscaped : c ≠ '\\' ∨ (rest ++ after).head? ≠ some '"' := by
      cases rest with
      | nil => cases foundLater
      | cons next others =>
        refine not_and_or.mp fun both => notEscape others both.1 ?_
        rw [some.inj both.2]
    rw [cons_append, quotedLength_cons notQuote notEscaped, isFound]
    rfl

theorem contextCloses_quoted {quoted : Text} (isQuoted : skipBlanks rest = '"' :: quoted) :
    contextCloses rest = (quotedLength quoted).any fun length =>
      (skipBlanks (quoted.drop (length + 1))).head? = some '}' := by
  rw [contextCloses, isQuoted]
  rfl

theorem contextCloses_plain (notQuoted : (skipBlanks rest).head? ≠ some '"') :
    contextCloses rest = (skipBlanks rest).contains '}' := by
  rw [contextCloses]
  split
  next quoted isQuoted =>
    rw [isQuoted] at notQuoted
    exact absurd rfl notQuoted
  next => rfl

theorem mem_of_contextCloses (closes : contextCloses rest = true) : '}' ∈ skipBlanks rest := by
  by_cases isQuote : (skipBlanks rest).head? = some '"'
  · obtain ⟨quoted, isQuoted⟩ := head?_eq_some_iff.mp isQuote
    rw [contextCloses_quoted isQuoted] at closes
    obtain ⟨length, -, isBrace⟩ := (Option.any_eq_true _ _).mp closes
    rw [isQuoted]
    apply mem_cons_of_mem
    apply mem_of_mem_drop
    exact (dropWhile_suffix _).mem (mem_of_mem_head? (of_decide_eq_true isBrace))
  · rw [contextCloses_plain isQuote] at closes
    exact contains_iff_mem.mp closes

theorem contextCloses_append (closes : contextCloses rest = true) (after : Text) :
    contextCloses (rest ++ after) = true := by
  have isMem := mem_of_contextCloses closes
  have isSame := skipBlanks_append (ne_nil_of_mem isMem) after
  by_cases isQuote : (skipBlanks rest).head? = some '"'
  · obtain ⟨quoted, isQuoted⟩ := head?_eq_some_iff.mp isQuote
    rw [isQuoted, cons_append] at isSame
    rw [contextCloses_quoted isQuoted] at closes
    rw [contextCloses_quoted isSame]
    obtain ⟨length, found, isBrace⟩ := (Option.any_eq_true _ _).mp closes
    obtain ⟨isFound, isLess⟩ := quotedLength_append found after
    have isHead := of_decide_eq_true isBrace
    have nonempty : skipBlanks (quoted.drop (length + 1)) ≠ [] := by
      intro isEmpty
      rw [isEmpty] at isHead
      cases isHead
    rw [isFound, any_some, drop_append_of_le_length isLess,
      skipBlanks_append nonempty, head?_append_of_ne_nil _ nonempty]
    exact isBrace
  · have notQuote : (skipBlanks (rest ++ after)).head? ≠ some '"' := by
      rw [isSame, head?_append_of_ne_nil _ (ne_nil_of_mem isMem)]
      exact isQuote
    rw [contextCloses_plain notQuote, isSame]
    exact contains_iff_mem.mpr (mem_append_left _ isMem)

/-! ## Escaped text -/

theorem escapeQuotes_append (text after : Text) :
    escapeQuotes (text ++ after) = escapeQuotes text ++ escapeQuotes after := by
  induction text with
  | nil => rfl
  | cons c text ih =>
    by_cases isQuote : c = '"'
    · subst isQuote
      rw [cons_append, escapeQuotes, escapeQuotes, ih]
      rfl
    · rw [cons_append, escapeQuotes_cons isQuote, escapeQuotes_cons isQuote, ih]
      rfl

theorem escapeQuotes_plain (noQuote : '"' ∉ text) : escapeQuotes text = text := by
  induction text with
  | nil => rfl
  | cons c text ih =>
    rw [mem_cons, not_or] at noQuote
    rw [escapeQuotes_cons (Ne.symm noQuote.1), ih noQuote.2]

theorem mem_escapeQuotes (isMem : c ∈ text) : c ∈ escapeQuotes text := by
  induction text with
  | nil => cases isMem
  | cons first text ih =>
    by_cases isQuote : first = '"'
    · subst isQuote
      rw [escapeQuotes]
      obtain rfl | isLater := mem_cons.mp isMem
      · exact mem_cons_of_mem _ mem_cons_self
      · exact mem_cons_of_mem _ (mem_cons_of_mem _ (ih isLater))
    · rw [escapeQuotes_cons isQuote]
      obtain rfl | isLater := mem_cons.mp isMem
      · exact mem_cons_self
      · exact mem_cons_of_mem _ (ih isLater)

theorem skipBlanks_escapeQuotes (text : Text) :
    skipBlanks (escapeQuotes text) = escapeQuotes (skipBlanks text) := by
  induction text with
  | nil => rfl
  | cons c text ih =>
    by_cases isBlank : c = ' '
    · subst isBlank
      rw [escapeQuotes_cons (by decide), skipBlanks_blank, skipBlanks_blank, ih]
    · rw [skipBlanks_cons isBlank]
      by_cases isQuote : c = '"'
      · subst isQuote
        rw [escapeQuotes, skipBlanks_cons (by decide)]
      · rw [escapeQuotes_cons isQuote, skipBlanks_cons isBlank]

theorem contextCloses_escape (closes : contextCloses rest = true) :
    contextCloses (escapeQuotes rest) = true := by
  have isMem := mem_of_contextCloses closes
  have notQuote : (skipBlanks (escapeQuotes rest)).head? ≠ some '"' := by
    have notHead := head?_escapeQuotes_append (ne_nil_of_mem isMem) []
    rwa [append_nil, ← skipBlanks_escapeQuotes] at notHead
  rw [contextCloses_plain notQuote, skipBlanks_escapeQuotes]
  exact contains_iff_mem.mpr (mem_escapeQuotes isMem)

/-! ## Macros at the start of a text -/

theorem macroAt_zero_iff :
    macroAt text 0 ≠ none ↔
      ∃ rest, text = ['{', '$'] ++ rest ∧ rest.takeWhile isMacroChar ≠ [] ∧
        macroCloses (rest.dropWhile isMacroChar) = true := by
  rw [macroAt, drop_zero]
  constructor
  · intro isMacro
    split_ifs at isMacro with isStart
    · obtain ⟨rest, rfl⟩ := isPrefixOf_iff_prefix.mp isStart
      have isSome := isSome_iff_ne_none.mpr isMacro
      rw [zbxUserMacroParseDyn, isSome_map, zbxUserMacroParse_isSome _ rfl,
        Bool.and_eq_true, Bool.not_eq_true', isEmpty_eq_false_iff] at isSome
      exact ⟨rest, rfl, isSome⟩
    · exact absurd rfl isMacro
  · rintro ⟨rest, rfl, hasName, closes⟩
    rw [if_pos ( isPrefixOf_iff_prefix.mpr ⟨rest, rfl⟩), ← isSome_iff_ne_none,
      zbxUserMacroParseDyn, isSome_map, zbxUserMacroParse_isSome _ rfl, Bool.and_eq_true,
      Bool.not_eq_true', isEmpty_eq_false_iff]
    exact ⟨hasName, closes⟩

theorem macroCloses_append (closes : macroCloses rest = true) (after : Text) :
    macroCloses (rest ++ after) = true := by
  unfold macroCloses at closes
  split at closes
  · rfl
  · exact contextCloses_append closes after
  · cases closes

theorem macroCloses_escape (closes : macroCloses rest = true) :
    macroCloses (escapeQuotes rest) = true := by
  unfold macroCloses at closes
  split at closes
  · rfl
  · exact contextCloses_escape closes
  · cases closes

theorem exists_cons_of_macroCloses (closes : macroCloses rest = true) :
    ∃ c others, rest = c :: others ∧ isMacroChar c = false := by
  unfold macroCloses at closes
  split at closes
  · exact ⟨_, _, rfl, rfl⟩
  · exact ⟨_, _, rfl, rfl⟩
  · cases closes

theorem macroAt_append (isMacro : macroAt text 0 ≠ none) (after : Text) :
    macroAt (text ++ after) 0 ≠ none := by
  obtain ⟨rest, rfl, hasName, closes⟩ := macroAt_zero_iff.mp isMacro
  obtain ⟨c, others, isTail, notChar⟩ := exists_cons_of_macroCloses closes
  have isName : ∀ c ∈ rest.takeWhile isMacroChar, isMacroChar c = true :=
    fun c isMem => mem_takeWhile_imp isMem
  have isRest : rest ++ after = rest.takeWhile isMacroChar ++ c :: (others ++ after) := by
    rw [← cons_append, ← isTail, ← append_assoc, takeWhile_append_dropWhile]
  obtain ⟨isTaken, isDropped⟩ := split_while isName notChar (others ++ after)
  refine macroAt_zero_iff.mpr ⟨rest ++ after, append_assoc _ _ _, ?_, ?_⟩
  · rw [isRest, isTaken]
    exact hasName
  · rw [isRest, isDropped, ← cons_append, ← isTail]
    exact macroCloses_append closes after

theorem macroAt_escape (isMacro : macroAt text 0 ≠ none) :
    macroAt (escapeQuotes text) 0 ≠ none := by
  obtain ⟨rest, rfl, hasName, closes⟩ := macroAt_zero_iff.mp isMacro
  have noQuote : '"' ∉ rest.takeWhile isMacroChar := by
    intro isMem
    exact absurd (mem_takeWhile_imp isMem) (by decide)
  have isRest : escapeQuotes rest =
      rest.takeWhile isMacroChar ++ escapeQuotes (rest.dropWhile isMacroChar) := by
    conv_lhs => rw [← takeWhile_append_dropWhile (p := isMacroChar) (l := rest)]
    rw [escapeQuotes_append, escapeQuotes_plain noQuote]
  have isName : ∀ c ∈ rest.takeWhile isMacroChar, isMacroChar c = true :=
    fun c isMem => mem_takeWhile_imp isMem
  have closesEscaped := macroCloses_escape closes
  obtain ⟨c, others, isTail, notChar⟩ := exists_cons_of_macroCloses closesEscaped
  rw [isTail] at isRest closesEscaped
  obtain ⟨isTaken, isDropped⟩ := split_while isName notChar others
  refine macroAt_zero_iff.mpr ⟨escapeQuotes rest, ?_, ?_, ?_⟩
  · rw [escapeQuotes_append]
    rfl
  · rw [isRest, isTaken]
    exact hasName
  · rw [isRest, isDropped]
    exact closesEscaped

/-! ## Texts without macros -/

theorem noMacro_iff :
    NoMacro text ↔ ∀ front suffix, text = front ++ suffix → macroAt suffix 0 = none := by
  constructor
  · rintro noMacro front suffix rfl
    have notHere := noMacro front.length
    rwa [macroAt, drop_left] at notHere
  · intro noMacro l
    have notHere := noMacro (text.take l) (text.drop l) (take_append_drop l text).symm
    rwa [macroAt, drop_zero] at notHere

theorem noMacro_part (noMacro : NoMacro (before ++ (piece ++ after))) : NoMacro piece := by
  rw [noMacro_iff] at noMacro ⊢
  intro front suffix isPiece
  by_contra isMacro
  refine macroAt_append isMacro after (noMacro (before ++ front) (suffix ++ after) ?_)
  rw [isPiece, append_assoc, append_assoc]

theorem noMacro_start (noMacro : NoMacro (piece ++ after)) : NoMacro piece := by
  rw [← nil_append (piece ++ after)] at noMacro
  exact noMacro_part noMacro

theorem noMacro_end (noMacro : NoMacro (before ++ piece)) : NoMacro piece := by
  rw [← append_nil piece] at noMacro
  exact noMacro_part noMacro

theorem noMacro_drop (noMacro : NoMacro text) (count : Nat) : NoMacro (text.drop count) :=
  @noMacro_end (text.take count) _ (by rwa [take_append_drop])

theorem noMacro_of_noBrace (noBrace : '{' ∉ text) : NoMacro text := by
  refine noMacro_iff.mpr ?_
  rintro front suffix rfl
  by_contra isMacro
  obtain ⟨rest, rfl, -⟩ := macroAt_zero_iff.mp isMacro
  exact noBrace (mem_append_right _ mem_cons_self)

theorem noMacro_of_escape (noMacro : NoMacro (escapeQuotes text)) : NoMacro text := by
  rw [noMacro_iff] at noMacro ⊢
  intro front suffix isText
  by_contra isMacro
  refine macroAt_escape isMacro (noMacro (escapeQuotes front) (escapeQuotes suffix) ?_)
  rw [isText, escapeQuotes_append]

end

end Zabbix.Tokens.PlainText
