import Mathlib.Data.List.Induction
import Zabbix.Tokens.Expression

/-!
# Values in quoted strings

What is read of the value of a macro, and when a value stays where its macro stands.
-/

namespace Zabbix.Tokens.Containment

open Common.Text Common.MacroContext Expression.Numbers Find Tokens.Expression List Option

/-! ## Reading text -/

section

variable {mode : Mode} {text rest value replacement : Text} {c : Char}

theorem readText_append (mode : Mode) (text rest : Text) :
    readText mode (text ++ rest) =
      ((readText (readText mode text).1 rest).1,
        (readText mode text).2 ++ (readText (readText mode text).1 rest).2) := by
  induction text generalizing mode with
  | nil => rfl
  | cons c text ih =>
    rw [cons_append, readText, readText, ih, append_assoc]

/-- Each character of a string leaves a mark, a backslash together with the next one. -/
theorem eq_nil_of_inside (noMarks : readText .inside text = (.inside, [])) : text = [] := by
  cases text with
  | nil => rfl
  | cons c rest =>
    have isMark := congrArg Prod.snd noMarks
    simp only [readText, readChar] at isMark
    split_ifs at isMark with isQuote isBackslash
    · cases isMark
    · cases rest with
      | nil =>
        subst isBackslash
        exact absurd (congrArg Prod.fst noMarks) (by decide)
      | cons next rest => cases isMark
    · cases isMark

theorem eq_nil_of_outside (noMarks : (readText .outside text).2 = []) : text = [] := by
  cases text with
  | nil => rfl
  | cons c rest =>
    simp only [readText, readChar] at noMarks
    split_ifs at noMarks
    · cases noMarks
    · cases noMarks

theorem behindMacro_ne_escaped (mode : Mode) : mode.behindMacro ≠ .escaped := by
  cases mode <;> decide

/-- The flag of the loop follows the reader, who is not stopped by a backslash at the end. -/
theorem scanQuotes_eq (mode : Mode) (known : mode ≠ .escaped) (text : Text) :
    scanQuotes (decide (mode = .inside)) text =
      decide ((readText mode text).1.behindMacro = .inside) := by
  induction text using twoStepInduction generalizing mode with
  | nil => cases mode <;> simp_all [scanQuotes, readText, Mode.behindMacro]
  | singleton c =>
    cases mode with
    | escaped => exact absurd rfl known
    | outside =>
      by_cases isQuote : c = '"' <;>
        simp [scanQuotes, readText, readChar, Mode.behindMacro, isQuote]
    | inside =>
      by_cases isQuote : c = '"'
      · simp [scanQuotes, readText, readChar, Mode.behindMacro, isQuote]
      · by_cases isBackslash : c = '\\' <;>
          simp [scanQuotes, readText, readChar, Mode.behindMacro, isQuote, isBackslash]
  | cons_cons c next rest behind later =>
    cases mode with
    | escaped => exact absurd rfl known
    | outside =>
      rw [scanQuotes, if_neg (by simp)]
      by_cases isQuote : c = '"'
      · subst isQuote
        exact later next .inside (by decide)
      · rw [if_neg isQuote, readText, readChar, if_neg isQuote]
        exact later next .outside (by decide)
    | inside =>
      rw [scanQuotes]
      by_cases isBackslash : c = '\\'
      · subst isBackslash
        exact behind .inside (by decide)
      · rw [if_neg fun both => isBackslash both.1]
        by_cases isQuote : c = '"'
        · subst isQuote
          exact later next .outside (by decide)
        · rw [if_neg isQuote, readText, readChar, if_neg isQuote, if_neg isBackslash]
          exact later next .inside (by decide)

/-! ## Values -/

theorem readText_escape (value : Text) :
    readText .inside (zbxEscapeString value ['"', '\\']) = (.inside, value.map .content) := by
  induction value with
  | nil => rfl
  | cons c value ih =>
    rw [zbxEscapeString, flatMap_cons, ← zbxEscapeString, readText_append]
    by_cases isEscaped : c = '"' ∨ c = '\\'
    · have isChar : readText .inside ['\\', c] = (.inside, [.content c]) := rfl
      rw [if_pos (by simpa using isEscaped), isChar, ih]
      rfl
    · obtain ⟨notQuote, notBackslash⟩ := not_or.mp isEscaped
      have isChar : readText .inside [c] = (.inside, [.content c]) := by
        simp [readText, readChar, notQuote, notBackslash]
      rw [if_neg (by simpa using isEscaped), isChar, ih]
      rfl

theorem not_special_of_number (isNumber : (evaluateStringToDouble value).isSome)
    (member : c ∈ value) : ¬(c = '"' ∨ c = '\\') := by
  obtain ⟨converted, isValue⟩ := isSome_iff_exists.mp isNumber
  have isNumberText (number : SuffixedNumber) (inText : c ∈ number.text) :
      isMantissa c = true ∨ isExponent c = true ∨ isSign c = true ∨ c ∈ zbxUnitSymbols := by
    rw [SuffixedNumber.text, mem_append, mem_append] at inText
    obtain inMantissa | inExponent | inSuffix := inText
    · exact Or.inl (isMantissa_of_mem_mantissa number c inMantissa)
    · cases shape : number.exponent with
      | none => simp [shape] at inExponent
      | some exponent =>
        rw [shape, elim_some, Exponent.text, mem_cons, mem_append] at inExponent
        obtain rfl | inSign | inDigits := inExponent
        · exact Or.inr (Or.inl exponent.isLetter)
        · exact Or.inr (Or.inr (Or.inl (exponent.isSigned c (mem_toList.mp inSign))))
        · exact Or.inl (by simp [isMantissa, exponent.areDigits c inDigits])
    · exact Or.inr (Or.inr (Or.inr (number.isUnit c (mem_toList.mp inSuffix))))
  intro either
  obtain ⟨number, ⟨rfl, -⟩ | ⟨rfl, -⟩⟩ := evaluateStringToDouble_eq_some_iff.mp isValue
  · obtain rfl | rfl := either
    · exact absurd (isNumberText number member) (by decide)
    · exact absurd (isNumberText number member) (by decide)
  · obtain rfl | inText := mem_cons.mp member
    · exact absurd either (by decide)
    · obtain rfl | rfl := either
      · exact absurd (isNumberText number inText) (by decide)
      · exact absurd (isNumberText number inText) (by decide)

theorem escape_of_number (isNumber : (evaluateStringToDouble value).isSome) :
    zbxEscapeString value ['"', '\\'] = value := by
  have isSame : ∀ c ∈ value, (if ['"', '\\'].contains c then ['\\', c] else [c]) = [c] :=
    fun c member => if_neg (by simpa using not_special_of_number isNumber member)
  rw [zbxEscapeString, flatMap_congr isSame, flatMap_singleton']

/-- Where the loop knows whether a macro is in a string, the value stays there. -/
theorem contributes_quoteValue (known : mode ≠ .escaped) (value : Text) :
    Contributes value (quoteValue (decide (mode = .inside)) value) mode := by
  cases mode with
  | escaped => exact absurd rfl known
  | inside =>
    rw [quoteValue, if_neg (by simp)]
    exact readText_escape value
  | outside =>
    rw [quoteValue]
    cases isNumber : evaluateStringToDouble value with
    | none =>
      have isQuoted : readText .outside ('"' :: (zbxEscapeString value ['"', '\\'] ++ ['"'])) =
          (.outside, .opening :: (value.map .content ++ [.closing])) := by
        rw [readText]
        simp only [readChar, if_pos, readText_append, readText_escape]
        rfl
      rw [if_pos ⟨by decide, rfl⟩]
      exact Or.inr isQuoted
    | some converted =>
      have isSome : (evaluateStringToDouble value).isSome := by rw [isNumber]; rfl
      rw [if_neg fun both => nomatch both.2]
      refine Or.inl ⟨escape_of_number isSome, ?_⟩
      rwa [escape_of_number isSome]

theorem head?_of_opening {marks : List Mark}
    (isQuoted : (readText .outside replacement).2 = .opening :: marks) :
    replacement.head? = some '"' := by
  cases replacement with
  | nil => cases isQuoted
  | cons c rest =>
    simp only [readText, readChar] at isQuoted
    split_ifs at isQuoted with isQuote
    · rw [isQuote, head?_cons]
    · cases isQuoted

theorem head?_ne_quote_of_number (isNumber : (evaluateStringToDouble value).isSome) :
    value.head? ≠ some '"' := by
  intro isQuote
  exact not_special_of_number isNumber (mem_of_mem_head? isQuote) (Or.inl rfl)

theorem ne_nil_of_number (isNumber : (evaluateStringToDouble value).isSome) : value ≠ [] := by
  rintro rfl
  exact absurd isNumber (by decide)

/-- Of two beginnings of a text that both stand for a value, none goes on after the other. -/
theorem eq_nil_of_contributes {extra : Text} (known : mode ≠ .escaped)
    (short : Contributes value replacement mode)
    (long : Contributes value (replacement ++ extra) mode) : extra = [] := by
  cases mode with
  | escaped => exact absurd rfl known
  | inside =>
    have isShort : readText .inside replacement = (.inside, value.map .content) := short
    have isLong : readText .inside (replacement ++ extra) = (.inside, value.map .content) := long
    rw [readText_append, isShort, Prod.mk.injEq] at isLong
    exact eq_nil_of_inside (Prod.ext isLong.1 (append_right_eq_self.mp isLong.2))
  | outside =>
    obtain ⟨rfl, isNumber⟩ | isShort := short
    · obtain ⟨sameValue, -⟩ | isLong := long
      · exact append_right_eq_self.mp sameValue
      · have isQuote := head?_of_opening (congrArg Prod.snd isLong)
        rw [head?_append_of_ne_nil _ (ne_nil_of_number isNumber)] at isQuote
        exact absurd isQuote (head?_ne_quote_of_number isNumber)
    · have isQuote := head?_of_opening (congrArg Prod.snd isShort)
      obtain ⟨-, isNumber⟩ | isLong := long
      · have startsQuoted : (replacement ++ extra).head? = some '"' := by
          rw [head?_append, isQuote]
          rfl
        exact absurd startsQuoted (head?_ne_quote_of_number isNumber)
      · rw [readText_append, isShort, Prod.mk.injEq] at isLong
        exact eq_nil_of_outside (append_right_eq_self.mp isLong.2)

theorem contributes_unique {other later : Text} (known : mode ≠ .escaped)
    (first : Contributes value replacement mode) (second : Contributes value other mode)
    (same : replacement ++ rest = other ++ later) : rest = later := by
  obtain ⟨extra, isOther, isRest⟩ | ⟨extra, isReplacement, isLater⟩ :=
    append_eq_append_iff.mp same
  · rw [isOther] at second
    rw [isRest, eq_nil_of_contributes known first second, nil_append]
  · rw [isReplacement] at first
    rw [isLater, eq_nil_of_contributes known second first, nil_append]

/-- A macro that is taken for one in a string gets a backslash before a quote. -/
theorem head?_of_seenInside (notInside : mode ≠ .inside)
    (contributed : Contributes ['"'] replacement mode) : replacement.head? = some '"' := by
  cases mode with
  | inside => exact absurd rfl notInside
  | outside =>
    obtain ⟨rfl, -⟩ | isQuoted := contributed
    · rfl
    · exact head?_of_opening (congrArg Prod.snd isQuoted)
  | escaped =>
    have isContent : readText .escaped replacement = (.inside, [.content '"']) := contributed
    cases replacement with
    | nil => cases isContent
    | cons c rest =>
      have isMark := congrArg Prod.snd isContent
      simp only [readText, readChar, cons_append, cons.injEq, Mark.content.injEq]
        at isMark
      rw [isMark.1, head?_cons]

/-- A macro that is taken for one out of strings gets quotes around a letter. -/
theorem head?_of_seenOutside (notOutside : mode ≠ .outside)
    (contributed : Contributes ['a'] replacement mode) :
    replacement ≠ [] ∧ replacement.head? ≠ some '"' := by
  cases mode with
  | outside => exact absurd rfl notOutside
  | inside =>
    have isContent : readText .inside replacement = (.inside, [.content 'a']) := contributed
    refine ⟨fun isEmpty => ?_, fun isQuote => ?_⟩
    · rw [isEmpty] at isContent
      cases isContent
    · obtain ⟨rest, rfl⟩ := head?_eq_some_iff.mp isQuote
      cases congrArg Prod.snd isContent
  | escaped =>
    have isContent : readText .escaped replacement = (.inside, [.content 'a']) := contributed
    refine ⟨fun isEmpty => ?_, fun isQuote => ?_⟩
    · rw [isEmpty] at isContent
      cases isContent
    · obtain ⟨rest, rfl⟩ := head?_eq_some_iff.mp isQuote
      have isMark := congrArg Prod.snd isContent
      simp only [readText, readChar, cons_append, cons.injEq, Mark.content.injEq]
        at isMark
      exact absurd isMark.1 (by decide)

/-- Some value shows it when a macro is taken for standing elsewhere. -/
theorem exists_broken {seen : Mode} (known : seen ≠ .escaped) (wrong : mode ≠ seen) :
    ∃ value, ∀ replacement later rest,
      quoteValue (decide (seen = .inside)) value ++ rest = replacement ++ later →
        ¬Contributes value replacement mode := by
  cases seen with
  | escaped => exact absurd rfl known
  | inside =>
    refine ⟨['"'], fun replacement later rest same contributed => ?_⟩
    obtain ⟨others, rfl⟩ := head?_eq_some_iff.mp (head?_of_seenInside wrong contributed)
    have isHead : some '\\' = some '"' := congrArg head? same
    exact absurd isHead (by decide)
  | outside =>
    refine ⟨['a'], fun replacement later rest same contributed => ?_⟩
    obtain ⟨nonempty, notQuote⟩ := head?_of_seenOutside wrong contributed
    have isHead := congrArg head? same
    rw [head?_append_of_ne_nil _ nonempty] at isHead
    exact notQuote isHead.symm

end

/-! ## Runs of the loop -/

section

variable {text : Text} {pos : Nat} {site : MacroSite}

theorem expandLoop_str (text : Text) (dcGetUserMacro : Resolver) (turns : Nat)
    (state : Expansion) :
    expandLoop text dcGetUserMacro turns state =
      state.str ++ expandLoop text dcGetUserMacro turns { state with str := [] } := by
  induction turns generalizing state with
  | zero => rfl
  | succ turns ih =>
    rw [expandLoop, expandLoop]
    dsimp only
    cases zbxTokenFind text state.pos with
    | none => rfl
    | some token =>
      dsimp only
      cases macroOf text token with
      | none =>
        dsimp only
        rw [ih]
      | some userMacro =>
        dsimp only
        rw [ih]
        conv_rhs => rw [ih]
        simp only [nil_append, append_assoc]

theorem expandLoop_of_noMacro (dcGetUserMacro : Resolver) (turns : Nat) {state : Expansion}
    (noMacro : firstMacro text state.pos = none) :
    expandLoop text dcGetUserMacro turns state = state.str ++ text.drop state.lastPos := by
  induction turns generalizing state with
  | zero => rfl
  | succ turns ih =>
    rw [expandLoop]
    cases found : zbxTokenFind text state.pos with
    | none => rfl
    | some token =>
      dsimp only
      cases isMacro : macroOf text token with
      | none => exact ih ((firstMacro_succ found isMacro).1.trans noMacro)
      | some userMacro =>
        rw [(firstMacro_of_find found isMacro).1] at noMacro
        cases noMacro

theorem expandLoop_to_macro {turns further : Nat} {mode : Mode} (scanned : Nat)
    (isFirst : firstMacro text pos = some site) (known : mode ≠ .escaped)
    (enough : text.length < turns + pos) (enough' : text.length < further + pos) :
    ∃ left, text.length < left + site.next ∧ ∀ dcGetUserMacro lastPos str,
      let seen := readPieces mode (gapsBefore text site.l further pos scanned)
      let insideQuote := decide (seen = .inside)
      expandLoop text dcGetUserMacro turns
          { pos, lastPos, scanned, insideQuote := decide (mode = .inside), str } =
        str ++ (stretch text lastPos site.l ++
          (((dcGetUserMacro site.userMacro.name site.userMacro.context).map
              (quoteValue insideQuote)).getD (stretch text site.l site.next) ++
            expandLoop text dcGetUserMacro left
              { pos := site.next, lastPos := site.next, scanned := site.next, insideQuote })) := by
  obtain ⟨atLeast, isLess, isSite, -⟩ := firstMacro_eq_some_iff.mp isFirst
  have isLonger : site.l < site.next := Nat.lt_add_of_pos_right (length_pos isSite)
  induction turns generalizing further pos scanned mode with
  | zero => omega
  | succ turns ih =>
    obtain ⟨further, rfl⟩ : ∃ less, further = less + 1 := ⟨further - 1, by omega⟩
    cases found : zbxTokenFind text pos with
    | none =>
      rw [firstMacro_of_noToken found] at isFirst
      cases isFirst
    | some token =>
      simp only [expandLoop, gapsBefore, found, scanQuotes_eq mode known]
      cases isMacro : macroOf text token with
      | none =>
        obtain ⟨isSame, notHere⟩ := firstMacro_succ found isMacro
        have isLater := isSame.trans isFirst
        obtain ⟨isLeast, -⟩ := firstMacro_eq_some_iff.mp isLater
        have otherPlace : token.l ≠ site.l := by
          rintro same
          rw [same, isSite] at notHere
          cases notHere
        rw [if_neg otherPlace]
        exact ih _ isLater (behindMacro_ne_escaped _) (by omega) (by omega) isLeast
      | some userMacro =>
        obtain ⟨isFound, isNext⟩ := firstMacro_of_find found isMacro
        obtain rfl := some.inj (isFound.symm.trans isFirst)
        have isBehind : MacroSite.next { l := token.l, userMacro } = token.r + 1 :=
          isNext.symm
        have isPast : pos < token.r + 1 := isBehind ▸ atLeast.trans_lt isLonger
        rw [isBehind, if_pos rfl]
        refine ⟨turns, by omega, fun dcGetUserMacro lastPos str => ?_⟩
        dsimp only
        rw [expandLoop_str, append_assoc, append_assoc]
        rfl

theorem filled_cons {mode seen : Mode} {rest : List MacroSite} {later : Text}
    {dcGetUserMacro : Resolver} (known : seen ≠ .escaped)
    (isSeen : (readText mode (stretch text pos site.l)).1 = seen) :
    Filled text dcGetUserMacro mode pos (site :: rest)
        (stretch text pos site.l ++
          (((dcGetUserMacro site.userMacro.name site.userMacro.context).map
            (quoteValue (decide (seen = .inside)))).getD (stretch text site.l site.next) ++ later)) ↔
      Filled text dcGetUserMacro seen.behindMacro site.next rest later := by
  rw [Filled, isSeen]
  cases dcGetUserMacro site.userMacro.name site.userMacro.context with
  | none =>
    constructor
    · rintro ⟨replacement, others, same, isKept, isFilled⟩
      rw [isKept] at same
      rwa [append_cancel_left (append_cancel_left same)]
    · exact fun isFilled => ⟨_, later, rfl, rfl, isFilled⟩
  | some value =>
    constructor
    · rintro ⟨replacement, others, same, contributed, isFilled⟩
      rwa [contributes_unique known (contributes_quoteValue known value) contributed
        (append_cancel_left same)]
    · exact fun isFilled => ⟨_, later, rfl, contributes_quoteValue known value, isFilled⟩

theorem readPieces_ne_escaped {mode : Mode} (known : mode ≠ .escaped) (pieces : List Text) :
    readPieces mode pieces ≠ .escaped := by
  induction pieces generalizing mode with
  | nil => exact known
  | cons piece pieces ih => exact ih (behindMacro_ne_escaped _)

theorem behindMacro_of_known {mode : Mode} (known : mode ≠ .escaped) : mode.behindMacro = mode := by
  cases mode with
  | escaped => exact absurd rfl known
  | outside => rfl
  | inside => rfl

theorem filled_iff {turns left : Nat} {mode : Mode} (known : mode ≠ .escaped)
    (enough : text.length < turns + pos) (enough' : text.length < left + pos) :
    (∀ dcGetUserMacro, Filled text dcGetUserMacro mode pos (macroSites text turns pos)
        (expandLoop text dcGetUserMacro left
          { pos, lastPos := pos, scanned := pos, insideQuote := decide (mode = .inside) })) ↔
      QuotesSeen text mode pos (macroSites text turns pos) := by
  induction turns generalizing pos left mode with
  | zero =>
    have noMacro : firstMacro text pos = none :=
      firstMacro_eq_none_iff.mpr fun l atLeast isLess => by omega
    exact iff_of_true (fun _ => expandLoop_of_noMacro _ _ noMacro) trivial
  | succ turns ih =>
    cases isFirst : firstMacro text pos with
    | none =>
      rw [macroSites, isFirst]
      exact iff_of_true (fun _ => expandLoop_of_noMacro _ _ isFirst) trivial
    | some site =>
      obtain ⟨atLeast, -, isSite, -⟩ := firstMacro_eq_some_iff.mp isFirst
      have isLonger : site.l < site.next := Nat.lt_add_of_pos_right (length_pos isSite)
      have knownSeen := readPieces_ne_escaped known
        (gapsBefore text site.l (text.length + 1) pos pos)
      obtain ⟨left', enoughLeft, isRun⟩ := expandLoop_to_macro pos isFirst known enough'
        (show text.length < text.length + 1 + pos by omega)
      have later := ih knownSeen (by omega) enoughLeft
      rw [macroSites, isFirst]
      simp only [isRun, nil_append]
      by_cases agrees : (readText mode (stretch text pos site.l)).1 =
          readPieces mode (gapsBefore text site.l (text.length + 1) pos pos)
      · simp only [filled_cons knownSeen agrees, QuotesSeen, agrees, true_and,
          behindMacro_of_known knownSeen]
        exact later
      · obtain ⟨value, broken⟩ := exists_broken knownSeen agrees
        refine iff_of_false (fun isFilled => ?_) fun seen => agrees seen.1
        obtain ⟨replacement, others, same, contributed, -⟩ := isFilled fun _ _ => some value
        exact broken _ _ _ (append_cancel_left same) contributed

end

/-- Values stay where their macros stand in exactly the texts whose quotes are seen. -/
theorem valuesContained_iff (text : Text) :
    ValuesContained text ↔ QuotesSeen text .outside 0 (allMacros text) :=
  filled_iff (by decide) (by omega) (by omega)

/-- A value with a quote ends its string, if a backslash stands before the macro. -/
theorem not_valuesContained_backslash :
    (readText .outside "\"a\\\x7b$A\x7d\"".toList).1 = .outside ∧
      dcExpandUserMacrosInExpression "\"a\\\x7b$A\x7d\"".toList (fun _ _ => some ['"']) =
        "\"a\\\\\"\"".toList ∧
      ¬ValuesContained "\"a\\\x7b$A\x7d\"".toList := by
  refine ⟨by decide, by decide, fun contained => ?_⟩
  have isMacro : allMacros "\"a\\\x7b$A\x7d\"".toList =
      [⟨3, "\x7b$A\x7d".toList, none, 4, .equal⟩] := by
    decide
  have seen : QuotesSeen "\"a\\\x7b$A\x7d\"".toList .outside 0
      (allMacros "\"a\\\x7b$A\x7d\"".toList) :=
    (filled_iff (by decide) (by decide) (by decide)).mp contained
  rw [isMacro] at seen
  exact absurd seen.1 (by decide)

end Zabbix.Tokens.Containment
