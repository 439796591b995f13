import Zabbix.ItemKey.Recognition
import Zabbix.ItemKey.Replace

/-!
# What replacing goes through

`replace_key_params_dyn` with a callback that keeps everything.  Whether it
succeeds is seen from the text alone, by a scan that only has the depth of the
brackets.  In brackets this scan is as strict as `parse_key`; after the bracket
that closes the parameter list it is not.
-/

namespace Zabbix.ItemKey.Tail

open Common.Text ParseKey Params Replace Grammar Reading Recognition

/-- Where the scan is; in quotes, whether a backslash comes before. -/
inductive Scan where
  | new
  | ended
  | unquoted
  | quoted (escaped : Bool)
deriving DecidableEq

/-- A text that reads on as parameters, and leaves no bracket open or closed too often. -/
@[grind =]
def readsOn (level : Int) : Scan → Text → Bool
  | _, [] => level == 0
  | .new, char :: rest =>
    if char = ' ' then readsOn level .new rest
    else if char = ',' then readsOn level .new rest
    else if char = '[' then level != 2 && readsOn (level + 1) .new rest
    else if char = ']' then readsOn (level - 1) .ended rest
    else if char = '"' then readsOn level (.quoted false) rest
    else readsOn level .unquoted rest
  | .ended, char :: rest =>
    if char = ' ' then readsOn level .ended rest
    else if char = ',' then readsOn level .new rest
    else if char = ']' then level != 0 && readsOn (level - 1) .ended rest
    else false
  | .unquoted, char :: rest =>
    if char = ',' then readsOn level .new rest
    else if char = ']' then level != 0 && readsOn (level - 1) .ended rest
    else readsOn level .unquoted rest
  | .quoted escaped, char :: rest =>
    if char = '"' ∧ escaped = false then readsOn level .ended rest
    else readsOn level (.quoted (char == '\\')) rest

/-- The loop comes to the end of the text with all brackets closed. -/
def Outcome.Passes (outcome : Outcome) : Prop :=
  outcome.ret = true ∧ outcome.rest = [] ∧ outcome.progress.level = 0

def scanOf (done : Text) : ParserState → Scan
  | .new => .new
  | .ended => .ended
  | .unquoted _ => .unquoted
  | .quoted _ => .quoted (decide (done.getLast? = some '\\'))

/-- The callback that keeps everything only adds to the calls. -/
theorem replaceKeyParam_keep {progress next : Progress} {l : Nat} {quoted ret : Bool}
    (kept : replaceKeyParam keep progress l quoted = (ret, next)) :
    ret = true ∧ next.done = progress.done ∧ next.level = progress.level := by
  obtain ⟨rfl, rfl⟩ := Prod.mk.inj kept
  exact ⟨rfl, rfl, rfl⟩

variable (progress : Progress)

include progress

@[simp]
theorem nextNum_done : progress.nextNum.done = progress.done := by
  unfold Progress.nextNum
  split_ifs <;> rfl

@[simp]
theorem nextNum_level : progress.nextNum.level = progress.level := by
  unfold Progress.nextNum
  split_ifs <;> rfl

@[simp]
theorem advance_level (char : Char) :
    (progress.advance char).level = progress.level :=
  rfl

@[simp]
theorem advance_done (char : Char) :
    (progress.advance char).done = progress.done ++ [char] :=
  rfl

theorem replaceLoop_keep (state : ParserState) (text : Text) :
    (replaceLoop keep progress state text).progress.done ++
        (replaceLoop keep progress state text).rest = progress.done ++ text ∧
      (Outcome.Passes (replaceLoop keep progress state text) ↔
        readsOn progress.level (scanOf progress.done state) text = true) := by
  fun_induction replaceLoop keep progress state text with
  | case1 progress state => exact ⟨rfl, by simp [Outcome.Passes, readsOn]⟩
  | case2 progress rest ih => simpa [readsOn, scanOf] using ih
  | case3 progress rest next isComma progress' kept ih =>
    obtain ⟨-, sameText, sameLevel⟩ := replaceKeyParam_keep kept
    simpa [readsOn, scanOf, progress', sameText, sameLevel] using ih
  | case4 progress rest ret next kept failed =>
    exact absurd (replaceKeyParam_keep kept).1 failed
  | case5 progress rest level notBlank notComma =>
    exact ⟨rfl, by simp [Outcome.Passes, readsOn, scanOf, level]⟩
  | case6 progress rest level progress' isBlank isComma ih =>
    simpa [readsOn, scanOf, progress', level] using ih
  | case7 progress rest next isBlank isComma isBracket progress' kept ih =>
    obtain ⟨-, sameText, sameLevel⟩ := replaceKeyParam_keep kept
    simpa [readsOn, scanOf, progress', sameText, sameLevel] using ih
  | case8 progress rest ret next kept failed =>
    exact absurd (replaceKeyParam_keep kept).1 failed
  | case9 progress rest notBlank notComma notBracket notClosing ih =>
    simpa [readsOn, scanOf] using ih
  | case10 progress char rest notBlank notComma notBracket notClosing notQuote ih =>
    simpa [readsOn, scanOf, notBlank, notComma, notBracket, notClosing, notQuote] using ih
  | case11 progress rest ih => simpa [readsOn, scanOf] using ih
  | case12 progress rest notBlank ih => simpa [readsOn, scanOf] using ih
  | case13 progress rest level notBlank notComma =>
    exact ⟨rfl, by simp [Outcome.Passes, readsOn, scanOf, level]⟩
  | case14 progress rest level notBlank notComma ih =>
    simpa [readsOn, scanOf, level] using ih
  | case15 progress char rest notBlank notComma notClosing =>
    exact ⟨rfl, by simp [Outcome.Passes, readsOn, scanOf, notBlank, notComma, notClosing]⟩
  | case16 progress l char rest delimits next kept ih =>
    obtain ⟨-, sameText, sameLevel⟩ := replaceKeyParam_keep kept
    rcases delimits with rfl | rfl
    · simpa [readsOn, scanOf, sameText, sameLevel] using ih
    · simpa [readsOn, scanOf, sameText, sameLevel] using ih
  | case17 progress l char rest delimits ret next kept failed =>
    exact absurd (replaceKeyParam_keep kept).1 failed
  | case18 progress l char rest notDelimiter ih =>
    obtain ⟨notClosing, notComma⟩ := not_or.mp notDelimiter
    simpa [readsOn, scanOf, notClosing, notComma] using ih
  | case19 progress l char rest closes next kept ih =>
    obtain ⟨-, sameText, sameLevel⟩ := replaceKeyParam_keep kept
    obtain ⟨rfl, notEscaped⟩ := closes
    simpa [readsOn, scanOf, sameText, sameLevel, notEscaped] using ih
  | case20 progress l char rest closes ret next kept failed =>
    exact absurd (replaceKeyParam_keep kept).1 failed
  | case21 progress l char rest notClosing ih =>
    refine ⟨by simpa using ih.1, ?_⟩
    rw [ih.2, scanOf, scanOf, readsOn, if_neg (by simpa using notClosing)]
    simp [beq_eq_decide]

omit progress

/-! ## Inside the brackets -/

variable {text rest : Text}

/-- The scan of parameters, between two delimiters. -/
def Accepts (level : Int) (state : ParamState) (text : Text) : Prop :=
  match state with
  | .init => readsOn level .new text = true
  | .quoted => readsOn level (.quoted false) text = true
  | .unquoted => readsOn level .unquoted text = true

theorem readsOn_skipBlanks (level : Int) (text : Text) :
    readsOn level .ended text = readsOn level .ended (skipBlanks text) := by
  induction text with
  | nil => rfl
  | cons char rest ih =>
    by_cases isBlank : char = ' '
    · subst isBlank
      rw [skipBlanks_blank, ← ih, readsOn, if_pos rfl]
    · rw [skipBlanks_cons isBlank]

/-- Where a parameter may end, it makes no difference whether there was one. -/
theorem readsOn_ended {level : Int} (opened : level ≠ 0) (isEnd : Ends true text) :
    readsOn level .ended text = readsOn level .new text := by
  cases text with
  | nil => rfl
  | cons char rest =>
    rcases isDelimiter_of_ends isEnd with rfl | rfl
    · simp [readsOn]
    · simp [readsOn, opened]

theorem skims_accepts {level : Int} (opened : level ≠ 0) : Skims (Ends true) (Accepts level) where
  noBlank _ isEnd := skipBlanks_ends isEnd
  blank rest := by simp [Accepts, readsOn]
  quote rest := by simp [Accepts, readsOn]
  start char rest notBlank notQuote notBracket notDelimiter := by
    obtain ⟨notComma, notClosing⟩ := isDelimiter_eq_false notDelimiter
    simp [Accepts, readsOn, notBlank, notQuote, notBracket, notComma, notClosing]
  plain char rest notDelimiter := by
    obtain ⟨notComma, notClosing⟩ := isDelimiter_eq_false notDelimiter
    simp [Accepts, readsOn, notComma, notClosing]
  value rest isEnd := by
    cases rest with
    | nil => rfl
    | cons char later =>
      rcases isDelimiter_of_ends isEnd with rfl | rfl
      · simp [Accepts, readsOn]
      · simp [Accepts, readsOn, opened]
  escaped rest := by simp [Accepts, readsOn]
  inside char rest notQuote notEscape := by
    cases rest with
    | nil => simp [Accepts, readsOn]
    | cons next later =>
      by_cases isBackslash : char = '\\'
      · have notNext : next ≠ '"' := fun isQuote => notEscape ⟨isBackslash, congrArg some isQuote⟩
        simp [Accepts, readsOn, notQuote, notNext]
      · simp [Accepts, readsOn, notQuote, isBackslash]
  closed rest isEnd := by
    simp only [Accepts]
    rw [readsOn, if_pos ⟨rfl, rfl⟩, readsOn_skipBlanks, readsOn_ended opened isEnd]

theorem skimsParams_accepts : SkimsParams (Ends true) (Accepts 1) (Accepts 2) where
  values := skims_accepts (by decide)
  elements := skims_accepts (by decide)
  comma rest := by simp [Accepts, readsOn]
  opened rest := by simp [Accepts, readsOn]
  closed rest isEnd := by
    simp only [Accepts]
    rw [← readsOn_ended (by decide) isEnd, ← readsOn_skipBlanks]
    simp [readsOn]

theorem ends_of_readsOn {level : Int} (accepted : readsOn level .ended text = true) :
    Ends true (skipBlanks text) := by
  rw [readsOn_skipBlanks] at accepted
  have notBlank := head?_skipBlanks text
  generalize skipBlanks text = after at accepted notBlank
  cases after with
  | nil => exact ends_nil
  | cons char later =>
    rw [readsOn, if_neg fun isBlank => notBlank (congrArg some isBlank)] at accepted
    split_ifs at accepted with isComma isClosing
    · exact Or.inr (Or.inl (congrArg some isComma))
    · exact Or.inr (Or.inr ⟨rfl, congrArg some isClosing⟩)

theorem strict_accepts {level : Int} (opened : level ≠ 0) : Strict (Ends true) (Accepts level) where
  skims := skims_accepts opened
  unclosed := by simp [Accepts, readsOn, opened]
  quoted rest accepted := by
    simp only [Accepts] at accepted
    rw [readsOn, if_pos ⟨rfl, rfl⟩] at accepted
    exact ends_of_readsOn accepted
  unquoted _ stops _ := ends_of_delimiter stops
  init _ stops _ := ends_of_delimiter stops

theorem strictParams_accepts : StrictParams (Ends true) (Accepts 1) (Accepts 2) where
  skims := skimsParams_accepts
  values := strict_accepts (by decide)
  elements := strict_accepts (by decide)
  nested rest := by simp [Accepts, readsOn]
  unclosed := by simp [Accepts, readsOn]
  closed rest accepted := by
    simp only [Accepts, readsOn] at accepted
    exact ends_of_readsOn accepted

theorem readsOn_render (params : ParamList) (rest : Text) :
    readsOn 1 .new (renderParams params ++ ']' :: rest) = readsOn 0 .ended rest := by
  have accepts : Accepts 1 .init (renderParams params ++ ']' :: rest) ↔
      Accepts 1 .init (']' :: rest) := by
    obtain ⟨first, others⟩ := params
    rw [renderParams, Listed.render, List.append_assoc]
    induction others generalizing first with
    | nil => exact Iff.of_eq (skims_param skimsParams_accepts first ends_bracket)
    | cons next later ih =>
      rw [List.flatMap_cons, List.append_assoc, List.cons_append,
        skims_param skimsParams_accepts first ends_comma, ← ih next]
      simp [Accepts, readsOn]
  rw [Bool.eq_iff_iff]
  simpa [Accepts, readsOn] using accepts

theorem exists_params_of_readsOn (accepted : readsOn 1 .new text = true) :
    ∃ (params : ParamList) (after : Text),
      text = renderParams params ++ ']' :: after ∧ readsOn 0 .ended after = true := by
  induction isLength : text.length using Nat.strong_induction_on generalizing text with
  | _ length ih =>
    obtain ⟨param, rest, rfl, isEnd, later⟩ := strict_param strictParams_accepts accepted
    cases rest with
    | nil => simp [Accepts, readsOn] at later
    | cons char after =>
      simp only [Accepts] at later
      rcases isDelimiter_of_ends isEnd with rfl | rfl
      · rw [List.length_append, List.length_cons] at isLength
        obtain ⟨⟨first, others⟩, rest, rfl, readOn⟩ :=
          ih after.length (by omega) (by simpa [readsOn] using later) rfl
        exact ⟨⟨param, first :: others⟩, rest, by simp [renderParams, Listed.render], readOn⟩
      · refine ⟨⟨param, []⟩, after, by simp [renderParams, Listed.render], ?_⟩
        simpa [readsOn] using later

end Zabbix.ItemKey.Tail
