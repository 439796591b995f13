import Zabbix.Json.Validation

/-!
# The validator against JSON

The fuel of the validator is never exhausted.  It accepts exactly the texts of the grammar
whose numbers may lack the digits after the point, and so it agrees with RFC 8259 on a text
unless the text is JSON but for such a number.
-/

namespace Zabbix.Json.Exactness

open Common.Text Validate Grammar Validation List

variable {text rest start : Text}

/-! ## Fuel -/

/-- The parse came to an end. -/
def Settled (parsed : Parsed) : Prop :=
  parsed ≠ .error .fuelExhausted

theorem settled_jsonError (message : String) (fragment : Option Text) :
    Settled (jsonError message fragment) :=
  fun isExhausted => by cases isExhausted

theorem settled_ok (rest : Text) : Settled (.ok rest) :=
  fun isExhausted => by cases isExhausted

theorem settled_stringLoop (text : Text) : Settled (stringLoop text) := by
  fun_induction stringLoop text with
  | case1 => exact settled_jsonError _ _
  | case2 rest => exact settled_ok rest
  | case3 => exact settled_jsonError _ _
  | case4 _ _ _ _ _ _ ih => exact ih
  | case5 => exact settled_jsonError _ _
  | case6 => exact settled_jsonError _ _
  | case7 _ _ _ _ _ ih => exact ih
  | case8 => exact settled_jsonError _ _
  | case9 => exact settled_jsonError _ _
  | case10 _ _ _ _ _ ih => exact ih

theorem settled_literalLoop (start ptr literal : Text) :
    Settled (literalLoop start ptr literal) := by
  fun_induction literalLoop start ptr literal with
  | case1 ptr => exact settled_ok ptr
  | case2 _ _ _ ih => exact ih
  | case3 => exact settled_jsonError _ _
  | case4 => exact settled_jsonError _ _

theorem settled_powerDigits (text : Text) : Settled (powerDigits text) := by
  unfold powerDigits
  split
  · exact settled_jsonError _ _
  · split
    · exact settled_ok _
    · exact settled_jsonError _ _

theorem settled_jsonParseNumber (start : Text) : Settled (jsonParseNumber start) := by
  unfold jsonParseNumber
  dsimp only
  split
  · exact settled_jsonError _ _
  · split
    · exact settled_jsonError _ _
    · unfold parsePower
      split
      · exact settled_powerDigits _
      · exact settled_powerDigits _
      · exact settled_ok _

theorem settled_parseName (ptr : Text) : Settled (parseName ptr) := by
  unfold parseName
  split
  · next others =>
      have settled : Settled (jsonParseString ('"' :: others)) := settled_stringLoop others
      split
      · next failed => rwa [failed] at settled
      · split
        · exact settled_ok _
        · exact settled_jsonError _ _
  · exact settled_jsonError _ _

/-- The loops of one fuel come to an end on texts that the fuel is enough for. -/
structure Ended (fuel : Nat) : Prop where
  value : ∀ start : Text, 2 * start.length < fuel → Settled (jsonParseValue fuel start)
  elements : ∀ ptr : Text, 2 * ptr.length + 1 < fuel → Settled (elementsLoop fuel ptr)
  members : ∀ ptr : Text, 2 * ptr.length + 1 < fuel → Settled (membersLoop fuel ptr)

variable {fuel : Nat}

theorem settled_jsonParseArray {loop : Text → Parsed} {others : Text}
    (settled : ∀ ptr : Text, ptr.length ≤ others.length → Settled (loop ptr)) :
    Settled (jsonParseArray loop ('[' :: others)) := by
  unfold jsonParseArray
  split
  · exact settled_ok _
  · exact settled _ (length_skipWhitespace_le others)

theorem settled_jsonParseObject {loop : Text → Parsed} {others : Text}
    (settled : ∀ ptr : Text, ptr.length ≤ others.length → Settled (loop ptr)) :
    Settled (jsonParseObject loop ('{' :: others)) := by
  unfold jsonParseObject
  split
  · exact settled_ok _
  · exact settled _ (length_skipWhitespace_le others)

theorem Ended.valueSucc (ended : Ended fuel) (start : Text)
    (enough : 2 * start.length < fuel + 1) : Settled (jsonParseValue (fuel + 1) start) := by
  have shorter : (skipWhitespace start).length ≤ start.length := length_skipWhitespace_le start
  rw [jsonParseValue]
  split
  · exact settled_jsonError _ _
  · exact settled_stringLoop _
  · next starts =>
      rw [starts, length_cons] at shorter
      exact settled_jsonParseObject fun ptr fits => ended.members ptr (by omega)
  · next starts =>
      rw [starts, length_cons] at shorter
      exact settled_jsonParseArray fun ptr fits => ended.elements ptr (by omega)
  · exact settled_literalLoop _ _ _
  · exact settled_literalLoop _ _ _
  · exact settled_literalLoop _ _ _
  · split
    · exact settled_jsonParseNumber _
    · exact settled_jsonError _ _

theorem length_after_value {ptr afterValue : Text}
    (parsed : jsonParseValue fuel ptr = .ok afterValue) :
    (skipWhitespace afterValue).length ≤ ptr.length := by
  obtain ⟨before, value, same, -⟩ := (sound fuel).value parsed
  have shorter := length_skipWhitespace_le afterValue
  rw [same, length_append]
  omega

theorem Ended.elementsSucc (ended : Ended fuel) (ptr : Text)
    (enough : 2 * ptr.length + 1 < fuel + 1) : Settled (elementsLoop (fuel + 1) ptr) := by
  have settled : Settled (jsonParseValue fuel ptr) := ended.value ptr (by omega)
  rw [elementsLoop]
  split
  · next failed => rwa [failed] at settled
  · next parsed =>
      have shorter := length_after_value parsed
      split
      · next separator =>
          rw [separator, length_cons] at shorter
          exact ended.elements _ (by omega)
      · exact settled_ok _
      · exact settled_jsonError _ _

theorem Ended.membersSucc (ended : Ended fuel) (ptr : Text)
    (enough : 2 * ptr.length + 1 < fuel + 1) : Settled (membersLoop (fuel + 1) ptr) := by
  have settledName := settled_parseName ptr
  rw [membersLoop]
  split
  · next failed => rwa [failed] at settledName
  · next afterName named =>
      obtain ⟨name, middle, same, -⟩ := name_of_parseName named
      have shorterName : afterName.length < ptr.length := by
        rw [same]
        simp only [length_cons, length_append]
        omega
      have settled : Settled (jsonParseValue fuel afterName) := ended.value afterName (by omega)
      split
      · next failed => rwa [failed] at settled
      · next parsed =>
          have shorter := length_after_value parsed
          split
          · next others separator =>
              have shortest := length_skipWhitespace_le others
              rw [separator, length_cons] at shorter
              exact ended.members _ (by omega)
          · exact settled_ok _
          · exact settled_jsonError _ _

theorem ended (fuel : Nat) : Ended fuel := by
  induction fuel with
  | zero =>
    exact ⟨fun _ enough => absurd enough (Nat.not_lt_zero _),
      fun _ enough => absurd enough (Nat.not_lt_zero _),
      fun _ enough => absurd enough (Nat.not_lt_zero _)⟩
  | succ fuel ih =>
    exact ⟨ih.valueSucc, ih.elementsSucc, ih.membersSucc⟩

/-- The validator always comes to an end. -/
theorem zbxJsonValidate_settled (text : Text) :
    zbxJsonValidate text ≠ .error .fuelExhausted := by
  have settledEnd {start : Text} {parsed : Parsed} (settled : Settled parsed) :
      validateEnd start parsed ≠ .error .fuelExhausted := by
    unfold validateEnd
    split
    · intro isExhausted
      exact settled (congrArg Except.error (Except.error.inj isExhausted))
    · split
      · intro isExhausted
        cases isExhausted
      · intro isExhausted
        cases isExhausted
  unfold zbxJsonValidate
  dsimp only
  split
  · next others starts =>
      rw [starts]
      refine settledEnd (settled_jsonParseObject fun ptr fits => (ended _).members ptr ?_)
      rw [length_cons]
      omega
  · next others starts =>
      rw [starts]
      refine settledEnd (settled_jsonParseArray fun ptr fits => (ended _).elements ptr ?_)
      rw [length_cons]
      omega
  · intro isExhausted
    cases isExhausted

/-! ## Acceptance -/

variable {len : Nat}

theorem blank_of_skipWhitespace (isEmpty : skipWhitespace text = []) : Blank text :=
  dropWhile_eq_nil_iff.mp isEmpty

theorem jsonText_of_validateEnd {value : Text} {parsed : Parsed} (starts : start = value ++ rest)
    (isParsed : parsed = .ok rest) (ran : validateEnd start parsed = .ok len) :
    Blank rest ∧ len = value.length := by
  subst isParsed
  unfold validateEnd at ran
  dsimp only at ran
  split at ran
  · next isEmpty =>
      refine ⟨blank_of_skipWhitespace isEmpty, ?_⟩
      rw [← Except.ok.inj ran, starts, length_append, Nat.add_sub_cancel]
  · cases ran

theorem jsonText_of_validate (ran : zbxJsonValidate text = .ok len) : JsonText true text len := by
  obtain ⟨before, sameBefore, isBefore⟩ := blank_skipWhitespace text
  have enough {value rest : Text} {parsed : Parsed} (same : skipWhitespace text = value ++ rest)
      (derives : Derives true .value value)
      (opens : value.head? = some '{' ∨ value.head? = some '[')
      (isParsed : parsed = .ok rest)
      (ran : validateEnd (skipWhitespace text) parsed = .ok len) : JsonText true text len := by
    obtain ⟨isAfter, isLen⟩ := jsonText_of_validateEnd same isParsed ran
    refine ⟨before, value, rest, ?_, isBefore, isAfter, derives, opens, isLen⟩
    rw [append_assoc, ← same, ← sameBefore]
  have isOk {parsed : Parsed} (ran : validateEnd (skipWhitespace text) parsed = .ok len) :
      ∃ rest, parsed = .ok rest := by
    cases parsed with
    | error failure => cases ran
    | ok rest => exact ⟨rest, rfl⟩
  unfold zbxJsonValidate at ran
  dsimp only at ran
  split at ran
  · next others starts =>
      obtain ⟨rest, isParsed⟩ := isOk ran
      have parsed := isParsed
      rw [starts] at parsed
      obtain ⟨value, same, derives, opens⟩ := object_of_jsonParseObject (sound _) parsed
      exact enough (starts.trans same) derives (.inl opens) isParsed ran
  · next others starts =>
      obtain ⟨rest, isParsed⟩ := isOk ran
      have parsed := isParsed
      rw [starts] at parsed
      obtain ⟨value, same, derives, opens⟩ := array_of_jsonParseArray (sound _) parsed
      exact enough (starts.trans same) derives (.inr opens) isParsed ran
  · cases ran

theorem validate_of_jsonText (isJson : JsonText true text len) :
    zbxJsonValidate text = .ok len := by
  obtain ⟨before, value, after, same, isBefore, isAfter, derives, opens, rfl⟩ := isJson
  have ends : Ends after := by
    have atEnd : Ends (after ++ []) := Ends.blank isAfter nofun
    rwa [append_nil] at atEnd
  have stripped : Stripped (value ++ after) := by
    obtain ⟨char, others, rfl, isOpening⟩ := head_value derives rfl
    exact stripped_cons (isWhitespace_of_opening isOpening) _
  have start : skipWhitespace text = value ++ after := by
    rw [same, append_assoc]
    exact skipWhitespace_blank isBefore stripped
  have ranEnd {parsed : Parsed} (isParsed : parsed = .ok after) :
      validateEnd (value ++ after) parsed = .ok value.length := by
    have nothing : skipWhitespace after = [] := dropWhile_eq_nil_iff.mpr isAfter
    rw [isParsed, validateEnd]
    simp only [nothing, length_append, Nat.add_sub_cancel]
  have parsed := reads derives (2 * (value ++ after).length + 1) after
    (by rw [length_append]; omega) ends
  rw [zbxJsonValidate, start]
  obtain opens | opens := opens
  · obtain ⟨others, rfl⟩ : ∃ others, value = '{' :: others := head?_eq_some_iff.mp opens
    exact ranEnd parsed
  · obtain ⟨others, rfl⟩ : ∃ others, value = '[' :: others := head?_eq_some_iff.mp opens
    exact ranEnd parsed

theorem zbxJsonValidate_iff (text : Text) (len : Nat) :
    zbxJsonValidate text = .ok len ↔ JsonText true text len :=
  ⟨jsonText_of_validate, validate_of_jsonText⟩

/-! ## Exactness -/

theorem ne_zero_of_jsonText {bare : Bool} (isJson : JsonText bare text len) : len ≠ 0 := by
  obtain ⟨_, value, _, _, _, _, derives, _, rfl⟩ := isJson
  obtain ⟨char, others, rfl, _⟩ := head_value derives rfl
  exact Nat.succ_ne_zero _

theorem returned_ne_zero_iff (text : Text) :
    returned (zbxJsonValidate text) ≠ 0 ↔ ∃ len, JsonText true text len := by
  constructor
  · intro notZero
    cases ran : zbxJsonValidate text with
    | error failure =>
      rw [ran] at notZero
      exact absurd rfl notZero
    | ok len => exact ⟨len, jsonText_of_validate ran⟩
  · rintro ⟨len, isJson⟩
    rw [validate_of_jsonText isJson]
    exact ne_zero_of_jsonText isJson

/-- The validator returns a length exactly on JSON, and that of the object or array. -/
def Exact (text : Text) : Prop :=
  (returned (zbxJsonValidate text) ≠ 0 ↔ ∃ len, JsonText false text len) ∧
    ∀ len, JsonText false text len → returned (zbxJsonValidate text) = len

/-- The validator is exact on a text unless the text is JSON but for a number that has a point
and no digit after it. -/
theorem zbxJsonValidate_exact_iff (text : Text) :
    Exact text ↔ ((∃ len, JsonText true text len) → ∃ len, JsonText false text len) := by
  constructor
  · rintro ⟨accepts, -⟩ isJson
    exact accepts.mp ((returned_ne_zero_iff text).mpr isJson)
  · intro isStrict
    refine ⟨⟨fun notZero => isStrict ((returned_ne_zero_iff text).mp notZero), ?_⟩, ?_⟩
    · rintro ⟨len, isJson⟩
      exact (returned_ne_zero_iff text).mpr ⟨len, isJson.ofStrict⟩
    · intro len isJson
      rw [validate_of_jsonText isJson.ofStrict]
      rfl

/-! ## A point without digits -/

/-- Every point has a digit after it. -/
def PointsClosed : Text → Prop
  | [] => True
  | char :: rest => (char = '.' → StartsWithDigit rest) ∧ PointsClosed rest

theorem PointsClosed.append {first second : Text} (closedFirst : PointsClosed first)
    (closedSecond : PointsClosed second) : PointsClosed (first ++ second) := by
  induction first with
  | nil => exact closedSecond
  | cons char rest ih =>
    refine ⟨fun isPoint => ?_, ih closedFirst.2⟩
    obtain ⟨digit, others, rfl, isDigit⟩ := closedFirst.1 isPoint
    exact ⟨digit, others ++ second, rfl, isDigit⟩

theorem pointsClosed_of_noPoint (noPoint : '.' ∉ text) : PointsClosed text := by
  induction text with
  | nil => trivial
  | cons char rest ih =>
    rw [mem_cons, not_or] at noPoint
    exact ⟨fun isPoint => absurd isPoint.symm noPoint.1, ih noPoint.2⟩

theorem pointsClosed_blank (isBlank : Blank text) : PointsClosed text :=
  pointsClosed_of_noPoint fun isIn => absurd (isBlank '.' isIn) (by decide)

theorem pointsClosed_digits (allDigits : AllDigits text) : PointsClosed text :=
  pointsClosed_of_noPoint fun isIn => absurd (allDigits '.' isIn) (by decide)

theorem pointsClosed_number (isNumber : IsNumber false text) : PointsClosed text := by
  obtain ⟨minus, int, fraction, exponent, rfl, isMinus, isInt, isFraction, isExponent⟩ := isNumber
  have ofMinus : PointsClosed minus := by
    obtain rfl | rfl := isMinus <;> exact pointsClosed_of_noPoint (by decide)
  have ofFraction : PointsClosed fraction := by
    obtain rfl | ⟨digits, rfl, allDigits, notBare⟩ := isFraction
    · trivial
    · refine ⟨fun _ => ?_, pointsClosed_digits allDigits⟩
      have notEmpty : digits ≠ [] := fun isEmpty => Bool.noConfusion (notBare isEmpty)
      simpa only [append_nil] using startsWithDigit_append notEmpty allDigits []
  have ofExponent : PointsClosed exponent := by
    obtain rfl | ⟨letter, sign, digits, rfl, isLetter, isSign, -, allDigits⟩ := isExponent
    · trivial
    · refine ⟨fun isPoint => ?_, ?_⟩
      · subst isPoint
        exact absurd isLetter (by decide)
      · refine PointsClosed.append ?_ (pointsClosed_digits allDigits)
        obtain rfl | rfl | rfl := isSign <;> exact pointsClosed_of_noPoint (by decide)
  exact ((ofMinus.append (pointsClosed_digits isInt.2.1)).append ofFraction).append ofExponent

theorem pointsClosed_of_derives {rule : Rule} (derives : Derives false rule text)
    (noString : '"' ∉ text) : PointsClosed text := by
  have other {char : Char} (notPoint : char ≠ '.') {rest : Text} (closed : PointsClosed rest) :
      PointsClosed (char :: rest) := ⟨fun isPoint => absurd isPoint notPoint, closed⟩
  induction derives with
  | string => exact absurd mem_cons_self noString
  | number isNumber => exact pointsClosed_number isNumber
  | literal isLiteral =>
    obtain rfl | rfl | rfl := isLiteral <;> exact pointsClosed_of_noPoint (by decide)
  | emptyArray isBlank =>
    exact other (by decide) ((pointsClosed_blank isBlank).append
      (pointsClosed_of_noPoint (by decide)))
  | array _ ih =>
    simp only [mem_cons, mem_append, not_or] at noString
    exact other (by decide) ((ih noString.2.1).append (pointsClosed_of_noPoint (by decide)))
  | emptyObject isBlank =>
    exact other (by decide) ((pointsClosed_blank isBlank).append
      (pointsClosed_of_noPoint (by decide)))
  | object _ ih =>
    simp only [mem_cons, mem_append, not_or] at noString
    exact other (by decide) ((ih noString.2.1).append (pointsClosed_of_noPoint (by decide)))
  | lastElement isBefore _ isAfter ih =>
    simp only [mem_append, not_or] at noString
    exact ((pointsClosed_blank isBefore).append (ih noString.1.2)).append
      (pointsClosed_blank isAfter)
  | nextElement isBefore _ isAfter _ ih inductionOthers =>
    simp only [mem_cons, mem_append, not_or] at noString
    exact (((pointsClosed_blank isBefore).append (ih noString.1.1.2)).append
      (pointsClosed_blank isAfter)).append
        (other (by decide) (inductionOthers noString.2.2))
  | lastMember => simp at noString
  | nextMember => simp at noString

/-- `[1.]` is accepted. -/
theorem zbxJsonValidate_accepts_bare_point : ¬∀ text, Exact text := by
  intro allExact
  have accepted : returned (zbxJsonValidate ['[', '1', '.', ']']) ≠ 0 := by decide +kernel
  obtain ⟨len, before, value, after, same, isBefore, isAfter, derives, -⟩ :=
    (allExact ['[', '1', '.', ']']).1.mp accepted
  have noString : '"' ∉ value := by
    intro isIn
    have isInText : '"' ∈ ['[', '1', '.', ']'] := by
      rw [same]
      exact mem_append_left _ (mem_append_right _ isIn)
    exact absurd isInText (by decide)
  have closed : PointsClosed ['[', '1', '.', ']'] := by
    rw [same]
    exact ((pointsClosed_blank isBefore).append (pointsClosed_of_derives derives noString)).append
      (pointsClosed_blank isAfter)
  obtain ⟨digit, others, starts, isDigit⟩ := closed.2.2.1 rfl
  obtain rfl : ']' = digit := (cons.inj starts).1
  exact absurd isDigit (by decide)

end Zabbix.Json.Exactness
