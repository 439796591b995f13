import Zabbix.Common.Text

/-!
# The JSON validator

A recursive descent over the text.  A parse that succeeds yields the rest of the text after
what it read, where the code returns the number of characters read, and one that fails yields
the error, where the code returns zero.
-/

namespace Zabbix.Json.Validate

open Common.Text

/-- The message of an error, and the failing fragment where the message shows it. -/
inductive Failure
  | error (message : String) (fragment : Option Text)
  | fuelExhausted
deriving DecidableEq

abbrev Parsed := Except Failure Text

def jsonError (message : String) (fragment : Option Text) : Parsed :=
  .error (.error message fragment)

/-- `ZBX_WHITESPACE` -/
def isWhitespace (char : Char) : Bool :=
  char = ' ' || char = '\t' || char = '\r' || char = '\n'

def skipWhitespace (text : Text) : Text :=
  text.dropWhile isWhitespace

/-- `isxdigit` -/
def isHexDigit (char : Char) : Bool :=
  char.isDigit || ('a' ≤ char && char ≤ 'f') || ('A' ≤ char && char ≤ 'F')

/-- The characters after a backslash that stand for one character. -/
def isEscape (char : Char) : Bool :=
  ['"', '\\', '/', 'b', 'f', 'n', 'r', 't'].contains char

/-- The loop of `json_parse_string`, from the character after the quote. -/
def stringLoop : Text → Parsed
  | [] => jsonError "unexpected end of string data" none
  | '"' :: rest => .ok rest
  | '\\' :: rest =>
    match rest with
    | [] => jsonError "invalid escape sequence in string" (some ['\\'])
    | 'u' :: first :: second :: third :: fourth :: after =>
      if isHexDigit first && isHexDigit second && isHexDigit third && isHexDigit fourth then
        stringLoop after
      else
        jsonError "invalid escape sequence in string"
          (some ('\\' :: 'u' :: first :: second :: third :: fourth :: after))
    | 'u' :: after => jsonError "invalid escape sequence in string" (some ('\\' :: 'u' :: after))
    | char :: after =>
      if isEscape char then stringLoop after
      else jsonError "invalid escape sequence in string data" (some ('\\' :: char :: after))
  | char :: rest =>
    if char.toNat ≤ 0x1f then
      jsonError "invalid control character in string data" (some (char :: rest))
    else stringLoop rest

def jsonParseString (start : Text) : Parsed :=
  stringLoop start.tail

/-- The loop over digits and the point: `point`, `digit` and the pointer. -/
def mantissaLoop (point : Bool) (digit : Nat) : Text → Nat × Text
  | [] => (digit, [])
  | char :: rest =>
    if char = '.' then
      if point then (digit, char :: rest) else mantissaLoop true digit rest
    else if char.isDigit then mantissaLoop point (if point then digit else digit + 1) rest
    else (digit, char :: rest)

def skipMinus : Text → Text
  | '-' :: rest => rest
  | text => text

def skipSign : Text → Text
  | '+' :: rest => rest
  | '-' :: rest => rest
  | text => text

def powerDigits : Text → Parsed
  | [] => jsonError "unexpected end of numeric value" none
  | char :: rest =>
    if char.isDigit then .ok (rest.dropWhile Char.isDigit)
    else jsonError "invalid power value of number in E notation" (some (char :: rest))

/-- The power after the letter of the E notation, where there is one. -/
def parsePower : Text → Parsed
  | 'e' :: rest => powerDigits (skipSign rest)
  | 'E' :: rest => powerDigits (skipSign rest)
  | text => .ok text

def jsonParseNumber (start : Text) : Parsed :=
  let mantissa := mantissaLoop false 0 (skipMinus start)
  if mantissa.1 = 0 then jsonError "invalid numeric value format" (some start)
  else if (skipMinus start).head? = some '0' ∧ 1 < mantissa.1 then
    jsonError "invalid numeric value format" (some start)
  else parsePower mantissa.2

/-- The loop of `json_parse_literal` over the characters of the literal. -/
def literalLoop (start : Text) : Text → Text → Parsed
  | ptr, [] => .ok ptr
  | char :: ptr, expected :: text =>
    if char = expected then literalLoop start ptr text
    else jsonError "invalid literal value" (some start)
  | [], _ :: _ => jsonError "invalid literal value" (some start)

def jsonParseLiteral (start text : Text) : Parsed :=
  literalLoop start start text

def jsonParseArray (elements : Text → Parsed) (start : Text) : Parsed :=
  match skipWhitespace start.tail with
  | ']' :: rest => .ok rest
  | ptr => elements ptr

def jsonParseObject (members : Text → Parsed) (start : Text) : Parsed :=
  match skipWhitespace (skipWhitespace start).tail with
  | '}' :: rest => .ok rest
  | ptr => members ptr

/-- The name of a member and the separator after it. -/
def parseName (ptr : Text) : Parsed :=
  match ptr with
  | '"' :: _ =>
    match jsonParseString ptr with
    | .error failure => .error failure
    | .ok afterName =>
      match skipWhitespace afterName with
      | ':' :: rest => .ok rest
      | other => jsonError "invalid object name/value separator" (some other)
  | _ => jsonError "invalid object name" (some ptr)

mutual

def jsonParseValue : Nat → Text → Parsed
  | 0, _ => .error .fuelExhausted
  | fuel + 1, start =>
    match skipWhitespace start with
    | [] => jsonError "unexpected end of object value" none
    | '"' :: rest => jsonParseString ('"' :: rest)
    | '{' :: rest => jsonParseObject (membersLoop fuel) ('{' :: rest)
    | '[' :: rest => jsonParseArray (elementsLoop fuel) ('[' :: rest)
    | 't' :: rest => jsonParseLiteral ('t' :: rest) ['t', 'r', 'u', 'e']
    | 'f' :: rest => jsonParseLiteral ('f' :: rest) ['f', 'a', 'l', 's', 'e']
    | 'n' :: rest => jsonParseLiteral ('n' :: rest) ['n', 'u', 'l', 'l']
    | char :: rest =>
      if char.isDigit || char = '-' then jsonParseNumber (char :: rest)
      else jsonError "invalid JSON object value starting character" (some (char :: rest))

/-- The loop of `json_parse_array`. -/
def elementsLoop : Nat → Text → Parsed
  | 0, _ => .error .fuelExhausted
  | fuel + 1, ptr =>
    match jsonParseValue fuel ptr with
    | .error failure => .error failure
    | .ok afterValue =>
      match skipWhitespace afterValue with
      | ',' :: rest => elementsLoop fuel rest
      | ']' :: rest => .ok rest
      | other =>
        jsonError "invalid array format, expected closing character ']'" (some other)

/-- The loop of `json_parse_object`. -/
def membersLoop : Nat → Text → Parsed
  | 0, _ => .error .fuelExhausted
  | fuel + 1, ptr =>
    match parseName ptr with
    | .error failure => .error failure
    | .ok afterName =>
      match jsonParseValue fuel afterName with
      | .error failure => .error failure
      | .ok afterValue =>
        match skipWhitespace afterValue with
        | ',' :: rest => membersLoop fuel (skipWhitespace rest)
        | '}' :: rest => .ok rest
        | other =>
          jsonError "invalid object format, expected closing character '\x7d'" (some other)

end

/-- Only whitespace may follow: the length of what was read from `start`. -/
def validateEnd (start : Text) (parsed : Parsed) : Except Failure Nat :=
  match parsed with
  | .error failure => .error failure
  | .ok rest =>
    match skipWhitespace rest with
    | [] => .ok (start.length - rest.length)
    | other => .error (.error "invalid character following JSON object" (some other))

def zbxJsonValidate (text : Text) : Except Failure Nat :=
  let start := skipWhitespace text
  let fuel := 2 * start.length
  match start with
  | '{' :: _ => validateEnd start (jsonParseObject (membersLoop fuel) start)
  | '[' :: _ => validateEnd start (jsonParseArray (elementsLoop fuel) start)
  | _ =>
    .error (.error "invalid object format, expected opening character '\x7b' or '['" (some start))

def returned : Except Failure Nat → Nat
  | .ok len => len
  | .error _ => 0

example : zbxJsonValidate [' ', '[', '1', ' ', ']', '\n'] = .ok 4 := by decide +kernel

end Zabbix.Json.Validate

/-!
# The grammar of JSON

RFC 8259 over the characters of a text.  The number rule has a flag: with it the digits after
the point may be missing, without it the grammar is that of the RFC.
-/

namespace Zabbix.Json.Grammar

open Common.Text Validate

/-- `ws` -/
def Blank (text : Text) : Prop :=
  ∀ char ∈ text, isWhitespace char = true

def AllDigits (text : Text) : Prop :=
  ∀ char ∈ text, char.isDigit = true

/-- `*char` -/
inductive Chars : Text → Prop
  | empty : Chars []
  | unescaped {char rest} (isOrdinary : 0x20 ≤ char.toNat ∧ char ≠ '"' ∧ char ≠ '\\')
      (others : Chars rest) : Chars (char :: rest)
  | escaped {char rest} (isEscaped : isEscape char = true) (others : Chars rest) :
      Chars ('\\' :: char :: rest)
  | unicode {first second third fourth rest}
      (isHex : ∀ char ∈ [first, second, third, fourth], isHexDigit char = true)
      (others : Chars rest) : Chars ('\\' :: 'u' :: first :: second :: third :: fourth :: rest)

/-- `int` -/
def IsInt (text : Text) : Prop :=
  text ≠ [] ∧ AllDigits text ∧ (text.head? = some '0' → text = ['0'])

/-- `[ frac ]` -/
def IsFraction (bare : Bool) (text : Text) : Prop :=
  text = [] ∨ ∃ digits, text = '.' :: digits ∧ AllDigits digits ∧ (digits = [] → bare = true)

/-- `[ minus / plus ]` -/
def IsSign (text : Text) : Prop :=
  text = [] ∨ text = ['-'] ∨ text = ['+']

/-- `[ exp ]` -/
def IsExponent (text : Text) : Prop :=
  text = [] ∨ ∃ letter sign digits, text = letter :: (sign ++ digits) ∧
    (letter = 'e' ∨ letter = 'E') ∧ IsSign sign ∧ digits ≠ [] ∧ AllDigits digits

/-- `number` -/
def IsNumber (bare : Bool) (text : Text) : Prop :=
  ∃ minus int fraction exponent, text = minus ++ int ++ fraction ++ exponent ∧
    (minus = [] ∨ minus = ['-']) ∧ IsInt int ∧ IsFraction bare fraction ∧ IsExponent exponent

def IsLiteral (text : Text) : Prop :=
  text = ['t', 'r', 'u', 'e'] ∨ text = ['f', 'a', 'l', 's', 'e'] ∨ text = ['n', 'u', 'l', 'l']

/-- What a text may be: a value, the elements between the brackets of an array that has some,
or the members between the braces of an object that has some. -/
inductive Rule
  | value
  | elements
  | members

inductive Derives (bare : Bool) : Rule → Text → Prop
  | string {body} (isBody : Chars body) : Derives bare .value ('"' :: (body ++ ['"']))
  | number {text} (isNumber : IsNumber bare text) : Derives bare .value text
  | literal {text} (isLiteral : IsLiteral text) : Derives bare .value text
  | emptyArray {inside} (isBlank : Blank inside) : Derives bare .value ('[' :: (inside ++ [']']))
  | array {inside} (isElements : Derives bare .elements inside) :
      Derives bare .value ('[' :: (inside ++ [']']))
  | emptyObject {inside} (isBlank : Blank inside) :
      Derives bare .value ('{' :: (inside ++ ['}']))
  | object {inside} (isMembers : Derives bare .members inside) :
      Derives bare .value ('{' :: (inside ++ ['}']))
  | lastElement {before value after} (isBefore : Blank before)
      (isValue : Derives bare .value value) (isAfter : Blank after) :
      Derives bare .elements (before ++ value ++ after)
  | nextElement {before value after others} (isBefore : Blank before)
      (isValue : Derives bare .value value) (isAfter : Blank after)
      (isOthers : Derives bare .elements others) :
      Derives bare .elements (before ++ value ++ after ++ ',' :: others)
  | lastMember {lead name middle before value after} (isLead : Blank lead) (isName : Chars name)
      (isMiddle : Blank middle) (isBefore : Blank before) (isValue : Derives bare .value value)
      (isAfter : Blank after) :
      Derives bare .members
        (lead ++ '"' :: (name ++ '"' :: (middle ++ ':' :: (before ++ value ++ after))))
  | nextMember {lead name middle before value after others} (isLead : Blank lead)
      (isName : Chars name) (isMiddle : Blank middle) (isBefore : Blank before)
      (isValue : Derives bare .value value) (isAfter : Blank after)
      (isOthers : Derives bare .members others) :
      Derives bare .members
        (lead ++ '"' :: (name ++ '"' ::
          (middle ++ ':' :: (before ++ value ++ after ++ ',' :: others))))

/-- An object or an array of the given length, possibly surrounded by whitespace. -/
def JsonText (bare : Bool) (text : Text) (len : Nat) : Prop :=
  ∃ before value after, text = before ++ value ++ after ∧ Blank before ∧ Blank after ∧
    Derives bare .value value ∧ (value.head? = some '{' ∨ value.head? = some '[') ∧
    len = value.length

/-! ## The two grammars -/

variable {text : Text} {rule : Rule} {bare : Bool} {len : Nat}

theorem IsFraction.ofStrict (isFraction : IsFraction false text) : IsFraction bare text := by
  obtain isEmpty | ⟨digits, same, allDigits, notEmpty⟩ := isFraction
  · exact .inl isEmpty
  · exact .inr ⟨digits, same, allDigits, fun isEmpty => Bool.noConfusion (notEmpty isEmpty)⟩

theorem IsNumber.ofStrict (isNumber : IsNumber false text) : IsNumber bare text := by
  obtain ⟨minus, int, fraction, exponent, same, isMinus, isInt, isFraction, isExponent⟩ := isNumber
  exact ⟨minus, int, fraction, exponent, same, isMinus, isInt, isFraction.ofStrict, isExponent⟩

theorem Derives.ofStrict (derives : Derives false rule text) : Derives bare rule text := by
  induction derives with
  | string isBody => exact .string isBody
  | number isNumber => exact .number isNumber.ofStrict
  | literal isLiteral => exact .literal isLiteral
  | emptyArray isBlank => exact .emptyArray isBlank
  | array _ isElements => exact .array isElements
  | emptyObject isBlank => exact .emptyObject isBlank
  | object _ isMembers => exact .object isMembers
  | lastElement isBefore _ isAfter isValue => exact .lastElement isBefore isValue isAfter
  | nextElement isBefore _ isAfter _ isValue isOthers =>
    exact .nextElement isBefore isValue isAfter isOthers
  | lastMember isLead isName isMiddle isBefore _ isAfter isValue =>
    exact .lastMember isLead isName isMiddle isBefore isValue isAfter
  | nextMember isLead isName isMiddle isBefore _ isAfter _ isValue isOthers =>
    exact .nextMember isLead isName isMiddle isBefore isValue isAfter isOthers

theorem JsonText.ofStrict (isJson : JsonText false text len) : JsonText bare text len := by
  obtain ⟨before, value, after, same, isBefore, isAfter, isValue, isOpen, isLen⟩ := isJson
  exact ⟨before, value, after, same, isBefore, isAfter, isValue.ofStrict, isOpen, isLen⟩

end Zabbix.Json.Grammar
