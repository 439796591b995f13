import Zabbix.Library.Sql

/-!
# The grammar of SQL conditions

Conditions are written with `and` binding tighter than `or`, and what is written for a condition is
read as the condition.
-/

namespace Zabbix.Library.SqlGrammar

open Sql SqlText Option List
open OperatorChain (chain Consumes Shortens)

/-! ## Derivations -/

/-- What a part of a condition may consist of. -/
inductive Level where
  | disjunction
  | conjunction
  | operand

/-- A list of literals with its closing parenthesis. -/
def literalTokens : List (List Char) → List Token
  | [] => []
  | [text] => [.literal text, .closing]
  | text :: texts => .literal text :: .comma :: literalTokens texts

def existsTokens (table called : List Char) : List Token :=
  [.opening, .keyword .selectWord, .keyword .nullWord, .keyword .fromWord, .name table,
    .name called, .keyword .whereWord]

/-- The tokens are written for the condition.  Operators associate to the left. -/
inductive Derives : Level → Condition → List Token → Prop where
  | equals {first second : Token} {left right : Operand} (isLeft : operandOf first = some left)
      (isRight : operandOf second = some right) :
      Derives .operand (.equals left right) [first, .equals, second]
  | binary {first : Token} {left : Operand} (isLeft : operandOf first = some left)
      (text : List Char) :
      Derives .operand (.equals left (.literal text))
        [first, .equals, .keyword .binaryWord, .literal text]
  | isNull {first : Token} {left : Operand} (isLeft : operandOf first = some left) :
      Derives .operand (.isNull left) [first, .keyword .isWord, .keyword .nullWord]
  | like {first : Token} {left : Operand} (isLeft : operandOf first = some left)
      (pattern : List Char) :
      Derives .operand (.like left pattern) [first, .keyword .likeWord, .literal pattern]
  | isIn {first : Token} {left : Operand} {texts : List (List Char)}
      (isLeft : operandOf first = some left) (nonempty : texts ≠ []) :
      Derives .operand (.isIn left texts)
        (first :: .keyword .inWord :: .opening :: literalTokens texts)
  | group {condition : Condition} {tokens : List Token}
      (inner : Derives .disjunction condition tokens) :
      Derives .operand condition (.opening :: (tokens ++ [.closing]))
  | existing {condition : Condition} {tokens : List Token} (table called : List Char)
      (inner : Derives .disjunction condition tokens) :
      Derives .operand (.existing table called condition)
        (.keyword .existsWord :: (existsTokens table called ++ (tokens ++ [.closing])))
  | missing {condition : Condition} {tokens : List Token} (table called : List Char)
      (inner : Derives .disjunction condition tokens) :
      Derives .operand (.missing table called condition)
        (.keyword .notWord :: .keyword .existsWord ::
          (existsTokens table called ++ (tokens ++ [.closing])))
  | operand {condition : Condition} {tokens : List Token}
      (inner : Derives .operand condition tokens) : Derives .conjunction condition tokens
  | and {left right : Condition} {before after : List Token}
      (first : Derives .conjunction left before) (second : Derives .operand right after) :
      Derives .conjunction (.and left right) (before ++ .keyword .andWord :: after)
  | conjunction {condition : Condition} {tokens : List Token}
      (inner : Derives .conjunction condition tokens) : Derives .disjunction condition tokens
  | or {left right : Condition} {before after : List Token}
      (first : Derives .disjunction left before) (second : Derives .conjunction right after) :
      Derives .disjunction (.or left right) (before ++ .keyword .orWord :: after)

/-! ## Reading shortens the rest -/

variable {inner : List Token → ReadCondition} {tokens rest : List Token} {word : Keyword}
  {condition : Condition} {depth : Nat}

theorem consumes_wordOperator (word : Keyword) : Consumes (wordOperator word) := by
  intro tokens op rest found
  unfold wordOperator at found
  split at found
  · split_ifs at found
    cases found
    exact Nat.lt_succ_self _
  · cases found

theorem length_readLiterals {texts : List (List Char)}
    (read : readLiterals tokens = some (texts, rest)) : rest.length ≤ tokens.length := by
  induction tokens using readLiterals.induct generalizing texts with
  | case1 text later ih =>
    obtain ⟨⟨others, after⟩, isRead, same⟩ := map_eq_some_iff.mp read
    obtain ⟨-, rfl⟩ := Prod.mk.inj same
    exact (ih isRead).trans (by simp only [length_cons]; omega)
  | case2 text later =>
    obtain ⟨-, rfl⟩ := Prod.mk.inj (some.inj read)
    simp only [length_cons]
    omega
  | case3 tokens notMore notLast =>
    rw [readLiterals.eq_3 tokens notMore notLast] at read
    cases read

theorem length_readComparison {left : Operand}
    (read : readComparison left tokens = some (condition, rest)) :
    rest.length ≤ tokens.length := by
  unfold readComparison at read
  split at read
  · cases read
    simp only [length_cons]
    omega
  · obtain ⟨right, -, same⟩ := map_eq_some_iff.mp read
    cases same
    simp only [length_cons]
    omega
  · cases read
    simp only [length_cons]
    omega
  · cases read
    simp only [length_cons]
    omega
  · obtain ⟨⟨texts, after⟩, isRead, same⟩ := map_eq_some_iff.mp read
    cases same
    have shorter := length_readLiterals isRead
    simp only [length_cons]
    omega
  · cases read

variable (shortens : Shortens inner)

include shortens

theorem shortens_readClosing : Shortens (readClosing inner) := by
  intro tokens condition rest read
  obtain ⟨⟨condition', after⟩, isRead, ended⟩ := OperatorChain.bind_eq_ok.mp read
  have shorter := shortens _ _ _ isRead
  dsimp only at ended
  split at ended
  · cases ended
    rw [length_cons] at shorter
    omega
  · cases ended

theorem shortens_readExists (build : List Char → List Char → Condition → Condition) :
    Shortens (readExists inner build) := by
  intro tokens condition rest read
  unfold readExists at read
  split at read
  · next table called later =>
      cases isRead : readClosing inner later with
      | error _ =>
        rw [isRead] at read
        cases read
      | ok result =>
        rw [isRead] at read
        cases read
        have shorter := shortens_readClosing shortens _ _ _ isRead
        simp only [length_cons]
        omega
  · cases read

theorem shortens_readOperand : Shortens (readOperand inner) := by
  intro tokens condition rest read
  unfold readOperand at read
  split at read
  · exact (shortens_readClosing shortens _ _ _ read).trans (Nat.le_succ _)
  · exact (shortens_readExists shortens _ _ _ _ read).trans (by simp only [length_cons]; omega)
  · exact (shortens_readExists shortens _ _ _ _ read).trans (Nat.le_succ _)
  · split at read
    · next isRead =>
        cases read
        obtain ⟨left, -, isComparison⟩ := bind_eq_some_iff.mp isRead
        exact (length_readComparison isComparison).trans (Nat.le_succ _)
    · cases read
  · cases read

theorem shortens_readConjunction :
    Shortens (readConjunction inner) :=
  OperatorChain.level_shortens (consumes_wordOperator _) (shortens_readOperand shortens)

omit shortens

theorem shortens_readCondition (depth : Nat) : Shortens (readCondition depth) := by
  induction depth with
  | zero => exact fun _ _ _ read => nomatch read
  | succ depth shortens =>
    exact OperatorChain.level_shortens (consumes_wordOperator _)
      (shortens_readConjunction shortens)

/-! ## Derivations are read -/

/-- The rest of a chain of `and`. -/
def laterOperands (depth : Nat) (condition : Condition) (rest : List Token) : ReadCondition :=
  chain (wordOperator .andWord) .ok (readOperand (readCondition depth))
    (fun _ left right => .ok (.and left right)) rest.length condition rest

/-- The rest of a chain of `or`. -/
def laterConjunctions (depth : Nat) (condition : Condition) (rest : List Token) : ReadCondition :=
  chain (wordOperator .orWord) .ok (readConjunction (readCondition depth))
    (fun _ left right => .ok (.or left right)) rest.length condition rest

/-- The tokens are read for the condition, whatever follows; only another `and` would still belong
to a conjunction. -/
def IsReadAt (depth : Nat) : Level → Condition → List Token → Prop
  | .operand, condition, tokens => ∀ rest,
      readOperand (readCondition depth) (tokens ++ rest) = .ok (condition, rest)
  | .conjunction, condition, tokens => ∀ rest,
      readConjunction (readCondition depth) (tokens ++ rest) = laterOperands depth condition rest
  | .disjunction, condition, tokens => ∀ rest, wordOperator .andWord rest = none →
      readDisjunction (readCondition depth) (tokens ++ rest) =
        laterConjunctions depth condition rest

theorem readOperand_comparison {first : Token} {left : Operand}
    (isLeft : operandOf first = some left)
    (isComparison : readComparison left tokens = some (condition, rest)) :
    readOperand inner (first :: tokens) = .ok (condition, rest) := by
  have isRead : ((operandOf first).bind fun left => readComparison left tokens) =
      some (condition, rest) := by
    rw [isLeft, bind_some, isComparison]
  cases first with
  | name word | number value | literal text => simp only [readOperand, isRead]
  | keyword word | equals | opening | closing | comma => cases isLeft

theorem readLiterals_literalTokens {texts : List (List Char)} (nonempty : texts ≠ [])
    (rest : List Token) : readLiterals (literalTokens texts ++ rest) = some (texts, rest) := by
  induction texts with
  | nil => exact absurd rfl nonempty
  | cons text texts ih =>
    cases texts with
    | nil => rfl
    | cons second others =>
      have isRead := ih (cons_ne_nil second others)
      rw [literalTokens, cons_append, cons_append, readLiterals, isRead]
      · rfl
      · exact cons_ne_nil second others

theorem readClosing_of_isReadAt (isRead : IsReadAt depth .disjunction condition tokens)
    (rest : List Token) :
    readClosing (readCondition (depth + 1)) ((tokens ++ [.closing]) ++ rest) =
      .ok (condition, rest) := by
  have isInner := isRead (.closing :: rest) rfl
  rw [laterConjunctions, OperatorChain.chain_of_none rfl] at isInner
  rw [readClosing, append_assoc, singleton_append, readCondition, isInner]
  rfl

theorem readExists_of_isReadAt (isRead : IsReadAt depth .disjunction condition tokens)
    (build : List Char → List Char → Condition → Condition) (table called : List Char)
    (rest : List Token) :
    readExists (readCondition (depth + 1)) build
        ((existsTokens table called ++ (tokens ++ [.closing])) ++ rest) =
      .ok (build table called condition, rest) := by
  rw [append_assoc]
  change (readClosing _ ((tokens ++ [.closing]) ++ rest)).map _ = _
  rw [readClosing_of_isReadAt isRead]
  rfl

theorem isReadAt_of_derives {part : Level} (derives : Derives part condition tokens)
    (enough : tokens.length ≤ depth + 1) : IsReadAt depth part condition tokens := by
  induction derives generalizing depth with
  | @equals first second left right isLeft isRight =>
    intro rest
    refine readOperand_comparison isLeft ?_
    cases second with
    | name word | number value | literal text => cases isRight; rfl
    | keyword word | equals | opening | closing | comma => cases isRight
  | binary isLeft text => exact fun rest => readOperand_comparison isLeft rfl
  | isNull isLeft => exact fun rest => readOperand_comparison isLeft rfl
  | like isLeft pattern => exact fun rest => readOperand_comparison isLeft rfl
  | isIn isLeft nonempty =>
    intro rest
    refine readOperand_comparison isLeft ?_
    change (readLiterals (literalTokens _ ++ rest)).map _ = _
    rw [readLiterals_literalTokens nonempty rest]
    rfl
  | @group condition tokens inner ih =>
    intro rest
    simp only [length_cons, length_append, length_nil] at enough
    obtain ⟨depth, rfl⟩ : ∃ less, depth = less + 1 := ⟨depth - 1, by omega⟩
    exact readClosing_of_isReadAt (ih (by omega)) rest
  | @existing condition tokens table called inner ih =>
    intro rest
    simp only [length_cons, length_append, length_nil] at enough
    obtain ⟨depth, rfl⟩ : ∃ less, depth = less + 1 := ⟨depth - 1, by omega⟩
    exact readExists_of_isReadAt (ih (by omega)) _ table called rest
  | @missing condition tokens table called inner ih =>
    intro rest
    simp only [length_cons, length_append, length_nil] at enough
    obtain ⟨depth, rfl⟩ : ∃ less, depth = less + 1 := ⟨depth - 1, by omega⟩
    exact readExists_of_isReadAt (ih (by omega)) _ table called rest
  | operand inner ih =>
    intro rest
    rw [readConjunction, OperatorChain.level, ih enough rest]
    rfl
  | @and left right before after first second isFirst isSecond =>
    intro rest
    simp only [length_cons, length_append] at enough
    rw [append_assoc, cons_append, isFirst (by omega), laterOperands,
      OperatorChain.chain_step (consumes_wordOperator _)
        (shortens_readOperand (shortens_readCondition depth)) rfl]
    change (readOperand _ _).bind _ = _
    rw [isSecond (by omega) rest]
    rfl
  | conjunction inner ih =>
    intro rest ended
    rw [readDisjunction, OperatorChain.level, ih enough rest, laterOperands,
      OperatorChain.chain_of_none ended]
    rfl
  | @or left right before after first second isFirst isSecond =>
    intro rest ended
    simp only [length_cons, length_append] at enough
    have isLater : readConjunction (readCondition depth) (after ++ rest) = .ok (right, rest) := by
      rw [isSecond (by omega) rest, laterOperands, OperatorChain.chain_of_none ended]
    rw [append_assoc, cons_append, isFirst (by omega) _ rfl, laterConjunctions,
      OperatorChain.chain_step (consumes_wordOperator _)
        (shortens_readConjunction (shortens_readCondition depth)) rfl]
    change (readConjunction _ _).bind _ = _
    rw [isLater]
    rfl

theorem length_pos_of_derives {part : Level} (derives : Derives part condition tokens) :
    0 < tokens.length := by
  induction derives with
  | operand inner positive | conjunction inner positive => exact positive
  | and first second | or first second =>
    rw [length_append, length_cons]
    omega
  | _ => exact Nat.succ_pos _

theorem readCondition_of_derives (derives : Derives .disjunction condition tokens) :
    readCondition tokens.length tokens = .ok (condition, []) := by
  have positive := length_pos_of_derives derives
  obtain ⟨depth, isDepth⟩ : ∃ less, tokens.length = less + 1 := ⟨tokens.length - 1, by omega⟩
  have isRead := isReadAt_of_derives derives isDepth.le [] rfl
  rw [append_nil] at isRead
  rw [isDepth, readCondition, isRead]
  rfl

end Zabbix.Library.SqlGrammar

/-!
# What SQL texts denote

Texts that are written for conditions, with the scopes for which the conditions hold, and how they
are put together.
-/

namespace Zabbix.Library.SqlMeaning

open Sql SqlGrammar SqlText

variable {escapes : Bool} {tables : Tables} {first second text : List Char} {part : Level}
  {meaning meaning' : Scope → Bool} {tokens : List Token} {condition : Condition}

/-- The text is written for a condition that holds for the scopes with the meaning. -/
def Denotes (escapes : Bool) (tables : Tables) (part : Level) (text : List Char)
    (meaning : Scope → Bool) : Prop :=
  ∃ tokens condition, Spells escapes text tokens ∧ Derives part condition tokens ∧
    ∀ scope, condition.holds tables scope = meaning scope

theorem denotes_of (spells : Spells escapes text tokens) (derives : Derives part condition tokens) :
    Denotes escapes tables part text (condition.holds tables) :=
  ⟨tokens, condition, spells, derives, fun _ => rfl⟩

theorem Denotes.congr (denotes : Denotes escapes tables part text meaning)
    (same : ∀ scope, meaning scope = meaning' scope) :
    Denotes escapes tables part text meaning' := by
  obtain ⟨tokens, condition, spells, derives, isMeaning⟩ := denotes
  exact ⟨tokens, condition, spells, derives, fun scope => (isMeaning scope).trans (same scope)⟩

theorem Denotes.conjunction (denotes : Denotes escapes tables .operand text meaning) :
    Denotes escapes tables .conjunction text meaning := by
  obtain ⟨tokens, condition, spells, derives, isMeaning⟩ := denotes
  exact ⟨tokens, condition, spells, .operand derives, isMeaning⟩

theorem Denotes.disjunction (denotes : Denotes escapes tables .conjunction text meaning) :
    Denotes escapes tables .disjunction text meaning := by
  obtain ⟨tokens, condition, spells, derives, isMeaning⟩ := denotes
  exact ⟨tokens, condition, spells, .conjunction derives, isMeaning⟩

theorem spells_group (spells : Spells escapes text tokens) :
    Spells escapes ('(' :: (text ++ [')'])) (.opening :: (tokens ++ [.closing])) := by
  have isOpening : lexFrom escapes .between ['('] = some ([.opening], .between) := rfl
  have isClosing : Spells escapes [')'] [.closing] := spells_of_lexFrom rfl
  exact .after_between isOpening (spells.append_cons rfl isClosing)

theorem Denotes.group (denotes : Denotes escapes tables .disjunction text meaning) :
    Denotes escapes tables .operand ('(' :: (text ++ [')'])) meaning := by
  obtain ⟨tokens, condition, spells, derives, isMeaning⟩ := denotes
  exact ⟨_, condition, spells_group spells, .group derives, isMeaning⟩

/-- A word in blanks between two texts. -/
theorem spells_between {separator : List Char} {token : Token} {tokens' : List Token}
    (isSeparator : lexFrom escapes .between (' ' :: separator) = some ([token], .between))
    (isFirst : Spells escapes first tokens) (isSecond : Spells escapes second tokens') :
    Spells escapes (first ++ (' ' :: separator ++ second)) (tokens ++ token :: tokens') :=
  isFirst.append_cons rfl (.after_between isSeparator isSecond)

theorem Denotes.and (isFirst : Denotes escapes tables .conjunction first meaning)
    (isSecond : Denotes escapes tables .operand second meaning') :
    Denotes escapes tables .conjunction (first ++ (" and ".toList ++ second))
      fun scope => meaning scope && meaning' scope := by
  obtain ⟨tokens, condition, spells, derives, isMeaning⟩ := isFirst
  obtain ⟨tokens', condition', spells', derives', isMeaning'⟩ := isSecond
  refine ⟨_, .and condition condition', spells_between rfl spells spells', .and derives derives',
    fun scope => ?_⟩
  rw [Condition.holds, isMeaning, isMeaning']

theorem Denotes.or (isFirst : Denotes escapes tables .disjunction first meaning)
    (isSecond : Denotes escapes tables .conjunction second meaning') :
    Denotes escapes tables .disjunction (first ++ (" or ".toList ++ second))
      fun scope => meaning scope || meaning' scope := by
  obtain ⟨tokens, condition, spells, derives, isMeaning⟩ := isFirst
  obtain ⟨tokens', condition', spells', derives', isMeaning'⟩ := isSecond
  refine ⟨_, .or condition condition', spells_between rfl spells spells', .or derives derives',
    fun scope => ?_⟩
  rw [Condition.holds, isMeaning, isMeaning']

theorem Denotes.existing {before table called : List Char}
    (isBefore : lexFrom escapes .between before =
      some (.keyword .existsWord :: existsTokens table called, .between))
    (denotes : Denotes escapes tables .disjunction text meaning) :
    Denotes escapes tables .operand (before ++ (text ++ [')'])) fun scope =>
      (tables table).any fun row => meaning ((called, row) :: scope) := by
  obtain ⟨tokens, condition, spells, derives, isMeaning⟩ := denotes
  have isClosing : Spells escapes [')'] [.closing] := spells_of_lexFrom rfl
  refine ⟨_, .existing table called condition,
    .after_between isBefore (spells.append_cons rfl isClosing), .existing table called derives,
    fun scope => ?_⟩
  simp only [Condition.holds, isMeaning]

theorem Denotes.missing {before table called : List Char}
    (isBefore : lexFrom escapes .between before =
      some (.keyword .notWord :: .keyword .existsWord :: existsTokens table called, .between))
    (denotes : Denotes escapes tables .disjunction text meaning) :
    Denotes escapes tables .operand (before ++ (text ++ [')'])) fun scope =>
      !(tables table).any fun row => meaning ((called, row) :: scope) := by
  obtain ⟨tokens, condition, spells, derives, isMeaning⟩ := denotes
  have isClosing : Spells escapes [')'] [.closing] := spells_of_lexFrom rfl
  refine ⟨_, .missing table called condition,
    .after_between isBefore (spells.append_cons rfl isClosing), .missing table called derives,
    fun scope => ?_⟩
  simp only [Condition.holds, isMeaning]

theorem query_of_denotes {before : List Char} {columns : List (List Char)}
    {sources : List (List Char × List Char)} {header : List Token}
    (isBefore : lexFrom escapes .between before = some (header, .between))
    (isHeader : ∀ tokens, readSelect (header ++ tokens) =
      readWhere columns sources (.keyword .whereWord :: tokens))
    (denotes : Denotes escapes tables .disjunction text meaning) :
    query escapes tables (before ++ text) =
      some (((scopes tables sources).filter meaning).map fun scope =>
        columns.map (column scope)) := by
  obtain ⟨tokens, condition, spells, derives, isMeaning⟩ := denotes
  have isWhere : readWhere columns sources (.keyword .whereWord :: tokens) =
      some { columns, sources, filter := condition } := by
    rw [readWhere, readCondition_of_derives derives]
  have sameMeaning : condition.holds tables = meaning := funext isMeaning
  rw [query, lex_of_spells (.after_between isBefore spells), Option.bind_some, isHeader, isWhere,
    Option.map_some, Select.rows, sameMeaning]

end Zabbix.Library.SqlMeaning
