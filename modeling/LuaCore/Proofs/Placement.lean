import LuaCore.Proofs.Spelling

/-!
Texts at another place. A text is cut into the same tokens wherever it starts, and what they say
does not depend on where they stand.
-/

namespace LuaCore

open Lexer Tree.Grammar

namespace Position

/-- Whether a place is one of those in a text, where lines and columns count from 1. -/
def Counted (position : Position) : Prop :=
  1 ≤ position.line ∧ 1 ≤ position.column

/-- Where a place of a text is when the text starts here. -/
def behind (start position : Position) : Position :=
  if position.line = 1 then ⟨start.line, start.column + position.column - 1⟩
  else ⟨start.line + position.line - 1, position.column⟩

theorem behind_start (start : Position) : start.behind {} = start := rfl

variable {position : Position}

theorem counted_next (counted : position.Counted) (c : Char) : (position.next c).Counted := by
  unfold next
  split
  · exact ⟨Nat.le_add_left 1 _, Nat.le_refl 1⟩
  · exact ⟨counted.1, Nat.le_add_left 1 _⟩

theorem counted_advance (counted : position.Counted) (text : List Char) :
    (position.advance text).Counted := by
  induction text generalizing position with
  | nil => exact counted
  | cons c text ih => exact ih (counted_next counted c)

theorem behind_next (start : Position) (counted : position.Counted) (c : Char) :
    start.behind (position.next c) = (start.behind position).next c := by
  obtain ⟨lines, columns⟩ := counted
  by_cases line : c = '\n'
  · have below : ¬ position.line + 1 = 1 := by omega
    simp only [next, line, if_true, behind, below, if_false]
    split <;> simp only [mk.injEq, and_true] <;> omega
  · simp only [next, line, if_false, behind]
    split <;> simp only [mk.injEq, true_and]
    omega

theorem behind_advance (start : Position) (counted : position.Counted) (text : List Char) :
    start.behind (position.advance text) = (start.behind position).advance text := by
  induction text generalizing position with
  | nil => rfl
  | cons c text ih =>
      change start.behind ((position.next c).advance text) = _
      rw [ih (counted_next counted c), behind_next start counted]
      rfl

end Position

/-- A token somewhere else. -/
def Token.move (place : Position → Position) (token : Token) : Token :=
  { token with position := place token.position }

/-- The tokens of a text that starts further on. -/
theorem lexes_behind (start : Position) {position place : Position} {text more : List Char}
    {tokens : List Token} (lexes : Lexes position text tokens place more)
    (counted : position.Counted) :
    Lexes (start.behind position) text (tokens.map (Token.move start.behind)) (start.behind place)
      more := by
  induction lexes with
  | refl => exact .refl _ _
  | ignored first silent _ ih =>
      refine .ignored first silent ?_
      rw [← Position.behind_advance start counted]
      exact ih (Position.counted_advance counted _)
  | token first sounds _ ih =>
      refine .token first sounds ?_
      rw [← Position.behind_advance start counted]
      exact ih (Position.counted_advance counted _)

namespace Tree.Grammar

section

variable (place : Position → Position)

def Lexeme.move {kind : Token.Kind} (lexeme : Lexeme kind) : Lexeme kind :=
  ⟨lexeme.text, place lexeme.position⟩

def Separator.move : Separator → Separator
  | comma mark => comma (mark.move place)
  | semicolon mark => semicolon (mark.move place)

def Parameters.moveMore : List (Mark .comma × Name) → List (Mark .comma × Name)
  | [] => []
  | next :: rest => (next.1.move place, next.2.move place) :: moveMore rest

def Parameters.move : Parameters → Parameters
  | none => none
  | some first others => some (first.move place) (moveMore place others)

/-- The same phrase of tokens somewhere else. -/
def Derivation.move : {category : Category} → Derivation category → Derivation category
  | _, block statements closing => .block statements.move closing.move
  | _, noStatements => .noStatements
  | _, moreStatements first others => .moreStatements first.move others.move
  | _, noReturn => .noReturn
  | _, returnsNothing word stop =>
      .returnsNothing (word.move place) (stop.map (Lexeme.move place))
  | _, returns word value stop =>
      .returns (word.move place) value.move (stop.map (Lexeme.move place))
  | _, empty mark => .empty (mark.move place)
  | _, declare word name => .declare (word.move place) (name.move place)
  | _, declareAs word name sign value =>
      .declareAs (word.move place) (name.move place) (sign.move place) value.move
  | _, function word name left parameters right body finish =>
      .function (word.move place) (name.move place) (left.move place) (parameters.move place)
        (right.move place) body.move (finish.move place)
  | _, choose word condition follows body others otherwise finish =>
      .choose (word.move place) condition.move (follows.move place) body.move others.move
        otherwise.move (finish.move place)
  | _, loop word counter sign start comma limit follows body finish =>
      .loop (word.move place) (counter.move place) (sign.move place) start.move (comma.move place)
        limit.move (follows.move place) body.move (finish.move place)
  | _, loopBy word counter sign start comma limit comma' step follows body finish =>
      .loopBy (word.move place) (counter.move place) (sign.move place) start.move (comma.move place)
        limit.move (comma'.move place) step.move (follows.move place) body.move (finish.move place)
  | _, assign target sign value => .assign target.move (sign.move place) value.move
  | _, evaluate expression => .evaluate expression.move
  | _, noBranches => .noBranches
  | _, moreBranches word condition follows body others =>
      .moreBranches (word.move place) condition.move (follows.move place) body.move others.move
  | _, noAlternative => .noAlternative
  | _, alternative word body => .alternative (word.move place) body.move
  | _, noArguments => .noArguments
  | _, arguments first others => .arguments first.move others.move
  | _, noMoreArguments => .noMoreArguments
  | _, moreArguments comma next others =>
      .moreArguments (comma.move place) next.move others.move
  | _, noFields => .noFields
  | _, fields first others last => .fields first.move others.move (last.map (Separator.move place))
  | _, noMoreFields => .noMoreFields
  | _, moreFields separator next others =>
      .moreFields (separator.move place) next.move others.move
  | _, positional value => .positional value.move
  | _, named name sign value => .named (name.move place) (sign.move place) value.move
  | _, keyed left key right sign value =>
      .keyed (left.move place) key.move (right.move place) (sign.move place) value.move
  | _, operand bound inner => .operand bound inner.move
  | _, binary lhs operation fits mark rhs =>
      .binary lhs.move operation fits (mark.move place) rhs.move
  | _, negate mark inner => .negate (mark.move place) inner.move
  | _, dot target mark name => .dot target.move (mark.move place) (name.move place)
  | _, index target left key right =>
      .index target.move (left.move place) key.move (right.move place)
  | _, call callee left values right =>
      .call callee.move (left.move place) values.move (right.move place)
  | _, number numeral => .number (numeral.move place)
  | _, string quoted => .string (quoted.move place)
  | _, truth word => .truth (word.move place)
  | _, falsehood word => .falsehood (word.move place)
  | _, nil word => .nil (word.move place)
  | _, reference name => .reference (name.move place)
  | _, table left entries right => .table (left.move place) entries.move (right.move place)
  | _, literal word left parameters right body finish =>
      .literal (word.move place) (left.move place) (parameters.move place) (right.move place)
        body.move (finish.move place)
  | _, parentheses left inner right =>
      .parentheses (left.move place) inner.move (right.move place)

@[simp] theorem token_move {kind : Token.Kind} (lexeme : Lexeme kind) :
    (lexeme.move place).token = lexeme.token.move place := rfl

@[simp] theorem separator_move (separator : Separator) :
    (separator.move place).token = separator.token.move place := by
  cases separator <;> rfl

@[simp] theorem optional_move (stop : Option (Mark .semicolon)) :
    optionalTokens (stop.map (Lexeme.move place)) =
      (optionalTokens stop).map (Token.move place) := by
  cases stop <;> rfl

@[simp] theorem last_move (separator : Option Separator) :
    lastSeparator (separator.map (Separator.move place)) =
      (lastSeparator separator).map (Token.move place) := by
  cases separator with
  | none => rfl
  | some separator => exact congrArg (fun token => [token]) (separator_move place separator)

@[simp] theorem moreParameters_move (others : List (Mark .comma × Name)) :
    Parameters.moreTokens (Parameters.moveMore place others) =
      (Parameters.moreTokens others).map (Token.move place) := by
  induction others with
  | nil => rfl
  | cons next rest ih => simp [Parameters.moveMore, Parameters.moreTokens, ih]

@[simp] theorem parameters_move (parameters : Parameters) :
    (parameters.move place).tokens = parameters.tokens.map (Token.move place) := by
  cases parameters <;> simp [Parameters.move, Parameters.tokens]

theorem tokens_move {category : Category} (derivation : Derivation category) :
    (derivation.move place).tokens = derivation.tokens.map (Token.move place) := by
  induction derivation <;> simp [Derivation.move, Derivation.tokens, *]

@[simp] theorem names_move (parameters : Parameters) :
    (parameters.move place).names = parameters.names := by
  cases parameters with
  | none => rfl
  | some first others =>
      have more : (Parameters.moveMore place others).map (fun next => next.2.text) =
          others.map fun next => next.2.text := by
        induction others with
        | nil => rfl
        | cons next rest ih => exact congrArg (next.2.text :: ·) ih
      exact congrArg (first.text :: ·) more

theorem ends_move (derivation : Derivation .statement) :
    (derivation.move place).EndsInExpression ↔ derivation.EndsInExpression := by
  cases derivation <;> exact Iff.rfl

theorem resolved_move {category : Category} (derivation : Derivation category) :
    (derivation.move place).Resolved ↔ derivation.Resolved := by
  induction derivation <;>
    simp_all [Derivation.move, Derivation.Resolved, ends_move, tokens_move, Token.move]

end

end Tree.Grammar

/-! What is read. -/

/-- Two readings come to the same, or there is a fault in both. -/
def Alike {α : Type} (first second : Except Fault α) : Prop :=
  first.toOption = second.toOption

section

variable {α β : Type}

theorem alike_bind {first second : Except Fault α} {next other : α → Except Fault β}
    (front : Alike first second) (rest : ∀ value, Alike (next value) (other value)) :
    Alike (first >>= next) (second >>= other) := by
  cases first with
  | error =>
      cases second with
      | error => exact rfl
      | ok => cases front
  | ok value =>
      cases second with
      | error => cases front
      | ok =>
          cases front
          exact rest value

theorem alike_last {first second : Except Fault α} (front : Alike first second) (build : α → β) :
    Alike (first >>= fun value => .ok (build value)) (second >>= fun value => .ok (build value)) :=
  alike_bind front fun _ => rfl

theorem alike_ok {first second : Except Fault α} (alike : Alike first second) {value : α}
    (ok : second = .ok value) : first = .ok value := by
  subst ok
  cases first with
  | error => cases alike
  | ok => exact congrArg Except.ok (Option.some.inj alike)

end

theorem single_alike {tree other : Tree.Statement}
    (alike : Alike (Statement.ofTree tree) (Statement.ofTree other)) :
    Alike (Block.ofTree [tree]) (Block.ofTree [other]) :=
  alike_last alike fun statement => [statement]

theorem blocks_alike {first second first' second' : Tree.Block}
    (front : Alike (Block.ofTree first) (Block.ofTree second))
    (behind : Alike (Block.ofTree first') (Block.ofTree second')) :
    Alike (Block.ofTree (first ++ first')) (Block.ofTree (second ++ second')) := by
  rw [ofTree_append, ofTree_append]
  exact alike_bind front fun _ => alike_last behind _

/-- Where an assignment stands matters only for what is told about a wrong target. -/
theorem assign_alike (start start' : Position) (target value : Expression) :
    Alike (Statement.assign? start target value) (Statement.assign? start' target value) := by
  unfold Statement.assign?
  split <;> rfl

-- The reading of a phrase is made of those of its parts, and no part is read by its place.
theorem meaning_move (place : Position → Position) {category : Category}
    (derivation : Derivation category) :
    Alike (meaning category (derivation.move place).tree) (meaning category derivation.tree) := by
  induction derivation
  case noStatements | noReturn | empty | returnsNothing | declare | noBranches | noAlternative |
      noArguments | noMoreArguments | noFields | noMoreFields | number | string | truth |
      falsehood | nil | reference => exact rfl
  case block ih ih' | moreStatements ih ih' => exact blocks_alike ih ih'
  case returns ih | declareAs ih => exact single_alike (alike_last (alike_last ih _) _)
  case evaluate ih => exact single_alike (alike_last ih _)
  case function ih =>
    rw [Derivation.move, Derivation.tree, names_move]
    exact single_alike (alike_last ih _)
  case choose condition body others otherwise =>
    exact single_alike (alike_bind (alike_bind condition fun _ => alike_last body _) fun _ =>
      alike_bind others fun _ => alike_last otherwise _)
  case loop start limit body =>
    exact single_alike (alike_bind start fun _ => alike_bind limit fun _ => alike_last body _)
  case loopBy start limit step body =>
    refine single_alike (alike_bind start fun _ => alike_bind limit fun _ => ?_)
    exact alike_bind (alike_last step _) fun _ => alike_last body _
  case assign target value =>
    refine single_alike (alike_bind target fun target => ?_)
    exact alike_bind value fun value => assign_alike _ _ target value
  case moreBranches condition body others =>
    exact alike_bind (alike_bind condition fun _ => alike_last body _) fun _ =>
      alike_last others _
  case literal ih =>
    rw [Derivation.move, Derivation.tree, names_move]
    exact alike_last ih _
  case alternative ih | positional ih | named ih | negate ih | dot ih | table ih =>
    exact alike_last ih _
  case arguments ih ih' | moreArguments ih ih' | fields ih ih' | moreFields ih ih' | keyed ih ih' |
      binary ih ih' | index ih ih' | call ih ih' =>
    exact alike_bind ih fun _ => alike_last ih' _
  case operand ih | parentheses ih => exact ih

/-- What tokens mean does not depend on where they stand. -/
theorem means_move (place : Position → Position) {category : Category} {value : Meaning category}
    {derivation : Derivation category} (means : Means value derivation) :
    Means value (derivation.move place) := by
  obtain ⟨resolved, read⟩ := means
  constructor
  · exact (resolved_move place derivation).mpr resolved
  · exact alike_ok (meaning_move place derivation) read

end LuaCore
