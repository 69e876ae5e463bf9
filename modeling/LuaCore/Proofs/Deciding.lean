import LuaCore.Proofs.Spelling

/-!
Which fault a text is refused for. A literal has its fault, if any, by itself: a string has an
escape by a digit without a decimal value, or a hexadecimal numeral is beyond the finite numbers. An
assignment has one by the name of its target. The faults of a phrase are in the order in which
reading it would come to them: those of its parts from left to right, and its own one behind them.
Reading comes to the first of them.
-/

namespace LuaCore

open Lexer Tree.Grammar

/-- What comes of reading something that has these faults, one behind the other. -/
inductive Decided {α : Type} : List Fault → Except Fault α → Prop where
  | sound (value : α) : Decided [] (.ok value)
  | first (fault : Fault) (others : List Fault) : Decided (fault :: others) (.error fault)

section

variable {α β : Type} {faults others : List Fault}

theorem decided_bind {first : Except Fault α} {next : α → Except Fault β}
    (decided : Decided faults first)
    (decided' : ∀ value, first = .ok value → Decided others (next value)) :
    Decided (faults ++ others) (first >>= next) := by
  cases decided with
  | sound value => exact decided' value rfl
  | first fault rest => exact .first fault (rest ++ others)

theorem decided_last {first : Except Fault α} (decided : Decided faults first) (build : α → β) :
    Decided faults (first >>= fun value => .ok (build value)) := by
  have whole := decided_bind decided fun value _ => Decided.sound (build value)
  rwa [List.append_nil] at whole

theorem decided_map {first : Except Fault α} (decided : Decided faults first) (build : α → β) :
    Decided faults (first.map build) := by
  cases decided with
  | sound value => exact .sound (build value)
  | first fault others => exact .first fault others

end

/-! Literals. -/

namespace Literal

/-- The characters that stand behind backslashes and start no number. -/
def escapes : List Char → List Char
  | [] => []
  | '\\' :: [] => []
  | '\\' :: c :: rest =>
      match escapeDigits (c :: rest) with
      | [] => c :: escapes rest
      | _ :: digits => escapes (rest.drop digits.length)
  | _ :: rest => escapes rest
termination_by text => text.length
decreasing_by
  all_goals simp only [List.length_drop, List.length_cons]
  all_goals omega

/-- The first escape that stands for nothing is what is wrong with a text. -/
theorem unescape_decided (text : List Char) :
    Decided (((escapes text).find? Text.isOrnamentalDigit).map Fault.escape).toList
      (unescape text) := by
  fun_induction unescape text with
  | case1 | case2 =>
      rw [escapes]
      exact .sound _
  | case3 c rest noNumber ornamental =>
      rw [escapes, noNumber]
      simp only [List.find?_cons, ornamental]
      exact .first _ _
  | case4 c rest noNumber plain ih =>
      rw [escapes, noNumber]
      simp only [List.find?_cons, plain]
      exact decided_map ih _
  | case5 c rest digit digits number ih =>
      rw [escapes, number]
      exact decided_map ih _
  | case6 c rest single plain ih =>
      rw [escapes]
      · exact decided_map ih _
      · exact single
      · exact plain

end Literal

/-- Whether a numeral is a hexadecimal one that is too large for a number. -/
def Double.isHuge (numeral : List Char) : Bool :=
  match hexadecimalDigits? numeral with
  | some digits => decide (overflowThreshold ≤ hexadecimalValue digits)
  | none => false

/-- What is wrong with a token by itself. -/
def Token.fault? (token : Token) : Option Fault :=
  match token.kind with
  | .string =>
      ((Literal.escapes (token.text.toList.drop 1).dropLast).find? Text.isOrnamentalDigit).map
        .escape
  | .number => if Double.isHuge token.text.toList then some .numeral else none
  | _ => none

theorem string_decided (quoted : Lexeme .string) :
    Decided quoted.token.fault?.toList (Literal.string quoted.text) :=
  decided_map (Literal.unescape_decided _) _

theorem number_decided (numeral : Lexeme .number) :
    Decided numeral.token.fault?.toList (Literal.number numeral.text) := by
  change Decided (if Double.isHuge numeral.text.toList then some Fault.numeral else none).toList _
  unfold Literal.number Double.Numeral.read? Double.isHuge
  cases Double.hexadecimalDigits? numeral.text.toList with
  | none => exact .sound _
  | some digits =>
      by_cases small : Double.hexadecimalValue digits < Double.overflowThreshold
      · have fits := Nat.not_le_of_lt small
        simp only [small, fits, decide_false, if_true]
        exact .sound _
      · have huge := Nat.le_of_not_lt small
        simp only [small, huge, decide_true, if_true, if_false]
        exact .first _ _

/-! The names of nodes. -/

namespace Tree.Grammar

/-- The names of the nodes that can be assigned to. -/
def targetNames : List String :=
  ["Variable", "Dot", "Index"]

/-- The name of the node that an expression is read to, without its parentheses. -/
def Derivation.nodeName : {category : Category} → Derivation category → String
  | _, operand _ inner => inner.nodeName
  | _, parentheses _ inner _ => inner.nodeName
  | _, binary .. => "Binary"
  | _, negate _ inner => if inner.nodeName = "Number" then "Number" else "Binary"
  | _, dot .. => "Dot"
  | _, index .. => "Index"
  | _, call .. => "Call"
  | _, number _ => "Number"
  | _, string _ => "String"
  | _, truth _ | _, falsehood _ => "Boolean"
  | _, nil _ => "Nil"
  | _, reference _ => "Variable"
  | _, table .. => "TableConstructor"
  | _, literal .. => "FunctionLiteral"
  | _, _ => ""

/-- What is wrong with a target by its name, in a statement of these tokens. -/
def misplaced (nodeName : String) (tokens : List Token) : List Fault :=
  if nodeName ∈ targetNames then [] else [.target nodeName (startOf tokens)]

/-- The faults of a phrase: those of its parts from left to right, and then its own one. -/
def Derivation.faults : {category : Category} → Derivation category → List Fault
  | _, block statements closing => statements.faults ++ closing.faults
  | _, noStatements => []
  | _, moreStatements first others => first.faults ++ others.faults
  | _, noReturn => []
  | _, returnsNothing .. => []
  | _, returns _ value _ => value.faults
  | _, empty _ => []
  | _, declare .. => []
  | _, declareAs _ _ _ value => value.faults
  | _, function _ _ _ _ _ body _ => body.faults
  | _, choose _ condition _ body others otherwise _ =>
      condition.faults ++ body.faults ++ (others.faults ++ otherwise.faults)
  | _, loop _ _ _ start _ limit _ body _ => start.faults ++ (limit.faults ++ body.faults)
  | _, loopBy _ _ _ start _ limit _ step _ body _ =>
      start.faults ++ (limit.faults ++ (step.faults ++ body.faults))
  | _, assign target sign value =>
      target.faults ++
        (value.faults ++ misplaced target.nodeName (assign target sign value).tokens)
  | _, evaluate expression => expression.faults
  | _, noBranches => []
  | _, moreBranches _ condition _ body others => condition.faults ++ body.faults ++ others.faults
  | _, noAlternative => []
  | _, alternative _ body => body.faults
  | _, noArguments => []
  | _, arguments first others => first.faults ++ others.faults
  | _, noMoreArguments => []
  | _, moreArguments _ next others => next.faults ++ others.faults
  | _, noFields => []
  | _, fields first others _ => first.faults ++ others.faults
  | _, noMoreFields => []
  | _, moreFields _ next others => next.faults ++ others.faults
  | _, positional value => value.faults
  | _, named _ _ value => value.faults
  | _, keyed _ key _ _ value => key.faults ++ value.faults
  | _, operand _ inner => inner.faults
  | _, binary lhs _ _ _ rhs => lhs.faults ++ rhs.faults
  | _, negate _ inner => inner.faults
  | _, dot target _ _ => target.faults
  | _, index target _ key _ => target.faults ++ key.faults
  | _, call callee _ values _ => callee.faults ++ values.faults
  | _, number numeral => numeral.token.fault?.toList
  | _, string quoted => quoted.token.fault?.toList
  | _, truth _ => []
  | _, falsehood _ => []
  | _, nil _ => []
  | _, reference _ => []
  | _, table _ entries _ => entries.faults
  | _, literal _ _ _ _ body _ => body.faults
  | _, parentheses _ inner _ => inner.faults

end Tree.Grammar

/-! What targets are read to. -/

section

variable {expression : Expression} (proper : expression.Proper)

include proper

-- A stray part has the name of what it is, which may be that of an expression.
theorem negate_named : expression.negate.nodeName =
    if expression.nodeName = "Number" then "Number" else "Binary" := by
  cases expression with
  | strayStatement | strayField => exact proper.elim
  | _ => rfl

theorem target_named : expression.isTarget = decide (expression.nodeName ∈ targetNames) := by
  cases expression with
  | strayStatement | strayField => exact proper.elim
  | _ => rfl

end

/-- An expression is read to a node of its name. -/
def KeepsName : {category : Category} → Derivation category → Prop
  | .level _, derivation =>
      ∀ {expression}, Expression.ofTree derivation.tree = .ok expression →
        expression.nodeName = derivation.nodeName
  | _, _ => True

theorem derivation_named {category : Category} (derivation : Derivation category) :
    KeepsName derivation := by
  induction derivation with
  | operand _ _ ih | parentheses _ _ _ ih => exact ih
  | negate _ inner ih =>
      intro expression read
      obtain ⟨operand, inside, read⟩ := ok_bind read
      cases read
      rw [negate_named (expression_proper inside), ih inside]
      rfl
  | number | string | dot | table | literal =>
      intro expression read
      obtain ⟨_, _, read⟩ := ok_bind read
      cases read
      rfl
  | binary | index | call =>
      intro expression read
      obtain ⟨_, _, read⟩ := ok_bind read
      obtain ⟨_, _, read⟩ := ok_bind read
      cases read
      rfl
  | truth | falsehood | nil | reference =>
      rintro _ ⟨⟩
      rfl
  | _ => trivial

/-! Phrases. -/

theorem single_decided {faults : List Fault} {tree : Tree.Statement}
    (decided : Decided faults (Statement.ofTree tree)) : Decided faults (Block.ofTree [tree]) :=
  decided_last decided fun statement => [statement]

theorem blocks_decided {faults others : List Fault} {trees trees' : Tree.Block}
    (decided : Decided faults (Block.ofTree trees))
    (decided' : Decided others (Block.ofTree trees')) :
    Decided (faults ++ others) (Block.ofTree (trees ++ trees')) := by
  rw [ofTree_append]
  exact decided_bind decided fun _ _ => decided_last decided' _

/-- An assignment is refused for its target after everything in it, at its first token. -/
theorem assign_decided (derivation value : Derivation .expression) (sign : Mark .assign)
    {target result : Expression} (read : Expression.ofTree derivation.tree = .ok target) :
    Decided (misplaced derivation.nodeName (Derivation.assign derivation sign value).tokens)
      (Statement.assign? (startOf derivation.tokens) target result) := by
  obtain ⟨first, rest, tokens, _⟩ := expression_first derivation
  have start : startOf (Derivation.assign derivation sign value).tokens =
      startOf derivation.tokens := by
    rw [Derivation.tokens, tokens]
    rfl
  have named : target.nodeName = derivation.nodeName := derivation_named derivation read
  rw [misplaced, start, ← named, Statement.assign?, target_named (expression_proper read)]
  by_cases known : target.nodeName ∈ targetNames
  · rw [if_pos known, if_pos (decide_eq_true known)]
    exact .sound _
  · rw [if_neg known, if_neg (by simpa using known)]
    exact .first _ _

-- The parts of a phrase are read in the order of their tokens, and what is read of the whole is
-- found only behind all of them.
theorem derivation_decided {category : Category} (derivation : Derivation category) :
    Decided derivation.faults (meaning category derivation.tree) := by
  induction derivation with
  | block _ _ ih ih' | moreStatements _ _ ih ih' => exact blocks_decided ih ih'
  | noStatements | noReturn | empty | returnsNothing | declare | noBranches | noAlternative
  | noArguments | noMoreArguments | noFields | noMoreFields | truth | falsehood | nil
  | reference => exact .sound _
  | number numeral => exact decided_last (number_decided numeral) _
  | string quoted => exact decided_last (string_decided quoted) _
  | returns _ _ _ ih => exact single_decided (decided_last (decided_last ih _) _)
  | declareAs _ _ _ _ ih => exact single_decided (decided_last (decided_last ih _) _)
  | function _ _ _ _ _ _ _ ih | evaluate _ ih => exact single_decided (decided_last ih _)
  | choose _ _ _ _ _ _ _ condition body others otherwise =>
      refine single_decided (decided_bind ?_ fun _ _ => ?_)
      · exact decided_bind condition fun _ _ => decided_last body _
      · exact decided_bind others fun _ _ => decided_last otherwise _
  | loop _ _ _ _ _ _ _ _ _ start limit body =>
      exact single_decided (decided_bind start fun _ _ => decided_bind limit fun _ _ =>
        decided_last body _)
  | loopBy _ _ _ _ _ _ _ _ _ _ _ start limit step body =>
      refine single_decided (decided_bind start fun _ _ => decided_bind limit fun _ _ => ?_)
      exact decided_bind (decided_last step _) fun _ _ => decided_last body _
  | assign target sign value ih ih' =>
      exact single_decided (decided_bind ih fun _ read => decided_bind ih' fun _ _ =>
        assign_decided target value sign read)
  | moreBranches _ _ _ _ _ condition body others =>
      refine decided_bind ?_ fun _ _ => decided_last others _
      exact decided_bind condition fun _ _ => decided_last body _
  | alternative _ _ ih | positional _ ih | named _ _ _ ih | negate _ _ ih | dot _ _ _ ih
  | table _ _ _ ih | literal _ _ _ _ _ _ ih => exact decided_last ih _
  | arguments _ _ ih ih' | moreArguments _ _ _ ih ih' | fields _ _ _ ih ih'
  | moreFields _ _ _ ih ih' | keyed _ _ _ _ _ ih ih' | binary _ _ _ _ _ ih ih'
  | index _ _ _ _ ih ih' | call _ _ _ _ ih ih' =>
      exact decided_bind ih fun _ _ => decided_last ih' _
  | operand _ _ ih | parentheses _ _ _ ih => exact ih

/-! Texts. -/

/-- How a fault is told: a wrong target as a problem with the text, at the first token of its
statement, and a literal by the rule that stumbles over it. -/
def ParseError.Tells (fileName : Option String) (error : ParseError) : Fault → Prop
  | .target nodeName start =>
      error.name = "LuaParseError" ∧
      error.message = "Cannot assign to `" ++ nodeName ++ "` expression." ∧
      error.site? fileName = some ⟨fileName, start, "="⟩
  | .escape digit =>
      error.name = "VisitError" ∧
      error.message = "Error trying to process rule \"string\":\n\n" ++
        (Fault.escape digit).reason ∧
      error.site? fileName = none
  | .numeral =>
      error.name = "VisitError" ∧
      error.message = "Error trying to process rule \"number\":\n\n" ++ Fault.numeral.reason ∧
      error.site? fileName = none

theorem faulty_tells (fileName : Option String) (fault : Fault) :
    (ParseError.faulty fault).Tells fileName fault := by
  cases fault <;> exact ⟨rfl, rfl, rfl⟩

/-- A text with its tokens in order has a program if nothing in it has a fault, and is refused for
the first fault otherwise. -/
theorem parse_decides {source : String} {derivation : Derivation .block}
    (lexed : Lexed source derivation.tokens) (resolved : derivation.Resolved)
    (fileName : Option String) :
    ((∃ program, parse source = .ok program) ↔ derivation.faults = []) ∧
    ∀ fault others, derivation.faults = fault :: others →
      ∃ error, parse source = .error error ∧ error.Tells fileName fault := by
  have parsed : parseTree source = .ok derivation.tree :=
    (parseTree_ok_iff source _).mpr ⟨_, lexed, derivation, resolved, rfl, rfl⟩
  have read := parse_tree parsed
  have decided : Decided derivation.faults (Block.ofTree derivation.tree) :=
    derivation_decided derivation
  generalize Block.ofTree derivation.tree = result at read decided
  generalize derivation.faults = faults at decided ⊢
  cases decided with
  | sound program =>
      refine ⟨⟨fun _ => rfl, fun _ => ⟨program, read⟩⟩, ?_⟩
      rintro fault others ⟨⟩
  | first fault rest =>
      refine ⟨⟨?_, fun none => absurd none (List.cons_ne_nil _ _)⟩, ?_⟩
      · rintro ⟨program, success⟩
        cases success.symm.trans read
      · rintro _ _ ⟨⟩
        exact ⟨_, read, faulty_tells fileName fault⟩

/-- The target in the function is found before that of the statement around it, and its parenthesis
is the first token of its statement. -/
theorem parse_decides_nested :
    ∃ derivation : Derivation .block,
      Lexed "f() = function() (1) = 2 end" derivation.tokens ∧ derivation.Resolved ∧
      derivation.faults = [.target "Number" ⟨1, 18⟩, .target "Call" ⟨1, 1⟩] ∧
      ∃ error, parse "f() = function() (1) = 2 end" = .error error ∧
        error.Tells (some "main.lua") (.target "Number" ⟨1, 18⟩) := by
  let expression (chain : Derivation (.level 4)) : Derivation .expression :=
    .operand (by decide) (.operand (by decide) (.operand (by decide) (.operand (by decide) chain)))
  let item (single : Derivation (.level 5)) : Derivation .expression :=
    expression (.operand (by decide) single)
  let body : Derivation .block :=
    .block (.moreStatements (.assign
      (item (.parentheses ⟨"(", ⟨1, 18⟩⟩ (item (.number ⟨"1", ⟨1, 19⟩⟩)) ⟨")", ⟨1, 20⟩⟩))
      ⟨"=", ⟨1, 22⟩⟩ (item (.number ⟨"2", ⟨1, 24⟩⟩))) .noStatements) .noReturn
  let derivation : Derivation .block :=
    .block (.moreStatements (.assign
      (expression (.call (.operand (by decide) (.reference ⟨"f", ⟨1, 1⟩⟩)) ⟨"(", ⟨1, 2⟩⟩
        .noArguments ⟨")", ⟨1, 3⟩⟩))
      ⟨"=", ⟨1, 5⟩⟩
      (item (.literal ⟨"function", ⟨1, 7⟩⟩ ⟨"(", ⟨1, 15⟩⟩ .none ⟨")", ⟨1, 16⟩⟩ body
        ⟨"end", ⟨1, 26⟩⟩))) .noStatements) .noReturn
  have lexed : Lexed "f() = function() (1) = 2 end" derivation.tokens := scan_lexed (by cbv)
  have resolved : derivation.Resolved := by
    simp [derivation, body, item, expression, Derivation.Resolved, Derivation.tokens]
  have faults : derivation.faults = [.target "Number" ⟨1, 18⟩, .target "Call" ⟨1, 1⟩] := by rfl
  exact ⟨derivation, lexed, resolved, faults,
    (parse_decides lexed resolved (some "main.lua")).2 _ _ faults⟩

end LuaCore
