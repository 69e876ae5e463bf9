import LuaCore.Proofs.WellFormed

/-!
A printer of programs. Whatever is more than one word, literal or bracketed row stands in
parentheses, every statement has a semicolon behind it, and numbers are written exactly. The text
of a well-formed program is read back as that program.
-/

namespace LuaCore

open Lexer Tree.Grammar

/-- How a character is written between double quotes. -/
def writeChar (c : Char) : List Char :=
  if c = '"' then ['\\', '"']
  else if c = '\\' then ['\\', '\\']
  else if c = '\r' then ['\\', 'r']
  else if c = '\n' then ['\\', 'n']
  else [c]

def parenthesised (forms : List Form) : List Form :=
  [.mark .leftParenthesis] ++ (forms ++ [.mark .rightParenthesis])

/-- A number that is read back exactly. A sign is one of its own. -/
def numberForms (x : Float) : List Form :=
  let numeral := Form.number (Double.numeral (Double.magnitude x)).text
  if Double.isNegative x then parenthesised ([.mark (.operator .subtract)] ++ [numeral])
  else [numeral]

mutual

def Expression.forms : Expression → List Form
  | .number value => numberForms value
  | .string value => [.string (quotedBy writeChar value.toList)]
  | .boolean value => [.word (if value then .trueWord else .falseWord)]
  | .nil => [.word .nilWord]
  | .name name => [.name name]
  | .table fields => [.mark .leftBrace] ++ (commas (Field.rows fields) ++ [.mark .rightBrace])
  | .binary lhs operation rhs =>
      parenthesised (lhs.forms ++ ([.mark (.operator operation)] ++ rhs.forms))
  | .call callee arguments =>
      parenthesised (callee.forms ++ parenthesised (commas (Expression.rows arguments)))
  | .dot target name => parenthesised (target.forms ++ ([.mark .dot] ++ [.name name]))
  | .index target key =>
      parenthesised (target.forms ++ ([.mark .leftBracket] ++ (key.forms ++ [.mark .rightBracket])))
  | .function parameters body =>
      [.word .functionWord] ++ ([.mark .leftParenthesis] ++
        (commas (parameters.map fun name => [.name name]) ++
          ([.mark .rightParenthesis] ++ (Block.forms body ++ [.word .endWord]))))
  | .strayStatement _ | .strayField _ => []

def Expression.rows : List Expression → List (List Form)
  | [] => []
  | expression :: rest => expression.forms :: Expression.rows rest

/-- A comma and an expression, unless it is omitted. -/
def Expression.forms? : Option Expression → List Form
  | none => []
  | some expression => [.mark .comma] ++ expression.forms

def Field.forms : Field → List Form
  | .positional value => value.forms
  | .named name value => [.name name] ++ ([.mark .assign] ++ value.forms)
  | .keyed key value =>
      [.mark .leftBracket] ++ (key.forms ++
        ([.mark .rightBracket] ++ ([.mark .assign] ++ value.forms)))

def Field.rows : List Field → List (List Form)
  | [] => []
  | field :: rest => field.forms :: Field.rows rest

def Branch.forms : List Branch → List Form
  | [] => []
  | .mk condition body :: rest =>
      [.word .elseifWord] ++ (condition.forms ++
        ([.word .thenWord] ++ (Block.forms body ++ Branch.forms rest)))

def Statement.forms : Statement → List Form
  | .assign target value => target.forms ++ ([.mark .assign] ++ value.forms)
  | .declare name value =>
      [.word .localWord] ++ ([.name name] ++ ([.mark .assign] ++ value.forms))
  | .evaluate expression => expression.forms
  | .returns value => [.word .returnWord] ++ value.forms
  | .function name parameters body =>
      [.word .functionWord] ++ ([.name name] ++ ([.mark .leftParenthesis] ++
        (commas (parameters.map fun name => [.name name]) ++
          ([.mark .rightParenthesis] ++ (Block.forms body ++ [.word .endWord])))))
  | .choose (.mk condition body) others otherwise =>
      [.word .ifWord] ++ (condition.forms ++ ([.word .thenWord] ++ (Block.forms body ++
        (Branch.forms others ++ (Block.forms? otherwise ++ [.word .endWord])))))
  | .loop counter start limit step body =>
      [.word .forWord] ++ ([.name counter] ++ ([.mark .assign] ++ (start.forms ++
        ([.mark .comma] ++ (limit.forms ++ (Expression.forms? step ++
          ([.word .doWord] ++ (Block.forms body ++ [.word .endWord]))))))))
  | .strayExpression _ | .strayField _ => []

def Block.forms : List Statement → List Form
  | [] => []
  | statement :: rest => statement.forms ++ ([.mark .semicolon] ++ Block.forms rest)

def Block.forms? : Option (List Statement) → List Form
  | none => []
  | some body => [.word .elseWord] ++ Block.forms body

end

def print (program : Block) : String :=
  String.ofList (spell (Block.forms program))

theorem writeChar_writes (c : Char) : Writes c (writeChar c) := by
  unfold writeChar
  split_ifs with quote backslash carriage line
  on_goal 5 => exact .plain (by simp [quote, backslash, carriage, line])
  all_goals
    subst c
    exact .escape rfl (by decide) (by decide) (by decide)

theorem spells_numeral {bits : Nat} (number : bits ≤ Double.infinityBits) :
    Spells (.level 5) [.number (Double.numeral bits).text] (.number (Double.ofMagnitude bits)) := by
  apply spells_number (spoken_number (Double.numeral_proper bits))
  rw [Literal.number, String.toList_ofList, Double.read_numeral number]

theorem spells_float {x : Float} (number : x.isNaN = false) :
    Spells (.level 5) (numberForms x) (.number x) := by
  have bound := (Double.number_iff x).mp number
  have numeral := spells_numeral bound
  have signed := Double.signed bound
  unfold numberForms
  by_cases negative : Double.isNegative x
  · rw [if_pos negative] at signed ⊢
    have negated := spells_negate (spells_lower (by decide) (by decide) numeral)
    rw [Expression.negate, ← signed] at negated
    exact spells_parentheses (spells_lower (by decide) (by decide) negated)
  · rw [if_neg negative] at signed ⊢
    rw [← signed] at numeral
    exact numeral

theorem spells_text (text : String) :
    Spells (.level 5) [.string (quotedBy writeChar text.toList)] (.string text) := by
  have writes : ∀ c ∈ text.toList, Writes c (writeChar c) := fun c _ => writeChar_writes c
  apply spells_string (spoken_string writes)
  rw [string_quoted writes, String.ofList_toList]

/-- What stands alone is an expression of every level. -/
theorem spells_any {forms : List Form} {expression : Expression} {level : Nat}
    (bound : level ≤ 5) (spells : Spells (.level 5) forms expression) :
    Spells (.level level) forms expression :=
  spells_lower bound (Nat.le_refl 5) spells

theorem spells_enclosed {forms : List Form} {expression : Expression} {level : Nat}
    (bound : level ≤ 5) (spells : Spells (.level level) forms expression) :
    Spells (.level 5) (parenthesised forms) expression :=
  spells_parentheses (spells_lower (Nat.zero_le level) bound spells)

theorem level_le (operation : Operation) : operation.level ≤ 2 := by
  cases operation <;> decide

-- One lemma for each function of the printer, in the order of the functions.
mutual

theorem expression_spells {expression : Expression} (wellFormed : expression.WellFormed) :
    Spells (.level 5) expression.forms expression := by
  cases expression with
  | number value => exact spells_float wellFormed
  | string value => exact spells_text value
  | boolean value =>
      cases value with
      | true => exact spells_truth
      | false => exact spells_falsehood
  | nil => exact spells_nil
  | name name => exact spells_reference wellFormed
  | table fields => exact spells_table (spells_fields (fields_spell wellFormed))
  | binary lhs operation rhs =>
      have low := level_le operation
      have left := expression_spells wellFormed.1
      have right := expression_spells wellFormed.2
      exact spells_enclosed (by omega)
        (spells_binary operation (spells_any (by omega) left) (spells_any (by omega) right))
  | call callee arguments =>
      have function := expression_spells wellFormed.1
      have values := expressions_spell wellFormed.2
      exact spells_enclosed (by decide)
        (spells_call (spells_any (by decide) function) (spells_arguments values))
  | dot target name =>
      have object := expression_spells wellFormed.1
      exact spells_enclosed (by decide) (spells_dot (spells_any (by decide) object) wellFormed.2)
  | index target key =>
      have object := expression_spells wellFormed.1
      have inside := expression_spells wellFormed.2
      exact spells_enclosed (by decide)
        (spells_index (spells_any (by decide) object) (spells_any (by decide) inside))
  | function parameters body =>
      exact spells_literal wellFormed.1 (block_spells wellFormed.2)
  | strayStatement | strayField => exact wellFormed.elim

theorem expressions_spell {expressions : List Expression}
    (wellFormed : Expression.AllWellFormed expressions) :
    List.Forall₂ (Spells .expression) (Expression.rows expressions) expressions := by
  cases expressions with
  | nil => exact .nil
  | cons expression rest =>
      have first := expression_spells wellFormed.1
      exact .cons (spells_any (by decide) first) (expressions_spell wellFormed.2)

theorem field_spells {field : Field} (wellFormed : field.WellFormed) :
    Spells .field field.forms field := by
  cases field with
  | positional value =>
      have first : Spells (.level 5) value.forms value := expression_spells wellFormed
      exact spells_positional (spells_any (by decide) first)
  | named name value =>
      have first := expression_spells wellFormed.2
      exact spells_named wellFormed.1 (spells_any (by decide) first)
  | keyed key value =>
      have inside := expression_spells wellFormed.1
      have first := expression_spells wellFormed.2
      exact spells_keyed (spells_any (by decide) inside) (spells_any (by decide) first)

theorem fields_spell {fields : List Field} (wellFormed : Field.AllWellFormed fields) :
    List.Forall₂ (Spells .field) (Field.rows fields) fields := by
  cases fields with
  | nil => exact .nil
  | cons field rest => exact .cons (field_spells wellFormed.1) (fields_spell wellFormed.2)

theorem branches_spell {branches : List Branch} (wellFormed : Branch.AllWellFormed branches) :
    Spells .branches (Branch.forms branches) branches := by
  cases branches with
  | nil => exact spells_noBranches
  | cons branch rest =>
      obtain ⟨condition, body⟩ := branch
      have guard := expression_spells wellFormed.1.1
      exact spells_moreBranches (spells_any (by decide) guard) (block_spells wellFormed.1.2)
        (branches_spell wellFormed.2)

theorem statement_spells {statement : Statement} (wellFormed : statement.WellFormed)
    (noReturn : ¬ statement.isReturn) : Spells .statement statement.forms [statement] := by
  cases statement with
  | assign target value =>
      obtain ⟨isTarget, target, value⟩ := wellFormed
      exact spells_assign isTarget (spells_any (by decide) (expression_spells target))
        (spells_any (by decide) (expression_spells value))
  | declare name value =>
      exact spells_declare wellFormed.1 (spells_any (by decide) (expression_spells wellFormed.2))
  | evaluate expression =>
      have value : Spells (.level 5) expression.forms expression := expression_spells wellFormed
      exact spells_evaluate (spells_any (by decide) value)
  | returns => exact absurd rfl noReturn
  | function name parameters body =>
      obtain ⟨isName, parameters, body⟩ := wellFormed
      exact spells_function isName parameters (block_spells body)
  | choose first others otherwise =>
      obtain ⟨condition, body⟩ := first
      obtain ⟨⟨condition, body⟩, others, otherwise⟩ := wellFormed
      exact spells_choose (spells_any (by decide) (expression_spells condition))
        (block_spells body) (branches_spell others) (otherwise_spells otherwise)
  | loop counter start limit step body =>
      obtain ⟨isName, start, limit, omitted, body⟩ := wellFormed
      have initial := expression_spells start
      have final := expression_spells limit
      cases step with
      | none =>
          exact spells_loop isName (spells_any (by decide) initial) (spells_any (by decide) final)
            (block_spells body)
      | some step =>
          have increment : Spells (.level 5) step.forms step := expression_spells omitted
          exact spells_loopBy isName (spells_any (by decide) initial) (spells_any (by decide) final)
            (spells_any (by decide) increment) (block_spells body)
  | strayExpression | strayField => exact wellFormed.elim

theorem block_spells {block : Block} (wellFormed : Block.WellFormed block) :
    Spells .block (Block.forms block) block := by
  cases block with
  | nil => exact spells_empty
  | cons statement rest =>
      obtain ⟨first, last, others⟩ := wellFormed
      cases returns : statement.isReturn with
      | false =>
          have front := statement_spells first (by simp [returns])
          exact spells_block front (block_spells others)
      | true =>
          cases last returns
          cases statement with
          | returns value =>
              have spells : Spells (.level 5) value.forms value := expression_spells first
              have stop : Makes [.mark .semicolon] optionalTokens fun _ => True :=
                makes_map (makes_mark .semicolon) some (fun _ => rfl) fun _ _ => trivial
              exact spells_returns (spells_any (by decide) spells) stop
          | _ => cases returns

theorem otherwise_spells {block : Option Block} (wellFormed : Block.WellFormed? block) :
    Spells .alternative (Block.forms? block) block := by
  cases block with
  | none => exact spells_noAlternative
  | some body => exact spells_alternative (block_spells wellFormed)

end

theorem parse_print {program : Block} (wellFormed : Block.WellFormed program) :
    parse (print program) = .ok program := by
  have spells := block_spells wellFormed
  exact parse_cuts (cuts_spell spells.spoken) spells

/-- The programs of texts are the well-formed ones. -/
theorem parse_image (program : Block) :
    (∃ source, parse source = .ok program) ↔ Block.WellFormed program :=
  ⟨fun ⟨_, parsed⟩ => parse_wellFormed parsed,
    fun wellFormed => ⟨print program, parse_print wellFormed⟩⟩

end LuaCore
