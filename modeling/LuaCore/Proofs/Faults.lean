import LuaCore.Proofs.Deciding

/-!
The ways in which parsing can fail. A text whose tokens are in order is refused for the first of its
literals that has a fault, or for a bad target.
-/

namespace LuaCore

open Lexer Tree.Grammar

/-- What comes of reading something whose first literal with a fault has the given one. -/
inductive Judged {α : Type} : Option Fault → Except Fault α → Prop where
  | sound (value : α) : Judged none (.ok value)
  | literal (fault : Fault) : Judged (some fault) (.error fault)
  | target (found : Option Fault) (nodeName : String) (start : Position) :
      Judged found (.error (.target nodeName start))

/-- Whether a literal has the fault by itself. -/
def Fault.isLiteral : Fault → Bool
  | .target .. => false
  | _ => true

theorem decided_judged {α : Type} {faults : List Fault} {result : Except Fault α}
    (decided : Decided faults result) : Judged (faults.find? Fault.isLiteral) result := by
  cases decided with
  | sound value => exact .sound value
  | first fault others =>
      cases fault with
      | escape | numeral => exact .literal _
      | target nodeName start => exact .target _ nodeName start

/-- The fault of the first literal that has one. -/
def firstFault? (tokens : List Token) : Option Fault :=
  tokens.findSome? Token.fault?

section

variable (tokens others : List Token)

@[simp] theorem firstFault_nil : firstFault? [] = none := rfl

@[simp] theorem firstFault_single (token : Token) : firstFault? [token] = token.fault? := by
  rw [firstFault?, List.findSome?_cons, List.findSome?_nil]
  cases token.fault? <;> rfl

@[simp] theorem firstFault_append :
    firstFault? (tokens ++ others) = (firstFault? tokens).or (firstFault? others) :=
  List.findSome?_append

@[simp] theorem firstFault_word {word : Keyword} (lexeme : Word word) :
    firstFault? (lexeme.token :: tokens) = firstFault? tokens := rfl

@[simp] theorem firstFault_mark {mark : Symbol} (lexeme : Mark mark) :
    firstFault? (lexeme.token :: tokens) = firstFault? tokens := rfl

@[simp] theorem firstFault_name (name : Name) :
    firstFault? (name.token :: tokens) = firstFault? tokens := rfl

@[simp] theorem firstFault_separator (separator : Separator) :
    firstFault? (separator.token :: tokens) = firstFault? tokens := by
  cases separator <;> rfl

@[simp] theorem firstFault_parameters (parameters : Parameters) :
    firstFault? parameters.tokens = none := by
  cases parameters with
  | none => rfl
  | some first others =>
      induction others with
      | nil => rfl
      | cons next others ih => exact ih

@[simp] theorem firstFault_optional (stop : Option (Mark .semicolon)) :
    firstFault? (optionalTokens stop) = none := by
  cases stop <;> rfl

@[simp] theorem firstFault_last (separator : Option Separator) :
    firstFault? (lastSeparator separator) = none := by
  cases separator with
  | none => rfl
  | some separator => exact firstFault_separator [] separator

end

theorem token_literal (token : Token) :
    token.fault?.toList.find? Fault.isLiteral = token.fault? := by
  unfold Token.fault?
  split
  · cases (Literal.escapes _).find? _ <;> rfl
  · split <;> rfl
  · rfl

theorem misplaced_literal (nodeName : String) (tokens : List Token) :
    (misplaced nodeName tokens).find? Fault.isLiteral = none := by
  unfold misplaced
  split <;> rfl

/-- The faults of a phrase that are those of literals are found in its tokens. -/
theorem faults_literals {category : Category} (derivation : Derivation category) :
    derivation.faults.find? Fault.isLiteral = firstFault? derivation.tokens := by
  induction derivation <;>
    simp only [Derivation.faults, Derivation.tokens, List.find?_nil, List.find?_append,
      token_literal, misplaced_literal, firstFault_nil, firstFault_append, firstFault_word,
      firstFault_mark, firstFault_name, firstFault_separator, firstFault_parameters,
      firstFault_optional, firstFault_last, Option.none_or, Option.or_none, Option.or_assoc, *]
  case number | string => rw [firstFault_single]

theorem derivation_judged {category : Category} (derivation : Derivation category) :
    Judged (firstFault? derivation.tokens) (meaning category derivation.tree) := by
  rw [← faults_literals]
  exact decided_judged (derivation_decided derivation)

/-- Whether an error is told as a problem with the text. -/
def ParseError.IsPlain (error : ParseError) : Prop :=
  error.name = "LuaParseError" ∨ error.name = "LuaIncompleteParse"

theorem refused_plain (token : Token) : (ParseError.refused token).IsPlain := by
  unfold ParseError.IsPlain ParseError.name
  by_cases incomplete : (ParseError.refused token).isIncomplete
  · exact .inr (if_pos incomplete)
  · exact .inl (if_neg incomplete)

/-- A text without a tree is refused as a text. -/
theorem treeless_plain {source : String} {error : ParseError}
    (outcome : parseTree source = .error error) : error.IsPlain := by
  cases verdict source with
  | refused _ _ _ _ _ _ _ refusal | incomplete _ _ _ _ refusal =>
      cases outcome.symm.trans refusal
      exact refused_plain _
  | unmatched _ _ _ _ _ refusal =>
      cases outcome.symm.trans refusal
      exact .inl rfl
  | accepted _ _ _ success => cases outcome.symm.trans success

theorem tree_judged {source : String} {tree : Tree.Block} (outcome : parseTree source = .ok tree) :
    Judged (firstFault? (scan source).tokens) (Block.ofTree tree) := by
  obtain ⟨tokens, lexed, derivation, _, rfl, rfl⟩ := (parseTree_ok_iff source tree).mp outcome
  rw [lexed_scan lexed]
  exact derivation_judged derivation

theorem literal_named {token : Token} {fault : Fault} (found : token.fault? = some fault) :
    (ParseError.faulty fault).name = "VisitError" := by
  unfold Token.fault? at found
  split at found
  · obtain ⟨c, _, rfl⟩ := Option.map_eq_some_iff.mp found
    rfl
  · obtain ⟨_, same⟩ := Option.ite_none_right_eq_some.mp found
    cases same
    rfl
  · cases found

/-- A text has a program and no literal with a fault, or it is refused as a text, or the fault of
its first literal that has one escapes under a name of its own. -/
theorem parse_answers (source : String) :
    (∃ program, parse source = .ok program ∧ firstFault? (scan source).tokens = none) ∨
    ∃ error, parse source = .error error ∧
      (error.IsPlain ∨ error.name = "VisitError" ∧
        ∃ fault, error = .faulty fault ∧ firstFault? (scan source).tokens = some fault) := by
  cases read : parseTree source with
  | error error => exact .inr ⟨error, parse_error read, .inl (treeless_plain read)⟩
  | ok tree =>
      have judged := tree_judged read
      have parsed := parse_tree read
      generalize Block.ofTree tree = result at judged parsed
      generalize found : firstFault? (scan source).tokens = first at judged ⊢
      cases judged with
      | sound program => exact .inl ⟨program, parsed, rfl⟩
      | target _ nodeName start => exact .inr ⟨_, parsed, .inl (.inl rfl)⟩
      | literal fault =>
          obtain ⟨token, _, bad⟩ := List.exists_of_findSome?_eq_some found
          exact .inr ⟨_, parsed, .inr ⟨literal_named bad, fault, rfl, rfl⟩⟩

/-- An escape by a superscript digit is none of the problems that a text can be told to have. -/
theorem parse_answers_superscript :
    ¬ ∀ source, (∃ program, parse source = .ok program) ∨
      ∃ error, parse source = .error error ∧ error.IsPlain := by
  intro always
  have refused : parse "return '\\²'" = .error (.faulty (.escape '²')) := by cbv
  rcases always "return '\\²'" with ⟨program, parsed⟩ | ⟨error, parsed, plain⟩
  · cases refused.symm.trans parsed
  · cases refused.symm.trans parsed
    rcases plain with plain | plain <;> exact absurd plain (by decide)

end LuaCore
