import LuaCore.Proofs.Cutting
import LuaCore.Proofs.Meaning
import LuaCore.Proofs.Parsing

/-!
Spellings: what tokens have to say so that the grammar derives them, and what is then read from the
tree. There is one lemma for each production. A row of forms with a blank behind each is a text that
is cut into them.
-/

namespace LuaCore

open Lexer Tree.Grammar

namespace Form

def mark (mark : Symbol) : Form :=
  ⟨.symbol mark, mark.text⟩

def word (word : Keyword) : Form :=
  ⟨.keyword word, word.text⟩

def name (name : String) : Form :=
  ⟨.name, name⟩

def number (text : List Char) : Form :=
  ⟨.number, String.ofList text⟩

def string (text : List Char) : Form :=
  ⟨.string, String.ofList text⟩

end Form

/-- An identifier of ASCII characters that is not reserved. -/
def IsName (name : String) : Prop :=
  isWord name.toList ∧ Keyword.ofText? name = none

instance (name : String) : Decidable (IsName name) :=
  inferInstanceAs (Decidable (_ ∧ _))

/-! Texts of forms. -/

/-- A form that is cut off in front of a blank, and starts with none itself. -/
structure Spoken (form : Form) : Prop where
  cuts : ∀ rest, Cuts form.text.toList [form] (' ' :: rest)
  starts : ∃ c more, form.text.toList = c :: more ∧ ¬ isBlank c

theorem breaks_blank (rest : List Char) : Breaks (' ' :: rest) := by
  rintro c ⟨⟩
  decide

theorem letter_not_blank {c : Char} (letter : isLetter c) : ¬ isBlank c := by
  have code := letter_code letter
  intro blank
  rcases isBlank_iff.mp blank with rfl | rfl | rfl | rfl | rfl <;> exact absurd code (by decide)

theorem digit_not_blank {c : Char} (digit : c.isDigit) : ¬ isBlank c := by
  intro blank
  rcases isBlank_iff.mp blank with rfl | rfl | rfl | rfl | rfl <;> cases digit

theorem cuts_letters {text : String} (word : isWord text.toList) {rest : List Char}
    (breaks : Breaks rest) : Cuts text.toList [⟨wordKind text.toList, text⟩] rest := by
  have cuts := cuts_word word breaks
  rw [String.ofList_toList] at cuts
  exact cuts

theorem spoken_letters {text : String} (word : isWord text.toList) :
    Spoken ⟨wordKind text.toList, text⟩ := by
  constructor
  · exact fun rest => cuts_letters word (breaks_blank rest)
  · change ∃ c more, text.toList = c :: more ∧ ¬ isBlank c
    cases chars : text.toList with
    | nil =>
        rw [chars] at word
        cases word
    | cons c more =>
        rw [chars] at word
        exact ⟨c, more, rfl, letter_not_blank (Bool.and_eq_true_iff.mp word).1⟩

theorem name_kind {name : String} (isName : IsName name) : wordKind name.toList = .name := by
  rw [wordKind, String.ofList_toList, isName.2]

theorem cuts_name {name : String} (isName : IsName name) {rest : List Char}
    (breaks : Breaks rest) : Cuts name.toList [Form.name name] rest := by
  have cuts := cuts_letters isName.1 breaks
  rw [name_kind isName] at cuts
  exact cuts

theorem spoken_name {name : String} (isName : IsName name) : Spoken (.name name) := by
  have spoken := spoken_letters isName.1
  rw [name_kind isName] at spoken
  exact spoken

theorem spoken_word (word : Keyword) : Spoken (.word word) := by
  have letters : isWord word.text.toList := by cases word <;> decide
  have kind : wordKind word.text.toList = .keyword word := by cases word <;> decide
  have spoken := spoken_letters letters
  rw [kind] at spoken
  exact spoken

theorem spoken_mark (mark : Symbol) : Spoken (.mark mark) := by
  refine ⟨cuts_symbol_blank mark, ?_⟩
  cases mark with
  | operator operation => cases operation <;> exact ⟨_, _, rfl, by decide⟩
  | _ => exact ⟨_, _, rfl, by decide⟩

theorem spoken_number {written : Double.Written} (proper : written.Proper) :
    Spoken (.number written.text) := by
  obtain ⟨digit, more, same, isDigit⟩ := text_first proper
  constructor
  · intro rest
    rw [Form.number, String.toList_ofList]
    exact cuts_number proper (breaks_blank rest)
  · exact ⟨digit, more, (String.toList_ofList).trans same, digit_not_blank isDigit⟩

theorem spoken_string {write : Char → List Char} {text : List Char}
    (writes : ∀ c ∈ text, Writes c (write c)) : Spoken (.string (quotedBy write text)) := by
  constructor
  · intro rest
    rw [Form.string, String.toList_ofList]
    exact cuts_quoted writes (' ' :: rest)
  · exact ⟨'"', _, String.toList_ofList, by decide⟩

/-- A blank behind each form keeps them apart. -/
def spell (forms : List Form) : List Char :=
  forms.flatMap fun form => form.text.toList ++ [' ']

theorem cuts_spell {forms : List Form} (spoken : ∀ form ∈ forms, Spoken form) :
    Cuts (spell forms) forms [] := by
  induction forms with
  | nil => exact cuts_nil []
  | cons form forms ih =>
      have behind := ih fun other member => spoken other (List.mem_cons_of_mem form member)
      have stops : ∀ c ∈ (spell forms ++ []).head?, ¬ isBlank c := by
        cases forms with
        | nil => rintro c ⟨⟩
        | cons next forms =>
            obtain ⟨c, more, same, noBlank⟩ :=
              (spoken next (List.mem_cons_of_mem form List.mem_cons_self)).starts
            intro other member
            rw [spell, List.flatMap_cons, same] at member
            cases member
            exact noBlank
      have gap : Cuts [' '] [] (spell forms ++ []) :=
        cuts_blanks (List.cons_ne_nil _ _) (by decide) stops
      have cut : Cuts (form.text.toList ++ [' ']) [form] (spell forms ++ []) :=
        cuts_append ((spoken form List.mem_cons_self).cuts _) gap
      exact cuts_append cut behind

/-! Phrases from forms. -/

/-- Whatever tokens say these things, they are those of a part with a certain property. -/
structure Makes {α : Type} (forms : List Form) (tokens : α → List Token) (good : α → Prop) :
    Prop where
  spoken : ∀ form ∈ forms, Spoken form
  made : ∀ row, row.map Token.form = forms → ∃ part, tokens part = row ∧ good part

section Parts

variable {α β : Type} {forms forms' : List Form} {tokens : α → List Token}
  {tokens' : β → List Token} {good : α → Prop} {good' : β → Prop}

theorem makes_append (makes : Makes forms tokens good) (makes' : Makes forms' tokens' good') :
    Makes (forms ++ forms') (fun parts : α × β => tokens parts.1 ++ tokens' parts.2)
      fun parts => good parts.1 ∧ good' parts.2 := by
  constructor
  · intro form member
    rcases List.mem_append.mp member with member | member
    · exact makes.spoken form member
    · exact makes'.spoken form member
  · intro row same
    obtain ⟨front, behind, rfl, same, same'⟩ := List.map_eq_append_iff.mp same
    obtain ⟨part, rfl, fits⟩ := makes.made front same
    obtain ⟨part', rfl, fits'⟩ := makes'.made behind same'
    exact ⟨(part, part'), rfl, fits, fits'⟩

theorem makes_map (makes : Makes forms tokens good) (build : α → β)
    (same : ∀ part, tokens' (build part) = tokens part)
    (fits : ∀ part, good part → good' (build part)) : Makes forms tokens' good' := by
  refine ⟨makes.spoken, ?_⟩
  intro row said
  obtain ⟨part, rfl, goodPart⟩ := makes.made row said
  exact ⟨build part, same part, fits part goodPart⟩

theorem makes_nothing (part : α) (none : tokens part = []) (fits : good part) :
    Makes [] tokens good := by
  refine ⟨fun _ member => absurd member List.not_mem_nil, ?_⟩
  intro row same
  rw [List.map_eq_nil_iff] at same
  exact ⟨part, by rw [none, same], fits⟩

theorem makes_lexeme {kind : Token.Kind} {text : String} (spoken : Spoken ⟨kind, text⟩) :
    Makes [⟨kind, text⟩] (fun lexeme : Lexeme kind => [lexeme.token]) (·.text = text) := by
  constructor
  · intro form member
    cases List.mem_singleton.mp member
    exact spoken
  · intro row same
    obtain ⟨token, rfl, said⟩ := List.map_eq_singleton_iff.mp same
    obtain ⟨rfl, rfl⟩ := Form.mk.inj said
    obtain ⟨lexeme, whole⟩ := lexeme_exists (rfl : token.kind = token.kind)
    exact ⟨lexeme, congrArg (fun token => [token]) whole, congrArg Token.text whole⟩

end Parts

theorem makes_mark (mark : Symbol) :
    Makes [Form.mark mark] (fun lexeme : Mark mark => [lexeme.token]) (·.text = mark.text) :=
  makes_lexeme (spoken_mark mark)

theorem makes_word (word : Keyword) :
    Makes [Form.word word] (fun lexeme : Word word => [lexeme.token]) (·.text = word.text) :=
  makes_lexeme (spoken_word word)

theorem makes_name {name : String} (isName : IsName name) :
    Makes [Form.name name] (fun lexeme : Name => [lexeme.token]) (·.text = name) :=
  makes_lexeme (spoken_name isName)

/-! Productions. -/

/-- A derivation that is read to a meaning. -/
def Means {category : Category} (value : Meaning category) (derivation : Derivation category) :
    Prop :=
  derivation.Resolved ∧ meaning category derivation.tree = .ok value

/-- Tokens that say these things are a phrase with this meaning. -/
def Spells (category : Category) (forms : List Form) (value : Meaning category) : Prop :=
  Makes forms (fun derivation : Derivation category => derivation.tokens) (Means value)

/-- Rows of forms with commas between them. -/
def commas : List (List Form) → List Form
  | [] => []
  | first :: rest => first ++ rest.flatMap fun next => [Form.mark .comma] ++ next

theorem bind_ok {α β ε : Type} {first : Except ε α} {next : α → Except ε β} {middle : α}
    {result : β} (ok : first = .ok middle) (ok' : next middle = .ok result) :
    first >>= next = .ok result := by
  rw [ok]
  exact ok'

theorem single_ok {tree : Tree.Statement} {statement : Statement}
    (read : Statement.ofTree tree = .ok statement) : Block.ofTree [tree] = .ok [statement] :=
  bind_ok read (bind_ok rfl rfl)

section Productions

variable {first second third fourth fifth : List Form}

theorem spells_number {text : List Char} {x : Float} (spoken : Spoken (.number text))
    (read : Literal.number (String.ofList text) = .ok x) :
    Spells (.level 5) [Form.number text] (.number x) := by
  refine makes_map (makes_lexeme spoken) (fun numeral => .number numeral) (fun _ => rfl) ?_
  intro numeral same
  have found : Literal.number numeral.text = .ok x := same ▸ read
  exact ⟨trivial, bind_ok found rfl⟩

theorem spells_string {text : List Char} {value : String} (spoken : Spoken (.string text))
    (read : Literal.string (String.ofList text) = .ok value) :
    Spells (.level 5) [Form.string text] (.string value) := by
  refine makes_map (makes_lexeme spoken) (fun quoted => .string quoted) (fun _ => rfl) ?_
  intro quoted same
  have found : Literal.string quoted.text = .ok value := same ▸ read
  exact ⟨trivial, bind_ok found rfl⟩

theorem spells_truth :
    Spells (.level 5) [Form.word .trueWord] (.boolean true) :=
  makes_map (makes_word .trueWord) (fun word => .truth word) (fun _ => rfl)
    fun _ _ => ⟨trivial, rfl⟩

theorem spells_falsehood :
    Spells (.level 5) [Form.word .falseWord] (.boolean false) :=
  makes_map (makes_word .falseWord) (fun word => .falsehood word) (fun _ => rfl)
    fun _ _ => ⟨trivial, rfl⟩

theorem spells_nil : Spells (.level 5) [Form.word .nilWord] .nil :=
  makes_map (makes_word .nilWord) (fun word => .nil word) (fun _ => rfl)
    fun _ _ => ⟨trivial, rfl⟩

theorem spells_reference {name : String} (isName : IsName name) :
    Spells (.level 5) [Form.name name] (.name name) := by
  refine makes_map (makes_name isName) (fun name => .reference name) (fun _ => rfl) ?_
  rintro lexeme rfl
  exact ⟨trivial, rfl⟩

theorem spells_table {fields : List Field} (entries : Spells .fields first fields) :
    Spells (.level 5) ([Form.mark .leftBrace] ++ (first ++ [Form.mark .rightBrace]))
      (.table fields) := by
  refine makes_map
    (makes_append (makes_mark .leftBrace) (makes_append entries (makes_mark .rightBrace)))
    (fun ⟨left, entries, right⟩ => .table left entries right) (fun _ => rfl) ?_
  rintro ⟨left, entries, right⟩ ⟨_, ⟨resolved, means⟩, _⟩
  exact ⟨resolved, bind_ok means rfl⟩

theorem spells_parentheses {expression : Expression}
    (inside : Spells .expression first expression) :
    Spells (.level 5) ([Form.mark .leftParenthesis] ++ (first ++ [Form.mark .rightParenthesis]))
      expression :=
  makes_map
    (makes_append (makes_mark .leftParenthesis)
      (makes_append inside (makes_mark .rightParenthesis)))
    (fun ⟨left, inner, right⟩ => .parentheses left inner right) (fun _ => rfl)
    fun _ ⟨_, means, _⟩ => means

/-- An expression of a high level is one of each lower level. -/
theorem spells_lower {level high : Nat} {expression : Expression} (below : level ≤ high)
    (bound : high ≤ 5) (spells : Spells (.level high) first expression) :
    Spells (.level level) first expression := by
  induction below with
  | refl => exact spells
  | step _ ih =>
      apply ih (Nat.le_of_succ_le bound)
      exact makes_map spells (fun inner => .operand bound inner) (fun _ => rfl) fun _ means => means

theorem spells_binary {lhs rhs : Expression} (operation : Operation)
    (left : Spells (.level operation.level) first lhs)
    (right : Spells (.level (operation.level + 1)) second rhs) :
    Spells (.level operation.level) (first ++ ([Form.mark (.operator operation)] ++ second))
      (.binary lhs operation rhs) := by
  refine makes_map
    (makes_append left (makes_append (makes_mark (.operator operation)) right))
    (fun ⟨lhs, mark, rhs⟩ => .binary lhs operation rfl mark rhs) (fun _ => rfl) ?_
  rintro ⟨lhs, mark, rhs⟩ ⟨⟨resolved, means⟩, _, ⟨resolved', means'⟩⟩
  exact ⟨⟨resolved, resolved'⟩, bind_ok means (bind_ok means' rfl)⟩

theorem spells_negate {operand : Expression} (spells : Spells (.level 3) first operand) :
    Spells (.level 3) ([Form.mark (.operator .subtract)] ++ first) operand.negate := by
  refine makes_map (makes_append (makes_mark (.operator .subtract)) spells)
    (fun ⟨mark, inner⟩ => .negate mark inner) (fun _ => rfl) ?_
  rintro ⟨mark, inner⟩ ⟨_, ⟨resolved, means⟩⟩
  exact ⟨resolved, bind_ok means rfl⟩

theorem spells_dot {target : Expression} {name : String}
    (object : Spells (.level 4) first target) (isName : IsName name) :
    Spells (.level 4) (first ++ ([Form.mark .dot] ++ [Form.name name])) (.dot target name) := by
  refine makes_map (makes_append object (makes_append (makes_mark .dot) (makes_name isName)))
    (fun ⟨target, mark, name⟩ => .dot target mark name) (fun _ => rfl) ?_
  rintro ⟨target, mark, name⟩ ⟨⟨resolved, means⟩, _, rfl⟩
  exact ⟨resolved, bind_ok means rfl⟩

theorem spells_index {target key : Expression} (object : Spells (.level 4) first target)
    (inside : Spells .expression second key) :
    Spells (.level 4) (first ++ ([Form.mark .leftBracket] ++ (second ++ [Form.mark .rightBracket])))
      (.index target key) := by
  refine makes_map (makes_append object (makes_append (makes_mark .leftBracket)
      (makes_append inside (makes_mark .rightBracket))))
    (fun ⟨target, left, key, right⟩ => .index target left key right) (fun _ => rfl) ?_
  rintro ⟨target, left, key, right⟩ ⟨⟨resolved, means⟩, _, ⟨resolved', means'⟩, _⟩
  exact ⟨⟨resolved, resolved'⟩, bind_ok means (bind_ok means' rfl)⟩

theorem spells_call {callee : Expression} {arguments : List Expression}
    (function : Spells (.level 4) first callee) (values : Spells .arguments second arguments) :
    Spells (.level 4)
      (first ++ ([Form.mark .leftParenthesis] ++ (second ++ [Form.mark .rightParenthesis])))
      (.call callee arguments) := by
  refine makes_map (makes_append function (makes_append (makes_mark .leftParenthesis)
      (makes_append values (makes_mark .rightParenthesis))))
    (fun ⟨callee, left, values, right⟩ => .call callee left values right) (fun _ => rfl) ?_
  rintro ⟨callee, left, values, right⟩ ⟨⟨resolved, means⟩, _, ⟨resolved', means'⟩, _⟩
  exact ⟨⟨resolved, resolved'⟩, bind_ok means (bind_ok means' rfl)⟩

/-! Rows between commas. -/

theorem spells_arguments {rows : List (List Form)} {values : List Expression}
    (each : List.Forall₂ (Spells .expression) rows values) :
    Spells .arguments (commas rows) values := by
  have more {rows : List (List Form)} {values : List Expression}
      (each : List.Forall₂ (Spells .expression) rows values) :
      Spells .moreArguments (rows.flatMap fun next => [Form.mark .comma] ++ next) values := by
    induction each with
    | nil => exact makes_nothing .noMoreArguments rfl ⟨trivial, rfl⟩
    | cons next _ others =>
        rw [List.flatMap_cons, List.append_assoc]
        refine makes_map (makes_append (makes_mark .comma) (makes_append next others))
          (fun ⟨comma, next, others⟩ => .moreArguments comma next others) (fun _ => rfl) ?_
        rintro ⟨comma, next, others⟩ ⟨_, ⟨resolved, means⟩, ⟨resolved', means'⟩⟩
        exact ⟨⟨resolved, resolved'⟩, bind_ok means (bind_ok means' rfl)⟩
  cases each with
  | nil => exact makes_nothing .noArguments rfl ⟨trivial, rfl⟩
  | cons next others =>
      refine makes_map (makes_append next (more others))
        (fun ⟨first, others⟩ => .arguments first others) (fun _ => rfl) ?_
      rintro ⟨first, others⟩ ⟨⟨resolved, means⟩, ⟨resolved', means'⟩⟩
      exact ⟨⟨resolved, resolved'⟩, bind_ok means (bind_ok means' rfl)⟩

theorem spells_fields {rows : List (List Form)} {values : List Field}
    (each : List.Forall₂ (Spells .field) rows values) :
    Spells .fields (commas rows) values := by
  have more {rows : List (List Form)} {values : List Field}
      (each : List.Forall₂ (Spells .field) rows values) :
      Spells .moreFields (rows.flatMap fun next => [Form.mark .comma] ++ next) values := by
    induction each with
    | nil => exact makes_nothing .noMoreFields rfl ⟨trivial, rfl⟩
    | cons next _ others =>
        rw [List.flatMap_cons, List.append_assoc]
        refine makes_map (makes_append (makes_mark .comma) (makes_append next others))
          (fun ⟨comma, next, others⟩ => .moreFields (.comma comma) next others) (fun _ => rfl) ?_
        rintro ⟨comma, next, others⟩ ⟨_, ⟨resolved, means⟩, ⟨resolved', means'⟩⟩
        exact ⟨⟨resolved, resolved'⟩, bind_ok means (bind_ok means' rfl)⟩
  cases each with
  | nil => exact makes_nothing .noFields rfl ⟨trivial, rfl⟩
  | cons next others =>
      refine makes_map (makes_append next (more others))
        (fun ⟨first, others⟩ => .fields first others none)
        (fun ⟨first, _⟩ => congrArg (first.tokens ++ ·) (List.append_nil _)) ?_
      rintro ⟨first, others⟩ ⟨⟨resolved, means⟩, ⟨resolved', means'⟩⟩
      exact ⟨⟨resolved, resolved'⟩, bind_ok means (bind_ok means' rfl)⟩

theorem makes_parameters {names : List String} (each : ∀ name ∈ names, IsName name) :
    Makes (commas (names.map fun name => [Form.name name])) Parameters.tokens
      (·.names = names) := by
  have more {names : List String} (each : ∀ name ∈ names, IsName name) :
      Makes
        ((names.map fun name => [Form.name name]).flatMap fun next => [Form.mark .comma] ++ next)
        Parameters.moreTokens (fun others => (others.map fun next => next.2.text) = names) := by
    induction names with
    | nil => exact makes_nothing [] rfl rfl
    | cons name names ih =>
        have next := makes_name (each name List.mem_cons_self)
        have others := ih fun other member => each other (List.mem_cons_of_mem name member)
        rw [List.map_cons, List.flatMap_cons, List.append_assoc]
        refine makes_map (makes_append (makes_mark .comma) (makes_append next others))
          (fun ⟨comma, next, others⟩ => (comma, next) :: others) (fun _ => rfl) ?_
        rintro ⟨comma, next, others⟩ ⟨_, rfl, rfl⟩
        rfl
  cases names with
  | nil => exact makes_nothing .none rfl rfl
  | cons name names =>
      have others := more fun other member => each other (List.mem_cons_of_mem name member)
      refine makes_map (makes_append (makes_name (each name List.mem_cons_self)) others)
        (fun ⟨first, others⟩ => .some first others) (fun _ => rfl) ?_
      rintro ⟨first, others⟩ ⟨rfl, rfl⟩
      rfl

/-! Fields. -/

theorem spells_positional {expression : Expression} (value : Spells .expression first expression) :
    Spells .field first (.positional expression) := by
  refine makes_map value (fun value => .positional value) (fun _ => rfl) ?_
  rintro value ⟨resolved, means⟩
  exact ⟨resolved, bind_ok means rfl⟩

theorem spells_named {name : String} {expression : Expression} (isName : IsName name)
    (value : Spells .expression first expression) :
    Spells .field ([Form.name name] ++ ([Form.mark .assign] ++ first))
      (.named name expression) := by
  refine makes_map (makes_append (makes_name isName) (makes_append (makes_mark .assign) value))
    (fun ⟨name, sign, value⟩ => .named name sign value) (fun _ => rfl) ?_
  rintro ⟨name, sign, value⟩ ⟨rfl, _, resolved, means⟩
  exact ⟨resolved, bind_ok means rfl⟩

theorem spells_keyed {key expression : Expression} (inside : Spells .expression first key)
    (value : Spells .expression second expression) :
    Spells .field
      ([Form.mark .leftBracket] ++ (first ++ ([Form.mark .rightBracket] ++
        ([Form.mark .assign] ++ second))))
      (.keyed key expression) := by
  refine makes_map (makes_append (makes_mark .leftBracket) (makes_append inside
      (makes_append (makes_mark .rightBracket) (makes_append (makes_mark .assign) value))))
    (fun ⟨left, key, right, sign, value⟩ => .keyed left key right sign value) (fun _ => rfl) ?_
  rintro ⟨left, key, right, sign, value⟩ ⟨_, ⟨resolved, means⟩, _, _, ⟨resolved', means'⟩⟩
  exact ⟨⟨resolved, resolved'⟩, bind_ok means (bind_ok means' rfl)⟩

/-! Functions and statements. -/

theorem spells_literal {names : List String} {body : Block} (each : ∀ name ∈ names, IsName name)
    (block : Spells .block first body) :
    Spells (.level 5)
      ([Form.word .functionWord] ++ ([Form.mark .leftParenthesis] ++
        (commas (names.map fun name => [Form.name name]) ++
          ([Form.mark .rightParenthesis] ++ (first ++ [Form.word .endWord])))))
      (.function names body) := by
  refine makes_map (makes_append (makes_word .functionWord)
      (makes_append (makes_mark .leftParenthesis) (makes_append (makes_parameters each)
        (makes_append (makes_mark .rightParenthesis)
          (makes_append block (makes_word .endWord))))))
    (fun ⟨word, left, parameters, right, body, finish⟩ =>
      .literal word left parameters right body finish) (fun _ => rfl) ?_
  rintro ⟨word, left, parameters, right, body, finish⟩ ⟨_, _, rfl, _, ⟨resolved, means⟩, _⟩
  exact ⟨resolved, bind_ok means rfl⟩

theorem spells_function {name : String} {names : List String} {body : Block}
    (isName : IsName name) (each : ∀ name ∈ names, IsName name)
    (block : Spells .block first body) :
    Spells .statement
      ([Form.word .functionWord] ++ ([Form.name name] ++ ([Form.mark .leftParenthesis] ++
        (commas (names.map fun name => [Form.name name]) ++
          ([Form.mark .rightParenthesis] ++ (first ++ [Form.word .endWord]))))))
      [.function name names body] := by
  refine makes_map (makes_append (makes_word .functionWord) (makes_append (makes_name isName)
      (makes_append (makes_mark .leftParenthesis) (makes_append (makes_parameters each)
        (makes_append (makes_mark .rightParenthesis)
          (makes_append block (makes_word .endWord)))))))
    (fun ⟨word, name, left, parameters, right, body, finish⟩ =>
      .function word name left parameters right body finish) (fun _ => rfl) ?_
  rintro ⟨word, name, left, parameters, right, body, finish⟩
    ⟨_, rfl, _, rfl, _, ⟨resolved, means⟩, _⟩
  exact ⟨resolved, single_ok (bind_ok means rfl)⟩

theorem spells_declare {name : String} {expression : Expression} (isName : IsName name)
    (value : Spells .expression first expression) :
    Spells .statement
      ([Form.word .localWord] ++ ([Form.name name] ++ ([Form.mark .assign] ++ first)))
      [.declare name expression] := by
  refine makes_map (makes_append (makes_word .localWord) (makes_append (makes_name isName)
      (makes_append (makes_mark .assign) value)))
    (fun ⟨word, name, sign, value⟩ => .declareAs word name sign value) (fun _ => rfl) ?_
  rintro ⟨word, name, sign, value⟩ ⟨_, rfl, _, resolved, means⟩
  exact ⟨resolved, single_ok (bind_ok (bind_ok means rfl) rfl)⟩

theorem spells_assign {target expression : Expression} (isTarget : target.isTarget)
    (place : Spells .expression first target) (value : Spells .expression second expression) :
    Spells .statement (first ++ ([Form.mark .assign] ++ second)) [.assign target expression] := by
  refine makes_map (makes_append place (makes_append (makes_mark .assign) value))
    (fun ⟨target, sign, value⟩ => .assign target sign value) (fun _ => rfl) ?_
  rintro ⟨place, sign, value⟩ ⟨⟨resolved, means⟩, _, ⟨resolved', means'⟩⟩
  have assigned : Statement.assign? (startOf place.tokens) target expression =
      .ok (.assign target expression) := if_pos isTarget
  exact ⟨⟨resolved, resolved'⟩, single_ok (bind_ok means (bind_ok means' assigned))⟩

theorem spells_evaluate {expression : Expression} (value : Spells .expression first expression) :
    Spells .statement first [.evaluate expression] := by
  refine makes_map value (fun expression => .evaluate expression) (fun _ => rfl) ?_
  rintro value ⟨resolved, means⟩
  exact ⟨resolved, single_ok (bind_ok means rfl)⟩

theorem spells_noBranches : Spells .branches [] [] :=
  makes_nothing .noBranches rfl ⟨trivial, rfl⟩

theorem spells_moreBranches {condition : Expression} {body : Block} {others : List Branch}
    (guard : Spells .expression first condition) (block : Spells .block second body)
    (more : Spells .branches third others) :
    Spells .branches
      ([Form.word .elseifWord] ++ (first ++ ([Form.word .thenWord] ++ (second ++ third))))
      (.mk condition body :: others) := by
  refine makes_map (makes_append (makes_word .elseifWord) (makes_append guard
      (makes_append (makes_word .thenWord) (makes_append block more))))
    (fun ⟨word, condition, follows, body, others⟩ =>
      .moreBranches word condition follows body others) (fun _ => rfl) ?_
  rintro ⟨word, condition, follows, body, others⟩
    ⟨_, ⟨resolved, means⟩, _, ⟨resolved', means'⟩, ⟨resolvedOthers, meansOthers⟩⟩
  exact ⟨⟨resolved, resolved', resolvedOthers⟩,
    bind_ok (bind_ok means (bind_ok means' rfl)) (bind_ok meansOthers rfl)⟩

theorem spells_noAlternative : Spells .alternative [] none :=
  makes_nothing .noAlternative rfl ⟨trivial, rfl⟩

theorem spells_alternative {body : Block} (block : Spells .block first body) :
    Spells .alternative ([Form.word .elseWord] ++ first) (some body) := by
  refine makes_map (makes_append (makes_word .elseWord) block)
    (fun ⟨word, body⟩ => .alternative word body) (fun _ => rfl) ?_
  rintro ⟨word, body⟩ ⟨_, resolved, means⟩
  exact ⟨resolved, bind_ok means rfl⟩

theorem spells_choose {condition : Expression} {body : Block} {others : List Branch}
    {otherwise : Option Block} (guard : Spells .expression first condition)
    (block : Spells .block second body) (more : Spells .branches third others)
    (last : Spells .alternative fourth otherwise) :
    Spells .statement
      ([Form.word .ifWord] ++ (first ++ ([Form.word .thenWord] ++
        (second ++ (third ++ (fourth ++ [Form.word .endWord]))))))
      [.choose (.mk condition body) others otherwise] := by
  refine makes_map (makes_append (makes_word .ifWord) (makes_append guard
      (makes_append (makes_word .thenWord) (makes_append block
        (makes_append more (makes_append last (makes_word .endWord)))))))
    (fun ⟨word, condition, follows, body, others, otherwise, finish⟩ =>
      .choose word condition follows body others otherwise finish) (fun _ => rfl) ?_
  rintro ⟨word, condition, follows, body, others, otherwise, finish⟩
    ⟨_, ⟨resolved, means⟩, _, ⟨resolved', means'⟩, ⟨resolvedOthers, meansOthers⟩,
      ⟨resolvedLast, meansLast⟩, _⟩
  exact ⟨⟨resolved, resolved', resolvedOthers, resolvedLast⟩,
    single_ok (bind_ok (bind_ok means (bind_ok means' rfl))
      (bind_ok meansOthers (bind_ok meansLast rfl)))⟩

theorem spells_loop {counter : String} {start limit : Expression} {body : Block}
    (isName : IsName counter) (initial : Spells .expression first start)
    (final : Spells .expression second limit) (block : Spells .block third body) :
    Spells .statement
      ([Form.word .forWord] ++ ([Form.name counter] ++ ([Form.mark .assign] ++ (first ++
        ([Form.mark .comma] ++ (second ++ ([Form.word .doWord] ++
          (third ++ [Form.word .endWord]))))))))
      [.loop counter start limit none body] := by
  refine makes_map (makes_append (makes_word .forWord) (makes_append (makes_name isName)
      (makes_append (makes_mark .assign) (makes_append initial (makes_append (makes_mark .comma)
        (makes_append final (makes_append (makes_word .doWord)
          (makes_append block (makes_word .endWord)))))))))
    (fun ⟨word, counter, sign, start, comma, limit, follows, body, finish⟩ =>
      .loop word counter sign start comma limit follows body finish) (fun _ => rfl) ?_
  rintro ⟨word, counter, sign, start, comma, limit, follows, body, finish⟩
    ⟨_, rfl, _, ⟨resolved, means⟩, _, ⟨resolved', means'⟩, _, ⟨resolvedBody, meansBody⟩, _⟩
  exact ⟨⟨resolved, resolved', resolvedBody⟩,
    single_ok (bind_ok means (bind_ok means' (bind_ok rfl (bind_ok meansBody rfl))))⟩

theorem spells_loopBy {counter : String} {start limit step : Expression} {body : Block}
    (isName : IsName counter) (initial : Spells .expression first start)
    (final : Spells .expression second limit) (increment : Spells .expression third step)
    (block : Spells .block fourth body) :
    Spells .statement
      ([Form.word .forWord] ++ ([Form.name counter] ++ ([Form.mark .assign] ++ (first ++
        ([Form.mark .comma] ++ (second ++ ([Form.mark .comma] ++ (third ++
          ([Form.word .doWord] ++ (fourth ++ [Form.word .endWord]))))))))))
      [.loop counter start limit (some step) body] := by
  refine makes_map (makes_append (makes_word .forWord) (makes_append (makes_name isName)
      (makes_append (makes_mark .assign) (makes_append initial (makes_append (makes_mark .comma)
        (makes_append final (makes_append (makes_mark .comma) (makes_append increment
          (makes_append (makes_word .doWord)
            (makes_append block (makes_word .endWord)))))))))))
    (fun ⟨word, counter, sign, start, comma, limit, comma', step, follows, body, finish⟩ =>
      .loopBy word counter sign start comma limit comma' step follows body finish)
    (fun _ => rfl) ?_
  rintro ⟨word, counter, sign, start, comma, limit, comma', step, follows, body, finish⟩
    ⟨_, rfl, _, ⟨resolved, means⟩, _, ⟨resolved', means'⟩, _, ⟨resolvedStep, meansStep⟩, _,
      ⟨resolvedBody, meansBody⟩, _⟩
  exact ⟨⟨resolved, resolved', resolvedStep, resolvedBody⟩,
    single_ok (bind_ok means (bind_ok means' (bind_ok (bind_ok meansStep rfl)
      (bind_ok meansBody rfl))))⟩

/-! Blocks. -/

theorem spells_empty : Spells .block [] [] :=
  makes_nothing (.block .noStatements .noReturn) rfl ⟨⟨trivial, trivial⟩, rfl⟩

/-- A return may have a semicolon behind it. -/
theorem spells_returns {expression : Expression} (value : Spells .expression first expression)
    (stop : Makes second optionalTokens fun _ => True) :
    Spells .block ([Form.word .returnWord] ++ (first ++ second)) [.returns expression] := by
  refine makes_map (makes_append (makes_word .returnWord) (makes_append value stop))
    (fun ⟨word, value, stop⟩ => .block .noStatements (.returns word value stop)) (fun _ => rfl) ?_
  rintro ⟨word, value, stop⟩ ⟨_, ⟨resolved, means⟩, _⟩
  exact ⟨⟨trivial, resolved⟩, single_ok (bind_ok (bind_ok means rfl) rfl)⟩

/-- A statement with a semicolon behind it, in front of a block. -/
def precede (first : Derivation .statement) (stop : Mark .semicolon) :
    Derivation .block → Derivation .block
  | .block statements closing =>
      .block (.moreStatements first (.moreStatements (.empty stop) statements)) closing

/-- Behind a semicolon nothing can continue a statement. -/
theorem spells_block {statements body : Block} (front : Spells .statement first statements)
    (behind : Spells .block second body) :
    Spells .block (first ++ ([Form.mark .semicolon] ++ second)) (statements ++ body) := by
  refine makes_map (makes_append front (makes_append (makes_mark .semicolon) behind))
    (fun ⟨first, stop, rest⟩ => precede first stop rest) ?_ ?_
  · rintro ⟨first, stop, statements, closing⟩
    exact List.append_assoc ..
  rintro ⟨first, stop, statements, closing⟩
    ⟨⟨resolved, means⟩, _, ⟨⟨resolved', resolvedLast⟩, means'⟩⟩
  refine ⟨⟨⟨resolved, ⟨trivial, resolved', ?_⟩, ?_⟩, resolvedLast⟩, ?_⟩
  · exact fun impossible => impossible.elim
  · rintro _ token ⟨⟩ glue
    rcases glue with glue | glue <;> cases glue
  · have tree : (precede first stop (.block statements closing)).tree =
        first.tree ++ (statements.tree ++ closing.tree) := List.append_assoc ..
    change Block.ofTree (precede first stop (.block statements closing)).tree = _
    rw [tree, ofTree_append]
    exact bind_ok means (bind_ok means' rfl)

end Productions

/-- A text that is cut into the forms of a program holds that program. -/
theorem parse_cuts {text : List Char} {forms : List Form} {program : Block}
    (cuts : Cuts text forms []) (spells : Spells .block forms program) :
    parse (String.ofList text) = .ok program := by
  obtain ⟨tokens, place, lexes, said⟩ := cuts {}
  obtain ⟨derivation, rfl, resolved, read⟩ := spells.made tokens said
  have lexed : Lexed (String.ofList text) derivation.tokens := by
    rw [List.append_nil] at lexes
    exact ⟨place, by rwa [String.toList_ofList]⟩
  exact derivation_parses lexed resolved read

end LuaCore
