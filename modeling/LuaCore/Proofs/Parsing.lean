import LuaCore.Program.Parse
import LuaCore.Proofs.Finishing
import LuaCore.Proofs.Scanning
import LuaCore.Proofs.Tracing
import LuaCore.Proofs.Unambiguity

/-!
What parsing does to a text, in terms of the terminals and of the grammar alone: which texts have a
program and which one it is, and where and how any other text is refused.
-/

namespace LuaCore

open Lexer Tree.Grammar Tree.Reader

/-- The grammar derives the tokens. -/
def Accepted (tokens : List Token) : Prop :=
  ∃ derivation : Derivation .block, derivation.Resolved ∧ derivation.tokens = tokens

/-- The grammar derives something that starts with the tokens. -/
def Viable (tokens : List Token) : Prop :=
  ∃ more, Accepted (tokens ++ more)

/-- The tokens of a text up to its end. -/
def Lexed (source : String) (tokens : List Token) : Prop :=
  ∃ place, Lexes {} source.toList tokens place []

/-! Reading and the grammar. -/

theorem reads_split {state next : Tree.State} {first second : List Token}
    (reads : Reads state (first ++ second) next) :
    ∃ middle, Reads state first middle ∧ Reads middle second next := by
  induction first generalizing state with
  | nil => exact ⟨state, reads_nil state, reads⟩
  | cons token rest ih =>
      obtain ⟨after, step, behind⟩ := reads_uncons reads
      obtain ⟨middle, before, rest⟩ := ih behind
      exact ⟨middle, reads_cons step before, rest⟩

/-- A token that is refused behind some others is not read behind them. -/
theorem refused_unread {state middle next : Tree.State} {front rest : List Token} {token : Token}
    (reads : Reads state front middle) (stuck : feed middle token = none) :
    ¬ Reads state (front ++ token :: rest) next := by
  intro whole
  obtain ⟨other, before, after⟩ := reads_split whole
  cases before.symm.trans reads
  obtain ⟨_, step, _⟩ := reads_uncons after
  rw [stuck] at step
  cases step

theorem accepted_reads_nothing {program : Tree.Block} {tokens : List Token} {next : Tree.State}
    (reads : Reads (.accepted program) tokens next) : tokens = [] := by
  cases tokens with
  | nil => rfl
  | cons token rest =>
      obtain ⟨_, step, _⟩ := reads_uncons reads
      cases step

/-- The reader accepts exactly what is derived, with the end of the text behind it. -/
theorem reads_accepted_iff {tokens : List Token} {tree : Tree.Block} (finish : Lexeme .finish) :
    Reads start (tokens ++ [finish.token]) (.accepted tree) ↔ Derives .block tokens tree := by
  constructor
  · intro reads
    obtain ⟨block, finish', same, derives⟩ := accepted_derives reads
    obtain ⟨rfl, _⟩ := List.append_inj' same rfl
    exact derives
  · rintro ⟨derivation, resolved, rfl, rfl⟩
    exact accepts_derivation derivation resolved finish

theorem derives_accepted {tokens : List Token} {tree : Tree.Block}
    (derives : Derives .block tokens tree) : Accepted tokens := by
  obtain ⟨derivation, resolved, same, _⟩ := derives
  exact ⟨derivation, resolved, same⟩

-- A refusal is early: together with the next lemma this says that the reader is in some state
-- exactly as long as a derivation can start so.
/-- What the reader has taken is the start of something derived. -/
theorem reads_viable {tokens : List Token} {state : Tree.State} (reads : Reads start tokens state)
    (unfinished : ∀ program, state ≠ .accepted program) : Viable tokens := by
  obtain ⟨more, program, behind⟩ := finishes state unfinished
  have whole := reads_append reads behind
  obtain ⟨block, finish, same, derives⟩ := accepted_derives whole
  rcases List.eq_nil_or_concat more with rfl | ⟨front, last, rfl⟩
  · cases behind
    exact absurd rfl (unfinished program)
  · rw [List.concat_eq_append, ← List.append_assoc] at same
    obtain ⟨rfl, _⟩ := List.append_inj' same rfl
    exact ⟨front, derives_accepted derives⟩

theorem viable_reads {tokens : List Token} (viable : Viable tokens) :
    ∃ state, Reads start tokens state ∧ ∀ program, state ≠ .accepted program := by
  obtain ⟨more, derivation, resolved, same⟩ := viable
  have reads := accepts_derivation derivation resolved ⟨"", {}⟩
  rw [same, List.append_assoc] at reads
  obtain ⟨state, before, behind⟩ := reads_split reads
  refine ⟨state, before, ?_⟩
  rintro program rfl
  have none := accepted_reads_nothing behind
  simp at none

/-! Lexing. -/

theorem lexes_split {position place : Position} {text more : List Char}
    {first second : List Token} (lexes : Lexes position text (first ++ second) place more) :
    ∃ middle rest, Lexes position text first middle rest ∧ Lexes middle rest second place more := by
  generalize same : first ++ second = tokens at lexes
  induction lexes generalizing first with
  | refl position text =>
      obtain ⟨rfl, rfl⟩ := List.append_eq_nil_iff.mp same
      exact ⟨position, text, .refl position text, .refl position text⟩
  | ignored found silent _ ih =>
      obtain ⟨middle, rest, before, behind⟩ := ih same
      exact ⟨middle, rest, .ignored found silent before, behind⟩
  | token found sounds lexes ih =>
      cases first with
      | nil =>
          rw [List.nil_append] at same
          subst same
          exact ⟨_, _, .refl _ _, .token found sounds lexes⟩
      | cons token others =>
          obtain ⟨rfl, others⟩ := List.cons.inj same
          obtain ⟨middle, rest, before, behind⟩ := ih others
          exact ⟨middle, rest, .token found sounds before, behind⟩

theorem wordKind_finish (text : List Char) : wordKind text ≠ .finish := by
  unfold wordKind
  split <;> simp

/-- The end of a text is no token in it. -/
theorem lexes_finish {position place : Position} {text more : List Char} {tokens : List Token}
    (lexes : Lexes position text tokens place more) :
    ∀ token ∈ tokens, token.kind ≠ .finish := by
  induction lexes with
  | refl => simp
  | ignored _ _ _ ih => exact ih
  | @token _ _ lexeme _ _ _ terminal kind _ sounds _ ih =>
      intro token member
      rcases List.mem_cons.mp member with rfl | member
      · cases terminal with
        | longComment | comment | blank => cases sounds
        | number | string | symbol =>
            cases sounds
            simp
        | name =>
            cases sounds
            exact wordKind_finish lexeme
      · exact ih token member

theorem lexed_scan {source : String} {tokens : List Token} (lexed : Lexed source tokens) :
    scan source = ⟨tokens, none⟩ := by
  obtain ⟨place, lexes⟩ := lexed
  rw [scan_eq, lexes_scan lexes, scanFrom_nil, List.append_nil]

theorem scan_lexed {source : String} {tokens : List Token}
    (same : scan source = ⟨tokens, none⟩) : Lexed source tokens := by
  obtain ⟨place, more, lexes, ends⟩ := scan_lexes {} source.toList
  rw [← scan_eq, same] at lexes ends
  cases ends
  exact ⟨place, lexes⟩

/-! Trees of texts. -/

/-- How far the tokens of a text are read, and what comes of it. -/
inductive Verdict (source : String) : Prop where
  | refused (front rest : List Token) (token : Token) (state : Tree.State)
      (tokens : (scan source).tokens = front ++ token :: rest) (reads : Reads start front state)
      (stuck : feed state token = none) (outcome : parseTree source = .error (.refused token))
  | unmatched (c : Char) (place : Position) (state : Tree.State)
      (reads : Reads start (scan source).tokens state)
      (stuck : (scan source).stuck = some (c, place))
      (outcome : parseTree source = .error (.unmatched c place))
  | accepted (tree : Tree.Block) (complete : (scan source).stuck = none)
      (reads : Reads start ((scan source).tokens ++ [finishToken (scan source).tokens])
        (.accepted tree))
      (outcome : parseTree source = .ok tree)
  | incomplete (state : Tree.State) (complete : (scan source).stuck = none)
      (reads : Reads start (scan source).tokens state)
      (open' : ∀ tree, feed state (finishToken (scan source).tokens) ≠ some (.accepted tree))
      (outcome : parseTree source = .error (.refused (finishToken (scan source).tokens)))

theorem feedAll_error {state : Tree.State} {tokens : List Token} {token : Token}
    (error : feedAll state tokens = .error token) :
    ∃ front rest middle, tokens = front ++ token :: rest ∧ Reads state front middle ∧
      feed middle token = none := by
  induction tokens generalizing state with
  | nil => cases error
  | cons first rest ih =>
      rw [feedAll] at error
      cases step : feed state first with
      | none =>
          rw [step] at error
          cases error
          exact ⟨[], rest, state, rfl, reads_nil state, step⟩
      | some next =>
          rw [step] at error
          obtain ⟨front, others, middle, rfl, reads, stuck⟩ := ih error
          exact ⟨first :: front, others, middle, rfl, reads_cons step reads, stuck⟩

theorem program_accepted {state : Tree.State} {tree : Tree.Block}
    (found : program? state = some tree) : state = .accepted tree := by
  cases state with
  | accepted program =>
      cases found
      rfl
  | _ => cases found

theorem verdict (source : String) : Verdict source := by
  cases read : feedAll start (scan source).tokens with
  | error token =>
      obtain ⟨front, rest, state, tokens, reads, stuck⟩ := feedAll_error read
      refine .refused front rest token state tokens reads stuck ?_
      simp only [parseTree, read]
  | ok state =>
      cases ends : (scan source).stuck with
      | some found =>
          refine .unmatched found.1 found.2 state read ends ?_
          simp only [parseTree, read, ends]
      | none =>
          cases last : (feed state (finishToken (scan source).tokens)).bind program? with
          | some tree =>
              obtain ⟨next, step, found⟩ := Option.bind_eq_some_iff.mp last
              obtain rfl := program_accepted found
              refine .accepted tree ends (reads_append read (reads_one step)) ?_
              simp only [parseTree, read, ends, last]
          | none =>
              refine .incomplete state ends read ?_ ?_
              · intro tree step
                rw [step] at last
                cases last
              · simp only [parseTree, read, ends, last]

theorem parseTree_ok_iff (source : String) (tree : Tree.Block) :
    parseTree source = .ok tree ↔
      ∃ tokens, Lexed source tokens ∧ Derives .block tokens tree := by
  constructor
  · intro parsed
    cases verdict source with
    | refused _ _ _ _ _ _ _ outcome | unmatched _ _ _ _ _ outcome | incomplete _ _ _ _ outcome =>
        rw [outcome] at parsed
        cases parsed
    | accepted other complete reads outcome =>
        rw [outcome] at parsed
        cases parsed
        refine ⟨(scan source).tokens, scan_lexed ?_, (reads_accepted_iff ⟨"", _⟩).mp reads⟩
        rw [← complete]
  · rintro ⟨tokens, lexed, derives⟩
    have scanned := lexed_scan lexed
    have reads := (reads_accepted_iff
      ⟨"", (tokens.getLast?.map Token.position).getD {}⟩).mpr derives
    obtain ⟨state, before, last⟩ := reads_split reads
    obtain ⟨next, step, behind⟩ := reads_uncons last
    cases behind
    have read : feedAll start tokens = .ok state := before
    have finish : feed state (finishToken tokens) = some (.accepted tree) := step
    simp only [parseTree, scanned, read, finish]
    rfl

/-- What is left to do with a tree is to look for faults in it. -/
theorem parse_tree {source : String} {tree : Tree.Block} (outcome : parseTree source = .ok tree) :
    parse source = (Block.ofTree tree).mapError .faulty := by
  rw [parse, outcome]
  rfl

theorem derivation_parses {source : String} {derivation : Derivation .block} {program : Block}
    (lexed : Lexed source derivation.tokens) (resolved : derivation.Resolved)
    (faultless : Block.ofTree derivation.tree = .ok program) : parse source = .ok program := by
  have read := (parseTree_ok_iff source derivation.tree).mpr
    ⟨derivation.tokens, lexed, derivation, resolved, rfl, rfl⟩
  rw [parse_tree read, faultless]
  rfl

/-- A text has a program exactly when it lexes to tokens that the grammar derives in a derivation
whose tree has no fault. The program is that of the tree, and there is no other derivation. -/
theorem parse_exact (source : String) (program : Block) :
    parse source = .ok program ↔
      ∃ derivation : Derivation .block,
        Lexed source derivation.tokens ∧ derivation.Resolved ∧
        (∀ other : Derivation .block,
          Lexed source other.tokens → other.Resolved → other = derivation) ∧
        Block.ofTree derivation.tree = .ok program := by
  constructor
  · intro parsed
    cases read : parseTree source with
    | error error =>
        rw [parse, read] at parsed
        cases parsed
    | ok tree =>
        rw [parse_tree read] at parsed
        obtain ⟨tokens, lexed, derivation, resolved, rfl, rfl⟩ :=
          (parseTree_ok_iff source tree).mp read
        refine ⟨derivation, lexed, resolved, fun other lexed' resolved' => ?_, ?_⟩
        · have same := (lexed_scan lexed').symm.trans (lexed_scan lexed)
          exact derivation_unique other derivation resolved' resolved (Scan.mk.inj same).1
        · cases faultless : Block.ofTree derivation.tree with
          | error fault =>
              rw [faultless] at parsed
              cases parsed
          | ok found =>
              rw [faultless] at parsed
              cases parsed
              rfl
  · rintro ⟨derivation, lexed, resolved, _, faultless⟩
    have read := (parseTree_ok_iff source derivation.tree).mpr
      ⟨derivation.tokens, lexed, derivation, resolved, rfl, rfl⟩
    rw [parse_tree read, faultless]
    rfl

theorem accepted_parses {source : String} {tokens : List Token} (lexed : Lexed source tokens)
    (accepted : Accepted tokens) : ∃ tree, parseTree source = .ok tree := by
  obtain ⟨derivation, resolved, rfl⟩ := accepted
  exact ⟨_, (parseTree_ok_iff source _).mpr ⟨_, lexed, derivation, resolved, rfl, rfl⟩⟩

/-! The first problem of a text. -/

/-- The longest run of tokens at the start of a text that a derivation can start with. -/
structure LongestRun (source : String) (run : List Token) : Prop where
  lexed : ∃ place rest, Lexes {} source.toList run place rest
  viable : Viable run
  longest : ∀ longer place rest, Lexes {} source.toList longer place rest → Viable longer →
    longer.length ≤ run.length

/-- A text is refused under a name, with a token and its place. -/
def Refused (source name token : String) (position : Position) : Prop :=
  ∃ error, parse source = .error error ∧ error.name = name ∧ error.token? = some token ∧
    error.position? = some position

/-- What stands behind a run of tokens, as the name of an error, its token and its place: a further
token, a character at which no terminal matches, or the end of the text, which is reported where the
last token starts. -/
inductive Problem (source : String) (run : List Token) : String → String → Position → Prop where
  | token (token : Token) (place : Position) (rest : List Char)
      (lexes : Lexes {} source.toList (run ++ [token]) place rest) :
      Problem source run "LuaParseError" token.text token.position
  | character (c : Char) (place : Position) (rest : List Char)
      (lexes : Lexes {} source.toList run place (c :: rest))
      (unmatched : Terminal.first? (c :: rest) = none) :
      Problem source run "LuaParseError" (String.ofList [c]) place
  | finish (last : Token) (place : Position) (isLast : run.getLast? = some last)
      (lexes : Lexes {} source.toList run place []) :
      Problem source run "LuaIncompleteParse" "" last.position

theorem parse_error {source : String} {error : ParseError}
    (outcome : parseTree source = .error error) : parse source = .error error := by
  rw [parse, outcome]
  rfl

theorem faulty_name (fault : Fault) :
    (ParseError.faulty fault).name ≠ "LuaIncompleteParse" := by
  cases fault with
  | escape | numeral => exact (by decide : "VisitError" ≠ "LuaIncompleteParse")
  | target => exact (by decide : "LuaParseError" ≠ "LuaIncompleteParse")

/-- A text with a tree is refused for a fault at most, which is not the text's end. -/
theorem accepted_named {source : String} {tree : Tree.Block} {error : ParseError}
    (outcome : parseTree source = .ok tree) (refused : parse source = .error error) :
    error.name ≠ "LuaIncompleteParse" := by
  rw [parse_tree outcome] at refused
  cases faultless : Block.ofTree tree with
  | ok program =>
      rw [faultless] at refused
      cases refused
  | error fault =>
      rw [faultless] at refused
      cases refused
      exact faulty_name fault

/-- What is lexed is what the scan finds first. -/
theorem lexes_scanned {source : String} {tokens : List Token} {place : Position}
    {rest : List Char} (lexes : Lexes {} source.toList tokens place rest) :
    ∃ more, (scan source).tokens = tokens ++ more := by
  rw [scan_eq, lexes_scan lexes]
  exact ⟨_, rfl⟩

/-- The tokens of a scan are lexed as far as one likes. -/
theorem scanned_lexes {source : String} {first second : List Token}
    (same : (scan source).tokens = first ++ second) :
    ∃ place rest, Lexes {} source.toList first place rest := by
  obtain ⟨place, more, lexes, _⟩ := scan_lexes {} source.toList
  rw [← scan_eq, same] at lexes
  obtain ⟨middle, rest, before, _⟩ := lexes_split lexes
  exact ⟨middle, rest, before⟩

theorem scanned_finish (source : String) :
    ∀ token ∈ (scan source).tokens, token.kind ≠ .finish := by
  obtain ⟨place, rest, lexes⟩ := scanned_lexes (List.append_nil (scan source).tokens).symm
  exact lexes_finish lexes

/-- In front of the end of the text no program is complete. -/
theorem reads_unfinished {tokens : List Token} {state : Tree.State}
    (reads : Reads start tokens state) (noFinish : ∀ token ∈ tokens, token.kind ≠ .finish)
    (program : Tree.Block) : state ≠ .accepted program := by
  rintro rfl
  obtain ⟨block, finish, rfl, _⟩ := accepted_derives reads
  exact noFinish finish.token (by simp) rfl

theorem refused_named {token : Token} (noFinish : token.kind ≠ .finish) {source : String}
    (outcome : parseTree source = .error (.refused token)) :
    Refused source "LuaParseError" token.text token.position := by
  have complete : (ParseError.refused token).isIncomplete = false := decide_eq_false noFinish
  refine ⟨.refused token, parse_error outcome, ?_, rfl, rfl⟩
  unfold ParseError.name
  simp only [complete]
  rfl

/-- A run that takes all the tokens is the longest one. -/
theorem whole_longest {source : String} {state : Tree.State}
    (reads : Reads start (scan source).tokens state) : LongestRun source (scan source).tokens := by
  refine ⟨scanned_lexes (List.append_nil _).symm, ?_, ?_⟩
  · exact reads_viable reads (reads_unfinished reads (scanned_finish source))
  · intro longer place rest lexes _
    obtain ⟨more, same⟩ := lexes_scanned lexes
    rw [same, List.length_append]
    exact Nat.le_add_right _ _

/-- Two longest runs are the same: both are what the scan finds first. -/
theorem longest_unique {source : String} {run other : List Token} (longest : LongestRun source run)
    (longest' : LongestRun source other) : other = run := by
  obtain ⟨place, rest, lexes⟩ := longest.lexed
  obtain ⟨place', rest', lexes'⟩ := longest'.lexed
  have atMost := longest.longest other place' rest' lexes' longest'.viable
  have atLeast := longest'.longest run place rest lexes longest.viable
  obtain ⟨more, same⟩ := lexes_scanned lexes
  obtain ⟨more', same'⟩ := lexes_scanned lexes'
  rw [same] at same'
  exact (List.append_inj same' (Nat.le_antisymm atLeast atMost)).1.symm

theorem refused_longest {source : String} {front rest : List Token} {token : Token}
    {state : Tree.State} (tokens : (scan source).tokens = front ++ token :: rest)
    (reads : Reads start front state) (stuck : feed state token = none) :
    LongestRun source front := by
  have noFinish : ∀ token ∈ front, token.kind ≠ .finish := by
    intro other member
    exact scanned_finish source other (by rw [tokens]; exact List.mem_append_left _ member)
  refine ⟨scanned_lexes tokens, reads_viable reads (reads_unfinished reads noFinish), ?_⟩
  intro longer place more lexes viable
  obtain ⟨others, same⟩ := lexes_scanned lexes
  rw [tokens] at same
  -- A longer run would start with the token that is refused.
  rcases List.append_eq_append_iff.mp same with ⟨between, rfl, behind⟩ | ⟨between, rfl, _⟩
  · cases between with
    | nil => simp
    | cons first between =>
        obtain ⟨rfl, _⟩ := List.cons.inj behind
        obtain ⟨last, whole, _⟩ := viable_reads viable
        exact absurd whole (refused_unread reads stuck)
  · rw [List.length_append]
    exact Nat.le_add_right _ _

/-- The text ends with a token, if its grammar wants more than there is. -/
theorem finish_position {source : String} {state : Tree.State}
    (reads : Reads start (scan source).tokens state)
    (open' : ∀ tree, feed state (finishToken (scan source).tokens) ≠ some (.accepted tree)) :
    ∃ last, (scan source).tokens.getLast? = some last ∧
      finishToken (scan source).tokens = ⟨.finish, "", last.position⟩ := by
  cases last : (scan source).tokens.getLast? with
  | none =>
      have empty : (scan source).tokens = [] := List.getLast?_eq_none_iff.mp last
      rw [empty] at reads open'
      cases reads
      exact absurd rfl (open' [])
  | some token => exact ⟨token, rfl, by rw [finishToken, last]; rfl⟩

theorem incomplete_named {source : String} {position : Position}
    (outcome : parseTree source = .error (.refused ⟨.finish, "", position⟩)) :
    Refused source "LuaIncompleteParse" "" position :=
  ⟨_, parse_error outcome, rfl, rfl, rfl⟩

theorem scan_character {source : String} {run : List Token} {c : Char} {place : Position}
    {rest : List Char} (lexes : Lexes {} source.toList run place (c :: rest))
    (unmatched : Terminal.first? (c :: rest) = none) : scan source = ⟨run, some (c, place)⟩ := by
  have unmeasured : measured? (c :: rest) = none := by
    rw [first_measured] at unmatched
    exact Option.map_eq_none_iff.mp unmatched
  rw [scan_eq, lexes_scan lexes, scanFrom_stuck unmeasured, List.append_nil]

/-- Behind a run of tokens there is only one thing. -/
theorem problem_unique {source : String} {run : List Token} {name name' token token' : String}
    {position position' : Position} (first : Problem source run name token position)
    (second : Problem source run name' token' position') :
    name = name' ∧ token = token' ∧ position = position' := by
  -- All three speak about the scan of the text, which cannot have both a further token and an end.
  have longer {more : List Token} {token : Token} (same : run = run ++ [token] ++ more) :
      False := by
    have lengths := congrArg List.length same
    simp at lengths
  cases first with
  | token token place rest lexes =>
      obtain ⟨more, same⟩ := lexes_scanned lexes
      cases second with
      | token token' place' rest' lexes' =>
          obtain ⟨more', same'⟩ := lexes_scanned lexes'
          rw [same, List.append_assoc, List.append_assoc] at same'
          cases List.append_cancel_left same'
          exact ⟨rfl, rfl, rfl⟩
      | character c place' rest' lexes' unmatched =>
          rw [scan_character lexes' unmatched] at same
          exact (longer same).elim
      | finish last place' isLast lexes' =>
          rw [lexed_scan ⟨place', lexes'⟩] at same
          exact (longer same).elim
  | character c place rest lexes unmatched =>
      have scanned := scan_character lexes unmatched
      cases second with
      | token token' place' rest' lexes' =>
          obtain ⟨more, same⟩ := lexes_scanned lexes'
          rw [scanned] at same
          exact (longer same).elim
      | character c' place' rest' lexes' unmatched' =>
          rw [scan_character lexes' unmatched'] at scanned
          cases scanned
          exact ⟨rfl, rfl, rfl⟩
      | finish last place' isLast lexes' =>
          rw [lexed_scan ⟨place', lexes'⟩] at scanned
          cases scanned
  | finish last place isLast lexes =>
      have scanned := lexed_scan ⟨place, lexes⟩
      cases second with
      | token token' place' rest' lexes' =>
          obtain ⟨more, same⟩ := lexes_scanned lexes'
          rw [scanned] at same
          exact (longer same).elim
      | character c' place' rest' lexes' unmatched' =>
          rw [scan_character lexes' unmatched'] at scanned
          cases scanned
      | finish last' place' isLast' lexes' =>
          rw [isLast] at isLast'
          cases isLast'
          exact ⟨rfl, rfl, rfl⟩

theorem refused_unique {source name name' token token' : String} {position position' : Position}
    (first : Refused source name token position) (second : Refused source name' token' position') :
    name = name' ∧ token = token' ∧ position = position' := by
  obtain ⟨error, outcome, rfl, same, place⟩ := first
  obtain ⟨error', outcome', rfl, same', place'⟩ := second
  rw [outcome] at outcome'
  cases outcome'
  rw [same] at same'
  rw [place] at place'
  exact ⟨rfl, Option.some.inj same', Option.some.inj place'⟩

/-- A text that the grammar does not derive is refused with what stands behind its longest run. -/
theorem refused_problem (source : String)
    (rejected : ¬ ∃ tokens, Lexed source tokens ∧ Accepted tokens) :
    ∃ run name token position, LongestRun source run ∧ Refused source name token position ∧
      Problem source run name token position := by
  cases verdict source with
  | refused front rest token state tokens reads stuck outcome =>
      have noFinish := scanned_finish source token (by rw [tokens]; simp)
      have further : (scan source).tokens = (front ++ [token]) ++ rest := by
        rw [tokens, List.append_assoc]
        rfl
      obtain ⟨place, more, lexes⟩ := scanned_lexes further
      exact ⟨front, _, _, _, refused_longest tokens reads stuck, refused_named noFinish outcome,
        .token token place more lexes⟩
  | unmatched c place state reads stuck outcome =>
      obtain ⟨place', more, lexes, ends⟩ := scan_lexes {} source.toList
      rw [← scan_eq] at lexes ends
      rw [stuck] at ends
      cases ends with
      | stuck _ _ rest unmatched =>
          exact ⟨_, _, _, _, whole_longest reads, ⟨_, parse_error outcome, rfl, rfl, rfl⟩,
            .character c place rest lexes unmatched⟩
  | accepted tree complete reads outcome =>
      obtain ⟨tokens, lexed, derives⟩ := (parseTree_ok_iff source tree).mp outcome
      exact absurd ⟨tokens, lexed, derives_accepted derives⟩ rejected
  | incomplete state complete reads open' outcome =>
      obtain ⟨last, isLast, finish⟩ := finish_position reads open'
      obtain ⟨place, more, lexes, ends⟩ := scan_lexes {} source.toList
      rw [← scan_eq] at lexes ends
      rw [complete] at ends
      rw [finish] at outcome
      cases ends
      exact ⟨_, _, _, _, whole_longest reads, incomplete_named outcome,
        .finish last place isLast lexes⟩

theorem incomplete_tokens {source token : String} {position : Position}
    (refused : Refused source "LuaIncompleteParse" token position) :
    ∃ tokens, Lexed source tokens ∧ ¬ Accepted tokens ∧
      ∃ more, more ≠ [] ∧ Accepted (tokens ++ more) := by
  cases verdict source with
  | refused front rest token' state tokens reads stuck outcome =>
      have noFinish := scanned_finish source token' (by rw [tokens]; simp)
      obtain ⟨name, _⟩ := refused_unique refused (refused_named noFinish outcome)
      exact absurd name (by decide)
  | unmatched c place state reads stuck outcome =>
      obtain ⟨error, parsed, name, _⟩ := refused
      rw [parse_error outcome] at parsed
      cases parsed
      exact absurd name (by decide : "LuaParseError" ≠ "LuaIncompleteParse")
  | accepted tree complete reads outcome =>
      obtain ⟨error, parsed, name, _⟩ := refused
      exact absurd name (accepted_named outcome parsed)
  | incomplete state complete reads open' outcome =>
      have lexed : Lexed source (scan source).tokens := scan_lexed (by rw [← complete])
      have unaccepted : ¬ Accepted (scan source).tokens := by
        rintro accepted
        obtain ⟨tree, parsed⟩ := accepted_parses lexed accepted
        rw [outcome] at parsed
        cases parsed
      refine ⟨_, lexed, unaccepted, ?_⟩
      obtain ⟨more, accepted⟩ := reads_viable reads (reads_unfinished reads (scanned_finish source))
      refine ⟨more, ?_, accepted⟩
      rintro rfl
      rw [List.append_nil] at accepted
      exact unaccepted accepted

theorem tokens_incomplete {source : String} {tokens : List Token} (lexed : Lexed source tokens)
    (unaccepted : ¬ Accepted tokens) (viable : Viable tokens) :
    ∃ token position, Refused source "LuaIncompleteParse" token position := by
  have scanned := lexed_scan lexed
  obtain ⟨state, before, _⟩ := viable_reads viable
  cases verdict source with
  | refused front rest token state' same reads stuck outcome =>
      rw [scanned] at same
      subst same
      exact absurd before (refused_unread reads stuck)
  | unmatched c place state' reads stuck outcome =>
      rw [scanned] at stuck
      cases stuck
  | accepted tree complete reads outcome =>
      obtain ⟨tokens', lexed', derives⟩ := (parseTree_ok_iff source tree).mp outcome
      cases (lexed_scan lexed').symm.trans scanned
      exact absurd (derives_accepted derives) unaccepted
  | incomplete state' complete reads open' outcome =>
      obtain ⟨last, _, finish⟩ := finish_position reads open'
      rw [finish] at outcome
      exact ⟨_, _, incomplete_named outcome⟩

/-- What a text misses can be added exactly when it is refused as incomplete. -/
theorem incomplete_iff (source : String) :
    (∃ token position, Refused source "LuaIncompleteParse" token position) ↔
      ∃ tokens, Lexed source tokens ∧ ¬ Accepted tokens ∧
        ∃ more, more ≠ [] ∧ Accepted (tokens ++ more) := by
  constructor
  · rintro ⟨token, position, refused⟩
    exact incomplete_tokens refused
  · rintro ⟨tokens, lexed, unaccepted, more, _, accepted⟩
    exact tokens_incomplete lexed unaccepted ⟨more, accepted⟩

/-- A text that the grammar does not derive is refused with the first problem in it: what stands
behind the one longest run of its tokens that a derivation can start with. The text is incomplete
exactly when it is such a run itself and more tokens are needed. -/
theorem parse_first_problem (source : String) :
    ((¬ ∃ tokens, Lexed source tokens ∧ Accepted tokens) →
      ∃ run, LongestRun source run ∧ (∀ other, LongestRun source other → other = run) ∧
        (∃ name token position, Refused source name token position) ∧
        ∀ name token position,
          Refused source name token position ↔ Problem source run name token position) ∧
    ((∃ token position, Refused source "LuaIncompleteParse" token position) ↔
      ∃ tokens, Lexed source tokens ∧ ¬ Accepted tokens ∧
        ∃ more, more ≠ [] ∧ Accepted (tokens ++ more)) := by
  refine ⟨?_, incomplete_iff source⟩
  intro rejected
  obtain ⟨run, name, token, position, longest, refused, problem⟩ :=
    refused_problem source rejected
  refine ⟨run, longest, fun _ => longest_unique longest, ⟨name, token, position, refused⟩, ?_⟩
  intro name' token' position'
  constructor
  · intro refused'
    obtain ⟨rfl, rfl, rfl⟩ := refused_unique refused refused'
    exact problem
  · intro problem'
    obtain ⟨rfl, rfl, rfl⟩ := problem_unique problem problem'
    exact refused

end LuaCore
