import LuaCore.Proofs.Starts

/-!
Expressions of a level that start at the same token. A phrase of a level may start with a shorter
one of the same level, and grows out of it link by link. Two such phrases are alike up to their
links; in front of a token that does not continue the level they are the same.
-/

namespace LuaCore.Tree.Grammar

theorem lexeme_cons {kind : Token.Kind} {first second : Lexeme kind} {rest others : List Token}
    (same : first.token :: rest = second.token :: others) : first = second ∧ rest = others := by
  obtain ⟨text, position⟩ := first
  obtain ⟨text', position'⟩ := second
  cases same
  exact ⟨rfl, rfl⟩

theorem first_kind {tokens others : List Token} (same : tokens = others) :
    tokens.head?.map Token.kind = others.head?.map Token.kind :=
  congrArg (fun tokens => tokens.head?.map Token.kind) same

/-- No token that continues a level comes next. -/
def Halts (level : Nat) (rest : List Token) : Prop :=
  ∀ token ∈ rest.head?, ¬ Continues level token.kind

theorem halts_mono {low high : Nat} (le : low ≤ high) {rest : List Token}
    (halts : Halts low rest) : Halts high rest :=
  fun token member continues => halts token member (continues_mono le continues)

theorem halts_cons {level : Nat} {token : Token} (stops : ¬ Continues level token.kind)
    (rest : List Token) : Halts level (token :: rest) := by
  rintro next ⟨⟩
  exact stops

/-! Phrases of one level, one of which starts with the other. -/

/-- A phrase with one more operator or one more link of a chain, and the tokens of that. -/
inductive Link : {level : Nat} → Derivation (.level level) → Derivation (.level level) →
    List Token → Prop where
  | binary {level : Nat} (lhs : Derivation (.level level)) (operation : Operation)
      (fits : operation.level = level) (mark : Mark (.operator operation))
      (rhs : Derivation (.level (level + 1))) :
      Link lhs (.binary lhs operation fits mark rhs) (mark.token :: rhs.tokens)
  | dot (target : Derivation (.level 4)) (mark : Mark .dot) (name : Name) :
      Link target (.dot target mark name) [mark.token, name.token]
  | index (target : Derivation (.level 4)) (left : Mark .leftBracket)
      (key : Derivation .expression) (right : Mark .rightBracket) :
      Link target (.index target left key right) (left.token :: (key.tokens ++ [right.token]))
  | call (callee : Derivation (.level 4)) (left : Mark .leftParenthesis)
      (values : Derivation .arguments) (right : Mark .rightParenthesis) :
      Link callee (.call callee left values right) (left.token :: (values.tokens ++ [right.token]))

inductive Grows {level : Nat} : Derivation (.level level) → Derivation (.level level) →
    List Token → Prop where
  | refl (derivation : Derivation (.level level)) : Grows derivation derivation []
  | step {first middle last : Derivation (.level level)} {link rest : List Token}
      (next : Link first middle link) (grows : Grows middle last rest) :
      Grows first last (link ++ rest)

theorem link_tokens {level : Nat} {first second : Derivation (.level level)} {link : List Token}
    (next : Link first second link) : second.tokens = first.tokens ++ link := by
  cases next with
  | binary | dot | index | call => rfl

/-- A link continues its own level, but not the next one. -/
theorem link_first {level : Nat} {first second : Derivation (.level level)} {link : List Token}
    (next : Link first second link) :
    ∃ token rest, link = token :: rest ∧ Continues level token.kind ∧
      ¬ Continues (level + 1) token.kind := by
  cases next with
  | binary lhs operation fits mark rhs =>
      refine ⟨mark.token, rhs.tokens, rfl, Nat.le_of_eq fits.symm, ?_⟩
      intro continues
      have above : level + 1 ≤ operation.level := continues
      omega
  | dot target mark name =>
      exact ⟨mark.token, [name.token], rfl, Nat.le_refl 4, (by decide : ¬ 5 ≤ 4)⟩
  | index target left key right =>
      exact ⟨left.token, _, rfl, Nat.le_refl 4, (by decide : ¬ 5 ≤ 4)⟩
  | call callee left values right =>
      exact ⟨left.token, _, rfl, Nat.le_refl 4, (by decide : ¬ 5 ≤ 4)⟩

theorem grows_tokens {level : Nat} {first last : Derivation (.level level)} {rest : List Token}
    (grows : Grows first last rest) : last.tokens = first.tokens ++ rest := by
  induction grows with
  | refl => exact (List.append_nil _).symm
  | step next _ ih => rw [ih, link_tokens next, List.append_assoc]

theorem grows_snoc {level : Nat} {first middle last : Derivation (.level level)}
    {rest link : List Token} (grows : Grows first middle rest) (next : Link middle last link) :
    Grows first last (rest ++ link) := by
  induction grows with
  | refl =>
      have whole := Grows.step next (.refl last)
      rw [List.append_nil] at whole
      exact whole
  | step before _ ih =>
      rw [List.append_assoc]
      exact .step before (ih next)

theorem grows_first {level : Nat} {first last : Derivation (.level level)} {rest : List Token}
    (grows : Grows first last rest) :
    (first = last ∧ rest = []) ∨
      ∃ token more, rest = token :: more ∧ Continues level token.kind ∧
        ¬ Continues (level + 1) token.kind := by
  cases grows with
  | refl => exact Or.inl ⟨rfl, rfl⟩
  | step next grows =>
      obtain ⟨token, more, rfl, continues, stops⟩ := link_first next
      exact Or.inr ⟨token, _, rfl, continues, stops⟩

/-- What a phrase grows by does not continue the next level. -/
theorem grows_halts {level : Nat} {first last : Derivation (.level level)}
    {rest more : List Token} (grows : Grows first last rest) (halts : Halts (level + 1) more) :
    Halts (level + 1) (rest ++ more) := by
  rcases grows_first grows with ⟨_, rfl⟩ | ⟨token, others, rfl, _, stops⟩
  · exact halts
  · exact halts_cons stops _

/-- In front of a token that does not continue its level a phrase is as long as it can be. -/
theorem grows_eq {level : Nat} {first last : Derivation (.level level)}
    {rest more others : List Token} (grows : Grows first last rest)
    (same : first.tokens ++ more = last.tokens ++ others) (halts : Halts level more) :
    first = last := by
  rcases grows_first grows with ⟨same, _⟩ | ⟨token, _, rfl, continues, _⟩
  · exact same
  · rw [grows_tokens grows, List.append_assoc] at same
    have behind := List.append_cancel_left same
    rw [behind] at halts
    exact absurd continues (halts token rfl)

/-- A phrase of a level without its links is none that has one. -/
def Rooted : {category : Category} → Derivation category → Prop
  | .level _, derivation =>
      ∃ root rest, Grows root derivation rest ∧ ∀ before link, ¬ Link before root link
  | _, _ => True

theorem rooted_link {level : Nat} {before derivation : Derivation (.level level)}
    {link : List Token} (next : Link before derivation link) (rooted : Rooted before) :
    Rooted derivation := by
  obtain ⟨root, rest, grows, alone⟩ := rooted
  exact ⟨root, _, grows_snoc grows next, alone⟩

theorem rooted {category : Category} (derivation : Derivation category) : Rooted derivation := by
  induction derivation with
  | binary lhs operation fits mark rhs ih _ =>
      exact rooted_link (.binary lhs operation fits mark rhs) ih
  | dot target mark name ih => exact rooted_link (.dot target mark name) ih
  | index target left key right ih _ => exact rooted_link (.index target left key right) ih
  | call callee left values right ih _ => exact rooted_link (.call callee left values right) ih
  | operand | negate | number | string | truth | falsehood | nil | reference | table | literal
  | parentheses => exact ⟨_, [], .refl _, by rintro before link ⟨⟩⟩
  | _ => trivial

/-! What is to be shown of each phrase. -/

-- Follow sets, as far as the induction needs them: each is chosen so that the parts of a phrase get
-- theirs from it.
/-- What can stand behind a phrase without belonging to it. -/
def Beyond : {category : Category} → Derivation category → List Token → Prop
  | .block, _, rest | .closing, _, rest => ∀ token ∈ rest.head?, Closes token.kind
  | .statements, _, rest =>
      ∀ token ∈ rest.head?, Closes token.kind ∨ token.kind = .keyword .returnWord
  | .statement, derivation, rest =>
      (∀ token ∈ rest.head?, token.kind ≠ .symbol .assign) ∧
        (derivation.EndsInExpression → Halts 0 rest)
  | .branches, _, rest =>
      ∀ token ∈ rest.head?, token.kind = .keyword .elseWord ∨ token.kind = .keyword .endWord
  | .alternative, _, rest => ∀ token ∈ rest.head?, token.kind = .keyword .endWord
  | .arguments, _, rest | .moreArguments, _, rest =>
      ∀ token ∈ rest.head?, token.kind = .symbol .rightParenthesis
  | .fields, _, rest => ∃ right : Mark .rightBrace, ∃ more, rest = right.token :: more
  | .moreFields, _, rest => ∃ last, ∃ right : Mark .rightBrace, ∃ more,
      rest = lastSeparator last ++ right.token :: more
  | .field, _, rest => ∀ token ∈ rest.head?, EndsField token.kind
  | .level level, _, rest => Halts level rest

/-- A phrase is the only one that its tokens start with. -/
def Unique {category : Category} (derivation : Derivation category) : Prop :=
  ∀ (other : Derivation category) (rest more : List Token), other.Resolved →
    derivation.tokens ++ rest = other.tokens ++ more → Beyond derivation rest →
    Beyond other more → derivation = other ∧ rest = more

-- Uniqueness is too weak to carry the induction over the levels of expressions, where the left
-- operand of a phrase is a phrase of the same level that starts at the same token.
def Determined : {category : Category} → Derivation category → Prop
  | .level level, derivation => ∀ (other : Derivation (.level level)) (rest more : List Token),
      other.Resolved → derivation.tokens ++ rest = other.tokens ++ more →
      Halts (level + 1) rest → Halts (level + 1) more →
      (∃ link, Grows derivation other link) ∨ ∃ link, Grows other derivation link
  | _, derivation => Unique derivation

theorem unique_of_eq {category : Category} {derivation other : Derivation category}
    {rest more : List Token} (equal : derivation = other)
    (same : derivation.tokens ++ rest = other.tokens ++ more) :
    derivation = other ∧ rest = more := by
  subst equal
  exact ⟨rfl, List.append_cancel_left same⟩

theorem determined_unique {category : Category} {derivation : Derivation category}
    (determined : Determined derivation) : Unique derivation := by
  cases category with
  | level level =>
      intro other rest more resolved same halts halts'
      refine unique_of_eq ?_ same
      rcases determined other rest more resolved same (halts_mono (Nat.le_succ level) halts)
        (halts_mono (Nat.le_succ level) halts') with ⟨_, grows⟩ | ⟨_, grows⟩
      · exact grows_eq grows same halts
      · exact (grows_eq grows same.symm halts').symm
  | _ => exact determined

/-! Levels of expressions. -/

theorem begins_minus {level : Nat} (high : 4 ≤ level) (derivation : Derivation (.level level))
    (mark : Mark (.operator .subtract)) (rest more : List Token) :
    derivation.tokens ++ rest ≠ mark.token :: more := by
  intro same
  obtain ⟨starts, noMinus⟩ := begins derivation
  obtain ⟨first, others, tokens, _⟩ := startsExpression_follows starts
  rw [tokens] at same noMinus
  obtain ⟨rfl, _⟩ := List.cons.inj same
  exact noMinus high mark.token rfl rfl

theorem link_resolved {level : Nat} {first second : Derivation (.level level)} {link : List Token}
    (next : Link first second link) (resolved : second.Resolved) : first.Resolved := by
  cases next with
  | binary | index | call => exact resolved.1
  | dot => exact resolved

theorem grows_resolved {level : Nat} {first last : Derivation (.level level)} {rest : List Token}
    (grows : Grows first last rest) (resolved : last.Resolved) : first.Resolved := by
  induction grows with
  | refl => exact resolved
  | step next _ ih => exact link_resolved next (ih resolved)

-- An operand may be the start of a longer phrase of its level. The other phrase is cut down to its
-- root, which has no links and has to be an operand as well.
theorem determined_operand {level : Nat} (bound : level < 5)
    {inner : Derivation (.level (level + 1))} (unique : Unique inner) :
    Determined (.operand bound inner) := by
  intro other rest more resolved same halts halts'
  obtain ⟨root, link, grows, alone⟩ := rooted other
  have behind := grows_halts grows halts'
  have resolvedRoot := grows_resolved grows resolved
  rw [grows_tokens grows, List.append_assoc] at same
  cases root with
  | operand bound' inner' =>
      obtain ⟨rfl, _⟩ := unique inner' rest (link ++ more) resolvedRoot same halts behind
      exact Or.inl ⟨link, grows⟩
  | negate mark inner' => exact absurd same (begins_minus (Nat.le_refl 4) inner mark rest _)
  | binary lhs operation fits mark rhs =>
      exact absurd (.binary lhs operation fits mark rhs) (alone _ _)
  | dot target mark name => exact absurd (.dot target mark name) (alone _ _)
  | index target left key right => exact absurd (.index target left key right) (alone _ _)
  | call callee left values right => exact absurd (.call callee left values right) (alone _ _)
  | _ => omega

/-- A phrase with one more link, if the link is the only one that its tokens start with. -/
theorem determined_link {level : Nat} {before derivation : Derivation (.level level)}
    {link : List Token} (next : Link before derivation link) (determined : Determined before)
    (only : ∀ (other : Derivation (.level level)) (link' rest more : List Token),
      Link before other link' → other.Resolved → link ++ rest = link' ++ more →
      Halts (level + 1) rest → Halts (level + 1) more → derivation = other) :
    Determined derivation := by
  intro other rest more resolved same halts halts'
  rw [link_tokens next, List.append_assoc] at same
  have stopped : Halts (level + 1) (link ++ rest) :=
    grows_halts (grows_snoc (.refl before) next) halts
  -- Either the other phrase grows out of the part in front of the link, and then by this very link
  -- first, or it ends within that part.
  rcases determined other (link ++ rest) more resolved same stopped halts' with
    ⟨_, grows⟩ | ⟨_, grows⟩
  · rw [grows_tokens grows, List.append_assoc] at same
    have behind := List.append_cancel_left same
    cases grows with
    | refl => exact Or.inr ⟨_, grows_snoc (.refl before) next⟩
    | @step _ _ _ link' others first grows =>
        rw [List.append_assoc] at behind
        obtain rfl := only _ link' rest (others ++ more) first (grows_resolved grows resolved)
          behind halts (grows_halts grows halts')
        exact Or.inl ⟨others, grows⟩
  · exact Or.inr ⟨_, grows_snoc grows next⟩

theorem determined_binary {level : Nat} {lhs : Derivation (.level level)} {operation : Operation}
    (fits : operation.level = level) (mark : Mark (.operator operation))
    {rhs : Derivation (.level (level + 1))} (determined : Determined lhs) (unique : Unique rhs) :
    Determined (.binary lhs operation fits mark rhs) := by
  apply determined_link (.binary lhs operation fits mark rhs) determined
  intro other link rest more next resolved same halts halts'
  have two := level_le_two operation
  cases next with
  | binary _ operation' fits' mark' rhs' =>
      obtain rfl : operation = operation' := by
        cases first_kind same
        rfl
      obtain ⟨rfl, behind⟩ := lexeme_cons same
      obtain ⟨rfl, _⟩ := unique rhs' rest more resolved.2 behind halts halts'
      rfl
  | dot | index | call => omega

/-- Negations have no links. -/
theorem grows_negation {first last : Derivation (.level 3)} {rest : List Token}
    (grows : Grows first last rest) : first = last := by
  cases grows with
  | refl => rfl
  | step next _ =>
      cases next with
      | binary _ operation fits =>
          have two := level_le_two operation
          omega

theorem determined_negate (mark : Mark (.operator .subtract)) {inner : Derivation (.level 3)}
    (determined : Determined inner) : Determined (.negate mark inner) := by
  intro other rest more resolved same halts halts'
  cases other with
  | operand bound inner' =>
      exact absurd same.symm (begins_minus (Nat.le_refl 4) inner' mark more _)
  | binary lhs operation fits =>
      have two := level_le_two operation
      omega
  | negate mark' inner' =>
      obtain ⟨rfl, behind⟩ := lexeme_cons same
      refine Or.inl ⟨[], ?_⟩
      rcases determined inner' rest more resolved behind halts halts' with
        ⟨_, grows⟩ | ⟨_, grows⟩
      · obtain rfl := grows_negation grows
        exact .refl _
      · obtain rfl := grows_negation grows
        exact .refl _

theorem determined_dot {target : Derivation (.level 4)} (mark : Mark .dot) (name : Name)
    (determined : Determined target) : Determined (.dot target mark name) := by
  apply determined_link (.dot target mark name) determined
  intro other link rest more next resolved same _ _
  cases next with
  | binary _ operation fits =>
      have two := level_le_two operation
      omega
  | dot _ mark' name' =>
      obtain ⟨rfl, behind⟩ := lexeme_cons same
      obtain ⟨rfl, _⟩ := lexeme_cons behind
      rfl
  | index | call => cases first_kind same

theorem determined_index {target : Derivation (.level 4)} (left : Mark .leftBracket)
    {key : Derivation .expression} (right : Mark .rightBracket) (determined : Determined target)
    (unique : Unique key) : Determined (.index target left key right) := by
  apply determined_link (.index target left key right) determined
  intro other link rest more next resolved same _ _
  cases next with
  | binary _ operation fits =>
      have two := level_le_two operation
      omega
  | index _ left' key' right' =>
      rw [List.cons_append, List.cons_append, List.append_assoc, List.append_assoc] at same
      obtain ⟨rfl, inside⟩ := lexeme_cons same
      obtain ⟨rfl, behind⟩ := unique key' _ _ resolved.2 inside (halts_cons id _) (halts_cons id _)
      obtain ⟨rfl, _⟩ := lexeme_cons behind
      rfl
  | dot | call => cases first_kind same

theorem determined_call {callee : Derivation (.level 4)} (left : Mark .leftParenthesis)
    {values : Derivation .arguments} (right : Mark .rightParenthesis)
    (determined : Determined callee) (unique : Unique values) :
    Determined (.call callee left values right) := by
  apply determined_link (.call callee left values right) determined
  intro other link rest more next resolved same _ _
  cases next with
  | binary _ operation fits =>
      have two := level_le_two operation
      omega
  | call _ left' values' right' =>
      rw [List.cons_append, List.cons_append, List.append_assoc, List.append_assoc] at same
      obtain ⟨rfl, inside⟩ := lexeme_cons same
      obtain ⟨rfl, behind⟩ := unique values' _ _ resolved.2 inside (by rintro _ ⟨⟩; rfl)
        (by rintro _ ⟨⟩; rfl)
      obtain ⟨rfl, _⟩ := lexeme_cons behind
      rfl
  | dot | index => cases first_kind same

/-! What stands alone. -/

theorem grows_alone {derivation other : Derivation (.level 5)} (equal : derivation = other) :
    (∃ link, Grows derivation other link) ∨ ∃ link, Grows other derivation link := by
  subst equal
  exact Or.inl ⟨[], .refl derivation⟩

end LuaCore.Tree.Grammar
