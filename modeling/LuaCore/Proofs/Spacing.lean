import Mathlib.Data.List.Nodup
import LuaCore.Proofs.Placement
import LuaCore.Proofs.Tiling

/-!
Layout. Behind a blank, any blanks and comments that come to their end can be put in front of a
token: the tokens behind them stand somewhere else and say the same, so the program is the same.
-/

namespace LuaCore

open Lexer Tree.Grammar

namespace Lexer

/-! What is passed over. -/

/-- Blanks, comments in long brackets and comments with the ends of their lines, one behind the
other. -/
inductive Filler : List Char → Prop where
  | nil : Filler []
  | blank {c : Char} {rest : List Char} (blank : isBlank c) (filler : Filler rest) :
      Filler (c :: rest)
  | longComment {inside rest : List Char} (unclosed : Unclosed inside) (filler : Filler rest) :
      Filler (longMark ++ inside ++ [']', ']'] ++ rest)
  | comment {inside rest : List Char} {c : Char} (inLine : ∀ d ∈ inside, d ≠ '\r' ∧ d ≠ '\n')
      (plain : ¬ longMark <+: '-' :: '-' :: inside) (line : c = '\r' ∨ c = '\n')
      (filler : Filler rest) : Filler ('-' :: '-' :: inside ++ c :: rest)

theorem first_closed {inside : List Char} (unclosed : Unclosed inside) (rest : List Char) :
    Terminal.first? (longMark ++ inside ++ [']', ']'] ++ rest) = some (.longComment, rest) := by
  have measured : longComment? (longMark ++ inside ++ [']', ']'] ++ rest) =
      some (longMark ++ inside ++ [']', ']']).length :=
    longComment_iff.mpr ⟨inside, rest, by simp, unclosed, by simp [longMark]⟩
  exact first_taken (@measured_first [] _ .longComment _ _ rfl (by simp) measured)

theorem first_comment {inside : List Char} {c : Char} (line : c = '\r' ∨ c = '\n')
    (inLine : ∀ d ∈ inside, d ≠ '\r' ∧ d ≠ '\n') (plain : ¬ longMark <+: '-' :: '-' :: inside)
    (rest : List Char) :
    Terminal.first? ('-' :: '-' :: inside ++ c :: rest) = some (.comment, c :: rest) := by
  have long : longComment? ('-' :: '-' :: inside ++ c :: rest) = none := by
    have without : c ∉ longMark := by rcases line with rfl | rfl <;> decide
    exact longComment_mark fun begins => plain (prefix_front without begins)
  have taken : run (fun d => d != '\r' && d != '\n') (inside ++ c :: rest) = inside.length := by
    apply run_append
    · exact fun d member => by simpa using inLine d member
    · rintro d ⟨⟩
      rcases line with rfl | rfl <;> decide
  refine first_taken (@measured_first [.longComment] _ _ _ _ rfl ?_ ?_)
  · exact fun other member => List.mem_singleton.mp member ▸ long
  · change some (run (fun d => d != '\r' && d != '\n') (inside ++ c :: rest) + 2) = _
    rw [taken]
    rfl

theorem filler_silent {gap more : List Char} (filler : Filler gap)
    (solid : ∀ c ∈ more.head?, ¬ isBlank c) (position : Position) :
    ∃ place, Lexes position (gap ++ more) [] place more := by
  induction filler generalizing position with
  | nil => exact ⟨position, .refl position more⟩
  | blank blank _ ih =>
      obtain ⟨place, others⟩ := ih (position.next _)
      exact ⟨place, lexes_blank blank others solid⟩
  | longComment unclosed _ ih =>
      obtain ⟨place, others⟩ := ih _
      rw [List.append_assoc]
      exact ⟨place, .ignored (first_closed unclosed _) rfl others⟩
  | @comment inside rest c inLine plain line _ ih =>
      have blank : isBlank c := by rcases line with rfl | rfl <;> rfl
      obtain ⟨place, others⟩ := ih ((position.advance ('-' :: '-' :: inside)).next c)
      rw [List.append_assoc]
      exact ⟨place, .ignored (first_comment line inLine plain _) rfl
        (lexes_blank blank others solid)⟩

/-! Texts in two parts. -/

section

variable {front text rest : List Char} {before after : List Piece}
  {stuck : Option (Char × Position)}

/-- Pieces lead from their first place to their last one. -/
theorem tiles_lexes (tiles : Tiles front text (before ++ after) stuck rest) :
    Lexes (.tally front) text (before.filterMap Piece.token?)
      (.tally (front ++ before.flatMap Piece.text)) (after.flatMap Piece.text ++ rest) := by
  induction before generalizing front text with
  | nil =>
      rw [List.nil_append] at tiles
      rw [List.flatMap_nil, List.append_nil, ← tiles_whole tiles]
      exact .refl _ _
  | cons first before ih =>
      cases tiles with
      | @piece _ behind _ _ _ _ fits tiles =>
          obtain ⟨kind, lexeme, position⟩ := first
          obtain ⟨terminal, found, same⟩ := fits.first
          obtain rfl : kind = terminal.pieceKind lexeme := same
          obtain rfl : position = .tally front := fits.place
          have others := ih tiles
          rw [Position.tally_append, List.append_assoc] at others
          rw [List.filterMap_cons, piece_token, List.flatMap_cons]
          cases sounds : terminal.kind? lexeme with
          | none => exact .ignored found sounds others
          | some kind => exact .token found sounds others

theorem tiles_tokens (tiles : Tiles front text after none []) :
    ∃ place, Lexes (.tally front) text (after.filterMap Piece.token?) place [] := by
  rw [← List.append_nil after] at tiles
  have lexes := tiles_lexes tiles
  rw [List.flatMap_nil, List.nil_append] at lexes
  exact ⟨_, lexes⟩

end

/-- A token of the text starts right behind its front. -/
def Begins (text front : List Char) : Prop :=
  ∃ before piece after, (pieces {} text).1 = before ++ piece :: after ∧ piece.token?.isSome ∧
    front = before.flatMap Piece.text

theorem token_solid {front behind : List Char} {piece : Piece} (fits : Fits front piece behind)
    (sounds : piece.token?.isSome) : ∃ c ∈ (piece.text ++ behind).head?, ¬ isBlank c := by
  obtain ⟨terminal, found, same⟩ := fits.first
  cases text : piece.text ++ behind with
  | nil => exact absurd (List.append_eq_nil_iff.mp text).1 fits.solid
  | cons c others =>
      refine ⟨c, rfl, fun blank => ?_⟩
      obtain ⟨rfl, _⟩ := first_blank text blank found
      rw [Piece.token?, same] at sounds
      cases sounds

/-- A text that is cut up to its end is cut in two in front of a token. -/
theorem begins_lexes {front back : List Char} {tokens : List Token}
    (scanned : scanFrom {} (front ++ back) = ⟨tokens, none⟩)
    (begins : Begins (front ++ back) front) :
    ∃ first second middle last, tokens = first ++ second ∧
      Lexes {} (front ++ back) first middle back ∧ Lexes middle back second last [] ∧
      ∃ c ∈ back.head?, ¬ isBlank c := by
  obtain ⟨before, piece, after, found, sounds, same⟩ := begins
  obtain ⟨rest, tiles⟩ := pieces_tiles {} (front ++ back) [] rfl
  have complete : (pieces {} (front ++ back)).2 = none := congrArg Scan.stuck scanned
  have listed : (pieces {} (front ++ back)).1.filterMap Piece.token? = tokens :=
    congrArg Scan.tokens scanned
  rw [complete, found] at tiles
  rw [found, List.filterMap_append] at listed
  obtain rfl : rest = [] := by
    cases tiles_end tiles
    rfl
  have whole := tiles_whole tiles
  rw [List.flatMap_append, ← same, List.append_nil] at whole
  have behind : back = (piece :: after).flatMap Piece.text := List.append_cancel_left whole
  have lexes := tiles_lexes tiles
  have others := tiles_rest tiles
  have solid := token_solid (tiles_fit tiles) sounds
  rw [List.append_nil, ← behind] at lexes others
  rw [List.append_nil, ← List.flatMap_cons, ← behind] at solid
  obtain ⟨last, lexes'⟩ := tiles_tokens others
  exact ⟨_, _, _, last, listed.symm, lexes, lexes', solid⟩

end Lexer

/-! Tokens that say the same. -/

namespace Position

/-- Whether a place is in front of another one in the same text. -/
def Before (position other : Position) : Prop :=
  position.line < other.line ∨ position.line = other.line ∧ position.column < other.column

theorem before_trans {first second third : Position} (before : first.Before second)
    (before' : second.Before third) : first.Before third := by
  unfold Before at *
  omega

theorem before_irrefl (position : Position) : ¬ position.Before position := by
  unfold Before
  omega

theorem before_next (position : Position) (c : Char) : position.Before (position.next c) := by
  unfold next
  split
  · exact .inl (Nat.lt_succ_self _)
  · exact .inr ⟨rfl, Nat.lt_succ_self _⟩

theorem before_advance (position : Position) {text : List Char} (solid : text ≠ []) :
    position.Before (position.advance text) := by
  induction text generalizing position with
  | nil => exact absurd rfl solid
  | cons c text ih =>
      cases text with
      | nil => exact before_next position c
      | cons d text =>
          have behind := ih (position.next c) (List.cons_ne_nil d text)
          exact before_trans (before_next position c) behind

end Position

namespace Lexer

/-- The tokens of a text stand at places of their own, one behind the other. -/
theorem lexes_apart {position place : Position} {text more : List Char} {tokens : List Token}
    (lexes : Lexes position text tokens place more) :
    (∀ token ∈ tokens, token.position = position ∨ position.Before token.position) ∧
      (tokens.map Token.position).Nodup := by
  have further {position : Position} {lexeme : List Char} (solid : lexeme ≠ []) {token : Token}
      (behind : token.position = position.advance lexeme ∨
        (position.advance lexeme).Before token.position) : position.Before token.position := by
    have before := position.before_advance solid
    rcases behind with same | behind
    · rw [same]
      exact before
    · exact Position.before_trans before behind
  induction lexes with
  | refl => simp
  | ignored first _ _ ih =>
      exact ⟨fun token member => .inr (further (first_solid first) (ih.1 token member)), ih.2⟩
  | @token position _ _ _ _ _ _ _ first _ _ ih =>
      have behind := fun token member => further (first_solid first) (ih.1 token member)
      refine ⟨List.forall_mem_cons.mpr ⟨.inl rfl, fun token member => .inr (behind token member)⟩,
        List.nodup_cons.mpr ⟨fun member => ?_, ih.2⟩⟩
      obtain ⟨token, member, same⟩ := List.mem_map.mp member
      exact Position.before_irrefl _ (same ▸ behind token member)

/-- Wherever a text starts, its tokens say the same. -/
theorem lexes_forms {position place : Position} {text more : List Char} {tokens : List Token}
    (lexes : Lexes position text tokens place more) (start : Position) :
    ∃ others last, Lexes start text others last more ∧
      others.map Token.form = tokens.map Token.form := by
  induction lexes generalizing start with
  | refl => exact ⟨[], start, .refl _ _, rfl⟩
  | @ignored _ _ lexeme _ _ _ _ first silent _ ih =>
      obtain ⟨others, last, lexes, same⟩ := ih (start.advance lexeme)
      exact ⟨others, last, .ignored first silent lexes, same⟩
  | @token _ _ lexeme _ _ _ _ _ first sounds _ ih =>
      obtain ⟨others, last, lexes, same⟩ := ih (start.advance lexeme)
      exact ⟨_, last, .token first sounds lexes, congrArg (_ :: ·) same⟩

end Lexer

/-- Tokens at places of their own are moved to any tokens that say the same. -/
theorem forms_moved {tokens others : List Token} (apart : (tokens.map Token.position).Nodup)
    (same : others.map Token.form = tokens.map Token.form) :
    ∃ place, others = tokens.map (Token.move place) := by
  induction tokens generalizing others with
  | nil => exact ⟨id, List.map_eq_nil_iff.mp same⟩
  | cons token tokens ih =>
      obtain ⟨other, others, rfl, form, same⟩ := List.map_eq_cons_iff.mp same
      obtain ⟨alone, apart⟩ := List.nodup_cons.mp apart
      obtain ⟨place, rfl⟩ := ih apart same
      -- No other token stands where the first one does, so the first one can be moved alone.
      have others : tokens.map (Token.move place) =
          tokens.map (Token.move (Function.update place token.position other.position)) := by
        apply List.map_congr_left
        intro next member
        have apart : next.position ≠ token.position :=
          fun same => alone (same ▸ List.mem_map_of_mem member)
        rw [Token.move, Token.move, Function.update_of_ne apart]
      refine ⟨Function.update place token.position other.position, ?_⟩
      rw [List.map_cons, ← others, Token.move, Function.update_self]
      obtain ⟨kind, text⟩ := Form.mk.inj form
      obtain ⟨otherKind, otherText, position⟩ := other
      rw [← kind, ← text]

/-- The program of a text stays the same when blanks and comments are put in front of a token,
behind a blank: they belong to no token, and the text behind them is cut as before. -/
theorem parse_spaced {front gap back : String} {program : Block}
    (parsed : parse (front ++ back) = .ok program) (closed : Closed {} (front ++ back).toList)
    (begins : Begins (front ++ back).toList front.toList)
    (blank : ∃ c ∈ gap.toList.head?, isBlank c) (filler : Filler gap.toList) :
    parse (front ++ gap ++ back) = .ok program := by
  obtain ⟨derivation, lexed, resolved, _, read⟩ := (parse_exact _ program).mp parsed
  have scanned := lexed_scan lexed
  rw [scan_eq] at scanned
  rw [String.toList_append] at scanned begins closed
  obtain ⟨first, second, middle, last, tokens, lexes, lexes', solid⟩ := begins_lexes scanned begins
  obtain ⟨d, head, blank⟩ := blank
  obtain ⟨behind, gapped⟩ := List.head?_eq_some_iff.mp head
  have stops : ∀ c ∈ back.toList.head?, ¬ isBlank c := by
    obtain ⟨c, head, solid⟩ := solid
    rw [head]
    rintro c ⟨⟩
    exact solid
  have silent (position : Position) : ∃ place,
      Lexes position (d :: (behind ++ back.toList)) [] place back.toList := by
    rw [← List.cons_append, ← gapped]
    exact filler_silent filler stops position
  obtain ⟨middle', lexed'⟩ := lexes_gap lexes closed rfl blank (.inl solid) silent stops
  obtain ⟨others, last', others', same⟩ := lexes_forms lexes' middle'
  have whole : Lexes {} (front ++ gap ++ back).toList (first ++ others) last' [] := by
    rw [String.toList_append, String.toList_append, gapped, List.append_assoc, List.cons_append]
    exact lexes_append lexed' others'
  obtain ⟨_, lexed⟩ := lexed
  have apart := (lexes_apart lexed).2
  have forms : (first ++ others).map Token.form = derivation.tokens.map Token.form := by
    rw [tokens, List.map_append, List.map_append, same]
  obtain ⟨place, moved⟩ := forms_moved apart forms
  rw [moved, ← tokens_move] at whole
  obtain ⟨resolved, read⟩ := means_move place (show Means program derivation from ⟨resolved, read⟩)
  exact derivation_parses ⟨_, whole⟩ resolved read

/-- Without the blank the minus sign would start a comment. -/
theorem parse_spaced_minus :
    let front := "return x-"
    let gap := "\t--[[-]]--]]\n"
    let back := "y"
    let program : Block := [.returns (.binary (.name "x") .subtract (.name "y"))]
    parse (front ++ back) = .ok program ∧ Closed {} (front ++ back).toList ∧
    Begins (front ++ back).toList front.toList ∧ (∃ c ∈ gap.toList.head?, isBlank c) ∧
    Filler gap.toList ∧ parse (front ++ gap ++ back) = .ok program := by
  intro front gap back program
  have parsed : parse (front ++ back) = .ok program := by cbv
  have closed : Closed {} (front ++ back).toList := closed_plain (by cbv)
  have begins : Begins (front ++ back).toList front.toList := by
    refine ⟨[⟨.token (.keyword .returnWord), ['r', 'e', 't', 'u', 'r', 'n'], {}⟩,
      ⟨.blank, [' '], ⟨1, 7⟩⟩, ⟨.token .name, ['x'], ⟨1, 8⟩⟩,
      ⟨.token (.symbol (.operator .subtract)), ['-'], ⟨1, 9⟩⟩],
      ⟨.token .name, ['y'], ⟨1, 10⟩⟩, [], ?_, rfl, ?_⟩
    · cbv
    · cbv
  have chars : gap.toList = '\t' :: (longMark ++ ['-'] ++ [']', ']'] ++
      ('-' :: '-' :: [']', ']'] ++ '\n' :: [])) := by cbv
  have blank : ∃ c ∈ gap.toList.head?, isBlank c := by
    rw [chars]
    exact ⟨'\t', rfl, rfl⟩
  have filler : Filler gap.toList := by
    rw [chars]
    have unclosed : Unclosed ['-'] := unclosed_cons.mpr ⟨by simp, unclosed_nil⟩
    have line : Filler ('-' :: '-' :: [']', ']'] ++ '\n' :: []) :=
      .comment (by simp) (by decide) (.inr rfl) .nil
    exact .blank rfl (.longComment unclosed line)
  exact ⟨parsed, closed, begins, blank, filler, parse_spaced parsed closed begins blank filler⟩

end LuaCore
