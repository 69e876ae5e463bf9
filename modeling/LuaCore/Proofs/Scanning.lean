import LuaCore.Proofs.Lexing

/-!
The tokens of a text. What a scan finds is what the terminals make of the text from its start, up to
its end or up to a character at which no terminal matches.
-/

namespace LuaCore

theorem Position.advance_append (position : Position) (first second : List Char) :
    position.advance (first ++ second) = (position.advance first).advance second :=
  List.foldl_append

namespace Lexer

theorem measured_length {text : List Char} {terminal : Terminal} {length : Nat}
    (found : measured? text = some (terminal, length)) : terminal.length? text = some length := by
  obtain ⟨other, _, same⟩ := List.exists_of_findSome?_eq_some found
  obtain ⟨_, measured, same⟩ := Option.map_eq_some_iff.mp same
  cases same
  exact measured

theorem measured_pos {text : List Char} {terminal : Terminal} {length : Nat}
    (found : measured? text = some (terminal, length)) : 0 < length :=
  length_pos terminal (measured_length found)

theorem pieces_stuck {position : Position} {c : Char} {rest : List Char}
    (none : measured? (c :: rest) = none) :
    pieces position (c :: rest) = ([], some (c, position)) := by
  rw [pieces, kind_measured, none]
  rfl

theorem pieces_step {position : Position} {c : Char} {rest : List Char} {terminal : Terminal}
    {length : Nat} (found : measured? (c :: rest) = some (terminal, length)) :
    pieces position (c :: rest) =
      (⟨terminal.pieceKind ((c :: rest).take length), (c :: rest).take length, position⟩ ::
        (pieces (position.advance ((c :: rest).take length)) ((c :: rest).drop length)).1,
        (pieces (position.advance ((c :: rest).take length)) ((c :: rest).drop length)).2) := by
  rw [pieces, kind_measured, found]
  cases length with
  | zero => exact absurd (measured_pos found) (Nat.lt_irrefl 0)
  | succ length => rfl

/-- The tokens that a text is cut into, and where the cutting ends. -/
def scanFrom (position : Position) (text : List Char) : Scan :=
  ⟨(pieces position text).1.filterMap Piece.token?, (pieces position text).2⟩

theorem scan_eq (source : String) : scan source = scanFrom {} source.toList :=
  rfl

theorem piece_token (terminal : Terminal) (lexeme : List Char) (position : Position) :
    Piece.token? ⟨terminal.pieceKind lexeme, lexeme, position⟩ =
      (terminal.kind? lexeme).map fun kind => ⟨kind, String.ofList lexeme, position⟩ := by
  cases terminal <;> rfl

theorem scanFrom_nil (position : Position) : scanFrom position [] = ⟨[], none⟩ := by
  rw [scanFrom, pieces]
  rfl

theorem scanFrom_stuck {position : Position} {c : Char} {rest : List Char}
    (none : measured? (c :: rest) = none) :
    scanFrom position (c :: rest) = ⟨[], some (c, position)⟩ := by
  rw [scanFrom, pieces_stuck none]
  rfl

theorem scanFrom_step {position : Position} {text : List Char} {terminal : Terminal}
    {length : Nat} (found : measured? text = some (terminal, length)) :
    scanFrom position text =
      ⟨((terminal.kind? (text.take length)).map fun kind =>
          (⟨kind, String.ofList (text.take length), position⟩ : Token)).toList ++
        (scanFrom (position.advance (text.take length)) (text.drop length)).tokens,
        (scanFrom (position.advance (text.take length)) (text.drop length)).stuck⟩ := by
  cases text with
  | nil => cases found
  | cons c rest =>
      rw [scanFrom, pieces_step found, List.filterMap_cons, piece_token]
      cases terminal.kind? ((c :: rest).take length) <;> rfl

/-- The first terminal takes the text in front of the rest that it leaves. -/
theorem first_length {lexeme rest : List Char} {terminal : Terminal}
    (first : Terminal.first? (lexeme ++ rest) = some (terminal, rest)) :
    ∃ length, measured? (lexeme ++ rest) = some (terminal, length) ∧
      (lexeme ++ rest).take length = lexeme ∧ (lexeme ++ rest).drop length = rest := by
  rw [first_measured] at first
  obtain ⟨⟨_, length⟩, found, same⟩ := Option.map_eq_some_iff.mp first
  obtain ⟨rfl, behind⟩ := Prod.mk.inj same
  refine ⟨length, found, ?_, behind⟩
  have whole := List.take_append_drop length (lexeme ++ rest)
  rw [behind] at whole
  exact List.append_cancel_right whole

theorem first_match {text rest : List Char} {terminal : Terminal}
    (first : Terminal.first? text = some (terminal, rest)) :
    terminal.pattern.rest? text = some rest := by
  obtain ⟨other, _, found⟩ := List.exists_of_findSome?_eq_some first
  obtain ⟨left, matched, same⟩ := Option.map_eq_some_iff.mp found
  obtain ⟨rfl, rfl⟩ := Prod.mk.inj same
  exact matched

theorem first_solid {lexeme rest : List Char} {terminal : Terminal}
    (first : Terminal.first? (lexeme ++ rest) = some (terminal, rest)) : lexeme ≠ [] := by
  rintro rfl
  obtain ⟨length, found, taken, _⟩ := first_length first
  have positive := measured_pos found
  rw [List.nil_append, List.take_eq_nil_iff] at taken
  rcases taken with none | rfl
  · omega
  · cases found

theorem wordKind_name {text : List Char} (kind : wordKind text = .name) :
    Keyword.ofText? (String.ofList text) = none := by
  unfold wordKind at kind
  split at kind
  · cases kind
  · next none => exact none

/-- Tokens lead to a place where the scan goes on. -/
theorem lexes_scan {position place : Position} {text more : List Char} {tokens : List Token}
    (lexes : Lexes position text tokens place more) :
    scanFrom position text =
      ⟨tokens ++ (scanFrom place more).tokens, (scanFrom place more).stuck⟩ := by
  induction lexes with
  | refl => rfl
  | ignored first silent _ ih =>
      obtain ⟨length, found, taken, behind⟩ := first_length first
      rw [scanFrom_step found, taken, behind, silent, ih]
      rfl
  | token first sounds _ ih =>
      obtain ⟨length, found, taken, behind⟩ := first_length first
      rw [scanFrom_step found, taken, behind, sounds, ih]
      rfl

/-- Tokens lead to the place behind the text that they pass. -/
theorem lexes_reach {position place : Position} {text more : List Char} {tokens : List Token}
    (lexes : Lexes position text tokens place more) :
    ∃ before, text = before ++ more ∧ place = position.advance before := by
  induction lexes with
  | refl => exact ⟨[], rfl, rfl⟩
  | @ignored _ _ lexeme _ _ _ _ _ _ _ ih | @token _ _ lexeme _ _ _ _ _ _ _ _ ih =>
      obtain ⟨before, rfl, rfl⟩ := ih
      exact ⟨lexeme ++ before, by simp, (Position.advance_append ..).symm⟩

theorem lexes_step {position place : Position} {text more : List Char} {tokens : List Token}
    {terminal : Terminal} {length : Nat} (found : measured? text = some (terminal, length))
    (lexes : Lexes (position.advance (text.take length)) (text.drop length) tokens place more) :
    Lexes position text
      (((terminal.kind? (text.take length)).map fun kind =>
        (⟨kind, String.ofList (text.take length), position⟩ : Token)).toList ++ tokens)
      place more := by
  have first : Terminal.first? (text.take length ++ text.drop length) =
      some (terminal, text.drop length) := by
    rw [List.take_append_drop, first_measured, found]
    rfl
  have whole := List.take_append_drop length text
  cases sounds : terminal.kind? (text.take length) with
  | none =>
      have step := Lexes.ignored first sounds lexes
      rw [whole] at step
      exact step
  | some kind =>
      have step := Lexes.token first sounds lexes
      rw [whole] at step
      exact step

/-- The place where a scan ends: the end of the text, or a character that starts no piece. -/
inductive Ends : Option (Char × Position) → Position → List Char → Prop where
  | finish (place : Position) : Ends none place []
  | stuck (c : Char) (place : Position) (rest : List Char)
      (unmatched : Terminal.first? (c :: rest) = none) : Ends (some (c, place)) place (c :: rest)

/-- All tokens of a scan are lexed. -/
theorem scan_lexes (position : Position) (text : List Char) :
    ∃ place more, Lexes position text (scanFrom position text).tokens place more ∧
      Ends (scanFrom position text).stuck place more := by
  -- The text gets shorter by a piece at a time, which is no structural recursion: the induction is
  -- on a bound of its length.
  have general : ∀ bound position text, text.length ≤ bound →
      ∃ place more, Lexes position text (scanFrom position text).tokens place more ∧
        Ends (scanFrom position text).stuck place more := by
    intro bound
    induction bound with
    | zero =>
        intro position text enough
        cases text with
        | nil =>
            rw [scanFrom_nil]
            exact ⟨position, [], .refl position [], .finish position⟩
        | cons => simp at enough
    | succ bound ih =>
        intro position text enough
        cases text with
        | nil =>
            rw [scanFrom_nil]
            exact ⟨position, [], .refl position [], .finish position⟩
        | cons c rest =>
            cases found : measured? (c :: rest) with
            | none =>
                rw [scanFrom_stuck found]
                refine ⟨position, c :: rest, .refl position _, .stuck c position rest ?_⟩
                rw [first_measured, found]
                rfl
            | some found' =>
                obtain ⟨terminal, length⟩ := found'
                have shorter : ((c :: rest).drop length).length ≤ bound := by
                  have positive := measured_pos found
                  simp only [List.length_drop, List.length_cons] at enough ⊢
                  omega
                obtain ⟨place, more, lexes, ends⟩ :=
                  ih (position.advance ((c :: rest).take length)) _ shorter
                rw [scanFrom_step found]
                exact ⟨place, more, lexes_step found lexes, ends⟩
  exact general text.length position text (Nat.le_refl _)

end Lexer

end LuaCore
