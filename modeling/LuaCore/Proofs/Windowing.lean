import Mathlib.Data.List.Range
import LuaCore.Excerpt

/-!
What an excerpt shows. For every place, inside of the text or not, it is a window of consecutive
lines around a line of the text. Without the colour codes each of them is the line as it stands in
the text behind its number, and at most one part of one line is highlighted.
-/

namespace LuaCore.Excerpt

/-! Codes and text. -/

/-- A part of an excerpt: a colour code, or text of the lines that are shown. -/
inductive Piece where
  | colour (parameters : String)
  | text (shown : List Char)

/-- A part as it is written. -/
def Piece.coloured : Piece → List Char
  | colour parameters => code parameters
  | text shown => shown

/-- A part when the colour codes are taken out. -/
def Piece.bare : Piece → List Char
  | colour _ => []
  | text shown => shown

/-- A line of an excerpt: its number, and its text with the highlighted part, if it has one, between
what stands in front of that and behind it. -/
structure Row where
  number : Nat
  front : List Char
  marked : Option (List Char)
  stop : List Char

namespace Row

def text (row : Row) : List Char :=
  row.front ++ row.marked.getD [] ++ row.stop

def highlighted : Option (List Char) → List Piece
  | none => []
  | some part => [.colour "48;5;30", .colour "1;97", .text part, .colour "0"]

/-- The number is bright in front of the target and dim in front of its neighbours. -/
def pieces (target : Nat) (row : Row) : List Piece :=
  [.colour (if row.number = target then "97" else "90"), .text (label row.number), .colour "0",
    .text (' ' :: row.front)] ++ highlighted row.marked ++ [.text row.stop]

def coloured (target : Nat) (row : Row) : List Char :=
  (row.pieces target).flatMap Piece.coloured

def bare (target : Nat) (row : Row) : List Char :=
  (row.pieces target).flatMap Piece.bare

/-- Whether a column lies within the line. -/
def Within (column : Int) (row : Row) : Prop :=
  0 < column ∧ column ≤ row.text.length

/-- The line of a window entry, cut at the token if that starts in it. -/
def ofLine (target : Nat) (column : Int) (width : Nat) (line : Nat × List Char) : Row :=
  let text := content line.2
  if line.1 = target ∧ 0 < column ∧ column ≤ text.length then
    let start := column.toNat - 1
    ⟨line.1, text.take start, some ((text.drop start).take width), text.drop (start + width)⟩
  else ⟨line.1, text, none, []⟩

theorem bare_text (target : Nat) (row : Row) :
    row.bare target = label row.number ++ ' ' :: row.text := by
  obtain ⟨number, front, marked, stop⟩ := row
  cases marked <;> simp [bare, pieces, highlighted, text, Piece.bare]

end Row

/-- The line that is asked for: the last one of the text unless another one is, and then the one
nearest to it that there is. -/
structure Targets (count : Nat) (line : Option Int) (target : Nat) : Prop where
  omitted : line = none ∨ line = some 0 → target = count
  given : ∀ number ≠ 0, line = some number → (target : Int) = max 1 (min number count)

/-- The rows of an excerpt: the target with two neighbours on each side, as far as the text has
them, each with its line of the text. The part of the target that starts at the column is
highlighted, as wide as the token or up to the end of the line, and nothing else is. -/
structure Window (lines : List (List Char)) (target : Nat) (column : Int) (width : Nat)
    (rows : List Row) : Prop where
  numbers : ∃ first last, first = max 1 (target - 2) ∧ last = min lines.length (target + 2) ∧
    rows.map Row.number = List.range' first (last + 1 - first)
  lines : ∀ row ∈ rows, ∃ line, lines[row.number - 1]? = some line ∧
    row.bare target = label row.number ++ ' ' :: content line
  marked : ∀ row ∈ rows, row.marked.isSome ↔ row.number = target ∧ row.Within column
  part : ∀ row ∈ rows, ∀ part, row.marked = some part → row.front.length + 1 = column ∧
    part.length = min width (row.text.length - row.front.length)
  once : (rows.filter fun row => row.marked.isSome).length ≤ 1

/-! The lines of the window. -/

theorem targetLine_targets {count : Nat} (positive : 0 < count) (line : Option Int) :
    Targets count line (targetLine count line) := by
  refine ⟨?_, ?_⟩
  · rintro (rfl | rfl) <;> rfl
  · rintro number other rfl
    rw [targetLine, if_neg other]
    omega

theorem targetLine_bounds {count : Nat} (positive : 0 < count) (line : Option Int) :
    1 ≤ targetLine count line ∧ targetLine count line ≤ count := by
  cases line with
  | none => exact ⟨positive, Nat.le_refl count⟩
  | some number =>
      simp only [targetLine]
      split <;> omega

theorem numbered_numbers (before : Nat) (lines : List (List Char)) :
    (numbered before lines).map Prod.fst = List.range' (before + 1) lines.length := by
  induction lines generalizing before with
  | nil => rfl
  | cons line lines ih => rw [numbered, List.map_cons, ih, List.length_cons, List.range'_succ]

theorem numbered_line {before : Nat} {lines : List (List Char)} {entry : Nat × List Char}
    (member : entry ∈ numbered before lines) :
    before < entry.1 ∧ lines[entry.1 - (before + 1)]? = some entry.2 := by
  induction lines generalizing before with
  | nil => cases member
  | cons line lines ih =>
      rcases List.mem_cons.mp member with rfl | later
      · exact ⟨Nat.lt_succ_self before, by simp⟩
      · obtain ⟨above, found⟩ := ih later
        have behind : entry.1 - (before + 1) = entry.1 - (before + 1 + 1) + 1 := by omega
        exact ⟨by omega, by rw [behind, List.getElem?_cons_succ, found]⟩

theorem window_numbers {target : Nat} (least : 1 ≤ target) (lines : List (List Char)) :
    (window target lines).map Prod.fst =
      List.range' (max 1 (target - 2)) (min lines.length (target + 2) + 1 - max 1 (target - 2)) := by
  rw [window, List.map_take, List.map_drop, numbered_numbers, List.drop_range', Nat.mul_one,
    Nat.zero_add]
  have start : 1 + (target - 3) = max 1 (target - 2) := by omega
  rw [start, List.range'_eq_map_range, ← List.map_take, List.take_range,
    List.range'_eq_map_range]
  congr 2
  omega

theorem window_line {target : Nat} {lines : List (List Char)} {entry : Nat × List Char}
    (member : entry ∈ window target lines) : lines[entry.1 - 1]? = some entry.2 :=
  (numbered_line (List.mem_of_mem_drop (List.mem_of_mem_take member))).2

/-! Rows. -/

section

variable {target : Nat} {column : Int} {width : Nat} {line : Nat × List Char}

theorem ofLine_number : (Row.ofLine target column width line).number = line.1 := by
  unfold Row.ofLine
  simp only
  split <;> rfl

theorem ofLine_text : (Row.ofLine target column width line).text = content line.2 := by
  unfold Row.ofLine
  simp only
  split
  · simp only [Row.text, Option.getD_some]
    rw [← List.drop_drop, List.append_assoc, List.take_append_drop, List.take_append_drop]
  · simp [Row.text]

theorem ofLine_coloured :
    (Row.ofLine target column width line).coloured target =
      shownLine target column width line := by
  unfold Row.ofLine shownLine markToken
  simp only
  by_cases current : line.1 = target
  · by_cases inside : 0 < column ∧ column ≤ (content line.2).length
    · rw [if_pos ⟨current, inside⟩, if_pos current, if_pos inside]
      simp [Row.coloured, Row.pieces, Row.highlighted, Piece.coloured, current, bright, plain,
        highlight]
    · rw [if_neg (fun both => inside both.2), if_pos current, if_neg inside]
      simp [Row.coloured, Row.pieces, Row.highlighted, Piece.coloured, current, bright, plain]
  · rw [if_neg (fun both => current both.1), if_neg current]
    simp [Row.coloured, Row.pieces, Row.highlighted, Piece.coloured, current, dim, plain]

theorem ofLine_marked :
    (Row.ofLine target column width line).marked.isSome ↔
      line.1 = target ∧ (Row.ofLine target column width line).Within column := by
  rw [Row.Within, ofLine_text]
  unfold Row.ofLine
  simp only
  split <;> simp_all

theorem ofLine_part {part : List Char}
    (marked : (Row.ofLine target column width line).marked = some part) :
    (Row.ofLine target column width line).front.length + 1 = column ∧
      part.length = min width ((Row.ofLine target column width line).text.length -
        (Row.ofLine target column width line).front.length) := by
  rw [ofLine_text]
  unfold Row.ofLine at marked ⊢
  simp only at marked ⊢
  split at marked
  · next inside =>
      cases marked
      rw [if_pos inside]
      simp only [List.length_take, List.length_drop]
      omega
  · cases marked

end

/-- At most one of some rows is the target. -/
theorem marked_once {rows : List Row} {target : Nat} (distinct : (rows.map Row.number).Nodup)
    (only : ∀ row ∈ rows, row.marked.isSome → row.number = target) :
    (rows.filter fun row => row.marked.isSome).length ≤ 1 := by
  have kept : ((rows.filter fun row => row.marked.isSome).map Row.number).Nodup :=
    distinct.sublist (List.filter_sublist.map Row.number)
  have same : (rows.filter fun row => row.marked.isSome).map Row.number =
      List.replicate (rows.filter fun row => row.marked.isSome).length target := by
    apply List.eq_replicate_iff.mpr
    refine ⟨List.length_map _, ?_⟩
    intro number member
    obtain ⟨row, kept, rfl⟩ := List.mem_map.mp member
    obtain ⟨member, marked⟩ := List.mem_filter.mp kept
    exact only row member marked
  rw [same] at kept
  exact List.nodup_replicate.mp kept

theorem rows_window {target : Nat} (least : 1 ≤ target) (lines : List (List Char)) (column : Int)
    (width : Nat) :
    Window lines target column width ((window target lines).map (Row.ofLine target column width)) := by
  have numbers : ((window target lines).map (Row.ofLine target column width)).map Row.number =
      (window target lines).map Prod.fst := by
    rw [List.map_map]
    exact List.map_congr_left fun _ _ => ofLine_number
  have marked : ∀ row ∈ (window target lines).map (Row.ofLine target column width),
      row.marked.isSome ↔ row.number = target ∧ row.Within column := by
    intro row member
    obtain ⟨entry, _, rfl⟩ := List.mem_map.mp member
    rw [ofLine_number]
    exact ofLine_marked
  refine ⟨⟨_, _, rfl, rfl, numbers.trans (window_numbers least lines)⟩, ?_, marked, ?_, ?_⟩
  · intro row member
    obtain ⟨entry, inside, rfl⟩ := List.mem_map.mp member
    refine ⟨entry.2, ?_, ?_⟩
    · rw [ofLine_number]
      exact window_line inside
    · rw [Row.bare_text, ofLine_number, ofLine_text]
  · intro row member part found
    obtain ⟨entry, _, rfl⟩ := List.mem_map.mp member
    exact ofLine_part found
  · refine marked_once ?_ fun row member some' => ((marked row member).mp some').1
    rw [numbers, window_numbers least lines]
    exact List.nodup_range'

theorem lines_some {source : String} (solid : source ≠ "") :
    0 < (Text.lines source.toList).length := by
  apply List.length_pos_iff.mpr
  intro none
  have whole := Text.flatten_lines source.toList
  rw [none] at whole
  exact solid (String.toList_eq_nil_iff.mp whole.symm)

end Excerpt

open Excerpt

/-- The excerpt of a text that is not empty, for any line, column and token: a heading with the
number of the target, and the rows of the window around it. -/
theorem excerpt_window (fileName : String) {source : String} (solid : source ≠ "")
    (line column : Option Int) (token : Option String) : ∃ target rows,
      1 ≤ target ∧ target ≤ (Text.lines source.toList).length ∧
      Targets (Text.lines source.toList).length line target ∧
      Window (Text.lines source.toList) target (column.getD 0) (max (token.getD "").length 1) rows ∧
      (render fileName line column token source).toList =
        '\n' :: heading fileName target ++ rows.flatMap (fun row => '\n' :: row.coloured target) ++
          ['\n'] := by
  have some' := lines_some solid
  obtain ⟨least, most⟩ := targetLine_bounds some' line
  refine ⟨_, _, least, most, targetLine_targets some' line, rows_window least _ _ _, ?_⟩
  have nonempty : ¬ (Text.lines source.toList).isEmpty := by
    simpa using List.length_pos_iff.mp some'
  simp only [render, if_neg nonempty, String.toList_ofList, List.flatMap_cons, List.flatMap_map,
    ofLine_coloured, List.cons_append]

/-- A line beyond the text, and a token that is longer than the rest of the last line. -/
theorem excerpt_window_beyond : "f(\nx = ((" ≠ "" ∧ ∃ rows,
    Window (Text.lines "f(\nx = ((".toList) 2 6 3 rows ∧
    (render "f" (some 9) (some 6) (some "(((") "f(\nx = ((").toList =
      '\n' :: heading "f" 2 ++ rows.flatMap (fun row => '\n' :: row.coloured 2) ++ ['\n'] := by
  have solid : "f(\nx = ((" ≠ "" := by decide
  obtain ⟨target, rows, _, _, targets, window, shown⟩ :=
    excerpt_window "f" solid (some 9) (some 6) (some "(((")
  have count : (Text.lines "f(\nx = ((".toList).length = 2 := by decide
  have last : target = 2 := by
    have nearest := targets.given 9 (by decide) rfl
    rw [count] at nearest
    omega
  subst last
  exact ⟨solid, rows, window, shown⟩

end LuaCore
