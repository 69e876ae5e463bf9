import LuaCore.Text.Printable

/-!
Quoted text for diagnostics. A single quote surrounds the text unless it holds one and no double
quote; what cannot be shown is written as an escape with hexadecimal digits.
-/

namespace LuaCore.Text

/-- The lower-case hexadecimal digits of a number, with zeros in front up to a width. -/
def hex (width n : Nat) : List Char :=
  let shown := Nat.toDigits 16 n
  List.replicate (width - shown.length) '0' ++ shown

/-- The mark around a text. -/
def quoteMark (text : List Char) : Char :=
  if text.contains '\'' && !text.contains '"' then '"' else '\''

def escapeUnprintable (c : Char) : List Char :=
  if c.toNat ≤ 0xFF then '\\' :: 'x' :: hex 2 c.toNat
  else if c.toNat ≤ 0xFFFF then '\\' :: 'u' :: hex 4 c.toNat
  else '\\' :: 'U' :: hex 8 c.toNat

def quoteChar (mark c : Char) : List Char :=
  if c = mark ∨ c = '\\' then ['\\', c]
  else if c = '\t' then ['\\', 't']
  else if c = '\n' then ['\\', 'n']
  else if c = '\r' then ['\\', 'r']
  else if isPrintable c then [c]
  else escapeUnprintable c

def quote (text : List Char) : List Char :=
  let mark := quoteMark text
  mark :: text.flatMap (quoteChar mark) ++ [mark]

end LuaCore.Text
