import Jack.Text.Printable

/-! # Quoted texts

How a text is quoted inside a message. The quote is a single one, or a double
one when the text has single quotes and no double quote; the chosen quote and the
backslash are escaped by a backslash, and a character without a printed form is
written by its code in lower-case hexadecimal.
-/

namespace Jack

/-- The lower-case hexadecimal digits of `code`, padded with zeros to at least `width`. -/
def hexLower (width code : Nat) : List Char :=
  let digits := Nat.toDigits 16 code
  List.replicate (width - digits.length) '0' ++ digits

/-- The quote a text is put in. -/
def quoteFor (text : List Char) : Char :=
  if text.contains '\'' && !text.contains '"' then '"' else '\''

/-- One character of a text inside `quote`. -/
def quotedChar (quote c : Char) : List Char :=
  if c == quote || c == '\\' then ['\\', c]
  else if c == '\n' then ['\\', 'n']
  else if c == '\r' then ['\\', 'r']
  else if c == '\t' then ['\\', 't']
  else if isPrintable c then [c]
  else if c.toNat < 0x100 then '\\' :: 'x' :: hexLower 2 c.toNat
  else if c.toNat < 0x10000 then '\\' :: 'u' :: hexLower 4 c.toNat
  else '\\' :: 'U' :: hexLower 8 c.toNat

/-- A text in quotes. -/
def quoted (text : String) : String :=
  let quote := quoteFor text.toList
  String.ofList (quote :: text.toList.flatMap (quotedChar quote) ++ [quote])

end Jack
