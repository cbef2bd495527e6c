/-! # Markup text

A text inside an element is written with the five predefined entities in place of
the characters that markup gives a meaning.
-/

namespace Jack

/-- One character of a text inside an element. -/
def escapedChar (c : Char) : List Char :=
  match c with
  | '&' => ['&', 'a', 'm', 'p', ';']
  | '>' => ['&', 'g', 't', ';']
  | '<' => ['&', 'l', 't', ';']
  | '"' => ['&', 'q', 'u', 'o', 't', ';']
  | '\'' => ['&', 'a', 'p', 'o', 's', ';']
  | c => [c]

/-- A text inside an element. -/
def escaped (text : String) : String :=
  String.ofList (text.toList.flatMap escapedChar)

end Jack
