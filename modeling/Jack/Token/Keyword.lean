/-! # Keywords

The reserved words of the language. A word of letters, digits and underscores is a
keyword exactly when it is the text of one of these, and an identifier otherwise.
-/

namespace Jack

/-- A reserved word. -/
inductive Keyword where
  | classWord | constructorWord | functionWord | methodWord
  | fieldWord | staticWord | varWord
  | intWord | charWord | booleanWord | voidWord
  | trueWord | falseWord | nullWord | thisWord
  | letWord | doWord | ifWord | elseWord | whileWord | returnWord
  deriving Repr, DecidableEq

namespace Keyword

/-- Every keyword. -/
def all : List Keyword :=
  [classWord, constructorWord, functionWord, methodWord,
    fieldWord, staticWord, varWord,
    intWord, charWord, booleanWord, voidWord,
    trueWord, falseWord, nullWord, thisWord,
    letWord, doWord, ifWord, elseWord, whileWord, returnWord]

/-- How a keyword is written. -/
def text : Keyword → String
  | classWord => "class"
  | constructorWord => "constructor"
  | functionWord => "function"
  | methodWord => "method"
  | fieldWord => "field"
  | staticWord => "static"
  | varWord => "var"
  | intWord => "int"
  | charWord => "char"
  | booleanWord => "boolean"
  | voidWord => "void"
  | trueWord => "true"
  | falseWord => "false"
  | nullWord => "null"
  | thisWord => "this"
  | letWord => "let"
  | doWord => "do"
  | ifWord => "if"
  | elseWord => "else"
  | whileWord => "while"
  | returnWord => "return"

/-- The keyword written as `word`. -/
def ofText? (word : String) : Option Keyword :=
  all.find? (text · == word)

theorem ofText?_text (k : Keyword) : ofText? k.text = some k := by
  cases k <;> decide

theorem text_of_ofText? {word : String} {k : Keyword} (h : ofText? word = some k) :
    k.text = word := by
  simpa using List.find?_some h

/-- Whether the keyword names a type on its own. -/
def isPrimitiveType : Keyword → Bool
  | intWord | charWord | booleanWord => true
  | _ => false

end Keyword

end Jack
