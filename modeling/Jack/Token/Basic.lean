import Jack.Failure
import Jack.Token.Keyword
import Jack.Token.Operator

/-! # Tokens

A token is what a stretch of source text means together with the place of its
first character. The end of a source is a token as well, so that a reader of
tokens always has one in front of it.
-/

namespace Jack

/-- The kinds of token. -/
inductive TokenKind where
  | keyword | symbol | identifier | integerConstant | stringConstant | endOfInput
  deriving Repr, DecidableEq

namespace TokenKind

/-- Every kind of token. -/
def all : List TokenKind :=
  [keyword, symbol, identifier, integerConstant, stringConstant, endOfInput]

/-- The name of a kind, which is also its element in a token listing. -/
def text : TokenKind → String
  | keyword => "keyword"
  | symbol => "symbol"
  | identifier => "identifier"
  | integerConstant => "integerConstant"
  | stringConstant => "stringConstant"
  | endOfInput => "eof"

/-- The kind that a literal names. -/
def ofLiteral (literal : Literal) : Except Failure TokenKind :=
  match literal.member? all text with
  | some kind => .ok kind
  | none => .error (.notTokenKind literal)

/-- The constant that a short form of a token shows for its kind. -/
def constantName : TokenKind → String
  | keyword => "KEYWORD"
  | symbol => "SYMBOL"
  | identifier => "IDENTIFIER"
  | integerConstant => "INT_CONST"
  | stringConstant => "STRING_CONST"
  | endOfInput => "EOF"

end TokenKind

/-- What a stretch of source text means. -/
inductive Lexeme where
  /-- A reserved word. -/
  | keyword (word : Keyword)
  /-- A punctuation or operator character. -/
  | symbol (mark : Symbol)
  /-- A word that is not reserved. -/
  | identifier (name : String)
  /-- An integer constant as it is written, and its value. -/
  | integer (digits : String) (value : Nat)
  /-- A string constant, without its quotes. -/
  | string (content : String)
  /-- The end of the source. -/
  | endOfInput
  deriving Repr, DecidableEq

namespace Lexeme

/-- The kind of token a lexeme makes. -/
def kind : Lexeme → TokenKind
  | .keyword _ => .keyword
  | .symbol _ => .symbol
  | .identifier _ => .identifier
  | .integer .. => .integerConstant
  | .string _ => .stringConstant
  | .endOfInput => .endOfInput

/-- The source text of a lexeme. -/
def text : Lexeme → String
  | .keyword word => word.text
  | .symbol mark => mark.text
  | .identifier name => name
  | .integer digits _ => digits
  | .string content => "\"" ++ content ++ "\""
  | .endOfInput => ""

/-- What a lexeme stands for. -/
def value : Lexeme → Literal
  | .keyword word => .text word.text
  | .symbol mark => .text mark.text
  | .identifier name => .text name
  | .integer _ value => .int value
  | .string content => .text content
  | .endOfInput => .null

/-- The type a lexeme names: a primitive type or a class. -/
def typeName? : Lexeme → Option String
  | .keyword word => if word.isPrimitiveType then some word.text else none
  | .identifier name => some name
  | _ => none

/-- The result type a lexeme names: any type, or none at all. -/
def resultTypeName? : Lexeme → Option String
  | .keyword .voidWord => some Keyword.voidWord.text
  | lexeme => lexeme.typeName?

end Lexeme

/-- A lexeme and the place where it starts. -/
structure Token where
  lexeme : Lexeme
  position : Position
  deriving Repr, DecidableEq

namespace Token

/-- Whether the token is the end of the source. -/
def isEnd (t : Token) : Bool :=
  t.lexeme == .endOfInput

end Token

end Jack
