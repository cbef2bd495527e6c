/-! # Symbols

The punctuation and operator characters. Each is a token of its own.
-/

namespace Jack

/-- A punctuation or operator character. -/
inductive Symbol where
  | openBrace | closeBrace | openParen | closeParen | openBracket | closeBracket
  | dot | comma | semicolon
  | plus | minus | star | slash | ampersand | bar | less | greater | equals | tilde
  deriving Repr, DecidableEq

namespace Symbol

/-- Every symbol. -/
def all : List Symbol :=
  [openBrace, closeBrace, openParen, closeParen, openBracket, closeBracket,
    dot, comma, semicolon,
    plus, minus, star, slash, ampersand, bar, less, greater, equals, tilde]

/-- How a symbol is written. -/
def char : Symbol → Char
  | openBrace => '{'
  | closeBrace => '}'
  | openParen => '('
  | closeParen => ')'
  | openBracket => '['
  | closeBracket => ']'
  | dot => '.'
  | comma => ','
  | semicolon => ';'
  | plus => '+'
  | minus => '-'
  | star => '*'
  | slash => '/'
  | ampersand => '&'
  | bar => '|'
  | less => '<'
  | greater => '>'
  | equals => '='
  | tilde => '~'

/-- The text of a symbol: its one character. -/
def text (s : Symbol) : String :=
  s.char.toString

/-- The symbol written as `c`. -/
def ofChar? (c : Char) : Option Symbol :=
  all.find? (char · == c)

theorem ofChar?_char (s : Symbol) : ofChar? s.char = some s := by
  cases s <;> decide

theorem char_of_ofChar? {c : Char} {s : Symbol} (h : ofChar? c = some s) : s.char = c := by
  simpa using List.find?_some h

end Symbol

end Jack
