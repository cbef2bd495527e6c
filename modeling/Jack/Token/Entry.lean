import Jack.Text.Markup
import Jack.Token.Basic

/-! # Token entries

A token taken apart: its kind, its source text and its value, each on its own. The
parts of an entry need not fit together, since entries can also be written by
hand; the entry of a token read from a source has the parts of its lexeme.
-/

namespace Jack

/-- A token as a record of its parts. -/
structure TokenEntry where
  kind : TokenKind
  text : String
  value : Literal
  position : Position
  deriving Repr, DecidableEq

/-- The parts of a token. -/
def Token.entry (t : Token) : TokenEntry :=
  ⟨t.lexeme.kind, t.lexeme.text, t.lexeme.value, t.position⟩

namespace TokenEntry

/-- Whether the value is a text among `words`, where no words stand for any value. -/
def hasValueIn (words : List String) (e : TokenEntry) : Bool :=
  words.isEmpty || words.any fun word => e.value == .text word

/-- Whether the entry is a keyword, and one of `words` if there are any. -/
def isKeyword (e : TokenEntry) (words : List String) : Bool :=
  e.kind == .keyword && e.hasValueIn words

/-- Whether the entry is a symbol, and one of `words` if there are any. -/
def isSymbol (e : TokenEntry) (words : List String) : Bool :=
  e.kind == .symbol && e.hasValueIn words

/-- Whether the entry is an identifier. -/
def isIdentifier (e : TokenEntry) : Bool :=
  e.kind == .identifier

/-- The symbol that the value of a symbol entry names. -/
def mark? (e : TokenEntry) : Option Symbol :=
  if e.kind == .symbol then e.value.member? Symbol.all Symbol.text else none

/-- Whether the entry is an operator between two terms. -/
def isBinaryOp (e : TokenEntry) : Bool :=
  (e.mark?.bind BinaryOp.ofSymbol?).isSome

/-- Whether the entry is an operator before a term. -/
def isUnaryOp (e : TokenEntry) : Bool :=
  (e.mark?.bind UnaryOp.ofSymbol?).isSome

/-- Whether the entry names the type of a variable. -/
def isType (e : TokenEntry) : Bool :=
  e.isIdentifier ||
    e.isKeyword ((Keyword.all.filter Keyword.isPrimitiveType).map Keyword.text)

/-- How an entry is named in a message. -/
def described (e : TokenEntry) : String :=
  if e.kind == .endOfInput then "end of input" else e.kind.text ++ " " ++ quoted e.text

/-- The short form of an entry. -/
def summary (e : TokenEntry) : String :=
  "Token(" ++ e.kind.constantName ++ ", " ++ quoted e.text ++ ", line=" ++
    toString e.position.line ++ ")"

/-- The text of an entry inside its element: a string constant goes without its quotes. -/
def listedText (e : TokenEntry) : String :=
  match e.kind, e.value with
  | .stringConstant, .text content => content
  | _, _ => e.text

/-- One line of a token listing. -/
def listed (e : TokenEntry) : String :=
  "<" ++ e.kind.text ++ "> " ++ escaped e.listedText ++ " </" ++ e.kind.text ++ ">\n"

/-- A token listing: one element per token inside one that holds them all. -/
def listing (entries : List TokenEntry) : String :=
  "<tokens>\n" ++ String.join (entries.map listed) ++ "</tokens>\n"

end TokenEntry

namespace Token

/-- How a token is named in a message. -/
def described (t : Token) : String :=
  t.entry.described

/-- The token listing of tokens read from a source. -/
def listing (tokens : List Token) : String :=
  TokenEntry.listing (tokens.map entry)

end Token

end Jack
