/-! # Sources

Where source text comes from. A text at hand is read in chunks of a fixed size; a
stream hands out its parts as they are, and its first empty part is its end.
-/

namespace Jack

/-- A source of characters. -/
inductive Source where
  /-- A text at hand. -/
  | text (content : String)
  /-- What the successive reads of a stream return. -/
  | stream (parts : List String)
  deriving Repr

namespace Source

/-- The number of characters that a text at hand is read by, unless another one is asked for. -/
def defaultChunkSize : Nat := 4096

/-- Cut a text into chunks of `size` characters, for a positive size; only the last chunk may be
shorter. -/
def cut (size : Nat) : List Char → List (List Char)
  | [] => []
  | c :: rest => (c :: rest.take (size - 1)) :: cut size (rest.drop (size - 1))
  termination_by text => text.length
  decreasing_by simp only [List.length_cons, List.length_drop]; omega

theorem flatten_cut (size : Nat) (text : List Char) : (cut size text).flatten = text := by
  fun_induction cut size text with
  | case1 => rfl
  | case2 c rest ih => simp [ih]

/-- The chunks that the reads return, up to the first empty one. -/
def chunks (size : Nat) : Source → List (List Char)
  | .text content => cut size content.toList
  | .stream parts => (parts.map String.toList).takeWhile fun part => !part.isEmpty

/-- The characters that a source delivers, however they are cut. -/
def characters (s : Source) : List Char :=
  (s.chunks defaultChunkSize).flatten

theorem flatten_chunks (size : Nat) (s : Source) : (s.chunks size).flatten = s.characters := by
  cases s with
  | text content => simp [characters, chunks, flatten_cut]
  | stream parts => rfl

end Source

end Jack
