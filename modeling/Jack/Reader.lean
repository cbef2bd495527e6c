import Jack.Position
import Jack.Source

/-! # Readers

A reader looks at the characters of a source from front to back. It holds the
characters it was given and has not passed yet, and asks for another chunk only
when it has to look past them. What is left of the source, `Reader.remaining`, says
all that looking and passing can tell apart: no operation depends on how the source
was cut into chunks.
-/

namespace Jack

/-- A chunk that was read, and the line the reader was on. -/
structure Delivery where
  chunk : List Char
  line : Int
  deriving Repr, DecidableEq

/-- How many characters were read at once. -/
def Delivery.size (d : Delivery) : Nat :=
  d.chunk.length

/-- A place in a source, with the characters that were read ahead of it. -/
structure Reader where
  /-- The characters that were read and not passed. -/
  buffer : List Char
  /-- The chunks that further reads return; `none` after a read that returned nothing. -/
  unread : Option (List (List Char))
  position : Position
  /-- The chunks read so far, the last one first. -/
  deliveries : List Delivery
  deriving Repr

namespace Reader

/-- A reader in front of a source that is read by `size` characters. -/
def ofSource (size : Nat) (source : Source) : Reader :=
  ⟨[], some (source.chunks size), .start, []⟩

/-- Whether a read has returned nothing. -/
def isExhausted (r : Reader) : Bool :=
  r.unread.isNone

/-- The characters in front of the reader. -/
def remaining (r : Reader) : List Char :=
  r.buffer ++ (r.unread.getD []).flatten

/-- Read chunks until the buffer has a character at `offset`. -/
def fillFrom (offset : Nat) (r : Reader) : List (List Char) → Reader
  | [] =>
    if (r.buffer.drop offset).isEmpty then { r with unread := none }
    else { r with unread := some [] }
  | chunk :: rest =>
    if (r.buffer.drop offset).isEmpty then
      fillFrom offset
        { r with
          buffer := r.buffer ++ chunk
          deliveries := ⟨chunk, r.position.line⟩ :: r.deliveries }
        rest
    else { r with unread := some (chunk :: rest) }

/-- Read until the buffer has a character at `offset` or the source has no more. -/
def fill (offset : Nat) (r : Reader) : Reader :=
  match r.unread with
  | none => r
  | some chunks => r.fillFrom offset chunks

/-- The character `offset` places ahead, if the source has that many. -/
def peek (offset : Nat) (r : Reader) : Option Char × Reader :=
  let r := r.fill offset
  (r.buffer[offset]?, r)

/-- Pass the character in front, if there is one. -/
def advance (r : Reader) : Reader :=
  let r := r.fill 0
  match r.buffer with
  | [] => r
  | c :: rest => { r with buffer := rest, position := r.position.after c }

/-- Forget which chunks were read so far. -/
def forget (r : Reader) : Reader :=
  { r with deliveries := [] }

theorem remaining_forget (r : Reader) : r.forget.remaining = r.remaining :=
  rfl

theorem remaining_fillFrom (offset : Nat) (r : Reader) (chunks : List (List Char)) :
    (r.fillFrom offset chunks).remaining = r.buffer ++ chunks.flatten := by
  induction chunks generalizing r with
  | nil => simp only [fillFrom]; split <;> simp [remaining]
  | cons chunk rest ih =>
    simp only [fillFrom]
    split
    · simp [ih]
    · simp [remaining]

/-- Reading ahead loses nothing. -/
theorem remaining_fill (offset : Nat) (r : Reader) : (r.fill offset).remaining = r.remaining := by
  unfold fill
  split
  · rfl
  · next chunks h => rw [remaining_fillFrom]; simp [remaining, h]

theorem remaining_peek (offset : Nat) (r : Reader) :
    (r.peek offset).2.remaining = r.remaining :=
  remaining_fill offset r

theorem getElem?_buffer_fillFrom (offset : Nat) (r : Reader) (chunks : List (List Char)) :
    (r.fillFrom offset chunks).buffer[offset]? = (r.buffer ++ chunks.flatten)[offset]? := by
  induction chunks generalizing r with
  | nil => simp only [fillFrom]; split <;> simp
  | cons chunk rest ih =>
    simp only [fillFrom]
    split
    · simp [ih]
    · next h =>
      have h : offset < r.buffer.length := by simpa using h
      simp [List.getElem?_append_left h]

/-- Looking ahead sees what is left of the source. -/
theorem fst_peek (offset : Nat) (r : Reader) : (r.peek offset).1 = r.remaining[offset]? := by
  simp only [peek, fill]
  split
  · next h => simp [remaining, h]
  · next chunks h => rw [getElem?_buffer_fillFrom]; simp [remaining, h]

theorem remaining_advance (r : Reader) : r.advance.remaining = r.remaining.tail := by
  have buffered := fst_peek 0 r
  rw [← remaining_fill 0 r] at buffered ⊢
  simp only [peek] at buffered
  simp only [advance]
  split
  · next h =>
    rw [h] at buffered
    have : (r.fill 0).remaining = [] := by simpa using buffered.symm
    simp [this]
  · next c rest h => simp [remaining, h]

theorem remaining_of_peek {offset : Nat} {r ahead : Reader} {c : Option Char}
    (h : r.peek offset = (c, ahead)) : ahead.remaining = r.remaining := by
  rw [← remaining_peek offset r, h]

theorem getElem?_of_peek {offset : Nat} {r ahead : Reader} {c : Option Char}
    (h : r.peek offset = (c, ahead)) : r.remaining[offset]? = c := by
  rw [← fst_peek offset r, h]

theorem remaining_of_peek_none {r ahead : Reader} (h : r.peek 0 = (none, ahead)) :
    r.remaining = [] := by
  simpa using getElem?_of_peek h

/-- A character in front is the first of what is left, and passing it leaves the others. -/
theorem remaining_of_peek_some {r ahead : Reader} {c : Char} (h : r.peek 0 = (some c, ahead)) :
    r.remaining = c :: ahead.advance.remaining := by
  have front := getElem?_of_peek h
  rw [remaining_advance, remaining_of_peek h]
  cases hr : r.remaining with
  | nil => simp [hr] at front
  | cons d rest => simpa [hr] using front

/-- Pass characters while they satisfy `p`; `taken` holds those passed so far in reverse. -/
def spanFrom (p : Char → Bool) (taken : List Char) (r : Reader) : List Char × Reader :=
  match _h : r.peek 0 with
  | (none, ahead) => (taken.reverse, ahead)
  | (some c, ahead) =>
    if p c then spanFrom p (c :: taken) ahead.advance else (taken.reverse, ahead)
  termination_by r.remaining.length
  decreasing_by simp [remaining_of_peek_some _h]

/-- Pass characters while they satisfy `p`, and return them in order. -/
def takeWhile (p : Char → Bool) (r : Reader) : List Char × Reader :=
  r.spanFrom p []

/-- Pass characters while they satisfy `p`. -/
def skipWhile (p : Char → Bool) (r : Reader) : Reader :=
  (r.takeWhile p).2

theorem fst_spanFrom (p : Char → Bool) (taken : List Char) (r : Reader) :
    (r.spanFrom p taken).1 = taken.reverse ++ r.remaining.takeWhile p := by
  fun_induction spanFrom p taken r with
  | case1 taken r ahead h => simp [remaining_of_peek_none h]
  | case2 taken r c ahead h hc ih => simp [ih, remaining_of_peek_some h, hc]
  | case3 taken r c ahead h hc => simp [remaining_of_peek_some h, hc]

theorem remaining_spanFrom (p : Char → Bool) (taken : List Char) (r : Reader) :
    (r.spanFrom p taken).2.remaining = r.remaining.dropWhile p := by
  fun_induction spanFrom p taken r with
  | case1 taken r ahead h => simp [remaining_of_peek h, remaining_of_peek_none h]
  | case2 taken r c ahead h hc ih => simp [ih, remaining_of_peek_some h, hc]
  | case3 taken r c ahead h hc => rw [remaining_of_peek h]; simp [remaining_of_peek_some h, hc]

theorem fst_takeWhile (p : Char → Bool) (r : Reader) :
    (r.takeWhile p).1 = r.remaining.takeWhile p := by
  simp [takeWhile, fst_spanFrom]

theorem remaining_takeWhile (p : Char → Bool) (r : Reader) :
    (r.takeWhile p).2.remaining = r.remaining.dropWhile p :=
  remaining_spanFrom p [] r

theorem remaining_skipWhile (p : Char → Bool) (r : Reader) :
    (r.skipWhile p).remaining = r.remaining.dropWhile p :=
  remaining_takeWhile p r

end Reader

end Jack
