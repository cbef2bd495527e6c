import Jack.Failure
import Jack.Text.Lines
import Jack.Text.Utf8

/-! # Text files

A file that is open for reading as text. Its bytes are fetched and decoded in blocks, as
more characters are wanted, and every line end becomes one line feed. So bytes that are
no text are only noticed by the read that fetches them; what was handed out before stays.
-/

namespace Jack

/-- A file that is read as text. -/
structure TextFile where
  /-- The bytes that were not fetched. -/
  unread : List UInt8
  /-- The bytes of a character that were fetched before its last one. -/
  pending : List UInt8
  /-- Whether a carriage return is held back, since a line feed behind it belongs to it. -/
  held : Bool
  /-- The characters that were decoded and not handed out. -/
  decoded : List Char
  /-- How many bytes the last block had. -/
  lastBytes : Nat
  /-- How many characters were decoded with the last block. -/
  lastChars : Nat
  deriving Repr

namespace TextFile

/-- A file with the given bytes, of which none was read. -/
def ofBytes (bytes : List UInt8) : TextFile :=
  ⟨bytes, [], false, [], 0, 0⟩

/-- The number of bytes that are fetched at least. -/
def blockSize : Nat := 8192

/-- How many bytes are fetched if so many characters are wanted: a block, or more if the characters
of the last block had so many bytes that this would not do. -/
def fetchSize (wanted : Nat) (f : TextFile) : Nat :=
  max blockSize (f.lastBytes * wanted / f.lastChars)

/-- Characters behind a carriage return that was held back, if there is one. -/
def carry (held : Bool) (chars : List Char) : List Char :=
  if held then '\r' :: chars else chars

/-- What is handed on of a text: its line ends are unified, and a carriage return at its end is held
back unless the text is the last one. -/
def holdBack (last : Bool) (text : List Char) : Bool × List Char :=
  if !last && text.getLast? == some '\r' then (true, unifyNewlines text.dropLast)
  else (false, unifyNewlines text)

/-- Decode a block behind those before it. The file is over when the block has no bytes. -/
def decode (block : List UInt8) (f : TextFile) : Except Failure TextFile :=
  match decode? (f.pending ++ block) with
  | none => .error .notText
  | some (chars, pending) =>
    if block.isEmpty && !pending.isEmpty then .error .notText
    else
      let text := holdBack block.isEmpty (carry f.held chars)
      .ok { f with
        pending
        held := text.1
        decoded := text.2
        lastBytes := block.length
        lastChars := text.2.length }

/-- Fetch a block for so many characters and decode it. -/
def fetch (wanted : Nat) (f : TextFile) : Except Failure TextFile :=
  let size := f.fetchSize wanted
  { f with unread := f.unread.drop size }.decode (f.unread.take size)

/-! ### Sizes -/

theorem length_unifyNewlines_le (text : List Char) : (unifyNewlines text).length ≤ text.length := by
  fun_induction unifyNewlines text with
  | case1 => exact Nat.le_refl _
  | case2 rest ih =>
      simp only [List.length_cons]
      omega
  | case3 c rest _ ih =>
      simp only [List.length_cons]
      omega

/-- How many characters can still be handed out, at most. -/
def size (f : TextFile) : Nat :=
  f.unread.length + f.pending.length + f.held.toNat + f.decoded.length

theorem length_carry (held : Bool) (chars : List Char) :
    (carry held chars).length = held.toNat + chars.length := by
  cases held
  · simp [carry]
  · simp [carry, Nat.add_comm]

theorem length_holdBack (last : Bool) (text : List Char) :
    (holdBack last text).1.toNat + (holdBack last text).2.length ≤ text.length := by
  unfold holdBack
  split
  · next ended =>
    have more : text ≠ [] := by
      rintro rfl
      simp at ended
    have shorter := length_unifyNewlines_le text.dropLast
    have positive := List.length_pos_iff.mpr more
    rw [List.length_dropLast] at shorter
    simp only [Bool.toNat_true]
    omega
  · simpa using length_unifyNewlines_le text

/-- Decoding makes no more characters than there are bytes. -/
theorem size_decode {block : List UInt8} {f next : TextFile} (h : f.decode block = .ok next) :
    next.unread = f.unread ∧
      next.pending.length + next.held.toNat + next.decoded.length ≤
        f.pending.length + block.length + f.held.toNat := by
  unfold decode at h
  split at h
  · cases h
  · next chars pending found =>
    have fewer := length_le_of_decode? found
    split at h
    · cases h
    · cases h
      refine ⟨rfl, ?_⟩
      have text := length_holdBack block.isEmpty (carry f.held chars)
      rw [length_carry] at text
      rw [List.length_append] at fewer
      dsimp only
      omega

theorem fetchSize_pos (wanted : Nat) (f : TextFile) : 0 < f.fetchSize wanted :=
  Nat.lt_of_lt_of_le (by decide) (Nat.le_max_left ..)

/-- A block leaves no more characters to hand out than there were, those decoded before apart. -/
theorem size_fetch {wanted : Nat} {f next : TextFile} (h : f.fetch wanted = .ok next) :
    next.size + f.decoded.length ≤ f.size := by
  obtain ⟨unread, fewer⟩ := size_decode h
  have whole := congrArg List.length (List.take_append_drop (f.fetchSize wanted) f.unread)
  rw [List.length_append] at whole
  simp only [size, unread]
  dsimp only at fewer
  omega

/-- How much there is to fetch. A byte counts twice, as a block may leave it over for the next
one. -/
def toFetch (f : TextFile) : Nat :=
  2 * f.unread.length + f.pending.length + f.held.toNat

/-- Fetching uses up the bytes of the file, and at its end what was left over and held back. -/
theorem toFetch_fetch_lt {wanted : Nat} {f next : TextFile} (h : f.fetch wanted = .ok next)
    (more : (f.unread.isEmpty && next.decoded.isEmpty) = false) : next.toFetch < f.toFetch := by
  obtain ⟨unread, fewer⟩ := size_decode h
  have positive := fetchSize_pos wanted f
  simp only [toFetch, unread, List.length_drop]
  cases rest : f.unread with
  | cons b bytes =>
      simp only [rest, List.length_take, List.length_cons] at fewer ⊢
      omega
  | nil =>
      have filled : next.decoded ≠ [] := by simpa [rest] using more
      have := List.length_pos_iff.mpr filled
      simp only [rest, List.take_nil, List.length_nil] at fewer ⊢
      omega

/-- Hand out so many characters, or those that are left if they are fewer. -/
def read (wanted : Nat) (f : TextFile) : Except Failure (List Char × TextFile) :=
  if wanted ≤ f.decoded.length then
    .ok (f.decoded.take wanted, { f with decoded := f.decoded.drop wanted })
  else
    match _h : f.fetch (wanted - f.decoded.length) with
    | .error failure => .error failure
    | .ok next =>
      if _more : f.unread.isEmpty && next.decoded.isEmpty then .ok (f.decoded, next)
      else
        (read (wanted - f.decoded.length) next).map fun found => (f.decoded ++ found.1, found.2)
  termination_by f.toFetch
  decreasing_by exact toFetch_fetch_lt _h (Bool.eq_false_iff.mpr _more)

/-- What is handed out can be handed out no more. -/
theorem size_read {wanted : Nat} {f next : TextFile} {chunk : List Char}
    (h : f.read wanted = .ok (chunk, next)) : chunk.length + next.size ≤ f.size := by
  fun_induction read wanted f generalizing chunk with
  | case1 wanted f enough =>
      cases h
      simp only [size, List.length_take, List.length_drop]
      omega
  | case2 wanted f short failure failed => cases h
  | case3 wanted f short next' fetched ended =>
      cases h
      have := size_fetch fetched
      omega
  | case4 wanted f short next' fetched more ih =>
      cases found : next'.read (wanted - f.decoded.length) with
      | error failure =>
          rw [found] at h
          cases h
      | ok result =>
          rw [found] at h
          cases h
          have behind := ih found
          have front := size_fetch fetched
          rw [List.length_append]
          omega

/-- The chunks that reads of so many characters hand out, and what the read behind them fails with
if it does not come to the end of the file. -/
def reads (wanted : Nat) (f : TextFile) : List (List Char) × Option Failure :=
  match _h : f.read wanted with
  | .error failure => ([], some failure)
  | .ok ([], _) => ([], none)
  | .ok (c :: chunk, next) =>
    let later := reads wanted next
    ((c :: chunk) :: later.1, later.2)
  termination_by f.size
  decreasing_by
    have := size_read _h
    rw [List.length_cons] at this
    omega

end TextFile

end Jack
