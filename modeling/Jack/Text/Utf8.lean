/-! # Characters from bytes

Bytes are read as UTF-8, also when they come in pieces. Where a piece ends within a
character, the bytes of that character are left over for the next piece.
-/

namespace Jack

/-- The character that bytes start with, and the bytes behind it. -/
def splitChar? (bytes : List UInt8) : Option (Char × List UInt8) :=
  ((bytes.take 4).toByteArray.utf8DecodeChar? 0).map fun c => (c, bytes.drop c.utf8Size)

/-- Whether a byte can stand in a character behind its first byte. -/
def isContinuation (b : UInt8) : Bool :=
  0x80 ≤ b && b ≤ 0xBF

/-- Whether a byte can be the second one of a character with the given first one. The bytes of a
surrogate are not told apart here; they make no character when they are complete. -/
def isSecond (first b : UInt8) : Bool :=
  isContinuation b && (first != 0xE0 || 0xA0 ≤ b) && (first != 0xF0 || 0x90 ≤ b) &&
    (first != 0xF4 || b ≤ 0x8F)

/-- Whether bytes are a front of a character that is not complete, or none at all. -/
def isFront : List UInt8 → Bool
  | [] => true
  | [a] => 0xC2 ≤ a && a ≤ 0xF4
  | [a, b] => 0xE0 ≤ a && a ≤ 0xF4 && isSecond a b
  | [a, b, c] => 0xF0 ≤ a && a ≤ 0xF4 && isSecond a b && isContinuation c
  | _ => false

theorem splitChar?_eq_some {bytes rest : List UInt8} {c : Char}
    (h : splitChar? bytes = some (c, rest)) : bytes = String.utf8EncodeChar c ++ rest := by
  obtain ⟨d, found, same⟩ := Option.map_eq_some_iff.mp h
  cases same
  obtain ⟨l, whole⟩ := ByteArray.exists_of_utf8DecodeChar?_eq_some found
  have front : bytes.take 4 = String.utf8EncodeChar c ++ l.data.toList := by
    have listed := congrArg (fun b : ByteArray => b.data.toList) whole
    simpa using listed
  have size : (String.utf8EncodeChar c).length = c.utf8Size := String.length_utf8EncodeChar c
  rw [← List.take_append_drop 4 bytes, front, List.append_assoc, ← size, List.drop_left]

theorem length_lt_of_splitChar? {bytes rest : List UInt8} {c : Char}
    (h : splitChar? bytes = some (c, rest)) : rest.length < bytes.length := by
  rw [splitChar?_eq_some h, List.length_append]
  have := List.length_pos_iff.mpr (String.utf8EncodeChar_ne_nil (c := c))
  omega

/-- The characters of bytes, and the bytes of the last one if it is not complete. There is no
result if the bytes are those of no text. -/
def decode? (bytes : List UInt8) : Option (List Char × List UInt8) :=
  match _h : splitChar? bytes with
  | some (c, rest) => (decode? rest).map fun found => (c :: found.1, found.2)
  | none => if isFront bytes then some ([], bytes) else none
  termination_by bytes.length
  decreasing_by exact length_lt_of_splitChar? _h

/-- Every character takes a byte. -/
theorem length_le_of_decode? {bytes left : List UInt8} {chars : List Char}
    (h : decode? bytes = some (chars, left)) : chars.length + left.length ≤ bytes.length := by
  fun_induction decode? bytes generalizing chars with
  | case1 bytes c rest found ih =>
      obtain ⟨⟨later, left'⟩, found', same⟩ := Option.map_eq_some_iff.mp h
      obtain ⟨rfl, rfl⟩ := Prod.mk.inj same
      have shorter := length_lt_of_splitChar? found
      have behind : later.length + left'.length ≤ rest.length := ih found'
      simp only [List.length_cons]
      omega
  | case2 bytes found front =>
      cases h
      simp
  | case3 bytes found other => cases h

end Jack
