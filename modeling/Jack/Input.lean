import Jack.Files.TextFile
import Jack.Source

/-! # Inputs

What can be asked to be compiled: a source, or one that cannot be read to its end. A file
is such an input, whose chunks are read as they are wanted. Its bytes may turn out to be
those of no text behind chunks that were handed out.
-/

namespace Jack

/-- A source, and what comes of the read behind its last chunk. -/
structure Input where
  source : Source
  /-- What that read fails with, if it does not return nothing. -/
  failure : Option Failure
  deriving Repr

/-- A source that is read to its end. -/
instance : Coe Source Input := ⟨fun source => ⟨source, none⟩⟩

/-- A file that is read by so many characters. -/
def TextFile.input (size : Nat) (f : TextFile) : Input :=
  let (chunks, failure) := f.reads size
  ⟨.stream (chunks.map String.ofList), failure⟩

end Jack
