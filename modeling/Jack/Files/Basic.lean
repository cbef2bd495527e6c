import Jack.Files.Path
import Jack.Files.TextFile

/-! # Files

The files below one root, each with its bytes. A directory is there if it was made, if the
working directory is in it or below it, or if a file is below it. Paths that start with a
slash lead on from the root, and all others from the working directory. Reading and
writing follow a path component by component, so a path may pass through a directory
and back out of it, but not through a file. There are no links; what a host does not allow,
be it a name too long or a file that may not be opened, is left out.
-/

namespace Jack

/-- Files and directories, by the components that lead to them from the root. -/
structure Files where
  /-- Where paths that do not start with a slash lead on from. -/
  working : List Component
  /-- The directories that were made. -/
  directories : List (List Component)
  entries : List (List Component × ByteArray)

/-- What a path leads to. -/
inductive Place where
  | file (key : List Component) (bytes : ByteArray)
  | directory
  /-- Nothing yet, in a directory that is there. -/
  | missing (key : List Component)

namespace Files

/-- A working directory with no files. -/
def empty : Files := ⟨[['w', 'o', 'r', 'k']], [], []⟩

/-- The bytes of the file at a key. -/
def bytes? (fs : Files) (key : List Component) : Option ByteArray :=
  fs.entries.lookup key

/-- Whether a key leads to a directory. Above what is there all is directories. -/
def hasDirectory (fs : Files) (key : List Component) : Bool :=
  (fs.working :: fs.directories).any (key.isPrefixOf ·) ||
    fs.entries.any fun entry => key.isPrefixOf entry.1 && key != entry.1

/-- Put a file at a key, in place of the one that was there. -/
def put (fs : Files) (key : List Component) (bytes : ByteArray) : Files :=
  { fs with entries := (key, bytes) :: fs.entries.filter (·.1 != key) }

/-- Where the components of a path lead from a directory. -/
def follow (fs : Files) (here : List Component) : List Component → Except Failure Place
  | [] => .ok .directory
  | part :: rest =>
    if Path.isStay part then follow fs here rest
    else if part == ['.', '.'] then follow fs here.dropLast rest
    else
      let key := here ++ [part]
      if fs.hasDirectory key then follow fs key rest
      else
        match fs.bytes? key with
        | some bytes => if rest.isEmpty then .ok (.file key bytes) else .error .notDirectory
        | none => if rest.isEmpty then .ok (.missing key) else .error .fileNotFound

/-- The directory that a path leads on from. -/
def start (fs : Files) (path : List Char) : List Component :=
  if path.head? == some '/' then [] else fs.working

/-- Where a path leads. The empty path leads nowhere. -/
def locate (fs : Files) (path : String) : Except Failure Place :=
  match path.toList with
  | [] => .error .fileNotFound
  | text => fs.follow (fs.start text) (Path.cut text)

/-- The bytes of the file at a path. -/
def read (fs : Files) (path : String) : Except Failure ByteArray := do
  match ← fs.locate path with
  | .file _ bytes => return bytes
  | .directory => throw .isDirectory
  | .missing _ => throw .fileNotFound

/-- The file at a path, to be read as text. -/
def openText (fs : Files) (path : String) : Except Failure TextFile :=
  (fs.read path).map fun bytes => .ofBytes bytes.data.toList

/-- The text of the file at a path, with its line ends as they are. -/
def readText (fs : Files) (path : String) : Except Failure String := do
  match String.fromUTF8? (← fs.read path) with
  | some text => return text
  | none => throw .notText

/-- The text of the file at a path, with every line end as one line feed. -/
def readUnified (fs : Files) (path : String) : Except Failure String :=
  (fs.readText path).map fun text => String.ofList (unifyNewlines text.toList)

/-- Write a text as the file at a path. -/
def write (fs : Files) (path text : String) : Except Failure Files := do
  match ← fs.locate path with
  | .file key _ | .missing key => return fs.put key text.toUTF8
  | .directory => throw .isDirectory

/-- The paths of all files in the working directory and below it, in order. -/
def paths (fs : Files) : List String :=
  let below := (fs.entries.map Prod.fst).filter (fs.working.isPrefixOf ·)
  (below.map fun key =>
    String.ofList (Path.join (key.drop fs.working.length))).mergeSort (· ≤ ·)

/-- A working directory with the given paths and bytes in it, and the directories above them. -/
def ofList (files : List (String × ByteArray)) : Files :=
  files.foldl (fun fs file => fs.put (fs.working ++ (Path.ofText file.1).parts) file.2) empty

end Files

end Jack
