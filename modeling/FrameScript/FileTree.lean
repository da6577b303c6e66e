/-!
# Reading files

Why a file cannot be read as a text, and trees of texts that are read by their paths. A path is
followed part by part through directories, as a system with one root does it.
-/

namespace FrameScript

/-- Why a file cannot be read as a text. -/
inductive ReadFailure where
  | missing
  | notDirectory
  | isDirectory
  | nameTooLong
  /-- A path holds a character that no path may hold. -/
  | nameWithNul
  | notText
  /-- A failure in the words of the system. -/
  | other (text : String)
  deriving DecidableEq, Repr

/-- The wording of a failure. -/
def ReadFailure.message : ReadFailure → String
  | .missing => "No such file or directory (os error 2)"
  | .notDirectory => "Not a directory (os error 20)"
  | .isDirectory => "Is a directory (os error 21)"
  | .nameTooLong => "File name too long (os error 36)"
  | .nameWithNul => "file name contained an unexpected NUL byte"
  | .notText => "stream did not contain valid UTF-8"
  | .other text => text

/-- A place in the system: names below a directory some steps above the working directory, or names
below the root. -/
inductive Place where
  | relative (above : Nat) (names : List String)
  | absolute (names : List String)
  deriving DecidableEq, Repr

namespace Place

/-- Where a path begins: at the root if it starts with a slash, else at the working directory. -/
def start (path : String) : Place :=
  if path.startsWith "/" then .absolute [] else .relative 0 []

/-- The names of a place below where it is counted from. -/
def names : Place → List String
  | .relative _ names => names
  | .absolute names => names

/-- The directory around a place. The root is around itself. -/
def parent : Place → Place
  | .relative above [] => .relative (above + 1) []
  | .relative above names => .relative above names.dropLast
  | .absolute names => .absolute names.dropLast

/-- The place of a name in a directory. -/
def child : Place → String → Place
  | .relative above names, name => .relative above (names ++ [name])
  | .absolute names, name => .absolute (names ++ [name])

/-- One part of a path. An empty part and a dot stay where they are, and two dots go up. -/
def step (place : Place) (part : String) : Place :=
  if part = "" ∨ part = "." then place
  else if part = ".." then place.parent
  else place.child part

end Place

/-- What stands at places: files with their texts, and directories. The latest entry of a place
counts. -/
structure FileTree where
  entries : List (Place × Option String)

namespace FileTree

/-- What stands at a place. -/
inductive Node where
  | file (text : String)
  | directory
  | nothing
  deriving DecidableEq, Repr

/-- What stands at a place. The root, the working directory and all above it are directories. -/
def node (tree : FileTree) (place : Place) : Node :=
  match tree.entries.lookup place with
  | some (some text) => .file text
  | some none => .directory
  | none => if place.names.isEmpty then .directory else .nothing

/-- The names of the directories that a system has in its root. -/
def rootNames : List String :=
  ["bin", "boot", "dev", "etc", "home", "lib", "media", "mnt", "opt", "proc", "root", "run", "sbin",
   "srv", "sys", "tmp", "usr", "var"]

/-- A system without files of its own: the directories of the root and the device that is always
empty. -/
def bare : FileTree where
  entries := (.absolute ["dev", "null"], some "") ::
    rootNames.map fun name => (.absolute [name], none)

/-- Puts a text at the end of a path and directories at the places on the way. -/
def writeFrom (tree : FileTree) (place : Place) (text : String) : List String → FileTree
  | [] => ⟨(place, some text) :: tree.entries⟩
  | part :: rest => writeFrom ⟨(place, none) :: tree.entries⟩ (place.step part) text rest

/-- Puts a text at a path. -/
def write (tree : FileTree) (path text : String) : FileTree :=
  tree.writeFrom (.start path) text (path.splitOn "/")

/-- A system that holds texts at their paths. -/
def ofFiles (files : List (String × String)) : FileTree :=
  files.foldl (fun tree (path, text) => tree.write path text) bare

/-- The most bytes that a name may have. -/
def nameLimit : Nat := 255

/-- The most bytes that a path may have. -/
def pathLimit : Nat := 4095

/-- Follows the parts of a path from a place. Only a directory can be passed. -/
def walk (tree : FileTree) : Place → List String → Except ReadFailure Place
  | place, [] => .ok place
  | place, part :: rest =>
    match tree.node place with
    | .file _ => .error .notDirectory
    | .nothing => .error .missing
    | .directory =>
      if nameLimit < part.utf8ByteSize then .error .nameTooLong
      else tree.walk (place.step part) rest

/-- The text at a path. -/
def read (tree : FileTree) (path : String) : Except ReadFailure String :=
  if path.toList.contains (Char.ofNat 0) then .error .nameWithNul
  else if path.isEmpty then .error .missing
  else if pathLimit < path.utf8ByteSize then .error .nameTooLong
  else do
    let place ← tree.walk (.start path) (path.splitOn "/")
    match tree.node place with
    | .file text => .ok text
    | .directory => .error .isDirectory
    | .nothing => .error .missing

end FileTree

end FrameScript
