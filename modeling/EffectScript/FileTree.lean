/-!
# Trees of files

A tree of files in memory, with the rules by which a path leads to a file: it is
followed part by part, and every part but the last has to be a directory.

A place in the tree is the list of names that leads to it from the working
directory. A place above the working directory begins with one `..` for every
level, and a place under the root of all directories begins with `/`. Nothing
else is known of what lies there but the directories that every system has.
-/

namespace EffectScript

/-- Why a file cannot be read or written. -/
inductive FileError where
  | missing
  | isDirectory
  | notDirectory
  | nameTooLong
  /-- The path holds the character that ends a path. -/
  | endedWithin
  | notText
  | other (cause : String)
deriving DecidableEq

/-- The wording of an error. -/
def FileError.message : FileError → String
  | .missing => "No such file or directory (os error 2)"
  | .isDirectory => "Is a directory (os error 21)"
  | .notDirectory => "Not a directory (os error 20)"
  | .nameTooLong => "File name too long (os error 36)"
  | .endedWithin => "file name contained an unexpected NUL byte"
  | .notText => "stream did not contain valid UTF-8"
  | .other cause => cause

/-- A tree of files, each by its place. A directory exists where a file lies
beneath it. -/
structure FileTree where
  files : List (List String × ByteArray)

/-- What a path leads to. -/
inductive FileNode where
  | file (content : ByteArray)
  | directory
  /-- A device that reads as an empty file and forgets what is written to it. -/
  | emptyDevice

namespace FileTree

/-! ## Places -/

/-- The directory that holds all others. -/
def root : List String := ["/"]

/-- Whether a place is the working directory or one of those above it. -/
def isAbove (place : List String) : Bool :=
  place.all fun part => part = ".."

/-- The directory above a place; the root is above itself. -/
def parent (place : List String) : List String :=
  if place = root then root
  else if isAbove place then place ++ [".."]
  else place.dropLast

/-- The place that a part of a path stands for in a directory. -/
def enter (directory : List String) (part : String) : List String :=
  if part = "" || part = "." then directory
  else if part = ".." then parent directory
  else directory ++ [part]

/-- The names in the root of the directories that every system has. -/
def systemDirectories : List String :=
  ["bin", "dev", "etc", "home", "lib", "proc", "sys", "tmp", "usr", "var"]

/-- Whether a place is a directory whatever the tree holds. -/
def isSystemDirectory (place : List String) : Bool :=
  place = root || isAbove place || systemDirectories.any fun name =>
    place = root ++ [name]

/-- What lies at a place. -/
def node? (tree : FileTree) (place : List String) : Option FileNode :=
  match tree.files.lookup place with
  | some content => some (.file content)
  | none =>
      if place = root ++ ["dev", "null"] then some .emptyDevice
      else if isSystemDirectory place || tree.files.any fun entry =>
        place.isPrefixOf entry.1 then
        some .directory
      else none

/-! ## Paths -/

/-- How many bytes a path may have. -/
def pathLimit : Nat := 4095

/-- How many bytes a part of a path may have. -/
def nameLimit : Nat := 255

/-- The parts of a path, unless no system would look for it. -/
def partsOf (path : String) : Except FileError (List String) :=
  if path.toList.any fun character => character.toNat = 0 then
    .error .endedWithin
  else if pathLimit < path.utf8ByteSize then .error .nameTooLong
  else if path = "" then .error .missing
  else .ok (path.splitOn "/")

/-- Where the parts of a path begin: at the root after a slash, else in the
working directory. -/
def startOf (parts : List String) : List String :=
  if parts.head? = some "" then root else []

/-- Follows the parts of a path from a place. Each of them is looked up in a
directory; what the last one stands for need not exist. -/
def follow (tree : FileTree) (place : List String) :
    List String → Except FileError (List String)
  | [] => .ok place
  | part :: rest =>
      match tree.node? place with
      | some .directory =>
          if nameLimit < part.utf8ByteSize then .error .nameTooLong
          else tree.follow (enter place part) rest
      | some _ => .error .notDirectory
      | none => .error .missing

/-- The place that a path leads to. -/
def resolve (tree : FileTree) (path : String) :
    Except FileError (List String) := do
  let parts ← partsOf path
  tree.follow (startOf parts) parts

/-! ## Reading and writing -/

/-- The text of the file at a path. -/
def readText (tree : FileTree) (path : String) : Except FileError String := do
  match tree.node? (← tree.resolve path) with
  | some (.file content) =>
      match String.fromUTF8? content with
      | some text => .ok text
      | none => .error .notText
  | some .emptyDevice => .ok ""
  | some .directory => .error .isDirectory
  | none => .error .missing

/-- Whether a path leads to a file. -/
def isFile (tree : FileTree) (path : String) : Bool :=
  match tree.resolve path with
  | .error _ => false
  | .ok place =>
      match tree.node? place with
      | some (.file _) => true
      | _ => false

/-- The tree with a file at a place. -/
def insert (tree : FileTree) (place : List String) (content : ByteArray) :
    FileTree :=
  ⟨(place, content) :: tree.files.filter fun entry => entry.1 ≠ place⟩

/-- A file that was put into a tree lies at its place. -/
@[simp]
theorem node?_insert_self
    (tree : FileTree) (place : List String) (content : ByteArray) :
    (tree.insert place content).node? place = some (.file content) := by
  simp [node?, insert]

/-- The place where a path asks for a file to be written. A path that ends in a
slash asks for a directory, whatever the name before the slash stands for. -/
def resolveWritten (tree : FileTree) (path : String) :
    Except FileError (List String) := do
  let parts ← partsOf path
  if parts.getLast? = some "" then
    let named := (parts.reverse.dropWhile fun part => part = "").reverse
    let _ ← tree.follow (startOf parts) (named.dropLast ++ [""])
    .error .isDirectory
  else tree.follow (startOf parts) parts

/-- The tree with a text in the file at a path; its directory has to exist. -/
def writeText (tree : FileTree) (path text : String) :
    Except FileError FileTree := do
  let place ← tree.resolveWritten path
  match tree.node? place with
  | some .directory => .error .isDirectory
  | some .emptyDevice => .ok tree
  | _ => .ok (tree.insert place text.toUTF8)

/-- The tree of the given files, each by its path. -/
def ofFiles (files : List (String × ByteArray)) : FileTree :=
  files.foldl (fun tree file =>
    let parts := file.1.splitOn "/"
    tree.insert (parts.foldl enter (startOf parts)) file.2) ⟨[]⟩

end FileTree

end EffectScript
