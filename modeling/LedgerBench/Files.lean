import LedgerBench.Text.Bytes
/-!
A tree of files as its readers see it.

A path starts from the root if it begins with a slash, and else from the directory that its reader
works in. `.` stays where it is, `..` goes up, where the root is above itself, and each name on the
way must be a directory. Around the files of a tree stands what every system has. Reading fails with
one of the causes of `ReadError`.
-/

namespace LedgerBench

inductive ReadError where
  | notFound
  | notADirectory
  | isADirectory
  | nameTooLong
  | nulInPath
  | notText
  deriving DecidableEq, Repr

def ReadError.message : ReadError → String
  | .notFound => "No such file or directory (os error 2)"
  | .notADirectory => "Not a directory (os error 20)"
  | .isADirectory => "Is a directory (os error 21)"
  | .nameTooLong => "File name too long (os error 36)"
  | .nulInPath => "file name contained an unexpected NUL byte"
  | .notText => "stream did not contain valid UTF-8"

inductive FileEntry where
  | file (content : Bytes)
  | directory
  deriving DecidableEq, Repr

/-- A tree of files: what stands at each path, a path being its names from the root. Every directory
is listed. -/
abbrev FileTree := List (List String × FileEntry)

namespace FileTree

/-- The names between the slashes of a path. -/
def components (path : String) : List String :=
  let last := path.toList.foldr (fun c pieces => match c, pieces with
    | '/', pieces => [] :: pieces
    | c, piece :: pieces => (c :: piece) :: pieces
    | c, [] => [[c]]) [[]]
  last.map String.ofList

def entry? (tree : FileTree) (place : List String) : Option FileEntry :=
  if place = [] then some .directory else tree.lookup place

/-- The directory that a reader works in. Nobody knows its name, so it is the empty one, to which no
path leads. -/
def home : List String := ["tmp", ""]

/-- The names of the directories that stand at the root of every system. -/
def rootDirectories : List String :=
  ["bin", "boot", "dev", "etc", "home", "lib", "media", "mnt", "opt", "proc", "root", "run", "sbin",
    "srv", "sys", "tmp", "usr", "var"]

/-- What every system has: the directories at its root, the one that a reader works in, and a file
that stays empty. -/
def system : FileTree :=
  (home, .directory) :: (["dev", "null"], .file []) :: rootDirectories.map fun name =>
    ([name], .directory)

/-- The longest name of one component, in bytes. -/
def maxNameBytes : Nat := 255

/-- The longest path, in bytes. -/
def maxPathBytes : Nat := 4095

/-- Follows the components of a path from a directory: to an empty name, `.`, `..` or a listed
entry. -/
def follow (tree : FileTree) (place : List String) : List String → Except ReadError (List String)
  | [] => .ok place
  | name :: rest =>
    match tree.entry? place with
    | none => .error .notFound
    | some (.file _) => .error .notADirectory
    | some .directory =>
      if name = "" ∨ name = "." then follow tree place rest
      else if name = ".." then follow tree place.dropLast rest
      else if maxNameBytes < name.utf8ByteSize then .error .nameTooLong
      else if (tree.entry? (place ++ [name])).isSome then follow tree (place ++ [name]) rest
      else .error .notFound

def readBytes (tree : FileTree) (path : String) : Except ReadError Bytes :=
  if path.toList.contains '\x00' then .error .nulInPath
  else if path = "" then .error .notFound
  else if maxPathBytes < path.utf8ByteSize then .error .nameTooLong
  else
    match tree.follow (if path.toList.head? = some '/' then [] else home) (components path) with
    | .error e => .error e
    | .ok place =>
      match tree.entry? place with
      | some (.file content) => .ok content
      | _ => .error .isADirectory

def readText (tree : FileTree) (path : String) : Except ReadError (List Char) :=
  match tree.readBytes path with
  | .error e => .error e
  | .ok bytes =>
    match bytes.decode? with
    | some text => .ok text
    | none => .error .notText

/-- The paths of the directories that a path lies in. -/
def parents (place : List String) : List (List String) :=
  ((List.range place.length).map place.take).filter (· ≠ [])

/-- The tree with one more entry at a path from the directory that its reader works in, and the
directories it lies in. -/
def insert (tree : FileTree) (path : String) (entry : FileEntry) : FileTree :=
  let place := home ++ (components path).filter fun name => name ≠ "" ∧ name ≠ "."
  (place, entry) :: (parents place).map (fun dir => (dir, FileEntry.directory)) ++ tree

/-- A system with some more entries. -/
def ofList (entries : List (String × FileEntry)) : FileTree :=
  entries.foldl (fun tree (path, entry) => tree.insert path entry) system

end FileTree

end LedgerBench
