/-
Files, as the commands see them.

The commands ask three questions: whether a path is a directory, what the text of
a file is, and which files lie below a directory. A `Disk` is a set of answers. It
can be taken from a file system beforehand, or from a `FileTree`, which is a
directory held in memory.
-/

set_option autoImplicit false

namespace PriceTaint

/-- Why a file cannot be read. -/
inductive ReadError where
  | notFound
  | notDirectory
  | isDirectory
  | nameTooLong
  | notText
deriving DecidableEq, Repr

/-- The message of a read error. -/
def ReadError.message : ReadError → String
  | .notFound => "No such file or directory (os error 2)"
  | .notDirectory => "Not a directory (os error 20)"
  | .isDirectory => "Is a directory (os error 21)"
  | .nameTooLong => "File name too long (os error 36)"
  | .notText => "stream did not contain valid UTF-8"

/-- A directory that cannot be listed. -/
structure WalkError where
  directory : String
  cause : ReadError
deriving DecidableEq, Repr

/-- The message of a walk error. -/
def WalkError.message (e : WalkError) : String :=
  "IO error for operation on " ++ e.directory ++ ": " ++ e.cause.message

/-- Answers about files. -/
structure Disk where
  isDirectory : String → Bool
  read : String → Except ReadError String
  /-- The files below a directory, each as the given path with what leads to the
  file from there. -/
  walk : String → Except WalkError (List String)

/-! ## Paths -/

namespace Path

/-- The part of a path after its last slash, in reverse. -/
def nameReversed (path : String) : List Char := path.toList.reverse.takeWhile (· != '/')

/-- Is the extension of the file `json`? The extension is what follows the last dot
of the name, and a dot in the first place starts none. -/
def isJson (path : String) : Bool :=
  match nameReversed path with
  | 'n' :: 'o' :: 's' :: 'j' :: '.' :: stem => !stem.isEmpty
  | _ => false

/-- A path inside a directory. -/
def join (directory name : String) : String :=
  if directory.toList.getLast? = some '/' then directory ++ name else directory ++ "/" ++ name

/-- Splits at slashes. -/
def split : List Char → List (List Char)
  | [] => [[]]
  | '/' :: cs => [] :: split cs
  | c :: cs =>
    match split cs with
    | [] => [[c]]
    | part :: parts => (c :: part) :: parts

/-- The parts of a path between its slashes. -/
def parts (path : String) : List String := (split path.toList).map String.ofList

/-- The most bytes that a name between slashes can have. -/
def maxName : Nat := 255

/-- The most bytes that a path can have. -/
def maxPath : Nat := 4095

/-- Is the path short enough to be looked up? -/
def fits (path : String) : Bool := decide (path.utf8ByteSize ≤ maxPath)

end Path

/-! ## Trees of files -/

/-- A file, or a directory with its entries in the order of their names. -/
inductive FileTree where
  | file (bytes : ByteArray)
  | directory (entries : List (String × FileTree))

namespace FileTree

/-- The directory without entries. -/
def empty : FileTree := .directory []

/-- The entries of a directory; a file has none. -/
def entries : FileTree → List (String × FileTree)
  | .directory entries => entries
  | .file _ => []

def isDirectory : FileTree → Bool
  | .directory _ => true
  | .file _ => false

/-- Puts an entry in place of one with the same name, or else where its name comes
in order. -/
def putEntry (name : String) (t : FileTree) : List (String × FileTree) → List (String × FileTree)
  | [] => [(name, t)]
  | e :: es =>
    if e.1 = name then (name, t) :: es
    else if name < e.1 then (name, t) :: e :: es
    else e :: putEntry name t es

/-- Puts a file or directory at a path, and makes the directories on the way. A
directory that is there already stays as it is. -/
def put (content : FileTree) : List String → FileTree → FileTree
  | [], old => if old.isDirectory && content.isDirectory then old else content
  | name :: rest, old =>
    if name = "" || name = "." then put content rest old
    else
      let below := (old.entries.lookup name).getD empty
      .directory (putEntry name (put content rest below) old.entries)

/-- The tree of a list of paths with their contents. -/
def ofList (files : List (String × FileTree)) : FileTree :=
  files.foldl (fun t f => put f.2 (Path.parts f.1) t) empty

/-- Follows the parts of a path from a directory. `above` are the directories
around it, the innermost first; around those there are only empty ones. -/
def follow (above : List FileTree) (t : FileTree) : List String → Except ReadError FileTree
  | [] => .ok t
  | name :: rest =>
    if !t.isDirectory then .error .notDirectory
    else if name = "" || name = "." then follow above t rest
    else if name = ".." then
      match above with
      | [] => follow [] empty rest
      | outer :: above => follow above outer rest
    else if Path.maxName < name.utf8ByteSize then .error .nameTooLong
    else match t.entries.lookup name with
      | none => .error .notFound
      | some below => follow (t :: above) below rest

/-- What is found at a path. Outside the tree, where a path with a slash in front
starts, there are no files. -/
def find (t : FileTree) (path : String) : Except ReadError FileTree :=
  if !Path.fits path then .error .nameTooLong
  else match path.toList with
    | [] => .error .notFound
    | '/' :: _ => follow [] empty (Path.parts path)
    | _ => follow [] t (Path.parts path)

/-- The text of a file. -/
def text : FileTree → Except ReadError String
  | .directory _ => .error .isDirectory
  | .file bytes => match String.fromUTF8? bytes with
    | some s => .ok s
    | none => .error .notText

mutual
/-- The files below a tree that is shown as the given path. A file whose path is too
long is passed over; the first directory whose path is too long ends the walk. -/
def filesBelow (path : String) : FileTree → Except WalkError (List String)
  | .file _ => .ok (if Path.fits path then [path] else [])
  | .directory entries =>
    if Path.fits path then filesAmong path entries else .error ⟨path, .nameTooLong⟩

/-- The files among the entries of a directory. -/
def filesAmong (path : String) : List (String × FileTree) → Except WalkError (List String)
  | [] => .ok []
  | e :: es => do return (← filesBelow (Path.join path e.1) e.2) ++ (← filesAmong path es)
end

/-- The answers of a tree as a disk. -/
def disk (t : FileTree) : Disk where
  isDirectory path := match t.find path with
    | .ok found => found.isDirectory
    | .error _ => false
  read path := do (← t.find path).text
  walk path := match t.find path with
    | .ok found => filesBelow path found
    | .error e => .error ⟨path, e⟩

end FileTree

end PriceTaint
