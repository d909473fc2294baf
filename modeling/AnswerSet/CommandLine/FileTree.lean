import AnswerSet.Error
import AnswerSet.Text.Split

/-!
# Trees of files

A directory holds entries by name: files and other directories. A path is walked
one name after the other. Empty names and single dots stay where they are, and
two dots go up again. A path goes on only from a directory, so a slash behind the
name of a file leads nowhere. Directories lie above the tree up to the root, but
nothing is known of what else they hold.

The programs under a directory are found by listing it from the top, a directory
before its entries and the entries by name. Each is reached again by its path, so
it is lost where the path grows too long.
-/

namespace AnswerSet.CommandLine

/-- A file with its bytes, or a directory with its entries. -/
inductive FileTree where
  | file (content : ByteArray)
  | directory (entries : List (String × FileTree))

/-! ## Paths -/

/-- The names of a path. -/
def pathNames (path : String) : List String :=
  (Text.splitAt '/' path.toList).map String.ofList

/-- The name of what a path leads to. Paths that end by going up or nowhere have none. -/
def baseName? (path : String) : Option String :=
  let names := (pathNames path).filter fun name => !name.isEmpty && name ≠ "."
  match names.getLast? with
  | some ".." => none
  | name => name

/-- The path of an entry of a directory. -/
def entryPath (path name : String) : String :=
  if path.toList.getLast? = some '/' then path ++ name else path ++ "/" ++ name

/-- What follows the last dot of a path's name. A dot that starts the name does not count. -/
def extension? (path : String) : Option String := do
  let name ← baseName? path
  let reversed := name.toList.reverse
  match reversed.dropWhile (· ≠ '.') with
  | '.' :: _ :: _ => return .ofList (reversed.takeWhile (· ≠ '.')).reverse
  | _ => none

/-- Is the path named like a program? -/
def isProgramPath (path : String) : Bool := extension? path = some "lp"

/-- The most bytes that a name in a directory has. -/
def nameLimit : Nat := 255

/-- The most bytes that a path has. -/
def pathLimit : Nat := 4095

/-- Has the path more bytes than a path can have? -/
def isTooLong (path : String) : Bool := pathLimit < path.utf8ByteSize

namespace FileTree

/-- A directory outside the tree: it is there, and no entry of it is known. -/
def outside : FileTree := .directory []

/-- Go from a directory to where names lead. The directories above come last one first. -/
def walk (above : List FileTree) (here : FileTree) : List String → Except SystemError FileTree
  | [] => .ok here
  | name :: names =>
    match here with
    | .file _ => .error .notDirectory
    | .directory entries =>
      if name.isEmpty || name = "." then walk above here names
      else if name = ".." then
        match above with
        | [] => walk [] outside names
        | parent :: above => walk above parent names
      else if nameLimit < name.utf8ByteSize then .error .nameTooLong
      else match entries.lookup name with
        | some entry => walk (here :: above) entry names
        | none => .error .notFound

/-- What a path leads to from a directory, or from the root if a slash starts it. -/
def find (tree : FileTree) (path : String) : Except SystemError FileTree :=
  if isTooLong path then .error .nameTooLong
  else match pathNames path with
    | [""] => .error .notFound
    | "" :: names => outside.walk [] names
    | names => tree.walk [] names

/-- Is it a directory? -/
def isDirectory : FileTree → Bool
  | .directory _ => true
  | .file _ => false

/-- The text of a file. -/
def text : FileTree → Except SystemError String
  | .directory _ => .error .isDirectory
  | .file content =>
    match String.fromUTF8? content with
    | some text => .ok text
    | none => .error .invalidUtf8

mutual

/-- A tree and everything in it, each with its path from the given one. -/
def listing (path : String) : FileTree → List (String × FileTree)
  | .file content => [(path, .file content)]
  | .directory entries =>
    let below := (entryListings path entries).mergeSort fun a b => a.1 ≤ b.1
    (path, .directory entries) :: below.flatMap (·.2)

/-- For each entry of a directory its name and its listing. -/
def entryListings (path : String) :
    List (String × FileTree) → List (String × List (String × FileTree))
  | [] => []
  | (name, entry) :: entries =>
    (name, entry.listing (entryPath path name)) :: entryListings path entries

end

/-- Everything named like a program in a tree, itself included, or the directory that cannot be
listed because of its long path. -/
def programs (path : String) (tree : FileTree) : Except String (List (String × FileTree)) :=
  let listing := tree.listing path
  match listing.find? fun (path, tree) => tree.isDirectory && isTooLong path with
  | some (path, _) => .error path
  | none => .ok (listing.filter fun (path, _) => isProgramPath path)

end FileTree

end AnswerSet.CommandLine
