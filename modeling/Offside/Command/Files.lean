/-
Files as a command sees them: what can be asked of the machine that holds them, why reading one
may fail, and a directory that is held in memory.
-/
namespace Offside

/-- Why a file cannot be read. -/
inductive FileError where
  | notFound
  | denied
  | notDirectory
  | isDirectory
  | nameTooLong
  | notText
  /-- Any other trouble, by the number and the words that the machine has for it. -/
  | other (code : Nat) (words : String)
  deriving Repr, DecidableEq

namespace FileError

/-- The words of the machine with its number for the error. -/
def numbered (words : String) (code : Nat) : String :=
  words ++ " (os error " ++ toString code ++ ")"

def message : FileError → String
  | notFound => numbered "No such file or directory" 2
  | denied => numbered "Permission denied" 13
  | notDirectory => numbered "Not a directory" 20
  | isDirectory => numbered "Is a directory" 21
  | nameTooLong => numbered "File name too long" 36
  | notText => "stream did not contain valid UTF-8"
  | other code words => numbered words code

end FileError

/-- What a command can ask of the machine it runs on. -/
structure Machine (m : Type → Type) where
  /-- The value of an environment variable. -/
  environment? : String → m (Option String)
  /-- Whether there is a file or directory under a path. -/
  holds : String → m Bool
  /-- The bytes of the file under a path. -/
  bytes : String → m (Except FileError ByteArray)

/-- The text of bytes. -/
def decodeText (bytes : ByteArray) : Except FileError String :=
  match String.fromUTF8? bytes with
  | some text => .ok text
  | none => .error .notText

/-- The text of a file. -/
def Machine.read {m : Type → Type} [Monad m] (machine : Machine m) (path : String) :
    m (Except FileError String) := do
  let found ← machine.bytes path
  pure (found.bind decodeText)

/-- A file or a directory by its path. -/
def joinPath (directory name : String) : String :=
  if directory.isEmpty then name
  else if directory.toList.getLast? = some '/' then directory ++ name
  else directory ++ "/" ++ name

/-- Files under relative paths, with all directories that the paths name. -/
structure Directory where
  files : List (String × ByteArray)

namespace Directory

/-- What a path leads to. -/
inductive Place where
  | file (content : ByteArray)
  | directory

/-- The pieces of a path between its slashes; a slash at the end asks for a directory. -/
def pieces (path : String) : List String :=
  let all := path.splitOn "/"
  let named := all.filter fun piece => !piece.isEmpty
  if all.getLast? = some "" then named ++ ["."] else named

/-- Bytes that a name may have. -/
def nameLimit : Nat := 255

/-- Bytes that a path may have. -/
def pathLimit : Nat := 4095

/-- The names that lead to a place of this directory, after one piece more. -/
def step (names : List String) (piece : String) : List String :=
  if piece = "." then names
  else if piece = ".." then names.dropLast
  else names ++ [piece]

/-- The place where pieces end. -/
def goal (path : String) : List String := (pieces path).foldl step []

/-- All places that pieces lead through, the first and the last one included. -/
def stations : List String → List String → List (List String)
  | names, [] => [names]
  | names, piece :: rest => names :: stations (step names piece) rest

/-- Whether a path leads through a place. -/
def passes (path : String) (names : List String) : Bool :=
  (stations [] (pieces path)).contains names

/-- What names lead to in this directory: the file written last there, if any. Every place on the
way to a file is a directory, also one that the path leaves again. -/
def placeOf (directory : Directory) (names : List String) : Option Place :=
  match (directory.files.filter fun file => goal file.1 == names).getLast? with
  | some file => some (.file file.2)
  | none =>
    if names.isEmpty || directory.files.any (fun file => passes file.1 names) then some .directory
    else none

/-- Where a walk along a path has come to. -/
inductive Spot where
  /-- The place of these names in the directory. -/
  | inside (names : List String)
  /-- One of the directories that hold the directory, of which nothing else is known. -/
  | outside

/-- Follow the pieces of a path from a spot, piece by piece. -/
def follow (directory : Directory) : Spot → List String → Except FileError Place
  | .outside, [] => .ok .directory
  | .outside, piece :: rest =>
    if piece = "." ∨ piece = ".." then follow directory .outside rest
    else if nameLimit < piece.utf8ByteSize then .error .nameTooLong
    else .error .notFound
  | .inside names, [] =>
    match directory.placeOf names with
    | some place => .ok place
    | none => .error .notFound
  | .inside names, piece :: rest =>
    match directory.placeOf names with
    | none => .error .notFound
    | some (.file _) => .error .notDirectory
    | some .directory =>
      if piece = ".." ∧ names.isEmpty then follow directory .outside rest
      else if nameLimit < piece.utf8ByteSize then .error .nameTooLong
      else follow directory (.inside (step names piece)) rest

/-- Find a path. One that starts with a slash starts outside of this directory. -/
def find (directory : Directory) (path : String) : Except FileError Place :=
  if path.isEmpty then .error .notFound
  else if pathLimit < path.utf8ByteSize then .error .nameTooLong
  else if path.toList.head? = some '/' then directory.follow .outside (pieces path)
  else directory.follow (.inside []) (pieces path)

/-- A machine with nothing but this directory and some environment variables. -/
def machine (directory : Directory) (environment : List (String × String)) : Machine Id where
  environment? name := environment.lookup name
  holds path := match directory.find path with
    | .ok _ => true
    | .error _ => false
  bytes path := match directory.find path with
    | .ok (.file content) => .ok content
    | .ok .directory => .error .isDirectory
    | .error error => .error error

end Directory

end Offside
