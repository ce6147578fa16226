import ByteMachine.Loader

/-!
# File trees

A working directory held in memory, and what reading a path in it gives. A path is followed name by
name: an empty name and `.` stay where they are, `..` goes up, and every name, even one that stays,
asks for a directory to be looked up in. Outside the working directory nothing is known but that it
is a directory.

A session does not know of file trees. It is given what reading its path gave, and every statement
about sessions is about all that this can be. A file tree only stands for the operating system where a
session is to be run on given files; no statement is about it.
-/

namespace ByteMachine

/-- What stands at a place of the tree. -/
inductive FileTree.Node where
  | file (bytes : ByteArray)
  | directory

/-- A working directory: the places in it, each by the names that lead there. The first of two
entries for one place counts. -/
structure FileTree where
  places : List (List String × FileTree.Node)

namespace FileTree

/-- Where following a path has led. -/
inductive Position where
  /-- Above the working directory. -/
  | outside
  | inside (names : List String)

/-- An empty working directory. -/
def empty : FileTree := ⟨[]⟩

/-- What stands at a place; the working directory itself is there without an entry. -/
def node? (t : FileTree) (names : List String) : Option Node :=
  if names = [] then some .directory
  else (t.places.find? (·.1 == names)).map (·.2)

/-- The names of a path between its slashes, some of which may be empty. -/
def names (path : String) : List String :=
  (path.toList.foldr
    (fun c pieces =>
      match c, pieces with
      | '/', pieces => [] :: pieces
      | c, [] => [[c]]
      | c, piece :: rest => (c :: piece) :: rest)
    [[]]).map String.ofList

/-- The tree with one more file or directory, and the directories on the way to it. -/
def insert (t : FileTree) (path : String) (node : Node) : FileTree :=
  let place := (names path).filter fun name => name != "" && name != "."
  let above := (List.range place.length).map fun k => (place.take k, Node.directory)
  ⟨(place, node) :: t.places ++ above⟩

/-- The longest name a directory can hold, in bytes. -/
def maxName : Nat := 255

/-- The longest path that is looked at, in bytes. -/
def maxPath : Nat := 4095

/-- Why a path cannot be read. -/
inductive Obstacle where
  | missing
  | notDirectory
  | isDirectory
  | nameTooLong
  | nulByte

/-- What reading reports about an obstacle. -/
def Obstacle.report : Obstacle → ReadResult
  | missing => .missing
  | notDirectory => .failed "Not a directory (os error 20)"
  | isDirectory => .failed "Is a directory (os error 21)"
  | nameTooLong => .failed "File name too long (os error 36)"
  | nulByte => .failed "file name contained an unexpected NUL byte"

/-- What stands at a position. -/
def look (t : FileTree) : Position → Option Node
  | .outside => some .directory
  | .inside names => t.node? names

/-- The position one name further. -/
def enter (t : FileTree) (position : Position) (name : String) : Except Obstacle Position :=
  match t.look position with
  | none => .error .missing
  | some (.file _) => .error .notDirectory
  | some .directory =>
    if name = "" ∨ name = "." then .ok position
    else
      match position, name with
      | .outside, ".." => .ok .outside
      | .inside [], ".." => .ok .outside
      | .inside names, ".." => .ok (.inside names.dropLast)
      | position, name =>
        if maxName < name.utf8ByteSize then .error .nameTooLong
        else
          match position with
          | .outside => .error .missing
          | .inside names =>
            if (t.node? (names ++ [name])).isSome then .ok (.inside (names ++ [name]))
            else .error .missing

/-- The contents of the file at a path. -/
def find (t : FileTree) (path : String) : Except Obstacle ByteArray :=
  if path.toList.contains '\x00' then .error .nulByte
  else if path = "" then .error .missing
  else if maxPath < path.utf8ByteSize then .error .nameTooLong
  else do
    let start := if path.toList.head? = some '/' then Position.outside else .inside []
    let position ← (names path).foldlM t.enter start
    match t.look position with
    | none => throw .missing
    | some .directory => throw .isDirectory
    | some (.file bytes) => return bytes

/-- What reading a path gives. -/
def read (t : FileTree) (path : String) : ReadResult :=
  match t.find path with
  | .ok bytes => .contents bytes
  | .error obstacle => obstacle.report

end FileTree

end ByteMachine
