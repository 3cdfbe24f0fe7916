/-!
# File trees

Files and directories under one starting directory, and what reading a path
gives. A path is walked part by part: every part needs a directory to be looked
up in, and a part with too long a name is refused before it is looked up. A path
that holds a null character is refused before it is walked at all.
Around the starting directory there is nothing to be found.
-/

namespace GrammarTables

/-- Why a file could not be read. -/
inductive ReadError where
  | notFound
  | isDirectory
  | notDirectory
  | nameTooLong
  | nullInPath
  | notText
  /-- Any other reason, in the words of the system. -/
  | other (text : String)
  deriving DecidableEq, Repr

def ReadError.message : ReadError → String
  | notFound => "No such file or directory (os error 2)"
  | isDirectory => "Is a directory (os error 21)"
  | notDirectory => "Not a directory (os error 20)"
  | nameTooLong => "File name too long (os error 36)"
  | nullInPath => "file name contained an unexpected NUL byte"
  | notText => "stream did not contain valid UTF-8"
  | other text => text

inductive FileTree.Entry where
  | directory
  | file (content : List UInt8)
  deriving DecidableEq

/-- The entries by the parts of their paths. The starting directory has no parts and no entry. -/
structure FileTree where
  entries : List (List String × FileTree.Entry) := []

namespace FileTree

/-- The longest name of a part, in bytes. -/
def partLimit : Nat := 255

/-- The longest path, in bytes. -/
def pathLimit : Nat := 4095

/-- The parts of a path. -/
def parts (path : String) : List String := (path.toList.splitOn '/').map String.ofList

/-! ## Looking up -/

def entry? (t : FileTree) (path : List String) : Option Entry :=
  if path.isEmpty then some .directory else t.entries.lookup path

/-- How far a walk has come. -/
inductive Spot where
  /-- A path in the tree. -/
  | inside (path : List String)
  | outside
  deriving DecidableEq

/-- Goes on by one part. An empty part is no part. -/
def step (t : FileTree) (here : Spot) (part : String) : Except ReadError Spot :=
  if part.isEmpty then .ok here
  else
    match here with
    | .outside =>
      if part = "." ∨ part = ".." then .ok .outside
      else if partLimit < part.utf8ByteSize then .error .nameTooLong
      else .error .notFound
    | .inside path =>
      match t.entry? path with
      | some .directory =>
        if part = "." then .ok here
        else if part = ".." then .ok (if path.isEmpty then .outside else .inside path.dropLast)
        else if partLimit < part.utf8ByteSize then .error .nameTooLong
        else if (t.entry? (path ++ [part])).isSome then .ok (.inside (path ++ [part]))
        else .error .notFound
      | some (.file _) => .error .notDirectory
      | none => .error .notFound

/-- The spot a path leads to. A path that begins with a slash does not begin in the tree. -/
def walk (t : FileTree) (path : String) : Except ReadError Spot :=
  if path.toList.contains '\x00' then .error .nullInPath
  else if pathLimit < path.utf8ByteSize then .error .nameTooLong
  else if path.isEmpty then .error .notFound
  else (parts path).foldlM t.step (if path.startsWith "/" then .outside else .inside [])

/-- The text of the file at a path. -/
def read (t : FileTree) (path : String) : Except ReadError String :=
  match t.walk path with
  | .error e => .error e
  | .ok .outside => .error .isDirectory
  | .ok (.inside path) =>
    match t.entry? path with
    | none => .error .notFound
    | some .directory => .error .isDirectory
    | some (.file content) =>
      match String.fromUTF8? (ByteArray.mk content.toArray) with
      | some text => .ok text
      | none => .error .notText

/-! ## Changing -/

/-- The parts that matter when files are laid out: neither empty nor a single dot. -/
def plainParts (path : String) : List String :=
  (parts path).filter fun p => !p.isEmpty && p != "."

/-- A directory, and the directories around it. -/
def addDirectory (t : FileTree) (path : List String) : FileTree :=
  let missing := (List.range path.length).filterMap fun n =>
    let dir := path.take (n + 1)
    if (t.entry? dir).isSome then none else some (dir, Entry.directory)
  ⟨missing ++ t.entries⟩

/-- A file in place of what is there, and the directories around it. -/
def addFile (t : FileTree) (path : List String) (content : List UInt8) : FileTree :=
  ⟨(path, .file content) :: (t.addDirectory path.dropLast).entries.filter (·.1 != path)⟩

def remove (t : FileTree) (path : List String) : FileTree :=
  ⟨t.entries.filter (·.1 != path)⟩

/-- What can be done to a tree. -/
inductive Change where
  | write (path : String) (content : List UInt8)
  | makeDirectory (path : String)
  | remove (path : String)

def apply (t : FileTree) : Change → FileTree
  | .write path content => t.addFile (plainParts path) content
  | .makeDirectory path => t.addDirectory (plainParts path)
  | .remove path => t.remove (plainParts path)

def applyAll (t : FileTree) (changes : List Change) : FileTree := changes.foldl apply t

end FileTree

end GrammarTables
