import EvmBridge.OrdMap

/-!
# Files

The part of a file system that stores and dumps touch: directories and text files under paths.
A path is walked from the root, name by name, so an operation that fails says what a walk over a
real directory tree would say. What a path means is decided by what stands there: nothing is
simplified before the walk, and going back from a missing directory fails.
-/

namespace EvmBridge

/-- Why an operation on files failed. -/
inductive FileFault where
  /-- The path, or a directory on it, does not exist. -/
  | notFound
  /-- Something of that name exists and is no directory. -/
  | exists
  /-- Something on the path is no directory. -/
  | notADirectory
  /-- The path names a directory where a file is wanted. -/
  | isADirectory
  /-- A name on the path, or the path, is too long. -/
  | nameTooLong
  /-- The path holds a NUL character. -/
  | nulInPath
  deriving DecidableEq, Repr

def FileFault.message : FileFault → String
  | .notFound => "No such file or directory (os error 2)"
  | .exists => "File exists (os error 17)"
  | .notADirectory => "Not a directory (os error 20)"
  | .isADirectory => "Is a directory (os error 21)"
  | .nameTooLong => "File name too long (os error 36)"
  | .nulInPath => "file name contained an unexpected NUL byte"

/-- What a path names. -/
inductive Entry where
  | directory
  | file (text : String)
  deriving DecidableEq, Repr

/-- The names on the way to an entry, from the root. -/
abbrev Location := List String

/-! ## Paths -/

def maxNameSize : Nat := 255

def maxPathSize : Nat := 4095

/-- A path taken apart. One point as a name stays where it is, two points go back. -/
structure Path where
  /-- The names between the slashes. -/
  names : List String
  /-- Whether a slash stands at the end. -/
  slash : Bool := false

namespace Path

/-- The pieces of a text between slashes. -/
def pieces (cs : List Char) : List (List Char) :=
  cs.foldr
    (fun c ps => match c, ps with
      | '/', ps => [] :: ps
      | c, p :: ps => (c :: p) :: ps
      | c, [] => [[c]])
    [[]]

/-- Takes a path apart. An empty one leads nowhere. -/
def ofText (s : String) : Except FileFault Path :=
  if s.toList.contains '\x00' then .error .nulInPath
  else if s.isEmpty then .error .notFound
  else if maxPathSize < s.utf8ByteSize then .error .nameTooLong
  else .ok {
    names := ((pieces s.toList).filter (!·.isEmpty)).map String.ofList
    slash := s.endsWith "/" }

/-- Names without the points at their end. -/
def trimmed (names : List String) : List String :=
  (names.reverse.dropWhile (· = ".")).reverse

theorem length_trimmed_le (names : List String) : (trimmed names).length ≤ names.length := by
  have h := (List.dropWhile_sublist (l := names.reverse) (· = ".")).length_le
  simpa [trimmed] using h

/-- The path to the directory in which the last name stands. Points are no names here. -/
def parent? (p : Path) : Option Path :=
  match trimmed p.names with
  | [] => none
  | name :: names => some { names := trimmed (name :: names).dropLast }

theorem length_parent {p q : Path} (h : p.parent? = some q) : q.names.length < p.names.length := by
  have hp := length_trimmed_le p.names
  unfold parent? at h
  split at h
  · simp at h
  · rename_i name names heq
    rw [heq] at hp
    have hq := length_trimmed_le (name :: names).dropLast
    simp only [Option.some.injEq] at h
    subst h
    simp only [List.length_dropLast, List.length_cons] at hp hq ⊢
    omega

end Path

/-- A tree of directories and files, as a map from locations. The root directory is always
there. -/
structure Files where
  entries : OrdMap Location Entry := ∅

namespace Files

instance : Inhabited Files := ⟨{}⟩

/-! ## Walking -/

def entry? (fs : Files) (l : Location) : Option Entry :=
  if l.isEmpty then some .directory else fs.entries.get? l

def put (fs : Files) (l : Location) (e : Entry) : Files := ⟨fs.entries.insert l e⟩

/-- What a name leads to from a directory. Nothing is above the root. -/
def lookup (fs : Files) (here : Location) (name : String) :
    Except FileFault (Location × Option Entry) :=
  if name = "." then .ok (here, some .directory)
  else if name = ".." then .ok (here.dropLast, some .directory)
  else if maxNameSize < name.utf8ByteSize then .error .nameTooLong
  else .ok (here ++ [name], fs.entry? (here ++ [name]))

/-- Enters one directory after the other. -/
def enter (fs : Files) (here : Location) : List String → Except FileFault Location
  | [] => .ok here
  | name :: rest => do
    match ← fs.lookup here name with
    | (there, some .directory) => fs.enter there rest
    | (_, some (.file _)) => .error .notADirectory
    | (_, none) => .error .notFound

/-- What the last name of a path leads to, once the directories before it were entered. -/
def reach (fs : Files) (p : Path) : Except FileFault (Location × Option Entry) :=
  match p.names.getLast? with
  | none => .ok ([], some .directory)
  | some last => do fs.lookup (← fs.enter [] p.names.dropLast) last

/-- What a path names. Behind a file there is no slash. -/
def resolve (fs : Files) (path : String) : Except FileFault (Location × Option Entry) := do
  let p ← Path.ofText path
  match ← fs.reach p with
  | (l, some (.file text)) =>
    if p.slash then .error .notADirectory else .ok (l, some (.file text))
  | found => .ok found

/-! ## Operations -/

def read (fs : Files) (path : String) : Except FileFault String := do
  match ← fs.resolve path with
  | (_, some (.file text)) => .ok text
  | (_, some .directory) => .error .isADirectory
  | (_, none) => .error .notFound

/-- Writes a file, replacing an earlier one. A slash at the end asks for a directory, whatever
stands there. -/
def write (fs : Files) (path text : String) : Except FileFault Files := do
  let p ← Path.ofText path
  let here ← fs.enter [] p.names.dropLast
  match p.names.getLast?, p.slash with
  | some last, false =>
    match ← fs.lookup here last with
    | (_, some .directory) => .error .isADirectory
    | (l, _) => .ok (fs.put l (.file text))
  | _, _ => .error .isADirectory

/-- Makes a directory, unless it is there. -/
def makeDirectory (fs : Files) (p : Path) : Except FileFault Files := do
  match ← fs.reach p with
  | (_, some .directory) => .ok fs
  | (_, some (.file _)) => .error .exists
  | (l, none) => .ok (fs.put l .directory)

/-- Makes a directory; if something on the way to it is missing, its parent first. What was made
stays, even if the rest cannot be made. -/
def makeWay (fs : Files) (p : Path) : Except FileFault Unit × Files :=
  match fs.makeDirectory p, h : p.parent? with
  | .ok fs, _ => (.ok (), fs)
  | .error .notFound, some q =>
    have := Path.length_parent h
    match fs.makeWay q with
    | (.ok (), fs) =>
      match fs.makeDirectory p with
      | .ok fs => (.ok (), fs)
      | .error e => (.error e, fs)
    | failed => failed
  | .error e, _ => (.error e, fs)
termination_by p.names.length

/-- Makes a directory and those on the way to it. The empty path needs none. -/
def makeDirectories (fs : Files) (path : String) : Except FileFault Unit × Files :=
  if path.isEmpty then (.ok (), fs)
  else match Path.ofText path with
    | .ok p => fs.makeWay p
    | .error e => (.error e, fs)

/-- The name of an entry, if it stands directly in a directory. -/
def nameIn (directory l : Location) : Option String :=
  match l.getLast? with
  | some name => if l.dropLast = directory then some name else none
  | none => none

/-- The names in a directory, in order. -/
def list (fs : Files) (path : String) : Except FileFault (List String) := do
  match ← fs.resolve path with
  | (l, some .directory) => .ok (fs.entries.keys.filterMap (nameIn l))
  | (_, some (.file _)) => .error .notADirectory
  | (_, none) => .error .notFound

/-- Removes what a path names and everything below it. -/
def remove (fs : Files) (path : String) : Files :=
  match fs.resolve path with
  | .ok (l, some _) => ⟨fs.entries.filter fun l' _ => !(l.isPrefixOf l')⟩
  | _ => fs

/-- A path with one more name. -/
def join (path name : String) : String :=
  if path = "" || path.endsWith "/" then path ++ name else path ++ "/" ++ name

/-- A file name without its extension, and the extension. The extension stands behind the last
point; a point at the front does not count. -/
def splitName (name : String) : String × Option String :=
  let cs := name.toList
  let extension := (cs.reverse.takeWhile (· ≠ '.')).reverse
  let stem := cs.take (cs.length - extension.length - 1)
  if stem.isEmpty || extension.length = cs.length then (name, none)
  else (String.ofList stem, some (String.ofList extension))

end Files

end EvmBridge
