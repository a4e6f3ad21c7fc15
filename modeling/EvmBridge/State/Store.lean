import EvmBridge.Error
import EvmBridge.State.Account

/-!
# Stores

A store keeps committed states by their roots. A store on disk also writes each of them to a
file named after the root, and reads all such files when it is opened.
-/

namespace EvmBridge

/-- The committed states of one store. -/
structure Store where
  roots : OrdMap Hash Accounts := ∅
  /-- The directory of a store on disk. -/
  path : Option String := none
  /-- Whether dumps show plain addresses. -/
  preimages : Bool := true

namespace Store

/-- A store that lives in memory only; it always keeps preimages. -/
def memory : Store := {}

instance : Inhabited Store := ⟨memory⟩

/-- The root a file name stands for. -/
def rootOfName (name : String) : Option Hash :=
  match Files.splitName name with
  | (stem, some "json") => (FixedBytes.parse 32 stem).toOption
  | _ => none

/-- The file of a root. -/
def fileOf (path : String) (root : Hash) : String := Files.join path (root.toHex ++ ".json")

/-- Reads the files of a directory that are named after roots. -/
def readRoots (files : Files) (path : String) :
    OrdMap Hash Accounts → List String → Except EngineError (OrdMap Hash Accounts)
  | roots, [] => .ok roots
  | roots, name :: rest =>
    match rootOfName name with
    | none => readRoots files path roots rest
    | some root => do
      let text ← (files.read (Files.join path name)).mapError .io
      let accounts ← (Accounts.codec.decode text).mapError fun e => .codec (.json e)
      readRoots files path (roots.insert root accounts) rest

/-- Opens a store on disk, making its directory if it is missing. -/
def openAt (files : Files) (path : String) (preimages : Bool) : Except EngineError Store × Files :=
  match files.makeDirectories path with
  | (.error e, files) => (.error (.io e), files)
  | (.ok (), files) =>
    let store := do
      let names ← (files.list path).mapError EngineError.io
      let roots ← readRoots files path ∅ names
      .ok { roots, path := some path, preimages }
    -- the directory stays, even if the store cannot be opened
    (store, files)

/-- The state at a root. -/
def load (s : Store) (root : Hash) : Except EngineError Accounts :=
  match s.roots.get? root with
  | some accounts => .ok accounts
  | none => .error (.missingRoot root)

/-- The state at a root, the zero root standing for the empty one. -/
def loadFrom (s : Store) (root : Hash) : Except EngineError Accounts :=
  if root.isZero then .ok ∅ else s.load root

/-- Adds a state, once its file is written if the store is on disk. -/
def store (s : Store) (files : Files) (root : Hash) (accounts : Accounts) :
    Except EngineError (Store × Files) :=
  let kept := { s with roots := s.roots.insert root accounts }
  match s.path with
  | none => .ok (kept, files)
  | some path =>
    match files.write (fileOf path root) (Accounts.codec.encode accounts) with
    | .ok files => .ok (kept, files)
    | .error e => .error (.io e)

end Store

end EvmBridge
