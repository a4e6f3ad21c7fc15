import EvmBridge.Engine.EntryPoint
import EvmBridge.Host.Error
import EvmBridge.Log

/-!
# Setting up the gateway

Where the module is found, how much of its log is wanted, and whether what was found is a module.
-/

namespace EvmBridge

/-- How the gateway is set up. -/
structure Config where
  libraryPath : String := "libevm.so"
  /-- Which records of its log are wanted. -/
  verbosity : Verbosity := some .trace
  deriving DecidableEq, Repr

namespace Config

/-- The name of the variable with the verbosity. -/
def levelVariable : String := "LIBEVM_LOG_LEVEL"

/-- The setting of two variables of the environment. One that is not set or empty leaves the
default. -/
def ofEnvironment (path? level? : Option String) : Except GatewayError Config :=
  let path := (path?.filter (!·.isEmpty)).getD ({} : Config).libraryPath
  match level?.filter (!·.isEmpty) with
  | none => .ok { libraryPath := path }
  | some level =>
    match Verbosity.ofText? level with
    | some verbosity => .ok { libraryPath := path, verbosity }
    | none => .error (.config (levelVariable ++ "=" ++ level))

def withLibraryPath (c : Config) (path : String) : Config := { c with libraryPath := path }

end Config

/-- Whether a file that offers these entry points is a module; all that are missing are named. -/
def EntryPoint.check (offered : List String) : Except GatewayError Unit :=
  match symbols.filter (!offered.contains ·) with
  | [] => .ok ()
  | missing => .error (.missingSymbols missing)

/-- Whether a path leads to a module, given the entry points of the file if there is one that can
be loaded. The empty path means the running program, which offers no entry point. -/
def EntryPoint.load (path : String) (offered? : Option (List String)) : Except GatewayError Unit :=
  match offered? with
  | some offered => check offered
  | none => if path.isEmpty then check [] else .error .library

end EvmBridge
