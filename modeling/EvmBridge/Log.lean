import EvmBridge.Json.Basic
import EvmBridge.Text.Blank

/-!
# Levels

The module grades its log records by `Level`, the host its events by `Severity`; a `Verbosity`
says which events the host wants to see. The names of one side are understood by the other.
-/

namespace EvmBridge

/-- The level of a log record of the module. -/
inductive Level where
  | trace
  /-- Detail for those who look for a fault. -/
  | debug
  /-- What happens normally. -/
  | info
  /-- What should not happen. -/
  | warn
  /-- What fails. -/
  | error
  /-- What ends everything. -/
  | crit
  deriving DecidableEq, Repr, Inhabited

namespace Level

/-- Levels in increasing order of gravity. -/
def rank : Level → Nat
  | trace => 0
  | debug => 1
  | info => 2
  | warn => 3
  | error => 4
  | crit => 5

/-- Whether one level is at least as grave as another. -/
def atLeast (l bound : Level) : Bool := bound.rank ≤ l.rank

/-- The name in log records. -/
def shortName : Level → String
  | trace => "trce"
  | debug => "dbug"
  | info => "info"
  | warn => "warn"
  | error => "eror"
  | crit => "crit"

def name : Level → String
  | trace => "trace"
  | debug => "debug"
  | info => "info"
  | warn => "warn"
  | error => "error"
  | crit => "crit"

def all : List Level := [trace, debug, info, warn, error, crit]

/-- The level of a full or short name in any case. -/
def ofName? (s : String) : Option Level :=
  all.find? fun l => Text.lowercase s = l.name || Text.lowercase s = l.shortName

/-- A log record. Its fields may replace even the level and the message. -/
def record (l : Level) (msg : String) (fields : List (String × Json)) : Json :=
  Json.object (("lvl", .str l.shortName) :: ("msg", .str msg) :: fields)

end Level

/-- The severity of an event of the host. -/
inductive Severity where
  | trace
  | debug
  | info
  | warn
  | error
  deriving DecidableEq, Repr, Inhabited

namespace Severity

def rank : Severity → Nat
  | trace => 1
  | debug => 2
  | info => 3
  | warn => 4
  | error => 5

def name : Severity → String
  | trace => "TRACE"
  | debug => "DEBUG"
  | info => "INFO"
  | warn => "WARN"
  | error => "ERROR"

/-- The severity of a record whose level has this name, which must be in lower case. Names that
are not known count as information. -/
def ofLevelName (s : String) : Severity :=
  if s = "trce" || s = "trace" then .trace
  else if s = "dbug" || s = "debug" then .debug
  else if s = "warn" then .warn
  else if s = "eror" || s = "error" || s = "crit" then .error
  else .info

end Severity

/-- The least severity that is wanted, or nothing at all. -/
abbrev Verbosity := Option Severity

namespace Verbosity

/-- The level the module is told to log at. With nothing wanted, only the gravest records pass. -/
def levelName : Verbosity → String
  | some .trace => "trace"
  | some .debug => "debug"
  | some .info => "info"
  | some .warn => "warn"
  | some .error => "error"
  | none => "crit"

/-- The verbosities by number, none first. -/
def all : List (String × Verbosity) :=
  [("off", none), ("error", some .error), ("warn", some .warn), ("info", some .info),
   ("debug", some .debug), ("trace", some .trace)]

/-- The number of a decimal text, one plus sign allowed. -/
def number? (s : String) : Option Nat :=
  let digits := match s.toList with
    | '+' :: rest => rest
    | cs => cs
  if digits.isEmpty || digits.any (!·.isDigit) then none
  else some (digits.foldl (fun n c => 10 * n + (c.toNat - '0'.toNat)) 0)

/-- The verbosity of a name in any case or of a number. The empty text stands for errors. -/
def ofText? (s : String) : Option Verbosity :=
  if s = "" then some (some .error)
  else match number? s with
    | some n => (all[n]?).map Prod.snd
    | none => (all.find? fun e => e.1 = Text.lowercase s).map Prod.snd

/-- Whether an event of this severity is wanted. -/
def admits (v : Verbosity) (s : Severity) : Bool :=
  match v with
  | none => false
  | some least => least.rank ≤ s.rank

def name : Verbosity → String
  | none => "off"
  | some .error => "error"
  | some .warn => "warn"
  | some .info => "info"
  | some .debug => "debug"
  | some .trace => "trace"

end Verbosity

end EvmBridge
