import EvmBridge.State.Store
import EvmBridge.Wire.Context

/-!
# Views

A view is a mutable state that starts from a committed one. All changes stay in the view until
they are committed. Revisions are a stack: a snapshot puts the state and the access list on it,
a revert takes back everything down to the revision it names. Revision numbers only grow, so no
number is given out twice; when the counter is at its end, no more snapshots can be taken.
-/

namespace EvmBridge

/-- A storage slot of an account. -/
structure Slot where
  address : Address
  key : Hash
  deriving DecidableEq, Repr

namespace Slot

/-- The bytes by which slots are ordered: by account, then by key. -/
def bytes (x : Slot) : Bytes := x.address.bytes ++ x.key.bytes

instance : Ord Slot := ⟨fun x y => compare x.bytes y.bytes⟩

theorem compare_eq (x y : Slot) : compare x y = compare x.bytes y.bytes := rfl

theorem ext_bytes {x y : Slot} (h : x.bytes = y.bytes) : x = y := by
  have hl : x.address.bytes.length = y.address.bytes.length := by
    rw [x.address.size_eq, y.address.size_eq]
  obtain ⟨ha, hk⟩ := List.append_inj h hl
  have ha := FixedBytes.ext ha
  have hk := FixedBytes.ext hk
  cases x; cases y
  simp_all

instance : Std.TransOrd Slot where
  eq_swap {x y} := by simpa only [compare_eq] using Std.OrientedCmp.eq_swap
  isLE_trans {x y z} h₁ h₂ := by
    simp only [compare_eq] at *
    exact Std.TransCmp.isLE_trans h₁ h₂

instance : Std.LawfulEqOrd Slot where
  compare_self {x} := by simpa only [compare_eq] using Std.ReflCmp.compare_self
  eq_of_compare {x y} h := ext_bytes (Std.LawfulEqCmp.eq_of_compare ((compare_eq x y).symm.trans h))

end Slot

/-- The addresses and slots that were accessed. -/
structure AccessList where
  addresses : OrdSet Address := ∅
  slots : OrdSet Slot := ∅
  deriving DecidableEq

/-- What a snapshot keeps. -/
structure Revision where
  id : Nat
  accounts : Accounts
  accessList : AccessList
  deriving DecidableEq

/-- A mutable state over a store. -/
structure View where
  /-- The store it commits to. -/
  store : Nat
  accounts : Accounts := ∅
  accessList : AccessList := {}
  /-- The revisions that can be reverted to, latest first. -/
  revisions : List Revision := []
  nextRevision : Nat := 0
  deriving DecidableEq

namespace View

instance : Inhabited View := ⟨{ store := 0 }⟩

/-! ## Lifecycle -/

/-- Drops the empty accounts and all revisions. -/
def finalize (v : View) : View := { v with accounts := v.accounts.pruned, revisions := [] }

/-! ## Accounts -/

/-- The account at an address, if it exists. -/
def account? (v : View) (a : Address) : Option Account := v.accounts.get? a

def exists? (v : View) (a : Address) : Bool := (v.account? a).isSome

/-- Changes an account, which exists from then on. -/
def update (v : View) (a : Address) (f : Account → Account) : View :=
  { v with accounts := v.accounts.insert a (f ((v.account? a).getD {})) }

/-- Whether the account is absent or empty. -/
def isEmpty (v : View) (a : Address) : Bool := (v.account? a).all Account.isEmpty

/-- Whether the address is that of a person: no built-in contract, and no code. -/
def isExternal (v : View) (a : Address) : Bool :=
  !isPrecompile a && (v.account? a).all (·.code.isEmpty)

def balance (v : View) (a : Address) : Nat := ((v.account? a).map (·.balance)).getD 0

def addBalance (v : View) (a : Address) (amount : Nat) : View :=
  v.update a fun acc => { acc with balance := acc.balance + amount }

/-- Takes from what an account owns, if it owns that much. -/
def subBalance (v : View) (a : Address) (amount : Nat) : Except StateError View :=
  let current := v.balance a
  if current < amount then .error (.insufficientBalance a current amount)
  else .ok (v.update a fun acc => { acc with balance := current - amount })

def setBalance (v : View) (a : Address) (amount : Nat) : View :=
  v.update a fun acc => { acc with balance := amount }

def nonce (v : View) (a : Address) : UInt64 := ((v.account? a).map (·.nonce)).getD 0

def setNonce (v : View) (a : Address) (nonce : UInt64) : View :=
  v.update a fun acc => { acc with nonce }

/-- The hash of the code of an account, zero if it does not exist. -/
def codeHash (v : View) (a : Address) : Hash := ((v.account? a).map Account.codeHash).getD .zero

def code (v : View) (a : Address) : Bytes := ((v.account? a).map (·.code)).getD []

def setCode (v : View) (a : Address) (code : Bytes) : View :=
  v.update a fun acc => { acc with code }

/-- The value of a slot, zero if it is not set. -/
def storage (v : View) (a : Address) (key : Hash) : Hash :=
  ((v.account? a).bind (·.storage.get? key)).getD .zero

/-- Sets a slot; nothing or zero removes it. -/
def setStorage (v : View) (a : Address) (key : Hash) (value? : Option Hash) :
    Except StateError View :=
  -- an empty account is dropped sooner or later, and its storage with it
  if v.isEmpty a then .error (.emptyAccount a)
  else .ok (v.update a fun acc =>
    match value?.filter (!·.isZero) with
    | some value => { acc with storage := acc.storage.insert key value }
    | none => { acc with storage := acc.storage.erase key })

/-! ## Revisions -/

/-- The end of the counter. -/
def maxRevision : Nat := 0x7fffffff

/-- Puts the present moment on the stack of revisions, under the next number. -/
def mark (v : View) : View :=
  { v with
    nextRevision := v.nextRevision + 1
    revisions := ⟨v.nextRevision, v.accounts, v.accessList⟩ :: v.revisions }

/-- Takes a snapshot, unless the counter is at its end: the number of the new revision, and the
view that has it. -/
def snapshot (v : View) : Option (Nat × View) :=
  if v.nextRevision < maxRevision then some (v.nextRevision, v.mark) else none

/-- Restores the moment of a revision, and drops it and all later ones. -/
def revert (v : View) (id : Int) : Option View :=
  -- the latest come first, so what is skipped is later
  match v.revisions.dropWhile fun r => (r.id : Int) ≠ id with
  | [] => none
  | r :: older =>
    some { v with accounts := r.accounts, accessList := r.accessList, revisions := older }

/-! ## Access list -/

/-- Starts a new access list: the sender, the destination, the built-in contracts, and from
Shanghai on the coinbase. -/
def accessSetup (v : View) (sender : Address) (destination : Option Address) (coinbase : Address)
    (rules : ForkRules) : View :=
  let warm := [sender] ++ destination.toList ++ precompiles ++
    (if rules.isShanghai then [coinbase] else [])
  { v with accessList := { addresses := OrdMap.ofList (warm.map fun a => (a, ())) } }

/-- Whether an address was accessed before; from then on it was. -/
def accessAccount (v : View) (a : Address) : Bool × View :=
  (v.accessList.addresses.contains a,
    { v with accessList := { v.accessList with addresses := v.accessList.addresses.insert a () } })

/-- Whether a slot was accessed before; from then on it and its account were. -/
def accessSlot (v : View) (a : Address) (key : Hash) : Bool × View :=
  (v.accessList.slots.contains ⟨a, key⟩,
    { v with accessList :=
      { addresses := v.accessList.addresses.insert a ()
        slots := v.accessList.slots.insert ⟨a, key⟩ () } })

end View

end EvmBridge
