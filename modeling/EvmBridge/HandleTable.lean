import EvmBridge.FixedBytes
import EvmBridge.OrdMap

/-!
# Handle tables

Objects of one category are named by handles from 1 to the greatest positive handle. A new
object gets the first free handle after the one given out last, going around at the end, so a
handle that was given back is reused as late as possible.
-/

namespace EvmBridge

/-- The objects of one category by handle. -/
structure HandleTable (α : Type) where
  /-- The handle given out last, zero at first. -/
  current : Nat := 0
  used : OrdMap Handle α := ∅

namespace HandleTable

variable {α : Type}

def maxHandle : Nat := 0x7fffffff

instance : Inhabited (HandleTable α) := ⟨{}⟩

/-- The handle after this one. -/
def next (current : Nat) : Nat := if current = maxHandle then 1 else current + 1

def get? (t : HandleTable α) (h : Handle) : Option α := t.used.get? h

/-- The first free handle after `current`, among the next `tries`. -/
def search (t : HandleTable α) : (tries current : Nat) → Nat
  | 0, current => current
  | tries + 1, current =>
    let candidate := next current
    if t.used.contains (Int32.ofNat candidate) then t.search tries candidate else candidate

/-- The first free handle after the one given out last. Among one more handles than are in use
at least one is free. -/
def firstFree (t : HandleTable α) : Nat := t.search (t.used.size + 1) t.current

/-- Names a new object. -/
def add (t : HandleTable α) (a : α) : Handle × HandleTable α :=
  let free := t.firstFree
  let h := Int32.ofNat free
  (h, { current := free, used := t.used.insert h a })

/-- Takes the object of a handle out of the table. -/
def remove? (t : HandleTable α) (h : Handle) : Option (α × HandleTable α) :=
  (t.get? h).map fun a => (a, { t with used := t.used.erase h })

def size (t : HandleTable α) : Nat := t.used.size

end HandleTable

end EvmBridge
