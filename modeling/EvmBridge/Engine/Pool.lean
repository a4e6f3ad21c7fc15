import EvmBridge.Error
import EvmBridge.HandleTable

/-!
# Pools

The objects of one category. Most of them have a handle, by which callers name them. An object
whose handle was given back stays in the pool, because others may still be using it, but no
handle leads to it any more.
-/

namespace EvmBridge

/-- The objects of one category. -/
structure Pool (α : Type) where
  /-- All objects there ever were, in the order in which they came. -/
  objects : List α := []
  /-- Where the objects with a handle stand. -/
  handles : HandleTable Nat := {}

namespace Pool

variable {α : Type}

instance : Inhabited (Pool α) := ⟨{}⟩

def add (p : Pool α) (a : α) : Handle × Pool α :=
  let (h, handles) := p.handles.add p.objects.length
  (h, { objects := p.objects ++ [a], handles })

/-- Where the object of a handle stands. -/
def find (p : Pool α) (h : Handle) : Except EngineError Nat :=
  match p.handles.get? h with
  | some i => .ok i
  | none => .error (.invalidHandle h)

def close (p : Pool α) (h : Handle) : Except EngineError (Pool α) :=
  match p.handles.remove? h with
  | some (_, handles) => .ok { p with handles }
  | none => .error (.invalidHandle h)

/-- The object that stands at a place. -/
def get [Inhabited α] (p : Pool α) (i : Nat) : α := p.objects[i]?.getD default

/-- Replaces the object that stands at a place. -/
def set (p : Pool α) (i : Nat) (a : α) : Pool α := { p with objects := p.objects.set i a }

end Pool

end EvmBridge
