import EvmBridge.Codec.Basic

/-!
# Records

A record is a list of named fields, each with a codec and possibly a default. It is read from an
object, members in any order, or from an array in declared order:

* a member may occur once; an unknown member is refused or skipped, as the record says;
* an absent member takes its default, and the first one without a default is reported, after
  the object was read to its end;
* in an array the fields at the end may be absent if they have defaults.

`Fields ρ` describes the fields of a record whose values are the nested pairs `ρ`.
-/

namespace EvmBridge

/-- The fields of a record, in declared order. -/
inductive Fields : Type → Type 1 where
  | done : Fields Unit
  /-- A field, its default if it has one, and which values are left out in writing. -/
  | field {α ρ : Type} (name : String) (codec : Codec α) (default? : Option α) (hidden : α → Bool)
      (rest : Fields ρ) : Fields (α × ρ)

namespace Fields

/-- A field that must be present. -/
def required {α ρ : Type} (name : String) (c : Codec α) (rest : Fields ρ) : Fields (α × ρ) :=
  .field name c none (fun _ => false) rest

/-- A field that may be absent. -/
def defaulted {α ρ : Type} (name : String) (c : Codec α) (a : α) (rest : Fields ρ) :
    Fields (α × ρ) :=
  .field name c (some a) (fun _ => false) rest

/-- A field that may be absent, and is not written if it has a certain value. -/
def omitted {α ρ : Type} (name : String) (c : Codec α) (a : α) (hidden : α → Bool)
    (rest : Fields ρ) : Fields (α × ρ) :=
  .field name c (some a) hidden rest

def names {ρ : Type} : Fields ρ → List String
  | .done => []
  | .field name _ _ _ rest => name :: rest.names

/-- The fields read so far. -/
def Slots {ρ : Type} : Fields ρ → Type
  | .done => Unit
  | .field (α := α) _ _ _ _ rest => Option α × rest.Slots

def noSlots {ρ : Type} : (fs : Fields ρ) → fs.Slots
  | .done => ()
  | .field _ _ _ _ rest => (none, rest.noSlots)

/-- How the value of a field is had from `δ`. -/
abbrev Reading (δ : Type) := {α : Type} → Codec α → δ → Except Json.Fault α

/-- Reads the member of this name, which may not have been read before. Nothing comes back if
no field has the name. -/
def readMember {ρ δ : Type} (get : Reading δ) (name : String) (d : δ) :
    (fs : Fields ρ) → fs.Slots → Except Json.Fault (Option fs.Slots)
  | .done, _ => .ok none
  | .field (α := α) name' c _ _ rest, slots =>
    let (slot, others) : Option α × rest.Slots := slots
    if name = name' then
      match slot with
      | some _ => .error (.duplicateField name)
      | none => do
        let a ← get c d
        .ok (some (some a, others))
    else do
      let others? ← rest.readMember get name d others
      .ok (others?.map fun others => (slot, others))

/-- The record once all members were read. -/
def build {ρ : Type} : (fs : Fields ρ) → fs.Slots → Except Json.Fault ρ
  | .done, _ => .ok ()
  | .field (α := α) name _ default? _ rest, slots =>
    let (slot, others) : Option α × rest.Slots := slots
    match slot, default? with
    | some a, _ | none, some a => do
      let r ← rest.build others
      .ok (a, r)
    | none, none => .error (.missingField name)

/-- Reads the fields from the items of an array, `index` of which were read before. What the
absence of an item without a default means is left to `absent`. -/
def readItems {ρ δ : Type} (get : Reading δ) (absent : Nat → Json.Fault) (index : Nat) :
    (fs : Fields ρ) → List δ → Except Json.Fault (ρ × List δ)
  | .done, ds => .ok ((), ds)
  | .field _ c _ _ rest, d :: ds => do
    let a ← get c d
    let (r, ds) ← rest.readItems get absent (index + 1) ds
    .ok ((a, r), ds)
  | .field _ _ default? _ rest, [] =>
    match default? with
    | some a => do
      let (r, ds) ← rest.readItems get absent (index + 1) []
      .ok ((a, r), ds)
    | none => .error (absent index)

/-- The members of a record, in declared order. -/
def members {ρ : Type} : (fs : Fields ρ) → ρ → List (String × Json)
  | .done, _ => []
  | .field name c _ hidden rest, (a, r) =>
    if hidden a then rest.members r else (name, c.toJson a) :: rest.members r

end Fields

/-- What becomes of a member that no field has the name of. -/
inductive Unknown where
  | refused
  | skipped
  deriving DecidableEq, Repr

namespace Codec

variable {α ρ : Type}

/-- How a message describes a record. -/
def recordText (name : String) (fs : Fields ρ) : String :=
  let n := fs.names.length
  "struct " ++ name ++ " with " ++ toString n ++ (if n = 1 then " element" else " elements")

/-- Reads the members of an object from the front. -/
def readMembers (fs : Fields ρ) (unknown : Unknown) (depth : Nat) :
    fs.Slots → List (Doc × Doc) → Except Json.Fault fs.Slots
  | slots, [] => .ok slots
  | slots, (.str (some name), d) :: rest => do
    match ← fs.readMember (fun c d => c.read depth d) name d slots with
    | some slots => readMembers fs unknown depth slots rest
    | none =>
      match unknown with
      | .refused => .error (.unknownField name fs.names)
      | .skipped => if d.isSound then readMembers fs unknown depth slots rest else .error .malformed
  | _, _ :: _ => .error .malformed

/-- Takes the members of an object. -/
def takeMembers (fs : Fields ρ) (unknown : Unknown) :
    fs.Slots → List (String × Json) → Except Json.Fault fs.Slots
  | slots, [] => .ok slots
  | slots, (name, v) :: rest => do
    match ← fs.readMember (fun c v => c.ofJson v) name v slots with
    | some slots => takeMembers fs unknown slots rest
    | none =>
      match unknown with
      | .refused => .error (.unknownField name fs.names)
      | .skipped => takeMembers fs unknown slots rest

/-- Reads an array in declared order. An array that breaks off is no JSON, and neither is one
with more items than fields. -/
def readArray (name : String) (fs : Fields ρ) (depth : Nat) (items : List Doc) (closed : Bool) :
    Except Json.Fault ρ := do
  let items := if closed then items else items ++ [.broken]
  let absent index := .invalidLength index (recordText name fs)
  let (r, rest) ← fs.readItems (fun c d => c.read depth d) absent 0 items
  if rest.isEmpty then .ok r else .error .malformed

/-- Takes an array in declared order. -/
def takeArray (name : String) (fs : Fields ρ) (items : List Json) : Except Json.Fault ρ := do
  let absent index := .invalidLength index (recordText name fs)
  let (r, rest) ← fs.readItems (fun c v => c.ofJson v) absent 0 items
  if rest.isEmpty then .ok r
  else .error (.invalidLength items.length "fewer elements in array")

/-- A record with these fields, made from and taken apart into their values. -/
def record (name : String) (unknown : Unknown) (fs : Fields ρ) (make : ρ → α) (parts : α → ρ) :
    Codec α where
  read depth d := match d, depth with
    | .arr _ _, 0 | .obj _ _, 0 => .error .malformed
    | .arr items closed, depth + 1 => make <$> readArray name fs depth items closed
    | .obj members closed, depth + 1 => do
      let slots ← readMembers fs unknown depth fs.noSlots members
      if closed then make <$> fs.build slots else .error .malformed
    | d, _ => .error (d.mismatch ("struct " ++ name))
  ofJson v := match v with
    | .arr items => make <$> takeArray name fs items
    | .obj members => do
      let slots ← takeMembers fs unknown fs.noSlots members
      make <$> fs.build slots
    | v => .error (mismatch v ("struct " ++ name))
  toJson a := .obj (fs.members (parts a))

end Codec

end EvmBridge
