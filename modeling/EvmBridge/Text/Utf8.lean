import EvmBridge.Bytes

/-!
# Texts as bytes

A text crosses the boundary as its UTF-8 bytes. `Utf8.encode` gives them, `Utf8.decode` reads
them back or says where the first offending sequence begins and how long it is: a sequence that
merely stops too early at the end of the bytes is incomplete, and has no length.
-/

namespace EvmBridge.Utf8

/-- The first place at which bytes stop being UTF-8. -/
structure Fault where
  /-- The number of bytes before it, which are well formed. -/
  validUpTo : Nat
  /-- The length of the offending sequence, or nothing if the bytes end inside it. -/
  length? : Option Nat
  deriving DecidableEq, Repr

def Fault.message (f : Fault) : String :=
  match f.length? with
  | some n =>
    "invalid utf-8 sequence of " ++ toString n ++ " bytes from index " ++ toString f.validUpTo
  | none => "incomplete utf-8 byte sequence from index " ++ toString f.validUpTo

/-- What the bytes begin with. -/
inductive Head where
  /-- A well-formed sequence of this length. -/
  | char (size : Nat)
  /-- An ill-formed sequence of this length. -/
  | invalid (size : Nat)
  /-- The beginning of a sequence that the bytes do not complete. -/
  | incomplete

/-- Whether a byte may continue a sequence. -/
def isTail (b : UInt8) : Bool := 0x80 ≤ b && b ≤ 0xbf

/-- The classification of a sequence of `size` bytes whose second byte lies between `lo` and
`hi`. -/
def tails (size : Nat) (lo hi : UInt8) : Bytes → Head
  | [] => .incomplete
  | b :: bs =>
    if b < lo || hi < b then .invalid 1
    else if size = 2 then .char 2
    else match bs with
      | [] => .incomplete
      | c :: cs =>
        if !isTail c then .invalid 2
        else if size = 3 then .char 3
        else match cs with
          | [] => .incomplete
          | d :: _ => if isTail d then .char 4 else .invalid 3

/-- The classification of the sequence that starts with `b`. -/
def head (b : UInt8) (rest : Bytes) : Head :=
  if b < 0x80 then .char 1
  else if b < 0xc2 then .invalid 1
  else if b < 0xe0 then tails 2 0x80 0xbf rest
  else if b = 0xe0 then tails 3 0xa0 0xbf rest
  else if b = 0xed then tails 3 0x80 0x9f rest
  else if b < 0xf0 then tails 3 0x80 0xbf rest
  else if b = 0xf0 then tails 4 0x90 0xbf rest
  else if b < 0xf4 then tails 4 0x80 0xbf rest
  else if b = 0xf4 then tails 4 0x80 0x8f rest
  else .invalid 1

/-- The first fault at or after position `pos`, where `bs` begins. -/
def locate (pos : Nat) (bs : Bytes) : Option Fault :=
  match bs with
  | [] => none
  | b :: rest =>
    match head b rest with
    | .char size => locate (pos + size) (rest.drop (size - 1))
    | .invalid size => some ⟨pos, some size⟩
    | .incomplete => some ⟨pos, none⟩
termination_by bs.length
decreasing_by simp only [List.length_drop, List.length_cons]; omega

/-- The bytes of a text. -/
def encode (s : String) : Bytes := s.toUTF8.data.toList

/-- The text that bytes spell. -/
def decode (bs : Bytes) : Except Fault String :=
  match String.fromUTF8? ⟨bs.toArray⟩ with
  | some s => .ok s
  | none => .error ((locate 0 bs).getD ⟨0, none⟩)

/-- Bytes of a text spell that text. -/
@[simp] theorem decode_encode (s : String) : decode (encode s) = .ok s := by
  have h : (⟨s.toUTF8.data.toList.toArray⟩ : ByteArray) = s.toUTF8 := by simp
  unfold decode encode
  rw [h]
  have hv : s.toUTF8.IsValidUTF8 := s.isValidUTF8
  have hs : String.fromUTF8? s.toUTF8 = some s := by
    simp only [String.fromUTF8?, hv, dif_pos]
    rfl
  rw [hs]

/-- The text that bytes spell, with U+FFFD for each offending sequence. -/
def decodeLossy (bs : Bytes) : String :=
  go bs.length bs
where
  /-- At most `fuel` offending sequences are replaced; there are never more than bytes. -/
  go : Nat → Bytes → String
    | 0, bs => (decode bs).toOption.getD ""
    | fuel + 1, bs =>
      match locate 0 bs with
      | none => (decode bs).toOption.getD ""
      | some f =>
        let before := (decode (bs.take f.validUpTo)).toOption.getD ""
        match f.length? with
        | none => before ++ "\ufffd"
        | some n => before ++ "\ufffd" ++ go fuel (bs.drop (f.validUpTo + n))

end EvmBridge.Utf8
