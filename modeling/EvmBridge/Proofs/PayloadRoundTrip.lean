import EvmBridge.Proofs.RoundTrip
import EvmBridge.Wire.Payload

/-!
# Payloads are read back

What one side of the boundary writes, the other side reads as the same value
(`Payload.decode_of_encode`). This holds for all types whose members are fixed by the type. The four
others (`Payload.freeForm`) hold any JSON, which comes back with the members of its objects sorted.

Each record is checked by going through its fields. Nothing else about it is used.
-/

namespace EvmBridge

open Codec
open Fields.RoundTrips (done required defaulted omitted)

variable {n : Nat}

/-! ## Fields of many records -/

theorem Codec.roundTrips_address : address.RoundTrips n := roundTrips_fixed 20

theorem Codec.roundTrips_hash : hash.RoundTrips n := roundTrips_fixed 32

/-! ## Invocations and contexts -/

theorem Invocation.roundTrips : codec.RoundTrips (n + 1) :=
  .record
    (required roundTrips_address <| defaulted (roundTrips_address.optional nofun) <|
      defaulted (roundTrips_quantity.optional nofun) <| defaulted roundTrips_bytes <|
      required roundTrips_quantityWord <| defaulted roundTrips_bool done)
    (by decide) fun _ => rfl

theorem ExternalInvocation.roundTrips : codec.RoundTrips (n + 1) :=
  .record
    (required roundTrips_address <| defaulted (roundTrips_address.optional nofun) <|
      defaulted (roundTrips_quantity.optional nofun) <| defaulted roundTrips_bytes <|
      required roundTrips_quantityWord <| defaulted roundTrips_bool <|
      required roundTrips_word32 done)
    (by decide) fun _ => rfl

/-- Only an absent address is left out in writing. -/
theorem InvocationResult.roundTrips : codec.RoundTrips (n + 1) :=
  .record
    (defaulted roundTrips_bytes <| required roundTrips_quantityWord <| defaulted roundTrips_text <|
      defaulted roundTrips_bool <|
      omitted (roundTrips_address.optional nofun) (fun _ h => Option.isNone_iff_eq_none.mp h) done)
    (by decide) fun _ => rfl

theorem ForkRules.roundTrips : codec.RoundTrips (n + 1) :=
  .record (required roundTrips_bool done) (by decide) fun _ => rfl

theorem EvmContext.roundTrips : codec.RoundTrips (n + 2) :=
  .record
    (required roundTrips_quantityWord <| required roundTrips_address <|
      required roundTrips_quantityWord <| defaulted (roundTrips_quantity.optional nofun) <|
      defaulted (roundTrips_quantity.optional nofun) <|
      defaulted (roundTrips_quantity.optional nofun) <|
      defaulted (roundTrips_quantity.optional nofun) <| required roundTrips_hash <|
      defaulted ForkRules.roundTrips <| defaulted (roundTrips_int32.optional nofun) <|
      defaulted (roundTrips_int32.optional nofun) <| defaulted roundTrips_address.list <|
      defaulted (roundTrips_int32.optional nofun) <| defaulted roundTrips_word32 done)
    (by decide) fun _ => rfl

theorem OpCode.ofName_name (c : OpCode) : ofName c.name = .ok c := by
  cases c <;> rfl

theorem OpCode.roundTrips : codec.RoundTrips n where
  plain c := .str c.name
  read c _ _ := ofName_name c

/-! ## Arguments of methods -/

theorem DatabaseParams.roundTrips : codec.RoundTrips (n + 1) :=
  .record (required roundTrips_int32 done) (by decide) fun _ => rfl

theorem LevelDbParams.roundTrips : codec.RoundTrips (n + 1) :=
  .record (required roundTrips_text <| defaulted roundTrips_bool done) (by decide) fun _ => rfl

theorem StateParams.roundTrips : codec.RoundTrips (n + 1) :=
  .record (required roundTrips_int32 <| required roundTrips_hash done) (by decide) fun _ => rfl

theorem HandleParams.roundTrips : codec.RoundTrips (n + 1) :=
  .record (required roundTrips_int32 done) (by decide) fun _ => rfl

theorem AccountParams.roundTrips : codec.RoundTrips (n + 1) :=
  .record (required roundTrips_int32 <| required roundTrips_address done) (by decide) fun _ => rfl

theorem BalanceParams.roundTrips : codec.RoundTrips (n + 1) :=
  .record
    (required roundTrips_int32 <| required roundTrips_address <| required roundTrips_quantity done)
    (by decide) fun _ => rfl

theorem NonceParams.roundTrips : codec.RoundTrips (n + 1) :=
  .record
    (required roundTrips_int32 <| required roundTrips_address <|
      required roundTrips_quantityWord done)
    (by decide) fun _ => rfl

theorem CodeParams.roundTrips : codec.RoundTrips (n + 1) :=
  .record
    (required roundTrips_int32 <| required roundTrips_address <| required roundTrips_bytes done)
    (by decide) fun _ => rfl

theorem StorageParams.roundTrips : codec.RoundTrips (n + 1) :=
  .record
    (required roundTrips_int32 <| required roundTrips_address <| required roundTrips_hash done)
    (by decide) fun _ => rfl

theorem SetStorageParams.roundTrips : codec.RoundTrips (n + 1) :=
  .record
    (required roundTrips_int32 <| required roundTrips_address <| required roundTrips_hash <|
      defaulted (roundTrips_hash.optional nofun) done)
    (by decide) fun _ => rfl

theorem SnapshotParams.roundTrips : codec.RoundTrips (n + 1) :=
  .record (required roundTrips_int32 <| required roundTrips_int32 done) (by decide) fun _ => rfl

theorem DumpParams.roundTrips : codec.RoundTrips (n + 1) :=
  .record (required roundTrips_int32 <| required roundTrips_text done) (by decide) fun _ => rfl

theorem ProofParams.roundTrips : codec.RoundTrips (n + 2) :=
  .record
    (required roundTrips_int32 <| required roundTrips_address <| required roundTrips_hash <|
      defaulted roundTrips_hash.list done)
    (by decide) fun _ => rfl

theorem AccessParams.roundTrips : codec.RoundTrips (n + 2) :=
  .record
    (required roundTrips_int32 <| required roundTrips_address <|
      defaulted (roundTrips_address.optional nofun) <| required roundTrips_address <|
      defaulted ForkRules.roundTrips done)
    (by decide) fun _ => rfl

theorem SlotParams.roundTrips : codec.RoundTrips (n + 1) :=
  .record
    (required roundTrips_int32 <| required roundTrips_address <| required roundTrips_hash done)
    (by decide) fun _ => rfl

theorem EvmParams.roundTrips : codec.RoundTrips (n + 3) :=
  .record
    (required roundTrips_int32 <| required Invocation.roundTrips <|
      required EvmContext.roundTrips done)
    (by decide) fun _ => rfl

/-! ## Arguments of tracer methods and of callback calls -/

theorem TracerParams.roundTrips : codec.RoundTrips (n + 1) :=
  .record (required roundTrips_int32 done) (by decide) fun _ => rfl

theorem TracerTxStartParams.roundTrips : codec.RoundTrips (n + 1) :=
  .record (required roundTrips_int32 <| required roundTrips_quantityWord done) (by decide)
    fun _ => rfl

theorem TracerTxEndParams.roundTrips : codec.RoundTrips (n + 1) :=
  .record (required roundTrips_int32 <| required roundTrips_quantityWord done) (by decide)
    fun _ => rfl

theorem TracerStartParams.roundTrips : codec.RoundTrips (n + 3) :=
  .record
    (required roundTrips_int32 <| required roundTrips_int32 <| required EvmContext.roundTrips <|
      required roundTrips_address <| required roundTrips_address <| required roundTrips_bool <|
      defaulted roundTrips_bytes <| required roundTrips_quantityWord <|
      defaulted (roundTrips_quantity.optional nofun) done)
    (by decide) fun _ => rfl

theorem TracerEndParams.roundTrips : codec.RoundTrips (n + 1) :=
  .record
    (required roundTrips_int32 <| defaulted roundTrips_bytes <|
      required roundTrips_quantityWord <| defaulted roundTrips_word64 <|
      defaulted roundTrips_text done)
    (by decide) fun _ => rfl

theorem TracerEnterParams.roundTrips : codec.RoundTrips (n + 1) :=
  .record
    (required roundTrips_int32 <| required OpCode.roundTrips <| required roundTrips_address <|
      required roundTrips_address <| defaulted roundTrips_bytes <|
      required roundTrips_quantityWord <| defaulted (roundTrips_quantity.optional nofun) done)
    (by decide) fun _ => rfl

theorem TracerExitParams.roundTrips : codec.RoundTrips (n + 1) :=
  .record
    (required roundTrips_int32 <| defaulted roundTrips_bytes <|
      required roundTrips_quantityWord <| defaulted roundTrips_text done)
    (by decide) fun _ => rfl

theorem CallbackInvokeParams.roundTrips : codec.RoundTrips (n + 1) :=
  .record
    (required roundTrips_int32 <| required roundTrips_text <| defaulted roundTrips_bool done)
    (by decide) fun _ => rfl

/-! ## Proofs and states -/

theorem ProofNode.roundTrips : codec.RoundTrips (n + 1) :=
  .record (required roundTrips_hash <| required roundTrips_bool done) (by decide) fun _ => rfl

theorem StorageProof.roundTrips : codec.RoundTrips (n + 3) :=
  .record
    (required roundTrips_hash <| required roundTrips_hash <|
      defaulted ProofNode.roundTrips.list done)
    (by decide) fun _ => rfl

theorem ProofAccountResult.roundTrips : codec.RoundTrips (n + 5) :=
  .record
    (required roundTrips_address <| defaulted ProofNode.roundTrips.list <|
      required roundTrips_quantity <| required roundTrips_hash <|
      required roundTrips_quantityWord <| required roundTrips_hash <|
      defaulted StorageProof.roundTrips.list done)
    (by decide) fun _ => rfl

theorem Account.roundTrips : codec.RoundTrips (n + 2) :=
  .record
    (required roundTrips_word64 <| required roundTrips_quantity <| defaulted roundTrips_bytes <|
      defaulted (.map FixedBytes.parse_toHex roundTrips_hash) done)
    (by decide) fun _ => rfl

theorem Accounts.roundTrips : codec.RoundTrips (n + 3) :=
  .map FixedBytes.parse_toHex Account.roundTrips

/-! ## All payloads -/

namespace Payload

/-- The types that hold any JSON: a configuration, a recording, further members, a result. -/
def freeForm : List String := ["TraceOptions", "TracerResult", "LogRecord", "Envelope"]

/-- No other type nests deeper than a proof of storage slots. -/
theorem roundTrips {name : String} {p : Payload} (h : record? name = some p)
    (hfree : name ∉ freeForm) : p.codec.RoundTrips (n + 5) := by
  unfold record? at h
  split at h <;> cases h
  · exact DatabaseParams.roundTrips
  · exact LevelDbParams.roundTrips
  · exact StateParams.roundTrips
  · exact HandleParams.roundTrips
  · exact AccountParams.roundTrips
  · exact BalanceParams.roundTrips
  · exact NonceParams.roundTrips
  · exact CodeParams.roundTrips
  · exact StorageParams.roundTrips
  · exact SetStorageParams.roundTrips
  · exact SnapshotParams.roundTrips
  · exact DumpParams.roundTrips
  · exact ProofParams.roundTrips
  · exact AccessParams.roundTrips
  · exact SlotParams.roundTrips
  · exact EvmParams.roundTrips
  · exact TracerParams.roundTrips
  · exact TracerTxStartParams.roundTrips
  · exact TracerTxEndParams.roundTrips
  · exact TracerStartParams.roundTrips
  · exact TracerEndParams.roundTrips
  · exact TracerEnterParams.roundTrips
  · exact TracerExitParams.roundTrips
  · exact CallbackInvokeParams.roundTrips
  · exact Invocation.roundTrips
  · exact ExternalInvocation.roundTrips
  · exact InvocationResult.roundTrips
  · exact ForkRules.roundTrips
  · exact EvmContext.roundTrips
  · exact absurd (by decide) hfree
  · exact OpCode.roundTrips
  · exact absurd (by decide) hfree
  · exact ProofNode.roundTrips
  · exact StorageProof.roundTrips
  · exact ProofAccountResult.roundTrips
  · exact absurd (by decide) hfree
  · exact Account.roundTrips
  · exact Accounts.roundTrips
  · exact absurd (by decide) hfree

/-- **Every value of a type without free-form members is read back from the text that writes it.**
-/
theorem decode_of_encode {name : String} {p : Payload} (h : record? name = some p)
    (hfree : name ∉ freeForm) (a : p.Carrier) : p.codec.decode (p.codec.encode a) = .ok a :=
  (roundTrips h hfree).decode_encode a

/-- Nothing is not taken for zero, and no character is lost. -/
theorem decode_of_encode_odd :
    let call : CallbackInvokeParams :=
      { handle := -1, args := "\"\\\x00\x1f\u2028", expectResult := true }
    let free : Invocation := { caller := .zero, value := none, gas := 0 }
    let zero : Invocation := { caller := .zero, value := some 0, gas := 0xffffffffffffffff }
    (record? "CallbackInvokeParams" = some ⟨CallbackInvokeParams.codec⟩ ∧
      record? "Invocation" = some ⟨Invocation.codec⟩ ∧
      "CallbackInvokeParams" ∉ freeForm ∧ "Invocation" ∉ freeForm) ∧
    CallbackInvokeParams.codec.decode (CallbackInvokeParams.codec.encode call) = .ok call ∧
    Invocation.codec.decode (Invocation.codec.encode free) = .ok free ∧
    Invocation.codec.decode (Invocation.codec.encode zero) = .ok zero :=
  ⟨⟨rfl, rfl, by decide, by decide⟩,
    @decode_of_encode "CallbackInvokeParams" _ rfl (by decide) _,
    @decode_of_encode "Invocation" _ rfl (by decide) _,
    @decode_of_encode "Invocation" _ rfl (by decide) _⟩

end Payload

end EvmBridge
