import EvmBridge.Engine.Service
import EvmBridge.Proofs.Ends
import EvmBridge.Proofs.PayloadRoundTrip

/-!
# What the service answers

Every answer of the service is plain, so that it can be read back, and canonical, so that reading
it back does not even change the order of its members (`Service.dispatch_answers`). This is a matter
of the types of the results, all of which round trip. The one result that holds any value at all,
the recording of a tracer, is built by the tracer.
-/

namespace EvmBridge

open Codec
open Json (Plain)

theorem Json.plain_object {members : List (String × Json)} (h : ∀ e ∈ members, e.2.Plain) :
    (Json.object members).Plain :=
  .obj fun e he => h e (OrdMap.mem_of_mem_ofList he)

theorem Json.plain_nat {n : Nat} (h : n < 0x10000000000000000) : (Json.nat n).Plain :=
  .int (by omega) (by omega)

/-! ## Arguments -/

theorem Request.params_encode {α ρ : Type} {m : Method α ρ}
    (hm : m.params.RoundTrips Doc.maxDepth) (a : α) :
    Request.params m (some (m.params.encode a)) = .ok a := by
  unfold Request.params
  dsimp only
  rw [hm.decode_encode]
  rfl

/-! ## Recordings -/

namespace Frame

/-- All that a frame tells of itself is text. -/
theorem exists_str_of_mem {s : FrameStart} {f : FrameEnd} {e : String × Json}
    (he : e ∈ ownMembers s f) : ∃ text, e.2 = .str text := by
  simp only [ownMembers, List.mem_append, List.mem_cons, List.not_mem_nil, or_false,
    List.mem_map, Option.mem_toList] at he
  rcases he with (((rfl | rfl | rfl | rfl | rfl | rfl) | ⟨v, _, rfl⟩) | he) | he
  any_goals exact ⟨_, rfl⟩
  all_goals
    split at he
    · exact absurd he (by simp)
    · rw [List.mem_singleton.mp he]
      exact ⟨_, rfl⟩

theorem plain_ownMembers (s : FrameStart) (f : FrameEnd) : ∀ e ∈ ownMembers s f, e.2.Plain := by
  intro e he
  obtain ⟨text, htext⟩ := exists_str_of_mem he
  rw [htext]
  exact .str text

mutual

theorem plain_toJson : ∀ f : Frame, f.toJson.Plain
  | node s f calls => by
      rw [toJson]
      refine Json.plain_object fun e he => ?_
      rcases List.mem_append.mp he with he | he
      · exact plain_ownMembers s f e he
      · split at he
        · exact absurd he (by simp)
        · rw [List.mem_singleton.mp he]
          exact .arr (plain_toJsons calls)

theorem plain_toJsons : ∀ (fs : List Frame), ∀ v ∈ toJsons fs, v.Plain
  | [], v, hv => absurd hv (by simp [toJsons])
  | f :: fs, v, hv => by
      rw [toJsons] at hv
      rcases List.mem_cons.mp hv with he | hv
      · rw [he]
        exact plain_toJson f
      · exact plain_toJsons fs v hv

end

end Frame

theorem Tracer.plain_summary (t : Tracer) (root : Frame) : (t.summary root).Plain := by
  refine Json.plain_object fun e he => ?_
  simp only [List.mem_append, List.mem_cons, List.not_mem_nil, or_false, List.mem_map,
    Option.mem_toList] at he
  rcases he with ((rfl | rfl | rfl | rfl) | he) | ⟨rest, _, rfl⟩
  · exact Json.plain_nat (UInt64.toNat_lt _)
  · exact .bool _
  · exact .str _
  · exact .arr fun v hv => absurd hv (by simp)
  · split at he
    · rw [List.mem_singleton.mp he]
      exact Json.plain_nat (UInt64.toNat_lt _)
    · exact absurd he (by simp)
  · exact Json.plain_nat (UInt64.toNat_lt _)

theorem Tracer.plain_result (t : Tracer) : t.result.Plain := by
  unfold result
  split
  · exact .null
  · split
    · exact Frame.plain_toJson _
    · exact t.plain_summary _

theorem TracerResult.plain_toJson {r : TracerResult} (h : r.result.Plain) :
    (codec.toJson r).Plain := by
  refine .obj fun e he => ?_
  rw [List.mem_singleton.mp he]
  exact h

/-! ## Answers -/

namespace Service

/-- An answer can be read back as it is. -/
structure Answers (v : Json) : Prop where
  plain : v.Plain
  canonical : v.canonical = v

theorem answers_reply {α ρ : Type} {m : Method α ρ} {r : ρ} (h : (m.result.toJson r).Plain) :
    Answers (reply m r) :=
  ⟨h.canonical, Json.canonical_canonical _⟩

theorem reply_answers {α ρ : Type} {m : Method α ρ} (hm : m.result.RoundTrips Doc.maxDepth)
    (a : Act ρ) (w : World) : Ends ((reply m <$> a) w) (fun v _ => Answers v) fun _ _ => True :=
  Act.ends_map.mpr (.of_forall (fun r _ => answers_reply (hm.plain r)) fun _ _ => trivial)

theorem run_answers (upcall : Upcall) (r : Request) (w : World) :
    Ends (run upcall r w) (fun v _ => Answers v) fun _ _ => True := by
  cases r with
  | openMemory | openDisk | openView | snapshot | createTracer =>
      exact reply_answers roundTrips_int32 _ _
  | closeStore | closeView | finalize | addBalance | subBalance | setBalance | setNonce | setCode |
    setStorage | revert | dump | accessSetup | removeTracer | txStart | txEnd | frameStart |
    frameEnd | frameEnter | frameExit =>
      exact reply_answers roundTrips_ignored _ _
  | intermediateRoot | commit | codeHash | storage =>
      exact reply_answers roundTrips_hash _ _
  | isEmpty | isExternal | accessAccount | accessSlot => exact reply_answers roundTrips_bool _ _
  | balance => exact reply_answers roundTrips_quantity _ _
  | nonce => exact reply_answers roundTrips_quantityWord _ _
  | code => exact reply_answers roundTrips_bytes _ _
  | proof => exact reply_answers ProofAccountResult.roundTrips _ _
  | apply => exact reply_answers InvocationResult.roundTrips _ _
  | invokeCallback => exact reply_answers (roundTrips_text.optional nofun) _ _
  | traceResult p =>
      -- the type of a recording allows any value
      refine Act.ends_map.mpr (Act.ends_bind.mpr (.of_forall (fun i w' => ?_) fun _ _ => trivial))
      exact answers_reply (TracerResult.plain_toJson (w'.tracer i).plain_result)

/-- **Every answer of the service is plain and canonical.** -/
theorem dispatch_answers {upcall : Upcall} {method : String} {args : Option String} {w w' : World}
    {v : Json} (h : dispatch upcall method args w = (.ok v, w')) : Answers v := by
  have hends : Ends (dispatch upcall method args w) (fun v _ => Answers v) fun _ _ => True := by
    unfold dispatch
    exact Act.ends_bind.mpr (.of_forall (fun r w => run_answers upcall r w) fun _ _ => trivial)
  exact hends.ok h

end Service

end EvmBridge
