import EvmBridge.Proofs.Refusals
import EvmBridge.Proofs.Transparency
import EvmBridge.Proofs.UseAfterClose
import Mathlib.Data.Nat.Digits.Defs

/-!
# Calls that open and close

What becomes of the handles when a call goes through the gateway:

* a call that neither opens nor closes leaves all handles as they were, if its callbacks do
  (`Gateway.invoke_keepsHandles`);
* a call that opens is answered with the new handle, or there is none (`Gateway.opens_cases`);
* a call that closes a handle in use takes it out, and is never refused (`Gateway.closes_cases`).

An answer can get lost only for want of a buffer. Answers of these calls are so short that a buffer
can be had for them unless creations are made to fail (`Buffers.isSome_put_success`).
-/

namespace EvmBridge

open Engine (Adds Drops SameHandles)

/-! ## Short answers -/

theorem length_toString_toInt (n : Int32) : (toString n.toInt).length ≤ 11 := by
  have hlow := n.le_toInt
  have hhigh := n.toInt_lt
  rcases hn : n.toInt with m | m
  · rw [hn, Int.ofNat_eq_natCast] at hhigh
    have hdigits := Nat.repr_length m 10 (by decide) (by omega)
    exact Nat.le_succ_of_le hdigits
  · rw [hn] at hlow
    have hdigits := Nat.repr_length (m + 1) 10 (by decide) (by omega)
    have hsign : (toString (Int.negSucc m)).length = 1 + (Nat.repr (m + 1)).length :=
      String.length_append "-" _
    omega

/-- A buffer can be had for a short answer. -/
theorem Buffers.isSome_put_success {b : Buffers} (hfail : b.failNext = 0) {v : Json}
    (hv : v.chars.length ≤ 11) : (b.put (Utf8.encode (Envelope.success v).encode)).1.isSome := by
  refine isSome_put hfail ?_
  have hbytes := Utf8.length_encode_le (Envelope.success v).encode
  rw [Envelope.length_success] at hbytes
  rw [maxSize]
  omega

/-! ## What opens and what closes -/

namespace Service

variable {upcall : Upcall} {r : Request} {w w' : World}

theorem buffers_opens {c : Category} (hr : r.opens = some c) :
    (run upcall r w).2.buffers = w.buffers := by
  have hsame : Always (fun w' => w'.buffers = w.buffers) (run upcall r w) := by
    cases r with
    | openMemory => exact always_map rfl
    | openDisk p => exact always_map (always_ofExcept rfl fun _ _ => rfl)
    | openView p =>
        exact always_map (always_ofExcept rfl fun _ _ => always_ofExcept rfl fun _ _ => rfl)
    | createTracer options => exact always_map (always_ofExcept rfl fun _ _ => rfl)
    | _ => exact absurd hr (by simp [Request.opens])
  exact hsame.world

/-- What closes has nothing to tell. -/
theorem ends_closes_null {x : Category × Handle} (hr : r.closes = some x) :
    Ends (run upcall r w) (fun a w' => a = .null ∧ w'.buffers = w.buffers) fun _ _ => True := by
  cases r with
  | closeStore p | closeView p | removeTracer p =>
      exact Act.ends_map.mpr (Act.ends_ofExcept (fun _ _ => trivial) fun _ _ => ⟨rfl, rfl⟩)
  | _ => exact absurd hr (by simp [Request.closes])

end Service

theorem Codec.ofJson_int32 (n : Int32) : int32.ofJson (int32.toJson n) = .ok n := by
  have hlow := n.le_toInt
  have hhigh := n.toInt_lt
  show integer.inRange "i32" (-0x80000000) 0x7fffffff Int32.ofInt n.toInt = _
  rw [integer.inRange, if_pos ⟨hlow, by omega⟩, Int32.ofInt_toInt]

/-! ## Handles at rest -/

/-- Neither opens nor closes anything. -/
def Request.KeepsHandles (r : Request) : Prop := r.opens = none ∧ r.closes = none

/-- Handles are as they were, and callbacks leave them so. -/
structure World.Rests (e : Engine) (w : World) : Prop where
  same : e.SameHandles w.engine
  makes : w.Makes Request.KeepsHandles

namespace World.Rests

variable {e : Engine} {w w' : World} {upcall : Upcall}

theorem step (h : w.Rests e) (hsame : w.engine.SameHandles w'.engine)
    (haction : w'.action = w.action) : w'.Rests e := by
  refine ⟨h.same.trans hsame, fun id => ?_⟩
  rw [haction]
  exact h.makes id

theorem serves (hhost : ∀ (h : Handle) (args : Option Bytes) {w : World}, w.Rests e →
      (settle (upcall h args w)).Rests e) : Serves upcall Request.KeepsHandles (Rests e) where
  elsewhere h engine _ _ haction := h.step (.of_eq engine) haction
  prepared _ h := h.step (.refl _) rfl
  dumped _ h _ := h.step (.refl _) rfl
  passed text w h := h.step (.of_eq (World.engine_passed text w)) (World.action_passed text w)
  starved _ _ h := h.step (.refl _) rfl
  opened hr hc _ _ := by
    rw [hr.1] at hc
    cases hc
  closed hr hx _ _ := by
    rw [hr.2] at hx
    cases hx
  called _ _ _ _ _ h := h.step (.setView _ _ _) rfl
  committed _ _ h _ := h.step ((SameHandles.setView _ _ _).trans (.setStore _ _ _)) rfl
  traced _ _ _ h := h.step (.setTracer _ _ _) rfl
  applied _ hx _ h := by
    subst hx
    exact Executor.apply_keeps (fun _ _ _ h => h.step (.setView _ _ _) rfl)
      (fun _ _ _ h => h.step (.setTracer _ _ _) rfl) hhost _ h
  host h args _ hw := hhost h args hw

theorem serves_nested (e : Engine) (depth : Nat) :
    Serves (Proxy.nested depth) Request.KeepsHandles (Rests e) :=
  Proxy.serves_nested (·.makes) serves depth

end World.Rests

namespace Gateway

variable {ρ : Type} {c : Codec ρ} {method : String} {args : Option Json} {w w₁ : World}
  {category : Category} {h : Handle} {depth : Nat}

/-- **A call that neither opens nor closes leaves all handles as they were**, if its callbacks do.
-/
theorem invoke_keepsHandles (depth : Nat) (c : Codec ρ)
    (hr : ∀ r, Request.ofCall method (args.map Json.render) = .ok r → r.KeepsHandles)
    (hmakes : w.Makes Request.KeepsHandles) :
    w.engine.SameHandles
      (invoke (EntryPoint.invoke (Proxy.nested depth)) c method args w).2.engine :=
  (invoke_serves (World.Rests.serves_nested w.engine depth) c hr ⟨.refl _, hmakes⟩).same

/-- A call that was refused is told so, or nothing comes back. Before that the log is told. -/
theorem refused_rests {f : Fault} (hmethod : '\x00' ∉ method.toList)
    (hout : Service.dispatch (Proxy.nested depth) method (args.map Json.render)
      (announced method args w) = (.error f, w₁)) :
    ∃ x w', invoke (EntryPoint.invoke (Proxy.nested depth)) c method args w = (.error x, w') ∧
      ∀ {e : Engine}, w₁.Rests e → e.SameHandles w'.engine := by
  have hreported : ∀ {e : Engine}, w₁.Rests e →
      (Service.report (Proxy.nested depth) method (.error f) w₁).Rests e := by
    intro e hrests
    cases f with
    | overflow => exact hrests
    | error x =>
        exact Outgoing.log_settles hrests fun _ _ _ =>
          (World.Rests.serves_nested _ depth).host _ _ hrests
  have hdepth : (Envelope.codec.toJson (Envelope.ofOutcome (.error f))).depth ≤ Doc.maxDepth := by
    show max 0 (max 0 0) + 1 ≤ Doc.maxDepth
    decide
  rcases hput : (Service.report (Proxy.nested depth) method (.error f) w₁).buffers.put
    (Utf8.encode (Envelope.ofOutcome (.error f)).encode) with ⟨_ | id, b⟩
  · obtain ⟨_, _, _, hinvoke⟩ := invoke_starves (c := c) hmethod hout (by rw [hput])
    exact ⟨_, _, hinvoke, fun hrests => (hreported hrests).same⟩
  · obtain ⟨_, _, hinvoke⟩ := invoke_conveys (c := c) hmethod hout hdepth hput
    exact ⟨_, _, hinvoke, fun hrests => (hreported hrests).same⟩

/-- An answer without depth and of few characters comes back, unless creations of buffers are made
to fail. -/
theorem answered {upcall : Upcall} {v : Json} (hmethod : '\x00' ∉ method.toList)
    (hout : Service.dispatch upcall method (args.map Json.render) (announced method args w) =
      (.ok v, w₁)) (hdepth : v.depth = 0) (hv : v.chars.length ≤ 11)
    (hbuffers : w₁.buffers = w.buffers) :
    ∃ out w', invoke (EntryPoint.invoke upcall) c method args w = (out, w') ∧
      w'.engine = w₁.engine ∧
      (out = convey c method ((args.map Json.render).getD "") (.ok v) ∨
        w.buffers.failNext ≠ 0 ∧ ∃ reason, out = .error (.protocol method reason)) := by
  rcases hput : (Service.report upcall method (.ok v) w₁).buffers.put
    (Utf8.encode (Envelope.ofOutcome (.ok v)).encode) with ⟨_ | id, b⟩
  · obtain ⟨_, _, _, hinvoke⟩ := invoke_starves (c := c) hmethod hout (by rw [hput])
    refine ⟨_, _, hinvoke, rfl, .inr ⟨fun hfail => ?_, _, rfl⟩⟩
    have hsome := Buffers.isSome_put_success (b := w₁.buffers) (hbuffers ▸ hfail) hv
    have hnone : (w₁.buffers.put (Utf8.encode (Envelope.success v).encode)).1 = none :=
      congrArg Prod.fst hput
    rw [hnone] at hsome
    exact absurd hsome (by simp)
  · have hshallow : (Envelope.codec.toJson (Envelope.ofOutcome (.ok v))).depth ≤ Doc.maxDepth := by
      show max 0 (max v.depth 0) + 1 ≤ Doc.maxDepth
      rw [hdepth]
      decide
    obtain ⟨_, _, hinvoke⟩ := invoke_conveys (c := c) hmethod hout hshallow hput
    exact ⟨_, _, hinvoke, rfl, .inl rfl⟩

/-- **A call that opens is answered with the new handle**, whatever callbacks do. Else it fails, and
no handle is new, if callbacks open nothing either. -/
theorem opens_cases (depth : Nat) (hmethod : '\x00' ∉ method.toList)
    (hopens : ∀ r, Request.ofCall method (args.map Json.render) = .ok r →
      r.opens = some category)
    (hfail : w.buffers.failNext = 0) :
    (∃ h w', invoke (EntryPoint.invoke (Proxy.nested depth)) .int32 method args w = (.ok h, w') ∧
      Adds w.engine w'.engine category h ∧
      ∀ {w₀ es}, Service.History w₀ es w → Service.History w₀ (es ++ [.opened category h]) w') ∨
    ∃ x w', invoke (EntryPoint.invoke (Proxy.nested depth)) .int32 method args w = (.error x, w') ∧
      (w.Makes Request.KeepsHandles → w.engine.SameHandles w'.engine) := by
  have hrests : w.Makes Request.KeepsHandles → (announced method args w).Rests w.engine :=
    fun hmakes => ⟨.refl _, hmakes⟩
  cases hread : Request.ofCall method (args.map Json.render) with
  | error e =>
      obtain ⟨x, w', hinvoke, hsame⟩ :=
        refused_rests (c := .int32) hmethod (Service.dispatch_unread hread (Proxy.nested depth) _)
      exact .inr ⟨x, w', hinvoke, fun hmakes => hsame (hrests hmakes)⟩
  | ok r =>
      have hr := hopens r hread
      rcases hrun : Service.run (Proxy.nested depth) r (announced method args w) with ⟨f | a, w₁⟩
      · have hout := (Service.dispatch_eq hread _ _).trans hrun
        obtain ⟨x, w', hinvoke, hsame⟩ := refused_rests (c := .int32) hmethod hout
        refine .inr ⟨x, w', hinvoke, fun hmakes => hsame ?_⟩
        rcases (Service.ends_opens hr).error hrun with rfl | ⟨p, rfl, rfl⟩
        · exact hrests hmakes
        · exact (hrests hmakes).step (.refl _) rfl
      · have hout := (Service.dispatch_eq hread _ _).trans hrun
        obtain ⟨h, rfl, hadds⟩ := (Service.ends_opens hr).ok hrun
        have hbuffers : w₁.buffers = w.buffers := by
          have hsame : (Service.run (Proxy.nested depth) r _).2.buffers = _ :=
            Service.buffers_opens (w := announced method args w) hr
          rwa [hrun] at hsame
        have hshort : (Codec.int32.toJson h).chars.length ≤ 11 := length_toString_toInt h
        obtain ⟨out, w', hinvoke, hengine, hout'⟩ :=
          answered (c := .int32) hmethod hout rfl hshort hbuffers
        have hok : out = .ok h := by
          rcases hout' with rfl | ⟨hstarved, _⟩
          · rw [convey, Codec.ofJson_int32]
            rfl
          · exact absurd hfail hstarved
        refine .inl ⟨h, w', hok ▸ hinvoke, hengine ▸ hadds, fun hist => ?_⟩
        have hstart : Service.History _ _ (announced method args w) := hist.other (.refl _)
        exact (hstart.opened hr hrun).other (.of_eq hengine)

/-- **A call that closes a handle in use takes it out.** It is answered, unless creations of buffers
are made to fail; it is never refused. -/
theorem closes_cases (upcall : Upcall) {r : Request} {i : Nat} (hmethod : '\x00' ∉ method.toList)
    (hread : Request.ofCall method (args.map Json.render) = .ok r)
    (hr : r.closes = some (category, h)) (hi : w.engine.find category h = .ok i) :
    ∃ out w', invoke (EntryPoint.invoke upcall) .ignored method args w = (out, w') ∧
      Drops w.engine w'.engine category h ∧
      (∀ {w₀ es}, Service.History w₀ es w → Service.History w₀ (es ++ [.closed category h]) w') ∧
      (∀ m t message, out ≠ .error (.operation m t message)) ∧
      (w.buffers.failNext = 0 → out = .ok ()) := by
  obtain ⟨a, w₁, hrun⟩ : ∃ a w₁, Service.run upcall r (announced method args w) = (.ok a, w₁) :=
    Service.closes_of_find hr hi
  obtain ⟨rfl, hbuffers⟩ := (Service.ends_closes_null hr).ok hrun
  have hdrops := (Service.ends_closes hr).ok hrun
  obtain ⟨out, w', hinvoke, hengine, hout⟩ := answered (c := .ignored) hmethod
    ((Service.dispatch_eq hread _ _).trans hrun) rfl (by decide) hbuffers
  refine ⟨out, w', hinvoke, hengine ▸ hdrops, fun hist => ?_, fun m t message => ?_,
    fun hfail => ?_⟩
  · have hstart : Service.History _ _ (announced method args w) := hist.other (.refl _)
    exact (hstart.closed hr hrun).other (.of_eq hengine)
  · rcases hout with rfl | ⟨_, reason, rfl⟩ <;> exact fun h => by cases h
  · rcases hout with rfl | ⟨hstarved, _⟩
    · rfl
    · exact absurd hfail hstarved

end Gateway

end EvmBridge
