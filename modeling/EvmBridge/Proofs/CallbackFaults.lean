import EvmBridge.Proofs.CallbackAnswers
import EvmBridge.Proofs.LiveSnapshots
import EvmBridge.Proofs.Overflow

/-!
# Faults of callbacks

What goes wrong in a callback stays there. It may answer nothing or nonsense, break off, be missing,
or find no buffer for its answer: the executor takes whatever arrives, and answers.

There are two callbacks that a call can reach, and its result tells what they answered. A call that
asks for the hash of the previous block succeeds in any case (`Told.blockHash`), with the hash zero
if none arrived. A call that the host should execute succeeds, is reverted or fails as the answer
says, and fails if there is no answer that can be read (`Told.external`). `Executor.apply_contained`
says this for an apply whose callbacks do not call the module.
-/

namespace EvmBridge

/-! ## Worlds with other objects -/

namespace World

/-- Nothing is different but the objects of the module. -/
def Beside (w w' : World) : Prop := ∃ e : Engine, w' = w.withEngine e

theorem Beside.refl (w : World) : w.Beside w := ⟨w.engine, rfl⟩

theorem Beside.setView {w w' : World} (h : w.Beside w') (i : Nat) (v : View) :
    w.Beside (w'.setView i v) := by
  obtain ⟨e, rfl⟩ := h
  exact ⟨_, rfl⟩

theorem Beside.traced {w w' : World} (h : w.Beside w') (x : Executor) (f : Tracer → Tracer) :
    w.Beside (x.traced f w') := by
  obtain ⟨e, rfl⟩ := h
  unfold Executor.traced
  split
  · exact ⟨e, rfl⟩
  · exact ⟨_, rfl⟩

theorem Aloof.beside {w w' : World} (hw : w.Aloof) (h : w.Beside w') : w'.Aloof := by
  obtain ⟨e, rfl⟩ := h
  exact hw

/-- What is read from a callback, if anything arrives and can be read. -/
def answered {α : Type} (upcall : Upcall) (c : Codec α) (h : Handle) (args : String) (w : World) :
    Option α :=
  (w.arriving upcall h args).bind fun text => (c.decode text).toOption

end World

/-- A query brings what is read from the callback, whatever the objects of the module are. -/
theorem Outgoing.query_answered {α : Type} {w w' : World} (upcall : Upcall) (hw : w.Aloof)
    (hbeside : w.Beside w') (c : Codec α) (h : Handle) (v : Json) :
    (query (Proxy.serve upcall) c h v.render w').1.toOption =
      w.answered upcall c h v.render := by
  obtain ⟨e, rfl⟩ := hbeside
  rw [toOption_query c v.nul_render, World.arriving_withEngine hw]
  rfl

namespace Executor

variable {upcall : Upcall} {x : Executor} {w w' : World} {v : View} {inv : Invocation}
  {callee : Address} {r : InvocationResult}

/-! ## Aloof callbacks leave the view alone -/

theorem spares_of_aloof (hserve : x.upcall = Proxy.serve upcall) (v : View) :
    x.Spares fun w => w.Holds x.view v ∧ w.Aloof := by
  have hserved : ∀ (h : Handle) (args? : Option Bytes) {w : World},
      w.Holds x.view v ∧ w.Aloof →
        (settle (x.upcall h args? w)).Holds x.view v ∧ (settle (x.upcall h args? w)).Aloof := by
    rintro h args? w ⟨hv, hw⟩
    refine settle_keeps (J := fun w => w.Holds x.view v ∧ w.Aloof) (fun _ hJ => hJ) ?_
    rw [hserve]
    have haside := Proxy.aside_serve upcall h args?
    exact ⟨hv.of_views (congrArg Engine.views (haside.engine hw)), haside.aloof hw⟩
  constructor
  · rintro f w ⟨hv, hw⟩
    exact ⟨hv.of_views (x.views_traced f w), hw.beside ((World.Beside.refl w).traced x f)⟩
  · intro α c h args w hJ
    exact Outgoing.query_settles (J := fun w => w.Holds x.view v ∧ w.Aloof) c hJ
      (hserved h _ hJ)
  · intro level msg fields w hJ
    exact Outgoing.log_settles (J := fun w => w.Holds x.view v ∧ w.Aloof) hJ
      fun sink args _ => hserved sink.handle _ hJ

theorem still_of_aloof (hserve : x.upcall = Proxy.serve upcall) : x.Still World.Aloof where
  spares := spares_of_aloof hserve
  put _ _ hw := hw

/-! ## What the result tells of a callback -/

/-- The result says what was answered, if anything was. -/
structure Follows (answer : Option InvocationResult) (r : InvocationResult) : Prop where
  /-- It succeeds if there is an answer that is a success. -/
  success : r.isSuccess ↔ ∃ a, answer = some a ∧ a.reverted = false ∧ a.executionError = ""
  /-- It is reverted if there is an answer that is reverted. -/
  revert : r.reverted ↔ ∃ a, answer = some a ∧ a.reverted
  /-- In all other cases it fails, and nothing is left of the gas. -/
  failure : ¬ r.isSuccess → ¬ r.reverted → r.leftOverGas = 0

theorem follows_outcome (remaining : UInt64) (o : Except EngineError InvocationResult) :
    Follows o.toOption (outcome remaining o) := by
  have hprefixed (s : String) : ("external contract invocation failed: " ++ s).isEmpty = false := by
    rw [← Bool.not_eq_true, String.isEmpty_iff]
    simp
  rcases o with e | a
  · constructor <;> simp [outcome, Except.toOption, InvocationResult.failure,
      InvocationResult.isSuccess, hprefixed]
  · by_cases hreverted : a.reverted
    · constructor <;> simp [outcome, Except.toOption, InvocationResult.revert,
        InvocationResult.isSuccess, hreverted]
    · by_cases herror : a.executionError = ""
      · constructor <;> simp [outcome, Except.toOption, InvocationResult.success,
          InvocationResult.isSuccess, hreverted, herror]
      · constructor <;> simp [outcome, Except.toOption, InvocationResult.failure,
          InvocationResult.isSuccess, hreverted, herror, hprefixed]

/-- The hash that counts as that of a block: what is read from the callback for it, and zero if
that is nothing. Without a callback it is made up. -/
def hashTaken (upcall : Upcall) (context : EvmContext) (number : Nat) (w : World) : Hash :=
  match context.blockHashCallback with
  | none => mockBlockHash number
  | some h => (w.answered upcall Codec.hash h (Json.str (Quantity.encode number)).render).getD .zero

/-- The call as the host is asked to execute it. -/
def handedOver (context : EvmContext) (inv : Invocation) : ExternalInvocation :=
  { inv with gas := inv.gas - UInt64.ofNat (cost inv) }.atDepth (context.initialDepth + 1)

/-- The result of a call says what the callback answered that it reached. -/
structure Told (upcall : Upcall) (context : EvmContext) (inv : Invocation) (callee : Address)
    (w : World) (r : InvocationResult) : Prop where
  /-- A call that asks for the hash of the previous block succeeds and returns one. -/
  blockHash : ¬ context.externalContracts.contains callee →
    blockHashSelector.isPrefixOf inv.input →
    r.isSuccess ∧ r.returnData.length = 32 ∧
      r.returnData = (hashTaken upcall context (context.blockNumber.getD 0 - 1) w).bytes
  /-- A call that the host should execute ends as the host says. -/
  external : context.externalContracts.contains callee → ∀ h, context.externalCallback = some h →
    Follows (w.answered upcall InvocationResult.codec h
      (ExternalInvocation.codec.encode (handedOver context inv))) r

/-! ## From the callback to the apply -/

section

variable (hserve : x.upcall = Proxy.serve upcall) (hw : w.Aloof)
include hserve hw

theorem external_follows (hbeside : w.Beside w') (hcallee : inv.callee = some callee)
    {h : Handle} (hh : x.context.externalCallback = some h)
    (hdepth : x.context.initialDepth.toNat + 1 < UInt32.size) :
    Ends (x.external inv callee (inv.gas - UInt64.ofNat (cost inv)) w')
      (fun r _ => Follows (w.answered upcall InvocationResult.codec h
        (ExternalInvocation.codec.encode (handedOver x.context inv))) r)
      fun _ _ => False := by
  have hfollows : ∀ {remaining : UInt64} {w₁ : World}, w.Beside w₁ →
      Follows (w.answered upcall InvocationResult.codec h
          (ExternalInvocation.codec.encode (handedOver x.context inv)))
        (outcome remaining (Outgoing.query x.upcall InvocationResult.codec h
          (ExternalInvocation.codec.encode (handedOver x.context inv)) w₁).1) := by
    intro remaining w₁ hbeside
    rw [hserve]
    have hanswered := Outgoing.query_answered upcall hw hbeside InvocationResult.codec h
      (ExternalInvocation.codec.toJson (handedOver x.context inv))
    exact hanswered ▸ follows_outcome remaining _
  unfold external
  rw [hh]
  simp only [Act.ends_bind, ends_nextDepth, ends_trace, ends_query, Act.ends_pure, if_pos hdepth,
    ← hcallee]
  exact hfollows (hbeside.traced x _)

theorem blockHash_taken (hbeside : w.Beside w') (number : Nat) :
    Ends (x.blockHash number w') (fun hash _ => hash = hashTaken upcall x.context number w)
      fun _ _ => False := by
  unfold blockHash hashTaken
  cases x.context.blockHashCallback with
  | none => rfl
  | some h =>
      have hanswered := Outgoing.query_answered upcall hw hbeside Codec.hash h
        (Json.str (Quantity.encode number))
      simp only [Act.ends_bind, ends_query]
      rw [hserve, ← hanswered]
      rcases Outgoing.query (Proxy.serve upcall) Codec.hash h
        (Json.str (Quantity.encode number)).render w' with ⟨e | hash, w'⟩
      · rfl
      · rfl

/-- The result of an answer says what the callback answered. -/
theorem answer_told (hbeside : w.Beside w') (hcallee : inv.callee = some callee)
    (hdepth : x.context.initialDepth.toNat + 1 < UInt32.size) :
    Ends (x.answer inv callee (inv.gas - UInt64.ofNat (cost inv)) w')
      (fun r _ => Told upcall x.context inv callee w r) fun _ _ => False := by
  unfold answer
  split
  · rename_i hexternal
    cases hh : x.context.externalCallback with
    | none =>
        unfold external
        rw [hh]
        exact ⟨fun hne => absurd hexternal hne, fun _ h hsome => absurd hsome (by simp [hh])⟩
    | some h =>
        refine (external_follows hserve hw hbeside hcallee hh hdepth).imp ?_ fun _ _ h => h
        intro r _ hr
        refine ⟨fun hne => absurd hexternal hne, fun _ h' hsome => ?_⟩
        obtain rfl : h = h' := Option.some.inj (hh.symm.trans hsome)
        exact hr
  · rename_i hinternal
    split
    · refine Act.ends_bind.mpr ((blockHash_taken hserve hw hbeside _).imp ?_ fun _ _ h => h)
      rintro hash w₁ rfl
      exact ⟨fun _ _ => ⟨rfl, FixedBytes.size_eq _, rfl⟩, fun hext => absurd hext hinternal⟩
    · rename_i hplain
      exact ⟨fun _ hselects => absurd hselects hplain, fun hext => absurd hext hinternal⟩

end

/-- A call gets to the account that it is for: it can be paid, may be made, and is covered. -/
structure Lands (inv : Invocation) (v : View) (callee : Address) : Prop where
  callee : inv.callee = some callee
  paid : cost inv ≤ inv.gas.toNat
  allowed : inv.readOnly → inv.value.getD 0 = 0
  covered : inv.value.getD 0 ≤ v.balance inv.caller

/-- What is covered is not refused. -/
theorem Lands.not_refused (hl : Lands inv v callee) {reason : String} :
    (counted v inv.caller).transfer inv.caller callee (inv.value.getD 0) ≠ .error reason := by
  intro hrefused
  have hshort := (View.transfer_error hrefused).1
  rw [View.balance_eq, accountAt_counted, ← View.balance_eq] at hshort
  exact absurd hl.covered (Nat.not_le.mpr hshort)

section

variable (hserve : x.upcall = Proxy.serve upcall) (hw : w.Aloof)
  (hdepth : x.context.initialDepth.toNat + 1 < UInt32.size)
include hserve hw hdepth

theorem body_told (hbeside : w.Beside w') (hv : w'.Holds x.view v) (hl : Lands inv v callee) :
    Ends (x.body inv (inv.value.getD 0) (inv.gas - UInt64.ofNat (cost inv)) w')
      (fun r _ => Told upcall x.context inv callee w r) fun _ _ => True := by
  unfold body
  rw [hl.callee]
  refine ends_call hv.view (fun _ => trivial) (fun _ h => absurd h hl.not_refused) fun v' _ _ => ?_
  exact (answer_told hserve hw (hbeside.setView _ v') hl.callee hdepth).imp (fun _ _ h => h)
    fun _ _ _ => trivial

theorem run_told (hbeside : w.Beside w') (hv : w'.Holds x.view v) (hl : Lands inv v callee) :
    Ends (x.run inv w') (fun r _ => Told upcall x.context inv callee w r) fun _ _ => True := by
  refine ends_run hv.view ?_ ?_ (fun _ => trivial) fun _ _ _ => ?_
  · exact fun hgas => absurd hl.paid (Nat.not_le.mpr hgas)
  · exact fun hreadOnly hvalue => absurd (hl.allowed hreadOnly) (Nat.ne_of_gt hvalue)
  · have hl : Lands inv v.mark callee := ⟨hl.callee, hl.paid, hl.allowed, hl.covered⟩
    refine (body_told hserve hw hdepth (hbeside.setView _ _) (hv.setView _) hl).imp ?_ ?_
    · -- what is undone has no part in the result
      intro r w₁ htold
      split
      · exact htold
      · exact Ends.of_forall (fun _ _ => htold) fun _ _ => trivial
    · intro f w₁ _
      cases f with
      | overflow => trivial
      | error e => exact Ends.of_forall (fun _ _ => trivial) fun _ _ => trivial

/-- The result of an apply that is answered says what the callback answered that the call reached.
-/
theorem apply_told (hv : w.Holds x.view v) (hl : Lands (fueled inv) v callee)
    {r : InvocationResult} (hx : x.apply inv w = (.ok r, w')) :
    Told upcall x.context (fueled inv) callee w r := by
  have hends : Ends (x.apply inv w) (fun r _ => Told upcall x.context (fueled inv) callee w r)
      fun _ _ => True :=
    ends_apply (run_told hserve hw hdepth ((World.Beside.refl w).traced x _)
      (hv.of_views (views_traced x _ w)) hl)
  exact hends.ok hx

/-- If three counters have room, an apply is answered. -/
theorem apply_answers (inv : Invocation) (hv : w.Holds x.view v)
    (hroom : v.nextRevision < View.maxRevision)
    (hnonce : (v.nonce inv.caller).toNat + 1 < UInt64.size) :
    ∃ r w', x.apply inv w = (.ok r, w') := by
  rcases hx : x.apply inv w with ⟨f | r, w'⟩
  · obtain ⟨_, ⟨hfull, _⟩ | ⟨u, hbreaks, _⟩⟩ :=
      (apply_breaksOff (still_of_aloof hserve) hv hw).error hx
    · exact absurd hroom hfull
    · have hcaller : (fueled inv).caller = inv.caller := by unfold fueled; split <;> rfl
      cases hbreaks.stops with
      | nonce hfull =>
          have hfull : (v.nonce (fueled inv).caller).toNat + 1 = UInt64.size := hfull
          rw [hcaller] at hfull
          omega
      | depth _ _ _ _ _ hfull => omega
  · exact ⟨r, w', rfl⟩

end

/-- **Faults of callbacks are contained.** Callbacks that do not call the module may answer anything
or nothing, break off, or be missing, and buffers may fail: if there is a number for one more
snapshot, and the nonce of the caller and the depth can be counted, an apply is answered, and the
result of a call that reaches a callback says what this callback answered. -/
theorem apply_contained (inv : Invocation) (hserve : x.upcall = Proxy.serve upcall) (hw : w.Aloof)
    (hv : w.Holds x.view v) (hroom : v.nextRevision < View.maxRevision)
    (hnonce : (v.nonce inv.caller).toNat + 1 < UInt64.size)
    (hdepth : x.context.initialDepth.toNat + 1 < UInt32.size) :
    ∃ r w', x.apply inv w = (.ok r, w') ∧ ∀ callee, Lands (fueled inv) v callee →
      Told upcall x.context (fueled inv) callee w r := by
  obtain ⟨r, w', hx⟩ := apply_answers hserve hw hdepth inv hv hroom hnonce
  exact ⟨r, w', hx, fun callee hl => apply_told hserve hw hdepth hv hl hx⟩

/-- The callback that should execute a call breaks off. The call fails, and no gas is left. -/
theorem apply_contained_crash :
    let upcall : Upcall := fun _ _ w => (none, w)
    let x : Executor :=
      { upcall := Proxy.serve upcall, view := 0, tracer := none
        context := { externalContracts := [.zero], externalCallback := some 1 } }
    let inv : Invocation := { caller := .zero, callee := some .zero, gas := 30000 }
    let v : View := { store := 0 }
    let w : World :=
      { engine := { views := { objects := [v] } }, connected := true
        registry := ⟨.ofList [(1, 0)]⟩
        callbacks := [{ label := 0, action := .plain fun _ => .crash "out of order" }] }
    w.Aloof ∧ w.Holds 0 v ∧ Lands (fueled inv) v .zero ∧
      ∃ r w', x.apply inv w = (.ok r, w') ∧ r.executionError ≠ "" ∧ r.reverted = false ∧
        r.leftOverGas = 0 := by
  intro upcall x inv v w
  have haloof : w.Aloof := by
    rintro (_ | id)
    · exact fun _ => trivial
    · exact trivial
  have hlands : Lands (fueled inv) v .zero := ⟨rfl, by decide, fun _ => rfl, Nat.zero_le _⟩
  obtain ⟨r, w', hx, htold⟩ :=
    apply_contained inv (x := x) rfl haloof (v := v) rfl (by decide) (by decide) (by decide)
  have hfollows := (htold .zero hlands).external rfl 1 rfl
  -- nothing arrives from a callback that breaks off
  have hnothing : ∀ (args : String) (P : InvocationResult → Prop),
      ¬ ∃ a, w.answered upcall InvocationResult.codec 1 args = some a ∧ P a := by
    rintro args P ⟨a, ha, _⟩
    exact absurd (show none = some a from ha) (by simp)
  have hfails : ¬ r.isSuccess := fun h => hnothing _ _ (hfollows.success.mp h)
  have hkept : ¬ r.reverted := fun h => hnothing _ _ (hfollows.revert.mp h)
  refine ⟨haloof, rfl, hlands, r, w', hx, fun h => hfails ?_, by simpa using hkept,
    hfollows.failure hfails hkept⟩
  rw [InvocationResult.isSuccess, h]
  rfl

theorem aloof_parrot (answer : String) (e : Engine) :
    ((Outgoing.parrot answer).withEngine e).Aloof := by
  rintro (_ | id)
  · exact fun _ => trivial
  · exact trivial

/-- Without a number for its snapshot, an apply that can be paid is not answered. -/
theorem apply_unnumbered (hv : w.Holds x.view v) (hfull : ¬ v.nextRevision < View.maxRevision)
    (hl : Lands (fueled inv) v callee) :
    Ends (x.apply inv w) (fun _ _ => False) fun f _ => f = .overflow := by
  have hstarted := hv.of_views (views_traced x
    (fun t => (t.txStart (fueled inv).gas).start (frame (fueled inv))) w)
  refine ends_apply (ends_run hstarted.view ?_ ?_ (fun _ => rfl) fun _ _ h => absurd h hfull)
  · exact fun hgas => absurd hl.paid (Nat.not_le.mpr hgas)
  · exact fun hreadOnly hvalue => absurd (hl.allowed hreadOnly) (Nat.ne_of_gt hvalue)

/-- **Two ways out.** The same call is made twice, of a contract that the host executes. When
`2 ^ 31 - 1` snapshots have been taken of the view, it is not answered at all. On a new view it is
answered and succeeds, although the callback says what cannot be read: it says a success and goes on
behind a NUL character, and the success is all that arrives. -/
theorem apply_not_contained :
    let x : Executor :=
      { upcall := Proxy.nested 1, view := 0, tracer := none
        context := { externalContracts := [.zero], externalCallback := some 1 } }
    let inv : Invocation := { caller := .zero, callee := some .zero, gas := 30000 }
    let args := ExternalInvocation.codec.encode (handedOver x.context (fueled inv))
    let success := InvocationResult.codec.encode (.success [] 0)
    let spoilt := success ++ "\x00" ++ "or not"
    let w := fun (v : View) (answer : String) =>
      (Outgoing.parrot answer).withEngine { views := { objects := [v] } }
    let v : View := { store := 0 }
    let old := v.after (List.replicate View.maxRevision .snapshot)
    (∀ u answer, (w u answer).Aloof) ∧ x.context.initialDepth.toNat + 1 < UInt32.size ∧
      ((old.nonce inv.caller).toNat + 1 < UInt64.size ∧ Lands (fueled inv) old .zero ∧
        (x.apply inv (w old success)).1 = .error .overflow) ∧
      ((v.nonce inv.caller).toNat + 1 < UInt64.size ∧ Lands (fueled inv) v .zero ∧
        (w v spoilt).Replies (Proxy.nested 0) 1 args spoilt ∧
        (InvocationResult.codec.decode spoilt).toOption = none ∧
        ∃ r w', x.apply inv (w v spoilt) = (.ok r, w') ∧ r.isSuccess) := by
  intro x inv args success spoilt w v old
  have haloof : ∀ u answer, (w u answer).Aloof := fun u answer => aloof_parrot answer _
  have hnonce : (v.nonce inv.caller).toNat + 1 < UInt64.size := by decide
  have hlands : ∀ u : View, Lands (fueled inv) u .zero := fun _ =>
    ⟨rfl, by decide, fun _ => rfl, Nat.zero_le _⟩
  have hdepth : x.context.initialDepth.toNat + 1 < UInt32.size := by decide
  refine ⟨haloof, hdepth, ?_, hnonce, hlands v, ?_⟩
  · obtain ⟨revisions, hold⟩ :=
      v.after_snapshots View.maxRevision (Nat.le_of_eq (Nat.zero_add _))
    change old = _ at hold
    clear_value old
    have hfull : ¬ old.nextRevision < View.maxRevision := by
      rw [hold, Nat.zero_add]
      exact Nat.lt_irrefl _
    have hends : Ends (x.apply inv (w old success)) (fun _ _ => False) fun f _ => f = .overflow :=
      apply_unnumbered rfl hfull (hlands old)
    refine ⟨by rw [hold]; exact hnonce, hlands old, ?_⟩
    rcases hx : x.apply inv (w old success) with ⟨f | r, w'⟩
    · rw [hends.error hx]
    · exact (hends.ok hx).elim
  · have hreply : (w v spoilt).Replies (Proxy.nested 0) 1 args spoilt :=
      Outgoing.replies_parrot _ (Json.nul_render _) (by decide +kernel)
    have hserve : x.upcall = Proxy.serve (Proxy.nested 0) := rfl
    have hholds : (w v spoilt).Holds x.view v := rfl
    have hroom : v.nextRevision < View.maxRevision := by decide
    obtain ⟨r, w', hx⟩ := apply_answers hserve (haloof v spoilt) hdepth inv hholds hroom hnonce
    have htold := apply_told hserve (haloof v spoilt) hdepth hholds (hlands v) hx
    have hfollows := htold.external rfl 1 rfl
    refine ⟨hreply, by decide +kernel, r, w', hx,
      hfollows.success.mpr ⟨.success [] 0, ?_, rfl, rfl⟩⟩
    have hcut : Utf8.beforeNul spoilt = success := Utf8.beforeNul_append (Json.nul_render _) _
    have harrives : (w v spoilt).arriving (Proxy.nested 0) 1 args = some success := by
      rw [hreply.arriving, hcut]
    show ((w v spoilt).arriving (Proxy.nested 0) 1 args).bind _ = _
    rw [harrives, Option.bind_some, InvocationResult.roundTrips.decode_encode]
    rfl

end Executor

end EvmBridge
