import EvmBridge.Engine.Executor
import EvmBridge.Proofs.Ends

/-!
# What an executor does step by step

One lemma for each function of the executor, in the order in which they call each other. As far as
the view goes, every function but one is told exactly: what it puts there, and when it stops
instead. The exception is `Executor.answer`, where the host is called and anything may happen to the
world. All that is said of it is `Attends.answer`: what tracer and host keep, the answer keeps.
-/

namespace EvmBridge

namespace World

/-- There is a view at a place, and this is it. -/
def Holds (w : World) (i : Nat) (v : View) : Prop := w.engine.views.objects[i]? = some v

theorem Holds.view {w : World} {i : Nat} {v : View} (h : w.Holds i v) : w.view i = v := by
  rw [World.view, Pool.get, h]; rfl

theorem Holds.setView {w : World} {i : Nat} {v : View} (h : w.Holds i v) (v' : View) :
    (w.setView i v').Holds i v' := by
  have hi := (List.getElem?_eq_some_iff.mp h).1
  exact List.getElem?_set_self hi

theorem Holds.setView_ne {w : World} {i j : Nat} {v : View} (h : w.Holds i v) (hj : j ≠ i)
    (u : View) : (w.setView j u).Holds i v := by
  show (w.engine.views.objects.set j u)[i]? = some v
  rw [List.getElem?_set_ne hj]
  exact h

theorem Holds.of_views {w w' : World} {i : Nat} {v : View} (h : w.Holds i v)
    (hw : w'.engine.views = w.engine.views) : w'.Holds i v := by
  rw [Holds, hw]; exact h

theorem Holds.unique {w : World} {i : Nat} {v v' : View} (h : w.Holds i v) (h' : w.Holds i v') :
    v = v' :=
  h.view.symm.trans h'.view

end World

/-! ## Calls out of the module -/

/-- The module takes an answer of the host: it reads the buffer and releases it. -/
def settle : Option BufferId × World → World
  | (none, w) => w
  | (some id, w) => { w with buffers := (w.buffers.take id).2 }

theorem settle_keeps {J : World → Prop} {o : Option BufferId × World}
    (hbuffers : ∀ {w : World} (buffers : Buffers), J w → J { w with buffers }) (ho : J o.2) :
    J (settle o) := by
  rcases o with ⟨_ | id, w⟩
  · exact ho
  · exact hbuffers _ ho

namespace Outgoing

variable {upcall : Upcall} {J : World → Prop} {w : World} {h : Handle} {args : String}

/-- Asking changes nothing but through the host, whose answer is taken. -/
theorem ask_settles (hw : J w) (hup : J (settle (upcall h (some (Utf8.encode args)) w))) :
    J (ask upcall h args w).2 := by
  unfold ask
  split
  · exact hw
  · split
    · exact hw
    · rcases hu : upcall h (some (Utf8.encode args)) w with ⟨_ | id, w₁⟩ <;> rw [hu] at hup
      · exact hup
      · dsimp only
        split <;> exact hup

theorem invoke_settles (expectResult : Bool) (hw : J w)
    (hup : J (settle (upcall h (some (Utf8.encode args)) w))) :
    J (invoke upcall h args expectResult w).2 := by
  have hask := ask_settles hw hup
  unfold invoke
  split <;> rename_i he <;> rw [he] at hask
  · exact hask
  · split <;> exact hask
  · split <;> exact hask

theorem query_settles {α : Type} (c : Codec α) (hw : J w)
    (hup : J (settle (upcall h (some (Utf8.encode args)) w))) :
    J (query upcall c h args w).2 := by
  have hin := invoke_settles true hw hup
  unfold query
  split <;> rename_i he <;> rw [he] at hin <;> exact hin

/-- A record of the log goes to the callback of the sink, if it goes anywhere. -/
theorem log_settles {level : Level} {msg : String} {fields : List (String × Json)} (hw : J w)
    (hup : ∀ sink args, w.sink = some sink → J (settle (upcall sink.handle args w))) :
    J (log upcall level msg fields w) := by
  unfold log
  cases hs : w.sink with
  | none => exact hw
  | some sink =>
      dsimp only
      split
      · exact invoke_settles false hw (hup sink _ hs)
      · exact hw

theorem log_spares (hbuffers : ∀ {w : World} (buffers : Buffers), J w → J { w with buffers })
    {level : Level} {msg : String} {fields : List (String × Json)} (hw : J w)
    (hup : ∀ sink args, w.sink = some sink → J (upcall sink.handle args w).2) :
    J (log upcall level msg fields w) :=
  log_settles hw fun sink args hs => settle_keeps hbuffers (hup sink args hs)

theorem log_keeps (hviews : ∀ {w w' : World}, w'.engine.views = w.engine.views → J w → J w')
    {level : Level} {msg : String} {fields : List (String × Json)} (hw : J w)
    (hup : ∀ sink args, w.sink = some sink → J (upcall sink.handle args w).2) :
    J (log upcall level msg fields w) :=
  log_spares (J := J) (fun _ => hviews rfl) hw hup

end Outgoing

/-- What the host keeps, whatever callback it is asked for. It is about the views only. -/
structure HostInvariant (upcall : Upcall) (J : World → Prop) : Prop where
  /-- Nothing but the views counts. -/
  views : ∀ {w w' : World}, w'.engine.views = w.engine.views → J w → J w'
  /-- The host keeps it. -/
  host : ∀ (h : Handle) (args : Option Bytes) {w : World}, J w → J (upcall h args w).2

namespace HostInvariant

variable {upcall : Upcall} {J : World → Prop} {w : World}

/-- It does not matter whether the answer was taken. -/
theorem settled (hJ : HostInvariant upcall J) (h : Handle) (args : Option Bytes) (hw : J w) :
    J (settle (upcall h args w)) :=
  settle_keeps (fun _ => hJ.views rfl) (hJ.host h args hw)

theorem query {α : Type} (hJ : HostInvariant upcall J) (c : Codec α) (h : Handle) (args : String)
    (hw : J w) : J (Outgoing.query upcall c h args w).2 :=
  Outgoing.query_settles c hw (hJ.settled h _ hw)

theorem log (hJ : HostInvariant upcall J) (level : Level) (msg : String)
    (fields : List (String × Json)) (hw : J w) : J (Outgoing.log upcall level msg fields w) :=
  Outgoing.log_settles hw fun _ _ _ => hJ.settled _ _ hw

end HostInvariant

/-! ## The tools of the executor -/

@[simp] theorem ends_nextNonce {n : UInt64} {w : World} {Q : UInt64 → World → Prop}
    {E : Fault → World → Prop} :
    Ends (nextNonce n w) Q E ↔
      if n.toNat + 1 < UInt64.size then Q (n + 1) w else E .overflow w := by
  unfold nextNonce
  split <;> exact Iff.rfl

@[simp] theorem ends_nextDepth {n : UInt32} {w : World} {Q : UInt32 → World → Prop}
    {E : Fault → World → Prop} :
    Ends (nextDepth n w) Q E ↔
      if n.toNat + 1 < UInt32.size then Q (n + 1) w else E .overflow w := by
  unfold nextDepth
  split <;> exact Iff.rfl

/-- There is a snapshot as long as there is a number for it. -/
theorem snapshotAt_eq (i : Nat) (w : World) :
    snapshotAt i w =
      if (w.view i).nextRevision < View.maxRevision then
        (.ok (w.view i).nextRevision, w.setView i (w.view i).mark)
      else (.error .overflow, w) := by
  have hworld : (get : Act World) w = (.ok w, w) := rfl
  rw [snapshotAt, Act.bind_ok hworld, View.snapshot]
  split <;> rfl

@[simp] theorem ends_snapshotAt {i : Nat} {w : World} {Q : Nat → World → Prop}
    {E : Fault → World → Prop} :
    Ends (snapshotAt i w) Q E ↔
      if (w.view i).nextRevision < View.maxRevision then
        Q (w.view i).nextRevision (w.setView i (w.view i).mark)
      else E .overflow w := by
  rw [snapshotAt_eq]
  split <;> exact Iff.rfl

namespace Executor

variable {x : Executor} {w : World} {v : View} {E : Fault → World → Prop}

/-- The world after a report to the tracer. -/
def traced (x : Executor) (f : Tracer → Tracer) (w : World) : World :=
  match x.tracer with
  | none => w
  | some i => w.setTracer i (f (w.tracer i))

@[simp] theorem views_traced (x : Executor) (f : Tracer → Tracer) (w : World) :
    (x.traced f w).engine.views = w.engine.views := by
  unfold traced; split <;> rfl

@[simp] theorem ends_look {Q : View → World → Prop} :
    Ends (x.look w) Q E ↔ Q (w.view x.view) w := Iff.rfl

@[simp] theorem ends_put {Q : Unit → World → Prop} :
    Ends (x.put v w) Q E ↔ Q () (w.setView x.view v) := Iff.rfl

@[simp] theorem ends_trace {f : Tracer → Tracer} {Q : Unit → World → Prop} :
    Ends (x.trace f w) Q E ↔ Q () (x.traced f w) := by
  unfold trace traced
  cases x.tracer <;> exact Iff.rfl

@[simp] theorem ends_log {level : Level} {msg : String} {fields : List (String × Json)}
    {Q : Unit → World → Prop} :
    Ends (x.log level msg fields w) Q E ↔ Q () (Outgoing.log x.upcall level msg fields w) := Iff.rfl

@[simp] theorem ends_query {α : Type} {c : Codec α} {h : Handle} {args : String}
    {Q : Except EngineError α → World → Prop} :
    Ends (x.query c h args w) Q E ↔
      Q (Outgoing.query x.upcall c h args w).1 (Outgoing.query x.upcall c h args w).2 := Iff.rfl

@[simp] theorem ends_snapshot {Q : Nat → World → Prop} :
    Ends (x.snapshot w) Q E ↔
      if (w.view x.view).nextRevision < View.maxRevision then
        Q (w.view x.view).nextRevision (w.setView x.view (w.view x.view).mark)
      else E .overflow w := ends_snapshotAt

theorem ends_revert_some {id : Nat} {v' : View} {Q : Unit → World → Prop}
    (h : (w.view x.view).revert id = some v') :
    Ends (x.revert id w) Q E ↔ Q () (w.setView x.view v') := by
  simp [revert, h]

theorem ends_revert_none {id : Nat} {Q : Unit → World → Prop}
    (h : (w.view x.view).revert id = none) :
    Ends (x.revert id w) Q E ↔ E (.error (.invalidRevision (Int32.ofNat id))) w := by
  simp [revert, h]

/-! ## Calls of the host -/

/-- An act that can end in an overflow only, and keeps `J` in any case. -/
def Keeps {α : Type} (J : World → Prop) (o : Except Fault α × World) : Prop :=
  Ends o (fun _ => J) fun f w => f = .overflow ∧ J w

/-- What is kept when the tracer is told of a nested frame, and when the host is called. -/
structure Attends (x : Executor) (J : World → Prop) : Prop where
  entered : ∀ (s : FrameStart) {w : World}, J w → J (x.traced (·.enter s) w)
  exited : ∀ (f : FrameEnd) {w : World}, J w → J (x.traced (·.exit f) w)
  query : ∀ {α : Type} (c : Codec α) (h : Handle) (args : String) {w : World}, J w →
    J (Outgoing.query x.upcall c h args w).2
  log : ∀ (level : Level) (msg : String) (fields : List (String × Json)) {w : World}, J w →
    J (Outgoing.log x.upcall level msg fields w)

namespace Attends

variable {J : World → Prop}

theorem external (hJ : x.Attends J) (inv : Invocation) (callee : Address)
    (remaining : UInt64) (hw : J w) : Keeps J (x.external inv callee remaining w) := by
  unfold Executor.external Keeps
  cases x.context.externalCallback with
  | none => exact hw
  | some h =>
      simp only [Act.ends_bind, ends_nextDepth, ends_trace, ends_query, Act.ends_pure]
      split
      · exact hJ.exited _ (hJ.query _ _ _ (hJ.entered _ hw))
      · exact ⟨trivial, hw⟩

theorem blockHash (hJ : x.Attends J) (number : Nat) (hw : J w) :
    Keeps J (x.blockHash number w) := by
  unfold Executor.blockHash Keeps
  cases x.context.blockHashCallback with
  | none => exact hw
  | some h =>
      have hq := hJ.query Codec.hash h (Json.str (Quantity.encode number)).render hw
      simp only [Act.ends_bind, ends_query]
      generalize Outgoing.query x.upcall Codec.hash h (Json.str (Quantity.encode number)).render w
        = o at hq ⊢
      rcases o with ⟨_ | hash, w'⟩
      · exact hJ.log _ _ _ hq
      · exact hq

/-- **What the host keeps, an answer keeps.** It can end in an overflow only. -/
theorem answer (hJ : x.Attends J) (inv : Invocation) (callee : Address)
    (remaining : UInt64) (hw : J w) : Keeps J (x.answer inv callee remaining w) := by
  unfold Executor.answer
  split
  · exact hJ.external inv callee remaining hw
  · split
    · exact Act.ends_bind.mpr ((hJ.blockHash _ hw).imp (fun _ _ h => h) fun _ _ h => h)
    · exact hw

end Attends

/-- What the tracer and the host keep, whatever they are told or asked. -/
structure Spares (x : Executor) (J : World → Prop) : Prop where
  traced : ∀ (f : Tracer → Tracer) {w : World}, J w → J (x.traced f w)
  query : ∀ {α : Type} (c : Codec α) (h : Handle) (args : String) {w : World}, J w →
    J (Outgoing.query x.upcall c h args w).2
  log : ∀ (level : Level) (msg : String) (fields : List (String × Json)) {w : World}, J w →
    J (Outgoing.log x.upcall level msg fields w)

namespace Spares

variable {J : World → Prop}

theorem attends (hJ : x.Spares J) : x.Attends J where
  entered _ _ hw := hJ.traced _ hw
  exited _ _ hw := hJ.traced _ hw
  query := hJ.query
  log := hJ.log

theorem answer (hJ : x.Spares J) (inv : Invocation) (callee : Address)
    (remaining : UInt64) (hw : J w) : Keeps J (x.answer inv callee remaining w) :=
  hJ.attends.answer inv callee remaining hw

end Spares

end Executor

namespace HostInvariant

variable {x : Executor} {J : World → Prop} {w : World}

theorem traced (hJ : HostInvariant x.upcall J) (f : Tracer → Tracer) (hw : J w) :
    J (x.traced f w) :=
  hJ.views (x.views_traced f w) hw

theorem spares (hJ : HostInvariant x.upcall J) : x.Spares J where
  traced f _ hw := hJ.traced f hw
  query c h args _ hw := hJ.query c h args hw
  log level msg fields _ hw := hJ.log level msg fields hw

theorem answer (hJ : HostInvariant x.upcall J) (inv : Invocation) (callee : Address)
    (remaining : UInt64) (hw : J w) : Executor.Keeps J (x.answer inv callee remaining w) :=
  hJ.spares.answer inv callee remaining hw

end HostInvariant

namespace Executor

variable {x : Executor} {w : World} {v : View} {inv : Invocation} {value : Nat}
  {remaining : UInt64} {Q : InvocationResult → World → Prop} {E : Fault → World → Prop}

/-! ## From a creation to an apply -/

/-- The address that a creation by this caller gets. -/
def createdAddress (v : View) (caller : Address) : Address :=
  createAddress caller (v.nonce caller)

/-- The view with one more invocation of the caller counted. -/
def counted (v : View) (caller : Address) : View := v.setNonce caller (v.nonce caller + 1)

theorem eq_size_of_not_lt {n : UInt64} (h : ¬ n.toNat + 1 < UInt64.size) :
    n.toNat + 1 = UInt64.size := by
  have := n.toNat_lt_size
  omega

theorem ends_create (hv : w.view x.view = v)
    (hcollision : Q (.failure "contract address collision") w)
    (hoverflow : v.code (createdAddress v inv.caller) = [] →
      v.nonce (createdAddress v inv.caller) = 0 →
      (v.nonce inv.caller).toNat + 1 = UInt64.size → E .overflow w)
    (hrefused : ∀ reason, (counted v inv.caller).transfer inv.caller
        (createdAddress v inv.caller) value = .error reason →
      Q (.failure reason) (w.setView x.view (counted v inv.caller)))
    (hdone : ∀ v', (v.nonce inv.caller).toNat + 1 < UInt64.size →
      v.code (createdAddress v inv.caller) = [] → v.nonce (createdAddress v inv.caller) = 0 →
      (counted v inv.caller).transfer inv.caller (createdAddress v inv.caller) value = .ok v' →
      Q { InvocationResult.success [] remaining with
          contractAddress := some (createdAddress v inv.caller) }
        (w.setView x.view ((v'.setNonce (createdAddress v inv.caller) 1).setCode
          (createdAddress v inv.caller) inv.input))) :
    Ends (x.create inv value remaining w) Q E := by
  unfold create
  simp only [Act.ends_bind, ends_look, hv]
  split
  · exact hcollision
  · rename_i hfree
    simp only [Bool.or_eq_true, Bool.not_eq_true', decide_eq_true_eq, not_or, Bool.not_eq_false,
      ne_eq, Decidable.not_not, List.isEmpty_iff] at hfree
    simp only [Act.ends_bind, ends_nextNonce]
    split
    · rename_i hfits
      generalize ht : View.transfer _ _ _ _ = moved
      cases moved with
      | error reason => exact hrefused reason ht
      | ok v' => exact hdone v' hfits hfree.1 hfree.2 ht
    · rename_i hfull
      exact hoverflow hfree.1 hfree.2 (eq_size_of_not_lt hfull)

theorem ends_call {callee : Address} (hv : w.view x.view = v)
    (hoverflow : (v.nonce inv.caller).toNat + 1 = UInt64.size → E .overflow w)
    (hrefused : ∀ reason, (counted v inv.caller).transfer inv.caller callee value = .error reason →
      Q (.failure reason) (w.setView x.view (counted v inv.caller)))
    (hdone : ∀ v', (v.nonce inv.caller).toNat + 1 < UInt64.size →
      (counted v inv.caller).transfer inv.caller callee value = .ok v' →
      Ends (x.answer inv callee remaining (w.setView x.view v')) Q E) :
    Ends (x.call inv callee value remaining w) Q E := by
  unfold call
  simp only [Act.ends_bind, ends_look, hv, ends_nextNonce]
  split
  · rename_i hfits
    generalize ht : View.transfer _ _ _ _ = moved
    cases moved with
    | error reason => exact hrefused reason ht
    | ok v' => exact hdone v' hfits ht
  · rename_i hfull
    exact hoverflow (eq_size_of_not_lt hfull)

/-- What is left to do when the body has ended: whatever did not succeed is undone. -/
def Concludes (x : Executor) (id : Nat) (o : Except Fault InvocationResult × World)
    (Q : InvocationResult → World → Prop) (E : Fault → World → Prop) : Prop :=
  Ends o
    (fun r w => if r.isSuccess then Q r w else Ends (x.revert id w) (fun _ => Q r) E)
    fun f w => match f with
      | .error e => Ends (x.revert id w) (fun _ => E (.error e)) E
      | .overflow => E .overflow w

theorem ends_run (hv : w.view x.view = v)
    (hgas : inv.gas.toNat < cost inv → Q (.failure "out of gas") w)
    (hwrite : inv.readOnly → 0 < inv.value.getD 0 → Q (.failure "write protection") w)
    (hfull : ¬ v.nextRevision < View.maxRevision → E .overflow w)
    (hbody : cost inv ≤ inv.gas.toNat → (inv.readOnly → inv.value.getD 0 = 0) →
      v.nextRevision < View.maxRevision → x.Concludes v.nextRevision
        (x.body inv (inv.value.getD 0) (inv.gas - UInt64.ofNat (cost inv))
          (w.setView x.view v.mark)) Q E) :
    Ends (x.run inv w) Q E := by
  unfold run
  split
  · rename_i hcost
    exact hgas hcost
  · rename_i hcost
    dsimp only
    split
    · rename_i hro
      rw [Bool.and_eq_true, decide_eq_true_eq] at hro
      exact hwrite hro.1 hro.2
    · rename_i hro
      simp only [Act.ends_bind, ends_snapshot, hv, Act.ends_attempt]
      split
      · rename_i hfits
        -- the attempt turns both ends of the body into answers
        refine (hbody (by omega) ?_ hfits).imp ?_ ?_
        · intro h
          simpa [h] using hro
        · intro r w' h
          by_cases hs : r.isSuccess
          · simpa [hs] using h
          · simpa [hs] using h
        · intro f w' h
          cases f with
          | overflow => exact h
          | error e => exact Act.ends_bind.mpr h
      · rename_i hends
        exact hfull hends

theorem ends_apply
    (h : Ends (x.run (fueled inv)
        (x.traced (fun t => (t.txStart (fueled inv).gas).start (frame (fueled inv))) w))
      (fun r w' => Q r (Outgoing.log x.upcall .debug "applied invocation"
        (appliedFields (fueled inv) r) (x.traced (fun t =>
          (t.finish
            { output := r.returnData, gasUsed := gasUsed (fueled inv).gas r.leftOverGas
              error := r.executionError } 0).txEnd r.leftOverGas) w'))) E) :
    Ends (x.apply inv w) Q E := by
  unfold apply
  simp only [Act.ends_bind, ends_trace, ends_log, Act.ends_pure]
  exact h

end Executor

/-! ## What a whole apply keeps -/

namespace Executor.Attends

variable {x : Executor} {J : World → Prop} {w : World}

theorem body (hJ : x.Attends J) (hput : ∀ {w : World} (v : View), J w → J (w.setView x.view v))
    {inv : Invocation} {value : Nat} {remaining : UInt64} (hw : J w) :
    Executor.Keeps J (x.body inv value remaining w) := by
  unfold Executor.body
  cases inv.callee with
  | none =>
      exact Executor.ends_create rfl hw (fun _ _ _ => ⟨rfl, hw⟩) (fun _ _ => hput _ hw)
        fun _ _ _ _ _ => hput _ hw
  | some callee =>
      exact Executor.ends_call rfl (fun _ => ⟨rfl, hw⟩) (fun _ _ => hput _ hw)
        fun _ _ _ => hJ.answer inv callee remaining (hput _ hw)

theorem revert (hput : ∀ {w : World} (v : View), J w → J (w.setView x.view v)) (id : Nat)
    (hw : J w) : Ends (x.revert id w) (fun _ => J) fun _ => J := by
  cases hr : (w.view x.view).revert id with
  | none => rw [Executor.ends_revert_none hr]; exact hw
  | some v => rw [Executor.ends_revert_some hr]; exact hput v hw

/-- **What the host and the writes to the view keep, a run keeps.** -/
theorem run (hJ : x.Attends J) (hput : ∀ {w : World} (v : View), J w → J (w.setView x.view v))
    (inv : Invocation) (hw : J w) : Ends (x.run inv w) (fun _ => J) fun _ => J := by
  refine Executor.ends_run rfl (fun _ => hw) (fun _ _ => hw) (fun _ => hw) fun _ _ _ =>
    (hJ.body hput (hput _ hw)).imp ?_ ?_
  · intro r w' hw'
    split
    · exact hw'
    · exact revert hput _ hw'
  · rintro f w' ⟨rfl, hw'⟩
    exact hw'

/-- **What an apply keeps**: besides what a run keeps, its top frame starts and ends. -/
theorem apply (hJ : x.Attends J) (hput : ∀ {w : World} (v : View), J w → J (w.setView x.view v))
    (hstart : ∀ (gas : UInt64) (s : FrameStart) {w : World}, J w →
      J (x.traced (fun t => (t.txStart gas).start s) w))
    (hfinish : ∀ (f : FrameEnd) (left : UInt64) {w : World}, J w →
      J (x.traced (fun t => (t.finish f 0).txEnd left) w))
    (inv : Invocation) (hw : J w) : J (x.apply inv w).2 := by
  refine Ends.world (Executor.ends_apply ?_)
  refine (hJ.run hput _ (hstart _ _ hw)).imp ?_ fun _ _ h => h
  intro r w' hw'
  exact hJ.log _ _ _ (hfinish _ _ hw')

end Executor.Attends

/-- **What survives writes to views and tracers, and calls of the host, survives an apply.** -/
theorem Executor.apply_keeps {x : Executor} {J : World → Prop} {w : World}
    (hview : ∀ (i : Nat) (v : View) {w : World}, J w → J (w.setView i v))
    (htracer : ∀ (i : Nat) (t : Tracer) {w : World}, J w → J (w.setTracer i t))
    (hhost : ∀ (h : Handle) (args : Option Bytes) {w : World}, J w → J (settle (x.upcall h args w)))
    (inv : Invocation) (hw : J w) : J (x.apply inv w).2 := by
  have htraced : ∀ (f : Tracer → Tracer) {w : World}, J w → J (x.traced f w) := by
    intro f w hw
    unfold traced
    cases x.tracer with
    | none => exact hw
    | some i => exact htracer i _ hw
  have hspares : x.Spares J :=
    { traced := fun f _ hw => htraced f hw
      query := fun c h _ _ hw => Outgoing.query_settles c hw (hhost h _ hw)
      log := fun _ _ _ _ hw => Outgoing.log_settles hw fun _ _ _ => hhost _ _ hw }
  exact hspares.attends.apply (fun v hw => hview _ v hw) (fun _ _ _ hw => htraced _ hw)
    (fun _ _ _ hw => htraced _ hw) inv hw

namespace HostInvariant

variable {x : Executor} {J : World → Prop} {w : World}

/-- **What the host and the writes to the view keep, an apply keeps.** -/
theorem apply (hJ : HostInvariant x.upcall J)
    (hput : ∀ {w : World} (v : View), J w → J (w.setView x.view v)) (inv : Invocation)
    (hw : J w) : J (x.apply inv w).2 :=
  hJ.spares.attends.apply hput (fun _ _ _ hw => hJ.traced _ hw) (fun _ _ _ hw => hJ.traced _ hw)
    inv hw

end HostInvariant

end EvmBridge
