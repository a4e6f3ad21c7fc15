import EvmBridge.Proofs.RequestSteps
import Mathlib.Logic.Relation

/-!
# What can happen to the world

Whatever is asked of the module, and whatever its callbacks ask of it in turn, the world changes
in a few ways only. `World.Change` lists them: an object is opened or closed, a view is written to
or committed, a tracer is told something, a text passes through a buffer, or something changes that
has neither a handle nor a buffer. An apply is made of such changes, so a property that each of them
keeps is an invariant of all requests if the host keeps it (`Steady.invariant`).

`World.Step` is a coarser list, for properties of stores, views and buffers. `World.Leads` strings
such steps together, so it is kept by every change and by every host that is made of steps. The host
of this development is, with callbacks within callbacks to any depth (`Proxy.leads_nested`).
-/

namespace EvmBridge

/-! ## Steps -/

/-- One write to a view. No write but `slot` touches a storage. -/
inductive View.Edit (v : View) : View → Prop where
  /-- An account changes in all but its storage. -/
  | write (a : Address) (f : Account → Account) (hf : ∀ x, (f x).storage = x.storage) :
      v.Edit (v.update a f)
  | slot {a : Address} {key : Hash} {value? : Option Hash} {v' : View}
      (h : v.setStorage a key value? = .ok v') : v.Edit v'
  | access (accessList : AccessList) : v.Edit { v with accessList }
  | finalize : v.Edit v.finalize
  | snapshot : v.Edit v.mark
  | revert {id : Int} {v' : View} (h : v.revert id = some v') : v.Edit v'

/-- Writes to a view, one after the other. -/
def View.Edits : View → View → Prop := Relation.ReflTransGen View.Edit

namespace World

/-- One change of the world. -/
inductive Step (w : World) : World → Prop where
  /-- Files, tracers, callbacks and the journal: neither stores nor views nor buffers. -/
  | elsewhere {w' : World} (stores : w'.engine.stores = w.engine.stores)
      (views : w'.engine.views = w.engine.views) (buffers : w'.buffers = w.buffers) : w.Step w'
  /-- A text goes into a new buffer, from which the other side takes it. -/
  | passed (text : String) : w.Step (settle (EntryPoint.answer text w))
  /-- Creations of buffers are made to fail. -/
  | starved (times : Nat) : w.Step { w with buffers := { w.buffers with failNext := times } }
  /-- A store is opened. In memory it is empty. -/
  | storeOpened {s : Store} (hs : s.path = none → s.roots = ∅) :
      w.Step { w with engine := { w.engine with stores := (w.engine.stores.add s).2 } }
  | storeClosed {h : Handle} {stores : Pool Store} (hc : w.engine.stores.close h = .ok stores) :
      w.Step { w with engine := { w.engine with stores } }
  /-- A view is opened on a store at a root. -/
  | viewOpened {h : Handle} {store : Nat} {root : Hash} {accounts : Accounts}
      (hs : w.engine.stores.find h = .ok store)
      (hl : (w.store store).loadFrom root = .ok accounts) :
      w.Step { w with engine :=
        { w.engine with views := (w.engine.views.add { store, accounts }).2 } }
  | viewClosed {h : Handle} {views : Pool View} (hc : w.engine.views.close h = .ok views) :
      w.Step { w with engine := { w.engine with views } }
  | edited (i : Nat) {v : View} (hv : (w.view i).Edits v) : w.Step (w.setView i v)
  /-- A view is finalized, and its store takes the state. -/
  | committed (i : Nat) {store : Store} {files : Files}
      (hs : (w.store (w.view i).store).store w.files (w.view i).finalize.accounts.root
        (w.view i).finalize.accounts = .ok (store, files)) :
      w.Step ({ w.setView i (w.view i).finalize with files }.setStore (w.view i).store store)

/-- Steps lead from one world to another. -/
def Leads : World → World → Prop := Relation.ReflTransGen Step

theorem Leads.refl (w : World) : Leads w w := Relation.ReflTransGen.refl

theorem Leads.step {w w₁ w₂ : World} (h : Leads w w₁) (hs : w₁.Step w₂) : Leads w w₂ := h.tail hs

theorem Leads.elsewhere {w w₁ w₂ : World} (h : Leads w w₁)
    (stores : w₂.engine.stores = w₁.engine.stores) (views : w₂.engine.views = w₁.engine.views)
    (buffers : w₂.buffers = w₁.buffers) : Leads w w₂ :=
  h.step (.elsewhere stores views buffers)

theorem Leads.edited {w w₁ : World} (h : Leads w w₁) (i : Nat) {v : View}
    (hv : (w₁.view i).Edits v) : Leads w (w₁.setView i v) :=
  h.step (.edited i hv)

end World

open World (Leads)

/-- The host is made of steps, once its answer was taken. -/
def HostLeads (upcall : Upcall) : Prop :=
  ∀ (h : Handle) (args : Option Bytes) (w : World), Leads w (settle (upcall h args w))

/-- One change of the world, with the handles that come and go. -/
inductive World.Change (w : World) : World → Prop where
  /-- Files, callbacks and the journal: neither objects nor buffers. -/
  | elsewhere {w' : World} (engine : w'.engine = w.engine) (buffers : w'.buffers = w.buffers) :
      w.Change w'
  | passed (text : String) : w.Change (settle (EntryPoint.answer text w))
  | starved (times : Nat) : w.Change { w with buffers := { w.buffers with failNext := times } }
  | opened {upcall : Upcall} {r : Request} {c : Category} {a : Json} {w' : World}
      (hr : r.opens = some c) (h : Service.run upcall r w = (.ok a, w')) : w.Change w'
  | closed {upcall : Upcall} {r : Request} {x : Category × Handle} {a : Json} {w' : World}
      (hr : r.closes = some x) (h : Service.run upcall r w = (.ok a, w')) : w.Change w'
  | edited (i : Nat) {v : View} (hv : (w.view i).Edits v) : w.Change (w.setView i v)
  | committed (i : Nat) {store : Store} {files : Files}
      (hs : (w.store (w.view i).store).store w.files (w.view i).finalize.accounts.root
        (w.view i).finalize.accounts = .ok (store, files)) :
      w.Change ({ w.setView i (w.view i).finalize with files }.setStore (w.view i).store store)
  | traced (i : Nat) (t : Tracer) : w.Change (w.setTracer i t)

/-- Each change keeps it, and so does the host, once its answer was taken. -/
structure Steady (upcall : Upcall) (J : World → Prop) : Prop where
  change : ∀ {w w' : World}, J w → w.Change w' → J w'
  host : ∀ (h : Handle) (args : Option Bytes) {w : World}, J w → J (settle (upcall h args w))

variable {upcall : Upcall} {J : World → Prop} {w : World}

theorem Steady.edited (hJ : Steady upcall J) (hw : J w) (i : Nat) {v : View}
    (hv : (w.view i).Edits v) : J (w.setView i v) :=
  hJ.change hw (.edited i hv)

/-! ## The executor -/

namespace View

variable {v v' : View}

theorem Edits.refl (v : View) : v.Edits v := Relation.ReflTransGen.refl

theorem Edit.edits (h : v.Edit v') : v.Edits v' := Relation.ReflTransGen.single h

theorem edits_setNonce (v : View) (a : Address) (nonce : UInt64) : v.Edits (v.setNonce a nonce) :=
  (Edit.write a (fun acc => { acc with nonce }) fun _ => rfl).edits

theorem edits_setCode (v : View) (a : Address) (code : Bytes) : v.Edits (v.setCode a code) :=
  (Edit.write a (fun acc => { acc with code }) fun _ => rfl).edits

theorem edits_addBalance (v : View) (a : Address) (amount : Nat) :
    v.Edits (v.addBalance a amount) :=
  (Edit.write a (fun acc => { acc with balance := acc.balance + amount }) fun _ => rfl).edits

theorem edits_subBalance {a : Address} {amount : Nat} (h : v.subBalance a amount = .ok v') :
    v.Edits v' := by
  unfold subBalance at h
  dsimp only at h
  split at h
  · exact absurd h (by simp)
  · cases h
    exact (Edit.write a (fun acc => { acc with balance := v.balance a - amount })
      fun _ => rfl).edits

theorem edits_transfer {sender receiver : Address} {value : Nat}
    (h : v.transfer sender receiver value = .ok v') : v.Edits v' := by
  unfold transfer at h
  split at h
  · cases h
    exact .refl v
  · split at h
    · exact absurd h (by simp)
    · split at h
      · exact absurd h (by simp)
      · rename_i v₁ hsub
        cases h
        exact (edits_subBalance hsub).trans (edits_addBalance v₁ receiver value)

end View

namespace Steady

variable {x : Executor}

theorem traced (hJ : Steady x.upcall J) (f : Tracer → Tracer) (hw : J w) :
    J (x.traced f w) := by
  unfold Executor.traced
  split
  · exact hw
  · exact hJ.change hw (.traced _ _)

theorem spares (hJ : Steady x.upcall J) : x.Spares J where
  traced f _ hw := hJ.traced f hw
  query c h _ _ hw := Outgoing.query_settles c hw (hJ.host h _ hw)
  log _ _ _ _ hw := Outgoing.log_settles hw fun _ _ _ => hJ.host _ _ hw

theorem body (hJ : Steady x.upcall J) (inv : Invocation) (value : Nat) (remaining : UInt64)
    (hw : J w) : Executor.Keeps J (x.body inv value remaining w) := by
  have hcounted := View.edits_setNonce (w.view x.view) inv.caller
    ((w.view x.view).nonce inv.caller + 1)
  unfold Executor.body
  cases inv.callee with
  | none =>
      refine Executor.ends_create rfl hw (fun _ _ _ => ⟨rfl, hw⟩)
        (fun _ _ => hJ.edited hw _ hcounted) ?_
      intro v' _ _ _ ht
      exact hJ.edited hw _ (((hcounted.trans (View.edits_transfer ht)).trans
        (View.edits_setNonce _ _ _)).trans (View.edits_setCode _ _ _))
  | some callee =>
      refine Executor.ends_call rfl (fun _ => ⟨rfl, hw⟩)
        (fun _ _ => hJ.edited hw _ hcounted) ?_
      intro v' _ ht
      exact hJ.spares.answer inv callee remaining
        (hJ.edited hw _ (hcounted.trans (View.edits_transfer ht)))

theorem revert (hJ : Steady x.upcall J) (id : Nat) (hw : J w) :
    Always J (x.revert id w) := by
  unfold Always
  cases hr : (w.view x.view).revert id with
  | none => rw [Executor.ends_revert_none hr]; exact hw
  | some v => rw [Executor.ends_revert_some hr]; exact hJ.edited hw _ (View.Edit.revert hr).edits

theorem run (hJ : Steady x.upcall J) (inv : Invocation) (hw : J w) :
    Always J (x.run inv w) := by
  have hmarked := hJ.edited hw x.view (View.Edit.snapshot (v := w.view x.view)).edits
  refine Executor.ends_run rfl (fun _ => hw) (fun _ _ => hw) (fun _ => hw) fun _ _ _ =>
    (hJ.body _ _ _ hmarked).imp ?_ ?_
  · intro r w' hw'
    split
    · exact hw'
    · exact hJ.revert _ hw'
  · rintro f w' ⟨rfl, hw'⟩
    exact hw'

theorem apply (hJ : Steady x.upcall J) (inv : Invocation) (hw : J w) :
    Always J (x.apply inv w) := by
  refine Executor.ends_apply ((hJ.run _ (hJ.traced _ hw)).imp ?_ fun _ _ h => h)
  intro r w' hw'
  exact hJ.spares.log _ _ _ (hJ.traced _ hw')

end Steady

/-! ## From changes to invariants -/

/-- What a call does to a view is made of edits. -/
theorem ViewOp.edits (op : ViewOp) (v : View) : v.Edits (op.run v).2 := by
  cases op with
  | addBalance a amount => exact v.edits_addBalance a amount
  | subBalance a amount =>
      rw [run]
      cases hsub : v.subBalance a amount with
      | error e => exact .refl v
      | ok v' => exact View.edits_subBalance hsub
  | setBalance a amount =>
      exact (View.Edit.write a (fun acc => { acc with balance := amount }) fun _ => rfl).edits
  | setNonce a nonce => exact v.edits_setNonce a nonce
  | setCode a code => exact v.edits_setCode a code
  | setStorage a key value =>
      rw [run]
      cases hset : v.setStorage a key value with
      | error e => exact .refl v
      | ok v' => exact (View.Edit.slot hset).edits
  | accessSetup sender destination coinbase rules => exact (View.Edit.access _).edits
  | accessAccount a => exact (View.Edit.access _).edits
  | accessSlot a key => exact (View.Edit.access _).edits
  | finalize | intermediateRoot => exact View.Edit.finalize.edits
  | commit fault => cases fault <;> exact View.Edit.finalize.edits
  | snapshot =>
      by_cases hroom : v.nextRevision < View.maxRevision
      · rw [run_snapshot hroom]
        exact View.Edit.snapshot.edits
      · rw [run_snapshot_overflow hroom]
        exact .refl v
  | revert id =>
      cases hr : v.revert id.toInt with
      | none =>
          rw [run_revert_none hr]
          exact .refl v
      | some v' =>
          rw [run_revert_some hr]
          exact (View.Edit.revert hr).edits

/-- **What every change keeps is an invariant**, if the host keeps it too. -/
theorem Steady.invariant (hJ : Steady upcall J) : Invariant upcall J where
  elsewhere hw engine buffers := hJ.change hw (.elsewhere engine buffers)
  passed text _ hw := hJ.change hw (.passed text)
  starved times _ hw := hJ.change hw (.starved times)
  opened hr hw h := hJ.change hw (.opened hr h)
  closed hr hw h := hJ.change hw (.closed hr h)
  called i op _ hw := hJ.edited hw i (op.edits _)
  committed i _ _ _ hw hs := hJ.change hw (.committed i hs)
  traced i _ _ hw := hJ.change hw (.traced i _)
  applied inv _ hx hw := by
    subst hx
    exact (hJ.apply inv hw).world
  host h args _ hw := hJ.host h args hw

/-- **What every change keeps, the host keeps**, with callbacks within callbacks to any depth. The
induction is on the depth: the callbacks of each level reach the module through the level below. -/
theorem Proxy.steady_nested (hchange : ∀ {w w' : World}, J w → w.Change w' → J w') (depth : Nat) :
    Steady (nested depth) J := by
  induction depth with
  | zero => exact ⟨hchange, fun _ _ _ hw => hw⟩
  | succ depth ih => exact ⟨hchange, fun h args _ hw => serve_invariant ih.invariant h args hw⟩

/-! ## Steps again -/

section

variable {w₀ w' : World}

theorem Store.path_openAt {files : Files} {path : String} {preimages : Bool} {s : Store}
    (h : (Store.openAt files path preimages).1 = .ok s) : s.path = some path := by
  unfold Store.openAt at h
  split at h
  · exact absurd h (by simp)
  · simp only [bind, Except.bind] at h
    split at h
    · exact absurd h (by simp)
    · split at h
      · exact absurd h (by simp)
      · cases h
        rfl

namespace Service

theorem leads_opens {r : Request} {c : Category} (hr : r.opens = some c) (hw : Leads w₀ w) :
    Always (Leads w₀) (run upcall r w) := by
  cases r with
  | openMemory => exact always_map (hw.step (.storeOpened fun _ => rfl))
  | openDisk p =>
      have hfiles : Leads w₀ { w with files := (Store.openAt w.files p.path p.preimages).2 } :=
        hw.elsewhere rfl rfl rfl
      refine always_map (always_ofExcept hfiles fun s hs => hfiles.step (.storeOpened ?_))
      intro hnone
      rw [Store.path_openAt hs] at hnone
      exact absurd hnone (by simp)
  | openView p =>
      exact always_map (always_ofExcept hw fun _ hs => always_ofExcept hw fun _ hl =>
        hw.step (.viewOpened hs hl))
  | createTracer options =>
      exact always_map (always_ofExcept hw fun _ _ => hw.elsewhere rfl rfl rfl)
  | _ => exact absurd hr (by simp [Request.opens])

theorem leads_closes {r : Request} {x : Category × Handle} (hr : r.closes = some x)
    (hw : Leads w₀ w) : Always (Leads w₀) (run upcall r w) := by
  cases r with
  | closeStore p => exact always_map (always_ofExcept hw fun _ hc => hw.step (.storeClosed hc))
  | closeView p => exact always_map (always_ofExcept hw fun _ hc => hw.step (.viewClosed hc))
  | removeTracer p => exact always_map (always_ofExcept hw fun _ _ => hw.elsewhere rfl rfl rfl)
  | _ => exact absurd hr (by simp [Request.closes])

end Service

/-- Each change is made of steps. -/
theorem World.Leads.change (hw : Leads w₀ w) (hc : w.Change w') : Leads w₀ w' := by
  cases hc with
  | elsewhere engine buffers => exact hw.elsewhere (by rw [engine]) (by rw [engine]) buffers
  | passed text => exact hw.step (.passed text)
  | starved times => exact hw.step (.starved times)
  | opened hr h => exact (Service.leads_opens hr hw).ok h
  | closed hr h => exact (Service.leads_closes hr hw).ok h
  | edited i hv => exact hw.edited i hv
  | committed i hs => exact hw.step (.committed i hs)
  | traced i t => exact hw.elsewhere rfl rfl rfl

theorem HostLeads.invariant (hhost : HostLeads upcall) (w₀ : World) :
    Invariant upcall (Leads w₀) :=
  Steady.invariant
    { change := fun hw hc => hw.change hc
      host := fun h args _ hw => hw.trans (hhost h args _) }

/-- **The host is made of steps**, with callbacks within callbacks to any depth. -/
theorem Proxy.leads_nested (depth : Nat) : HostLeads (nested depth) := fun h args w =>
  (steady_nested (fun hw hc => World.Leads.change hw hc) depth).host h args (.refl w)

namespace Service

theorem leads_commit {p : HandleParams} (hw : Leads w₀ w) :
    Always (Leads w₀) (commit p w) :=
  invariant_commit ((Proxy.leads_nested 0).invariant w₀) hw

theorem run_leads (hhost : HostLeads upcall) (r : Request) (hw : Leads w₀ w) :
    Always (Leads w₀) (run upcall r w) :=
  run_invariant (hhost.invariant w₀) r hw

theorem invoke_leads (hhost : HostLeads upcall) (method : String) (args : Option String)
    (hw : Leads w₀ w) : Always (Leads w₀) (invoke upcall method args w) :=
  invoke_invariant (hhost.invariant w₀) method args hw

end Service

theorem Gateway.invoke_leads {ρ : Type} (hhost : HostLeads upcall) (c : Codec ρ) (method : String)
    (args : Option Json) (hw : Leads w₀ w) :
    Leads w₀ (invoke (EntryPoint.invoke upcall) c method args w).2 :=
  invoke_invariant (hhost.invariant w₀) c method args hw

end

end EvmBridge
