import EvmBridge.Proofs.CommittedStates
import EvmBridge.Proofs.Footprints

/-!
# Objects that lose their handles

Closing a store or a view takes a handle away and nothing else: the object stays where it stands,
and whoever uses it goes on. Two worlds are alike if they differ in such handles only
(`World.Alike`). What does not look up the missing handles goes the same way in both, answers the
same and leaves worlds behind that are alike again (`Respects`).

One lemma for each way to build an act, and then one for each function from the host over the
executor to the service, lead to `Service.respects_run`: this goes for every request that does not
name the view that was closed and has nothing to do with the handles of stores.
-/

namespace EvmBridge

namespace Pool

variable {α : Type} {p p' q : Pool α} {lost : Handle → Prop} {h : Handle}

theorem eq_of_parts (hobjects : q.objects = p.objects) (hhandles : q.handles = p.handles) :
    q = p := by
  cases p
  cases q
  exact congr (congrArg mk hobjects) hhandles

/-- The same objects and the same handles, except that some may be missing. -/
structure Sheds (lost : Handle → Prop) (p p' : Pool α) : Prop where
  objects : p'.objects = p.objects
  handles : (∀ h, ¬ lost h) → p'.handles = p.handles
  find : ∀ h, ¬ lost h → p'.find h = p.find h

theorem Sheds.refl (lost : Handle → Prop) (p : Pool α) : p.Sheds lost p :=
  ⟨rfl, fun _ => rfl, fun _ _ => rfl⟩

theorem Sheds.eq (hp : p.Sheds lost p') (hnone : ∀ h, ¬ lost h) : p' = p :=
  eq_of_parts hp.objects (hp.handles hnone)

theorem Sheds.set (hp : p.Sheds lost p') (i : Nat) (a : α) : (p.set i a).Sheds lost (p'.set i a) :=
  ⟨congrArg (·.set i a) hp.objects, hp.handles, hp.find⟩

/-- A handle is closed in both pools, or in neither. -/
theorem Sheds.close (hp : p.Sheds lost p') (hh : ¬ lost h) :
    (∃ e, p.close h = .error e ∧ p'.close h = .error e) ∨
      ∃ q q', p.close h = .ok q ∧ p'.close h = .ok q' ∧ q.Sheds lost q' := by
  have hclose := p.close_eq h
  have hclose' := p'.close_eq h
  rw [hp.find h hh] at hclose'
  cases hi : p.find h with
  | error e =>
      rw [hi] at hclose hclose'
      exact .inl ⟨e, hclose, hclose'⟩
  | ok i =>
      rw [hi] at hclose hclose'
      refine .inr ⟨_, _, hclose, hclose', hp.objects, fun hnone => ?_, fun h' hh' => ?_⟩
      · rw [hp.handles hnone]
      · rw [find_close_eq hclose, find_close_eq hclose', hp.find h' hh']

/-- A handle that is closed is missing. -/
theorem sheds_close (hc : p.close h = .ok q) (hlost : lost h) : p.Sheds lost q := by
  refine ⟨objects_close hc, fun hnone => absurd hlost (hnone h), fun h' hh' => ?_⟩
  rw [find_close_eq hc, if_neg]
  rintro rfl
  exact hh' hlost

end Pool

/-- The same objects and the same handles, except that one may be missing. -/
structure Engine.Sheds (y : Category × Handle) (e e' : Engine) : Prop where
  stores : e.stores.Sheds (fun h => (.store, h) = y) e'.stores
  views : e.views.Sheds (fun h => (.view, h) = y) e'.views
  tracers : e.tracers.Sheds (fun h => (.tracer, h) = y) e'.tracers

/-- Worlds of a kind that differ in the handle that is missing at most. -/
structure World.Alike (H : World → Prop) (y : Category × Handle) (w w' : World) : Prop where
  kind : H w
  same : w' = w.withEngine w'.engine
  sheds : w.engine.Sheds y w'.engine

/-- What goes the same way in worlds that are alike, and leaves such worlds behind. -/
structure Respects (H : World → Prop) (y : Category × Handle) {β : Type} (f : World → β × World) :
    Prop where
  answer : ∀ {w w' : World}, World.Alike H y w w' → (f w').1 = (f w).1
  alike : ∀ {w w' : World}, World.Alike H y w w' → World.Alike H y (f w).2 (f w').2

/-- In worlds of some kind, the host does not notice that a handle is missing. It depends on what
callbacks do whether a world is of that kind. -/
structure Unaware (upcall : Upcall) (H : World → Prop) (y : Category × Handle) : Prop where
  host : ∀ (h : Handle) (args : Option Bytes), Respects H y (upcall h args)
  congr : ∀ {w w' : World}, H w → w'.action = w.action → H w'

variable {upcall : Upcall} {H : World → Prop} {y : Category × Handle} {w w' : World}
  {α β γ : Type}

/-! ## Worlds that are alike -/

namespace World.Alike

theorem refl (hw : H w) (y : Category × Handle) : Alike H y w w :=
  ⟨hw, rfl, .refl _ _, .refl _ _, .refl _ _⟩

section

variable (hw : Alike H y w w')
include hw

theorem view (i : Nat) : w'.view i = w.view i := by
  simp only [World.view, Pool.get, hw.sheds.views.objects]

theorem store (i : Nat) : w'.store i = w.store i := by
  simp only [World.store, Pool.get, hw.sheds.stores.objects]

theorem tracer (i : Nat) : w'.tracer i = w.tracer i := by
  simp only [World.tracer, Pool.get, hw.sheds.tracers.objects]

theorem files : w'.files = w.files := by
  rw [hw.same]
  rfl

theorem buffers : w'.buffers = w.buffers := by
  rw [hw.same]
  rfl

theorem sink : w'.sink = w.sink := by
  rw [hw.same]
  rfl

theorem connected : w'.connected = w.connected := by
  rw [hw.same]
  rfl

theorem registry : w'.registry = w.registry := by
  rw [hw.same]
  rfl

theorem callbacks : w'.callbacks = w.callbacks := by
  rw [hw.same]
  rfl

end

/-- The objects of the module change in both. -/
theorem withEngine (hw : Alike H y w w') {e e' : Engine} (hkind : H (w.withEngine e))
    (hsheds : e.Sheds y e') : Alike H y (w.withEngine e) (w'.withEngine e') := by
  refine ⟨hkind, ?_, hsheds⟩
  rw [hw.same]
  rfl

variable (hu : Unaware upcall H y) (hw : Alike H y w w')
include hu hw

theorem setView (i : Nat) (v : View) : Alike H y (w.setView i v) (w'.setView i v) :=
  hw.withEngine (hu.congr hw.kind rfl) ⟨hw.sheds.stores, hw.sheds.views.set i v, hw.sheds.tracers⟩

theorem setStore (i : Nat) (s : Store) : Alike H y (w.setStore i s) (w'.setStore i s) :=
  hw.withEngine (hu.congr hw.kind rfl) ⟨hw.sheds.stores.set i s, hw.sheds.views, hw.sheds.tracers⟩

theorem setTracer (i : Nat) (t : Tracer) : Alike H y (w.setTracer i t) (w'.setTracer i t) :=
  hw.withEngine (hu.congr hw.kind rfl) ⟨hw.sheds.stores, hw.sheds.views, hw.sheds.tracers.set i t⟩

theorem setStores {p p' : Pool Store} (hp : p.Sheds (fun h => (.store, h) = y) p') :
    Alike H y { w with engine := { w.engine with stores := p } }
      { w' with engine := { w'.engine with stores := p' } } :=
  hw.withEngine (hu.congr hw.kind rfl) ⟨hp, hw.sheds.views, hw.sheds.tracers⟩

theorem setViews {p p' : Pool View} (hp : p.Sheds (fun h => (.view, h) = y) p') :
    Alike H y { w with engine := { w.engine with views := p } }
      { w' with engine := { w'.engine with views := p' } } :=
  hw.withEngine (hu.congr hw.kind rfl) ⟨hw.sheds.stores, hp, hw.sheds.tracers⟩

theorem setTracers {p p' : Pool Tracer} (hp : p.Sheds (fun h => (.tracer, h) = y) p') :
    Alike H y { w with engine := { w.engine with tracers := p } }
      { w' with engine := { w'.engine with tracers := p' } } :=
  hw.withEngine (hu.congr hw.kind rfl) ⟨hw.sheds.stores, hw.sheds.views, hp⟩

/-- The same change is made to both, beside the objects of the module. -/
theorem elsewhere {f : World → World} (haction : (f w).action = w.action)
    (hf : ∀ e, f (w.withEngine e) = (f w).withEngine e) : Alike H y (f w) (f w') := by
  have hsame : f w' = (f w).withEngine w'.engine := by rw [← hf, ← hw.same]
  have hback : f w = (f w).withEngine w.engine := hf w.engine
  have hengine : (f w).engine = w.engine := by
    rw [hback]
    rfl
  refine ⟨hu.congr hw.kind haction, ?_, ?_⟩
  · rw [hsame]
    rfl
  · rw [hsame, hengine]
    exact hw.sheds

theorem setFiles (files : Files) : Alike H y { w with files } { w' with files } :=
  hw.elsewhere hu (f := ({ · with files })) rfl fun _ => rfl

theorem setBuffers (buffers : Buffers) : Alike H y { w with buffers } { w' with buffers } :=
  hw.elsewhere hu (f := ({ · with buffers })) rfl fun _ => rfl

end World.Alike

/-! ## Functions of the world -/

namespace Respects

theorem of_forall {f : World → β × World} (h : ∀ {w w' : World}, World.Alike H y w w' →
    (f w').1 = (f w).1 ∧ World.Alike H y (f w).2 (f w').2) : Respects H y f :=
  ⟨fun hw => (h hw).1, fun hw => (h hw).2⟩

/-- Both come to the same answer. -/
theorem exists_eq {f : World → β × World} (hf : Respects H y f) (hw : World.Alike H y w w') :
    ∃ b w₁ w₁', f w = (b, w₁) ∧ f w' = (b, w₁') ∧ World.Alike H y w₁ w₁' :=
  ⟨(f w).1, (f w).2, (f w').2, rfl, Prod.ext (hf.answer hw) rfl, hf.alike hw⟩

/-- The same is answered, and the same change is made. -/
theorem of_change {g : World → World} (b : β)
    (hg : ∀ {w w'}, World.Alike H y w w' → World.Alike H y (g w) (g w')) :
    Respects H y fun w => (b, g w) :=
  ⟨fun _ => rfl, hg⟩

theorem bind {f : World → β × World} {g : β → World → γ × World} (hf : Respects H y f)
    (hg : ∀ b, Respects H y (g b)) : Respects H y fun w => g (f w).1 (f w).2 := by
  refine .of_forall fun {w w'} hw => ?_
  rw [hf.answer hw]
  exact ⟨(hg _).answer (hf.alike hw), (hg _).alike (hf.alike hw)⟩

/-- A change is made before. -/
theorem after {f : World → β × World} {g : World → World} (hf : Respects H y f)
    (hg : ∀ {w w'}, World.Alike H y w w' → World.Alike H y (g w) (g w')) :
    Respects H y fun w => f (g w) :=
  ⟨fun hw => hf.answer (hg hw), fun hw => hf.alike (hg hw)⟩

end Respects

/-! ## Acts -/

namespace Act

variable {a : Act α} {f : α → Act β}

theorem respects_pure (r : α) : Respects H y (pure r : Act α) := ⟨fun _ => rfl, fun hw => hw⟩

theorem respects_throw (f : Fault) : Respects H y (throw f : Act α) :=
  ⟨fun _ => rfl, fun hw => hw⟩

theorem respects_bind (ha : Respects H y a) (hf : ∀ r, Respects H y (f r)) :
    Respects H y (a >>= f) := by
  refine .of_forall fun {w w'} hw => ?_
  have halike := ha.alike hw
  show (ExceptT.bindCont f (a w').1 (a w').2).1 = (ExceptT.bindCont f (a w).1 (a w).2).1 ∧
    World.Alike H y (ExceptT.bindCont f (a w).1 (a w).2).2 (ExceptT.bindCont f (a w').1 (a w').2).2
  rw [ha.answer hw]
  cases (a w).1 with
  | error e => exact ⟨rfl, halike⟩
  | ok r => exact ⟨(hf r).answer halike, (hf r).alike halike⟩

theorem respects_map {g : α → β} (ha : Respects H y a) : Respects H y (g <$> a) := by
  rw [map_eq_pure_bind]
  exact respects_bind ha fun r => respects_pure _

theorem respects_attempt (ha : Respects H y a) : Respects H y (attempt a) :=
  ⟨fun hw => congrArg Except.ok (ha.answer hw), ha.alike⟩

theorem respects_ofExcept (o : Except EngineError α) : Respects H y (ofExcept o) := by
  cases o with
  | error e => exact respects_throw (.error e)
  | ok r => exact respects_pure r

/-- What is read is the same in both worlds. -/
theorem respects_get {a : World → Act α} (hsame : ∀ {w w'}, World.Alike H y w w' → a w' = a w)
    (ha : ∀ w, Respects H y (a w)) : Respects H y (get >>= a) := by
  refine .of_forall fun {w w'} hw => ?_
  show (a w' w').1 = (a w w).1 ∧ World.Alike H y (a w w).2 (a w' w').2
  rw [hsame hw]
  exact ⟨(ha w).answer hw, (ha w).alike hw⟩

/-- The same object is added to a pool that is the same in both. -/
theorem respects_add {p : World → Pool β} {f : World → Pool β → World} (b : β)
    (hsame : ∀ {w w'}, World.Alike H y w w' → p w' = p w)
    (hf : ∀ {w w'} (q : Pool β), World.Alike H y w w' → World.Alike H y (f w q) (f w' q)) :
    Respects H y
      (do let w ← get; let r := (p w).add b; set (f w r.2); return r.1 : Act Handle) := by
  refine .of_forall fun {w w'} hw => ?_
  show Except.ok ((p w').add b).1 = Except.ok ((p w).add b).1 ∧
    World.Alike H y (f w ((p w).add b).2) (f w' ((p w').add b).2)
  rw [hsame hw]
  exact ⟨rfl, hf _ hw⟩

/-- Both worlds change, or neither. -/
theorem respects_set {g : World → Except EngineError α} {f : α → World → World}
    (h : ∀ {w w'}, World.Alike H y w w' → (∃ e, g w = .error e ∧ g w' = .error e) ∨
      ∃ r r', g w = .ok r ∧ g w' = .ok r' ∧ World.Alike H y (f r w) (f r' w')) :
    Respects H y (do let w ← get; let r ← ofExcept (g w); set (f r w) : Act Unit) := by
  let act (w : World) : Act Unit := do let r ← ofExcept (g w); set (f r w)
  refine .of_forall fun {w w'} hw => ?_
  show (act w' w').1 = (act w w).1 ∧ World.Alike H y (act w w).2 (act w' w').2
  simp only [act]
  rcases h hw with ⟨e, he, he'⟩ | ⟨r, r', hr, hr', halike⟩
  · rw [he, he']
    exact ⟨rfl, hw⟩
  · rw [hr, hr']
    exact ⟨rfl, halike⟩

theorem respects_change {f : World → World}
    (hf : ∀ {w w'}, World.Alike H y w w' → World.Alike H y (f w) (f w')) :
    Respects H y (change f) := ⟨fun _ => rfl, hf⟩

end Act

/-! ## Calls out of the module -/

namespace Unaware

variable (hu : Unaware upcall H y)
include hu

theorem respects_ask (h : Handle) (args : String) : Respects H y (Outgoing.ask upcall h args) := by
  refine .of_forall fun {w w'} hw => ?_
  obtain ⟨id?, w₁, w₁', hup, hup', halike⟩ := (hu.host h (some (Utf8.encode args))).exists_eq hw
  unfold Outgoing.ask
  rw [hw.connected]
  split
  · exact ⟨rfl, hw⟩
  · split
    · exact ⟨rfl, hw⟩
    · rw [hup, hup']
      cases id? with
      | none => exact ⟨rfl, halike⟩
      | some id =>
          dsimp only
          rw [halike.buffers]
          split
          · exact ⟨rfl, halike.setBuffers hu _⟩
          · exact ⟨rfl, halike.setBuffers hu _⟩

theorem respects_invoke (h : Handle) (args : String) (expectResult : Bool) :
    Respects H y (Outgoing.invoke upcall h args expectResult) := by
  refine .of_forall fun {w w'} hw => ?_
  obtain ⟨r, w₁, w₁', hask, hask', halike⟩ := (hu.respects_ask h args).exists_eq hw
  unfold Outgoing.invoke
  rw [hask, hask']
  rcases r with e | _ | text
  · exact ⟨rfl, halike⟩
  · cases expectResult <;> exact ⟨rfl, halike⟩
  · cases expectResult <;> exact ⟨rfl, halike⟩

theorem respects_query (c : Codec α) (h : Handle) (args : String) :
    Respects H y (Outgoing.query upcall c h args) := by
  refine .of_forall fun {w w'} hw => ?_
  obtain ⟨r, w₁, w₁', hinvoke, hinvoke', halike⟩ := (hu.respects_invoke h args true).exists_eq hw
  unfold Outgoing.query
  rw [hinvoke, hinvoke']
  rcases r with e | _ | text
  · exact ⟨rfl, halike⟩
  · exact ⟨rfl, halike⟩
  · exact ⟨rfl, halike⟩

theorem respects_snapshotAt (i : Nat) : Respects H y (snapshotAt i) := by
  refine Act.respects_get (fun hw => by rw [hw.view]) fun w => ?_
  split
  · exact Act.respects_bind (Act.respects_change fun hw => hw.setView hu i _) fun _ =>
      Act.respects_pure _
  · exact Act.respects_throw _

theorem alike_log (level : Level) (msg : String) (fields : List (String × Json))
    (hw : World.Alike H y w w') :
    World.Alike H y (Outgoing.log upcall level msg fields w)
      (Outgoing.log upcall level msg fields w') := by
  unfold Outgoing.log
  rw [hw.sink, hw.connected]
  cases w.sink with
  | none => exact hw
  | some sink =>
      dsimp only
      split
      · exact (hu.respects_invoke _ _ false).alike hw
      · exact hw

end Unaware

/-! ## The executor -/

namespace Executor

variable {x : Executor}

theorem respects_look : Respects H y x.look :=
  Act.respects_get (fun hw => by rw [hw.view]) fun _ => Act.respects_pure _

theorem respects_nextNonce (n : UInt64) : Respects H y (nextNonce n) := by
  unfold nextNonce
  split
  · exact Act.respects_pure _
  · exact Act.respects_throw _

theorem respects_nextDepth (n : UInt32) : Respects H y (nextDepth n) := by
  unfold nextDepth
  split
  · exact Act.respects_pure _
  · exact Act.respects_throw _

variable (hu : Unaware x.upcall H y)
include hu

theorem respects_put (v : View) : Respects H y (x.put v) :=
  Act.respects_change fun hw => hw.setView hu _ v

theorem respects_trace (f : Tracer → Tracer) : Respects H y (x.trace f) := by
  unfold trace
  split
  · exact Act.respects_pure _
  · refine Act.respects_change fun hw => ?_
    rw [hw.tracer]
    exact hw.setTracer hu _ _

theorem respects_log (level : Level) (msg : String) (fields : List (String × Json)) :
    Respects H y (x.log level msg fields) :=
  Act.respects_change fun hw => hu.alike_log level msg fields hw

theorem respects_query (c : Codec α) (h : Handle) (args : String) :
    Respects H y (x.query c h args) :=
  ⟨fun hw => congrArg Except.ok ((hu.respects_query c h args).answer hw),
    (hu.respects_query c h args).alike⟩

theorem respects_snapshot : Respects H y x.snapshot := hu.respects_snapshotAt x.view

theorem respects_revert (id : Nat) : Respects H y (x.revert id) := by
  refine Act.respects_bind respects_look fun v => ?_
  split
  · exact respects_put hu _
  · exact Act.respects_throw _

theorem respects_create (inv : Invocation) (value : Nat) (remaining : UInt64) :
    Respects H y (x.create inv value remaining) := by
  refine Act.respects_bind respects_look fun v => ?_
  dsimp only
  split
  · exact Act.respects_pure _
  · refine Act.respects_bind (respects_nextNonce _) fun nonce => ?_
    split
    · exact Act.respects_bind (respects_put hu _) fun _ => Act.respects_pure _
    · exact Act.respects_bind (respects_put hu _) fun _ => Act.respects_pure _

theorem respects_external (inv : Invocation) (callee : Address) (remaining : UInt64) :
    Respects H y (x.external inv callee remaining) := by
  unfold external
  split
  · exact Act.respects_pure _
  · exact Act.respects_bind (respects_nextDepth _) fun depth =>
      Act.respects_bind (respects_trace hu _) fun _ =>
        Act.respects_bind (respects_query hu _ _ _) fun answer =>
          Act.respects_bind (respects_trace hu _) fun _ => Act.respects_pure _

theorem respects_blockHash (number : Nat) : Respects H y (x.blockHash number) := by
  unfold blockHash
  split
  · exact Act.respects_pure _
  · refine Act.respects_bind (respects_query hu _ _ _) fun answer => ?_
    split
    · exact Act.respects_pure _
    · exact Act.respects_bind (respects_log hu _ _ _) fun _ => Act.respects_pure _

theorem respects_answer (inv : Invocation) (callee : Address) (remaining : UInt64) :
    Respects H y (x.answer inv callee remaining) := by
  unfold answer
  split
  · exact respects_external hu inv callee remaining
  · split
    · exact Act.respects_bind (respects_blockHash hu _) fun _ => Act.respects_pure _
    · exact Act.respects_pure _

theorem respects_call (inv : Invocation) (callee : Address) (value : Nat) (remaining : UInt64) :
    Respects H y (x.call inv callee value remaining) := by
  refine Act.respects_bind respects_look fun v =>
    Act.respects_bind (respects_nextNonce _) fun nonce => ?_
  dsimp only
  split
  · exact Act.respects_bind (respects_put hu _) fun _ => Act.respects_pure _
  · exact Act.respects_bind (respects_put hu _) fun _ => respects_answer hu inv callee remaining

theorem respects_body (inv : Invocation) (value : Nat) (remaining : UInt64) :
    Respects H y (x.body inv value remaining) := by
  unfold body
  split
  · exact respects_create hu inv value remaining
  · exact respects_call hu inv _ value remaining

theorem respects_run (inv : Invocation) : Respects H y (x.run inv) := by
  unfold run
  split
  · exact Act.respects_pure _
  · dsimp only
    split
    · exact Act.respects_pure _
    · refine Act.respects_bind (respects_snapshot hu) fun id =>
        Act.respects_bind (Act.respects_attempt (respects_body hu inv _ _)) fun o => ?_
      split
      · split
        · exact Act.respects_bind (respects_revert hu id) fun _ => Act.respects_pure _
        · exact Act.respects_pure _
      · exact Act.respects_bind (respects_revert hu id) fun _ => Act.respects_throw _
      · exact Act.respects_throw _

/-- **An apply does not look up handles.** -/
theorem respects_apply (inv : Invocation) : Respects H y (x.apply inv) := by
  unfold apply
  exact Act.respects_bind (respects_trace hu _) fun _ =>
    Act.respects_bind (respects_run hu _) fun r =>
      Act.respects_bind (respects_trace hu _) fun _ =>
        Act.respects_bind (respects_log hu _ _ _) fun _ => Act.respects_pure _

end Executor

/-! ## Requests -/

/-- A request that does not look up this handle, and opens nothing of its category. -/
structure Request.Avoids (r : Request) (y : Category × Handle) : Prop where
  unnamed : y ∉ r.handles
  opens : r.opens ≠ some y.1

theorem Request.Avoids.ne {r : Request} (hr : r.Avoids y) {x : Category × Handle}
    (hx : x ∈ r.handles) : x ≠ y := by
  rintro rfl
  exact hr.unnamed hx

namespace Service

variable {h : Handle}

theorem respects_findStore (hh : (.store, h) ≠ y) : Respects H y (findStore h) :=
  Act.respects_get (fun hw => by rw [hw.sheds.stores.find h hh]) fun _ => Act.respects_ofExcept _

theorem respects_findView (hh : (.view, h) ≠ y) : Respects H y (findView h) :=
  Act.respects_get (fun hw => by rw [hw.sheds.views.find h hh]) fun _ => Act.respects_ofExcept _

theorem respects_findTracer (hh : (.tracer, h) ≠ y) : Respects H y (findTracer h) :=
  Act.respects_get (fun hw => by rw [hw.sheds.tracers.find h hh]) fun _ => Act.respects_ofExcept _

theorem respects_look (hh : (.view, h) ≠ y) (f : View → α) : Respects H y (look h f) :=
  Act.respects_bind (respects_findView hh) fun _ =>
    Act.respects_get (fun hw => by rw [hw.view]) fun _ => Act.respects_pure _

theorem respects_proof {p : ProofParams} (hh : (.view, p.handle) ≠ y) : Respects H y (proof p) :=
  Act.respects_bind (respects_findView hh) fun _ =>
    Act.respects_get (fun hw => by rw [hw.view, hw.store]) fun _ =>
      Act.respects_bind (Act.respects_ofExcept _) fun _ => Act.respects_pure _

section

variable (hu : Unaware upcall H y)
include hu

/-! ### Opening and closing -/

/-- Where no handle is missing, the same one is given out. -/
theorem respects_addStore (hy : y.1 ≠ .store) (s : Store) : Respects H y (addStore s) :=
  Act.respects_add (p := fun w => w.engine.stores)
    (f := fun w stores => { w with engine := { w.engine with stores } }) s
    (fun hw => hw.sheds.stores.eq fun _ h => hy (congrArg Prod.fst h).symm)
    fun _ hw => hw.setStores hu (.refl _ _)

theorem respects_addView (hy : y.1 ≠ .view) (v : View) : Respects H y (addView v) :=
  Act.respects_add (p := fun w => w.engine.views)
    (f := fun w views => { w with engine := { w.engine with views } }) v
    (fun hw => hw.sheds.views.eq fun _ h => hy (congrArg Prod.fst h).symm)
    fun _ hw => hw.setViews hu (.refl _ _)

theorem respects_addTracer (hy : y.1 ≠ .tracer) (t : Tracer) : Respects H y (addTracer t) :=
  Act.respects_add (p := fun w => w.engine.tracers)
    (f := fun w tracers => { w with engine := { w.engine with tracers } }) t
    (fun hw => hw.sheds.tracers.eq fun _ h => hy (congrArg Prod.fst h).symm)
    fun _ hw => hw.setTracers hu (.refl _ _)

theorem respects_openDisk (hy : y.1 ≠ .store) (p : LevelDbParams) : Respects H y (openDisk p) := by
  have hopen : ∀ w, openDisk p w =
      (Act.ofExcept (Store.openAt w.files p.path p.preimages).1 >>= addStore)
        { w with files := (Store.openAt w.files p.path p.preimages).2 } := fun _ => rfl
  refine .of_forall fun {w w'} hw => ?_
  rw [hopen, hopen, hw.files]
  have hadd := Act.respects_bind (Act.respects_ofExcept
    (Store.openAt w.files p.path p.preimages).1) (respects_addStore hu hy)
  exact ⟨hadd.answer (hw.setFiles hu _), hadd.alike (hw.setFiles hu _)⟩

theorem respects_openView (hy : y.1 ≠ .view) {p : StateParams}
    (hh : (.store, p.databaseHandle) ≠ y) : Respects H y (openView p) :=
  Act.respects_bind (respects_findStore hh) fun _ =>
    Act.respects_get (fun hw => by rw [hw.store]) fun _ =>
      Act.respects_bind (Act.respects_ofExcept _) fun _ => respects_addView hu hy _

theorem respects_closeStore {p : DatabaseParams} (hh : (.store, p.databaseHandle) ≠ y) :
    Respects H y (closeStore p) := by
  refine Act.respects_set (g := fun w => w.engine.stores.close p.databaseHandle) fun hw => ?_
  refine (hw.sheds.stores.close hh).imp_right ?_
  rintro ⟨stores, stores', hc, hc', hsheds⟩
  exact ⟨stores, stores', hc, hc', hw.setStores hu hsheds⟩

theorem respects_closeView {p : HandleParams} (hh : (.view, p.handle) ≠ y) :
    Respects H y (closeView p) := by
  refine Act.respects_set (g := fun w => w.engine.views.close p.handle) fun hw => ?_
  refine (hw.sheds.views.close hh).imp_right ?_
  rintro ⟨views, views', hc, hc', hsheds⟩
  exact ⟨views, views', hc, hc', hw.setViews hu hsheds⟩

theorem respects_removeTracer {p : TracerParams} (hh : (.tracer, p.tracerHandle) ≠ y) :
    Respects H y (removeTracer p) := by
  refine Act.respects_set (g := fun w => w.engine.tracers.close p.tracerHandle) fun hw => ?_
  refine (hw.sheds.tracers.close hh).imp_right ?_
  rintro ⟨tracers, tracers', hc, hc', hsheds⟩
  exact ⟨tracers, tracers', hc, hc', hw.setTracers hu hsheds⟩

/-! ### Objects that stay -/

theorem respects_step (hh : (.view, h) ≠ y) (f : View → α × View) : Respects H y (step h f) :=
  Act.respects_bind (respects_findView hh) fun i =>
    Act.respects_get (fun hw => by rw [hw.view]) fun _ =>
      Act.respects_bind (Act.respects_change fun hw => hw.setView hu i _) fun _ =>
        Act.respects_pure _

theorem respects_updateIf (hh : (.view, h) ≠ y) (f : View → Except EngineError View) :
    Respects H y (updateIf h f) :=
  Act.respects_bind (respects_findView hh) fun i =>
    Act.respects_get (fun hw => by rw [hw.view]) fun _ =>
      Act.respects_bind (Act.respects_ofExcept _) fun v =>
        Act.respects_change fun hw => hw.setView hu i v

theorem respects_updateTracer (hh : (.tracer, h) ≠ y) (f : Tracer → Tracer) :
    Respects H y (updateTracer h f) := by
  refine Act.respects_bind (respects_findTracer hh) fun i => Act.respects_change fun hw => ?_
  rw [hw.tracer]
  exact hw.setTracer hu i _

theorem respects_snapshot {p : HandleParams} (hh : (.view, p.handle) ≠ y) :
    Respects H y (snapshot p) :=
  Act.respects_bind (respects_findView hh) fun i =>
    Act.respects_bind (hu.respects_snapshotAt i) fun _ => Act.respects_pure _

/-- A commit asks the store behind the view, not its handle. -/
theorem respects_commit {p : HandleParams} (hh : (.view, p.handle) ≠ y) :
    Respects H y (commit p) := by
  refine .of_forall fun {w w'} hw => ?_
  have hfind := hw.sheds.views.find p.handle hh
  cases hi : w.engine.views.find p.handle with
  | error e =>
      have hrefused : ∀ {w : World}, w.engine.views.find p.handle = .error e →
          commit p w = (.error (.error e), w) := fun h => Act.bind_error (Act.ofExcept_error h)
      rw [hrefused hi, hrefused (hfind.trans hi)]
      exact ⟨rfl, hw⟩
  | ok i =>
      rw [commit_eq hi, commit_eq (hfind.trans hi), hw.view, hw.store, hw.files]
      split
      · exact ⟨rfl, ((hw.setView hu i _).setFiles hu _).setStore hu _ _⟩
      · exact ⟨rfl, hw.setView hu i _⟩

theorem respects_dump {p : DumpParams} (hh : (.view, p.handle) ≠ y) : Respects H y (dump p) := by
  refine Act.respects_bind (respects_findView hh) fun i => Act.respects_set fun {w w'} hw => ?_
  rw [hw.view, hw.store, hw.files]
  generalize (w.files.write p.dumpFile _).mapError EngineError.io = o
  cases o with
  | error e => exact .inl ⟨e, rfl, rfl⟩
  | ok files => exact .inr ⟨files, files, rfl, rfl, hw.setFiles hu files⟩

theorem respects_apply {p : EvmParams} (hp : ∀ x ∈ (Request.apply p).handles, x ≠ y) :
    Respects H y (apply upcall p) := by
  refine Act.respects_bind (respects_findView (hp _ List.mem_cons_self)) fun i => ?_
  split
  · exact Act.respects_bind (Act.respects_pure _) fun _ => Executor.respects_apply hu _
  · rename_i h ht
    have hh := hp _ (Request.mem_handles_of_tracer ht)
    exact Act.respects_bind (Act.respects_map (respects_findTracer hh)) fun _ =>
      Executor.respects_apply hu _

theorem respects_invokeCallback (p : CallbackInvokeParams) :
    Respects H y (invokeCallback upcall p) := by
  have hinvoke := hu.respects_invoke p.handle p.args p.expectResult
  exact ⟨fun hw => congrArg (Except.mapError fun e => Fault.error (.callback e))
    (hinvoke.answer hw), hinvoke.alike⟩

/-- **A handle that is missing is not missed** by requests that do not name it, and open nothing
that could be given it. -/
theorem respects_run {r : Request} (hr : r.Avoids y) : Respects H y (run upcall r) := by
  have hfirst : ∀ {x xs}, r.handles = x :: xs → x ≠ y := fun hx =>
    hr.ne (hx ▸ List.mem_cons_self)
  have hopens : ∀ {c}, r.opens = some c → y.1 ≠ c := fun hc hy => hr.opens (hy ▸ hc)
  cases r with
  | openMemory => exact Act.respects_map (respects_addStore hu (hopens rfl) _)
  | openDisk p => exact Act.respects_map (respects_openDisk hu (hopens rfl) p)
  | openView p => exact Act.respects_map (respects_openView hu (hopens rfl) (hfirst rfl))
  | createTracer options =>
      exact Act.respects_map (Act.respects_bind (Act.respects_ofExcept _) fun t =>
        respects_addTracer hu (hopens rfl) t)
  | closeStore p => exact Act.respects_map (respects_closeStore hu (hfirst rfl))
  | closeView p => exact Act.respects_map (respects_closeView hu (hfirst rfl))
  | removeTracer p => exact Act.respects_map (respects_removeTracer hu (hfirst rfl))
  | finalize p | intermediateRoot p | addBalance p | setBalance p | setNonce p | setCode p
  | accessSetup p | accessAccount p | accessSlot p =>
      exact Act.respects_map (respects_step hu (hfirst rfl) _)
  | snapshot p => exact Act.respects_map (respects_snapshot hu (hfirst rfl))
  | commit p => exact Act.respects_map (respects_commit hu (hfirst rfl))
  | isEmpty p | isExternal p | balance p | nonce p | codeHash p | code p | storage p =>
      exact Act.respects_map (respects_look (hfirst rfl) _)
  | subBalance p | setStorage p | revert p =>
      exact Act.respects_map (respects_updateIf hu (hfirst rfl) _)
  | proof p => exact Act.respects_map (respects_proof (hfirst rfl))
  | dump p => exact Act.respects_map (respects_dump hu (hfirst rfl))
  | apply p => exact Act.respects_map (respects_apply hu fun _ hx => hr.ne hx)
  | traceResult p =>
      exact Act.respects_map (Act.respects_bind (respects_findTracer (hfirst rfl)) fun i =>
        Act.respects_get (fun hw => by rw [hw.tracer]) fun _ => Act.respects_pure _)
  | txStart p | txEnd p | frameEnd p | frameEnter p | frameExit p =>
      exact Act.respects_map (respects_updateTracer hu (hfirst rfl) _)
  | frameStart p =>
      have htracer : (.tracer, p.tracerHandle) ≠ y :=
        hr.ne (List.mem_cons_of_mem _ List.mem_cons_self)
      exact Act.respects_map (Act.respects_bind (respects_findView (hfirst rfl))
        fun _ => respects_updateTracer hu htracer _)
  | invokeCallback p => exact Act.respects_map (respects_invokeCallback hu p)

end

/-- What is closed loses its handle, or nothing happens. -/
theorem alike_closes {r : Request} (hr : r.closes = some y) (hu : Unaware upcall H y) (hw : H w)
    (upcall' : Upcall) : World.Alike H y w (run upcall' r w).2 := by
  have hrefused : World.Alike H y w w := .refl hw y
  refine Ends.world (J := fun w' => World.Alike H y w w') ?_
  cases r with
  | closeStore p =>
      refine Act.ends_map.mpr (Act.ends_ofExcept (fun _ _ => hrefused) fun stores hc => ?_)
      exact ⟨hu.congr hw rfl, rfl, Pool.sheds_close hc (Option.some.inj hr), .refl _ _, .refl _ _⟩
  | closeView p =>
      refine Act.ends_map.mpr (Act.ends_ofExcept (fun _ _ => hrefused) fun views hc => ?_)
      exact ⟨hu.congr hw rfl, rfl, .refl _ _, Pool.sheds_close hc (Option.some.inj hr), .refl _ _⟩
  | removeTracer p =>
      refine Act.ends_map.mpr (Act.ends_ofExcept (fun _ _ => hrefused) fun tracers hc => ?_)
      exact ⟨hu.congr hw rfl, rfl, .refl _ _, .refl _ _, Pool.sheds_close hc (Option.some.inj hr)⟩
  | _ => exact absurd hr (by simp [Request.closes])

end Service

end EvmBridge
