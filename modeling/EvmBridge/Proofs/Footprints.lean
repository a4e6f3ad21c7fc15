import EvmBridge.Proofs.AloofCallbacks
import EvmBridge.Proofs.RequestSteps

/-!
# What a request touches

A request that neither opens nor closes anything leaves all handles where they lead. Of the views
and tracers it changes only those whose handles it names, and stores change by a commit only
(`Request.Leaves`).

This is so as long as the host leaves the objects of the module alone (`Quiet`). A host does if its
callbacks are aloof. And most requests do not call the host at all, so that it does not matter for
them which one there is (`Service.run_upcall`).
-/

namespace EvmBridge

/-! ## Hosts that keep to themselves -/

/-- In worlds of some kind, the host neither sees the objects of the module nor changes them. It
depends on what callbacks do whether a world is of that kind. -/
structure Quiet (upcall : Upcall) (H : World → Prop) : Prop where
  blind : ∀ (h : Handle) (args : Option Bytes) (e : Engine) {w : World}, H w →
    upcall h args (w.withEngine e) = ((upcall h args w).1, (upcall h args w).2.withEngine e)
  keeps : ∀ (h : Handle) (args : Option Bytes) {w : World}, H w → H (upcall h args w).2
  congr : ∀ {w w' : World}, H w → w'.action = w.action → H w'

/-- Where nobody answers, the host is quiet whatever callbacks there are. -/
theorem Proxy.quiet_nobody : Quiet (nested 0) fun _ => True where
  blind _ _ _ _ _ := rfl
  keeps _ _ _ _ := trivial
  congr _ _ := trivial

theorem World.Aloof.congr {w w' : World} (hw : w.Aloof) (h : w'.action = w.action) : w'.Aloof := by
  intro id
  show (w'.action id).Aloof
  rw [h]
  exact hw id

/-- A host whose callbacks are aloof is quiet. -/
theorem Proxy.quiet_nested (depth : Nat) : Quiet (nested depth) World.Aloof :=
  match depth with
  | 0 => ⟨fun _ _ _ _ _ => rfl, fun _ _ _ hw => hw, .congr⟩
  | depth + 1 =>
    ⟨fun h args e _ hw => (aside_serve (nested depth) h args).blind hw e,
      fun h args _ hw => (aside_serve (nested depth) h args).aloof hw, .congr⟩

namespace Quiet

variable {upcall : Upcall} {H : World → Prop} {w : World}

theorem engine (hq : Quiet upcall H) (h : Handle) (args : Option Bytes) (hw : H w) :
    (upcall h args w).2.engine = w.engine := by
  have hblind : upcall h args w = ((upcall h args w).1, (upcall h args w).2.withEngine w.engine) :=
    hq.blind h args w.engine hw
  rw [hblind]
  rfl

theorem settled (hq : Quiet upcall H) (h : Handle) (args : Option Bytes) (hw : H w) :
    (settle (upcall h args w)).engine = w.engine ∧ H (settle (upcall h args w)) := by
  rw [engine_settle, hq.engine h args hw]
  refine ⟨rfl, hq.congr (hq.keeps h args hw) ?_⟩
  rcases upcall h args w with ⟨_ | id, w'⟩ <;> rfl

theorem engine_log (hq : Quiet upcall H) (level : Level) (msg : String)
    (fields : List (String × Json)) (hw : H w) :
    (Outgoing.log upcall level msg fields w).engine = w.engine :=
  (Outgoing.log_settles (J := fun w' => w'.engine = w.engine ∧ H w') ⟨rfl, hw⟩
    fun _ _ _ => hq.settled _ _ hw).1

end Quiet

/-! ## What is not named -/

namespace Request

/-- The handle of a tracer that is told something is named. -/
theorem mem_handles_of_capture {r : Request} {h : Handle} {c : Capture}
    (hc : r.capture? = some (h, c)) : (.tracer, h) ∈ r.handles := by
  cases r with
  | frameStart p =>
      cases hc
      exact List.mem_cons_of_mem _ List.mem_cons_self
  | txStart | txEnd | frameEnd | frameEnter | frameExit =>
      cases hc
      exact List.mem_cons_self
  | _ => exact absurd hc (by simp [capture?])

/-- An apply names the handle of its tracer. -/
theorem mem_handles_of_tracer {p : EvmParams} {h : Handle} (hp : p.context.tracer = some h) :
    (.tracer, h) ∈ (Request.apply p).handles := by
  simp [handles, hp]

/-- No object of this category that the request names stands at this place. -/
def Spares (r : Request) (e : Engine) (c : Category) (j : Nat) : Prop :=
  ∀ h, (c, h) ∈ r.handles → e.find c h ≠ .ok j

end Request

/-- What a request leaves as it was: all handles, the views and tracers it does not name, and the
stores, unless it commits. -/
structure Request.Leaves (r : Request) (w w' : World) : Prop where
  tables : ∀ c, w'.engine.table c = w.engine.table c
  views : ∀ j, r.Spares w.engine .view j →
    w'.engine.views.objects[j]? = w.engine.views.objects[j]?
  tracers : ∀ j, r.Spares w.engine .tracer j →
    w'.engine.tracers.objects[j]? = w.engine.tracers.objects[j]?
  stores : (∀ p, r ≠ .commit p) → w'.engine.stores.objects = w.engine.stores.objects

namespace Request.Leaves

variable {w w' w'' : World} {r : Request} {h : Handle} {i : Nat}

theorem refl (r : Request) (w : World) : r.Leaves w w :=
  ⟨fun _ => rfl, fun _ _ => rfl, fun _ _ => rfl, fun _ => rfl⟩

theorem of_engine (hw : r.Leaves w w') (h : w''.engine = w'.engine) : r.Leaves w w'' := by
  constructor <;> rw [h]
  exacts [hw.tables, hw.views, hw.tracers, hw.stores]

theorem find (hw : r.Leaves w w') (c : Category) (h : Handle) :
    w'.engine.find c h = w.engine.find c h := by
  have htable := hw.tables c
  cases c
  all_goals
    simp only [Engine.table] at htable
    simp only [Engine.find, Pool.find, htable]

theorem setView (hw : r.Leaves w w') (hi : ¬ r.Spares w.engine .view i) (v : View) :
    r.Leaves w (w'.setView i v) := by
  refine ⟨fun c => ?_, fun j hj => ?_, hw.tracers, hw.stores⟩
  · rw [← hw.tables c]
    cases c <;> rfl
  · have hne : i ≠ j := fun hij => hi (hij ▸ hj)
    show (w'.engine.views.objects.set i v)[j]? = _
    rw [List.getElem?_set_ne hne]
    exact hw.views j hj

theorem setTracer (hw : r.Leaves w w') (hi : ¬ r.Spares w.engine .tracer i) (t : Tracer) :
    r.Leaves w (w'.setTracer i t) := by
  refine ⟨fun c => ?_, hw.views, fun j hj => ?_, hw.stores⟩
  · rw [← hw.tables c]
    cases c <;> rfl
  · have hne : i ≠ j := fun hij => hi (hij ▸ hj)
    show (w'.engine.tracers.objects.set i t)[j]? = _
    rw [List.getElem?_set_ne hne]
    exact hw.tracers j hj

theorem setStore (hw : r.Leaves w w') {p : HandleParams} (hr : r = .commit p) (s : Store) :
    r.Leaves w (w'.setStore i s) := by
  refine ⟨fun c => ?_, hw.views, hw.tracers, fun hne => absurd hr (hne p)⟩
  rw [← hw.tables c]
  cases c <;> rfl

/-- A place to which a named handle leads is not spared. -/
theorem not_spares {c : Category} (hw : r.Leaves w w') (hh : (c, h) ∈ r.handles)
    (hi : w'.engine.find c h = .ok i) : ¬ r.Spares w.engine c i :=
  fun hs => hs h hh ((hw.find c h).symm.trans hi)

end Request.Leaves

/-! ## What a request does to the rest -/

section

variable {upcall : Upcall} {H : World → Prop} {w w' : World} {r : Request}

/-- A quiet host spares what depends on the objects of the module only. -/
theorem Quiet.spares {x : Executor} {J : World → Prop} (hq : Quiet x.upcall H)
    (htraced : ∀ (f : Tracer → Tracer) {w}, J w → J (x.traced f w))
    (hengine : ∀ {w w'}, J w → w'.engine = w.engine → J w') : x.Spares fun w => J w ∧ H w := by
  have hhost : ∀ (h : Handle) (args : Option Bytes) {w}, J w ∧ H w →
      J (settle (x.upcall h args w)) ∧ H (settle (x.upcall h args w)) := by
    rintro h args w ⟨hw, hkind⟩
    obtain ⟨hsame, hkind⟩ := hq.settled h args hkind
    exact ⟨hengine hw hsame, hkind⟩
  refine ⟨fun f w hw => ⟨htraced f hw.1, hq.congr hw.2 ?_⟩, fun c h _ w hw => ?_,
    fun _ _ _ w hw => ?_⟩
  · unfold Executor.traced
    cases x.tracer <;> rfl
  · exact Outgoing.query_settles (J := fun w => J w ∧ H w) c hw (hhost h _ hw)
  · exact Outgoing.log_settles (J := fun w => J w ∧ H w) hw fun _ _ _ => hhost _ _ hw

/-- Of all views and tracers an apply changes its own only. -/
theorem Executor.leaves_apply {x : Executor} (hq : Quiet x.upcall H)
    (hview : ¬ r.Spares w.engine .view x.view)
    (htracer : ∀ i, x.tracer = some i → ¬ r.Spares w.engine .tracer i) (inv : Invocation)
    (hw : r.Leaves w w' ∧ H w') : r.Leaves w (x.apply inv w').2 ∧ H (x.apply inv w').2 := by
  have htraced : ∀ (f : Tracer → Tracer) {w'}, r.Leaves w w' → r.Leaves w (x.traced f w') := by
    intro f w' hleaves
    unfold traced
    cases hx : x.tracer with
    | none => exact hleaves
    | some i => exact hleaves.setTracer (htracer i hx) _
  have hspares : x.Spares fun w' => r.Leaves w w' ∧ H w' := hq.spares htraced .of_engine
  exact hspares.attends.apply (fun v hw => ⟨hw.1.setView hview v, hq.congr hw.2 rfl⟩)
    (fun _ _ _ hw => hspares.traced _ hw) (fun _ _ _ hw => hspares.traced _ hw) inv hw

/-- **A request changes what it names.** It must neither open nor close anything. -/
theorem Quiet.leaves_serves (hq : Quiet upcall H) (hopens : r.opens = none)
    (hcloses : r.closes = none) (w : World) :
    Serves upcall (· = r) fun w' => r.Leaves w w' ∧ H w' where
  elsewhere hw engine _ _ haction := ⟨hw.1.of_engine engine, hq.congr hw.2 haction⟩
  prepared _ hw := ⟨hw.1.of_engine rfl, hq.congr hw.2 rfl⟩
  dumped _ hw _ := ⟨hw.1.of_engine rfl, hq.congr hw.2 rfl⟩
  passed text w' hw :=
    ⟨hw.1.of_engine (World.engine_passed text w'), hq.congr hw.2 (World.action_passed text w')⟩
  starved _ _ hw := ⟨hw.1.of_engine rfl, hq.congr hw.2 rfl⟩
  opened hr hc := by
    subst hr
    rw [hopens] at hc
    cases hc
  closed hr hx := by
    subst hr
    rw [hcloses] at hx
    cases hx
  called _ _ hr hh hi hw := by
    subst hr
    exact ⟨hw.1.setView (hw.1.not_spares hh hi) _, hq.congr hw.2 rfl⟩
  committed hr hi hw _ := by
    subst hr
    have hview := hw.1.not_spares (c := .view) List.mem_cons_self hi
    refine ⟨Request.Leaves.setStore ?_ rfl _, hq.congr hw.2 rfl⟩
    exact (hw.1.setView hview _).of_engine rfl
  traced hr hc hi hw := by
    subst hr
    have htracer := hw.1.not_spares (Request.mem_handles_of_capture hc) hi
    exact ⟨hw.1.setTracer htracer _, hq.congr hw.2 rfl⟩
  applied {p x w'} hr hx hfor hw := by
    subst hx
    refine Executor.leaves_apply hq ?_ (fun i hi => ?_) _ hw
    · exact hw.1.not_spares (c := .view) (hr ▸ List.mem_cons_self) hfor.view
    · obtain ⟨h, hp, hfound⟩ := hfor.tracer i hi
      exact hw.1.not_spares (hr ▸ Request.mem_handles_of_tracer hp) hfound
  host h args _ hw := by
    obtain ⟨hengine, hkind⟩ := hq.settled h args hw.2
    exact ⟨hw.1.of_engine hengine, hkind⟩

end

/-! ## Requests that do not call the host -/

/-- The requests that call the host. -/
def Request.asksHost : Request → Bool
  | .apply _ | .invokeCallback _ => true
  | _ => false

namespace Service

variable {r : Request}

/-- **Most requests do not call the host**, so it does not matter which one there is. -/
theorem run_upcall (hr : r.asksHost = false) (upcall upcall' : Upcall) :
    run upcall r = run upcall' r := by
  cases r with
  | apply | invokeCallback => exact absurd hr (by simp [Request.asksHost])
  | _ => rfl

/-- What does not call the host, or calls one whose callbacks are aloof, runs as with a quiet host.
-/
theorem exists_quiet (depth : Nat) (w : World) :
    ∃ upcall H, Quiet upcall H ∧ H w ∧
      ∀ r : Request, (r.asksHost → w.Aloof) → run (Proxy.nested depth) r = run upcall r := by
  by_cases hw : w.Aloof
  · exact ⟨_, _, Proxy.quiet_nested depth, hw, fun _ _ => rfl⟩
  · refine ⟨_, _, Proxy.quiet_nobody, trivial, fun r hr => ?_⟩
    have hsilent : r.asksHost = false := by simpa using mt hr hw
    exact run_upcall hsilent _ _

end Service

end EvmBridge
