import EvmBridge.Proofs.UnawareHosts
import EvmBridge.Proofs.UseAfterClose

/-!
# Views do not disturb each other

Many views may be open on one store, and many of them at one root, but each has a state of its own.
A call that names a view leaves all other views alone, and all tracers that it does not name, and
all stores, unless it commits: then the store of the view takes one state, and keeps all others
(`Service.Isolates`).

Nor does a view need anyone else to stay. Its store can be closed, and so can all other views on it:
it answers as before, and can still be committed. `Service.views_isolated` says both, of every
moment of every run (`World.Becomes`).
-/

namespace EvmBridge

/-! ## All moments of all runs -/

/-- Changes lead from one world to another. -/
def World.Becomes : World → World → Prop := Relation.ReflTransGen Change

namespace World.Becomes

variable {w₀ w w' : World}

theorem steady (w₀ : World) (depth : Nat) : Steady (Proxy.nested depth) w₀.Becomes :=
  Proxy.steady_nested (fun h hc => h.tail hc) depth

/-- **A call goes on with a run**, with callbacks that call back to any depth. -/
theorem call (h : w₀.Becomes w) (depth : Nat) (method : String) (args : Option String) :
    w₀.Becomes (Service.invoke (Proxy.nested depth) method args w).2 :=
  (Service.invoke_invariant (steady w₀ depth).invariant method args h).world

/-- Requests go on with a run, one after the other. -/
theorem requests (h : w₀.Becomes w) (depth : Nat) (rs : List Request) :
    w₀.Becomes (rs.foldl (fun w r => (Service.run (Proxy.nested depth) r w).2) w) := by
  induction rs generalizing w with
  | nil => exact h
  | cons r rs ih => exact ih (Service.run_invariant (steady w₀ depth).invariant r h).world

/-- At every moment, no two handles of a category lead to the same object. -/
theorem distinct (hinit : w₀.engine = {}) (h : w₀.Becomes w) : w.engine.Distinct := by
  have hhist : ∃ es, Service.History w₀ es w := by
    induction h with
    | refl => exact ⟨[], .start⟩
    | tail _ hc ih =>
        obtain ⟨es, hist⟩ := ih
        obtain ⟨es', hist'⟩ := hist.change hc
        exact ⟨es ++ es', hist'⟩
  obtain ⟨es, hist⟩ := hhist
  exact hist.distinct (hinit ▸ Engine.Distinct.empty)

/-- At every moment, views lead to stores. -/
theorem sound (hinit : w₀.engine = {}) (h : w₀.Becomes w) : w.Sound := by
  have hleads : w₀.Leads w := by
    induction h with
    | refl => exact .refl w₀
    | tail _ hc ih => exact ih.change hc
  exact hleads.sound (World.sound_start hinit)

end World.Becomes

/-! ## Objects by their handles -/

namespace Pool

variable {α : Type} {p q : Pool α} {h : Handle}

/-- The object of a handle. -/
def object? (p : Pool α) (h : Handle) : Option α := (p.handles.get? h).bind (p.objects[·]?)

theorem object?_eq_some_iff {a : α} :
    p.object? h = some a ↔ ∃ i, p.find h = .ok i ∧ p.objects[i]? = some a := by
  rw [object?, Option.bind_eq_some_iff]
  simp only [find_eq_ok_iff, HandleTable.get?]

/-- An object is the same if its handle leads to the same place, and the same stands there. -/
theorem object?_congr (hfind : q.find h = p.find h)
    (hobject : ∀ i, p.find h = .ok i → q.objects[i]? = p.objects[i]?) :
    q.object? h = p.object? h := by
  refine Option.ext fun a => ?_
  rw [object?_eq_some_iff, object?_eq_some_iff, hfind]
  refine exists_congr fun i => and_congr_right fun hi => ?_
  rw [hobject i hi]

end Pool

/-- One entry of a store is set, and no other one changes. -/
structure Store.Gains (s s' : Store) (root : Hash) (A : Accounts) : Prop where
  entry : s'.roots.get? root = some A
  others : ∀ root' ≠ root, s'.roots.get? root' = s.roots.get? root'
  path : s'.path = s.path
  preimages : s'.preimages = s.preimages

theorem Store.gains_of_store {s s' : Store} {files files' : Files} {root : Hash} {A : Accounts}
    (h : s.store files root A = .ok (s', files')) : s.Gains s' root A := by
  rw [Store.eq_of_store h]
  refine ⟨?_, fun root' hne => ?_, rfl, rfl⟩
  · rw [OrdMap.get?_insert, if_pos rfl]
  · rw [OrdMap.get?_insert, if_neg hne]

/-- A request names one view at most. -/
theorem Request.view_unique {r : Request} {h h' : Handle} (hh : (.view, h) ∈ r.handles)
    (hh' : (.view, h') ∈ r.handles) : h' = h := by
  cases r <;> simp_all [handles]

/-- A request that names a view does not open anything, and names no store. -/
theorem Request.opens_of_view {r : Request} {h : Handle} (hh : (.view, h) ∈ r.handles) :
    r.opens = none := by
  cases r <;> first | rfl | exact absurd hh (by simp [handles])

theorem Request.avoids_store {r : Request} {h : Handle} (hh : (.view, h) ∈ r.handles)
    (d : Handle) : r.Avoids (.store, d) := by
  refine ⟨?_, ?_⟩
  · cases r <;> simp_all [handles]
  · rw [opens_of_view hh]
    exact (Option.some_ne_none _).symm

/-! ## A call on a view -/

namespace Service

/-- The store of a view takes its state, and the root is the answer. No other store changes. -/
def Takes (h : Handle) (w : World) (a : Json) (w' : World) : Prop :=
  ∃ v s s', w.engine.views.object? h = some v ∧ w.engine.stores.objects[v.store]? = some s ∧
    a = reply .commit v.finalize.accounts.root ∧
    s.Gains s' v.finalize.accounts.root v.finalize.accounts ∧
    w'.engine.stores = w.engine.stores.set v.store s'

/-- What a call on a view leaves alone. -/
structure Isolates (r : Request) (h : Handle) (w : World) (o : Except Fault Json × World) :
    Prop where
  /-- All other handles lead to the views they led to, which are as they were. -/
  views : ∀ h' ≠ h, o.2.engine.views.object? h' = w.engine.views.object? h'
  tracers : ∀ t, (.tracer, t) ∉ r.handles →
    o.2.engine.tracers.object? t = w.engine.tracers.object? t
  /-- Nothing but a commit that is answered changes a store. -/
  stores : (∀ p a, r = .commit p → o.1 ≠ .ok a) → o.2.engine.stores = w.engine.stores
  committed : ∀ p a, r = .commit p → o.1 = .ok a → Takes h w a o.2

variable {upcall : Upcall} {H : World → Prop} {w : World} {r : Request} {h : Handle}

/-- A view that is closed loses its handle. -/
theorem isolates_close (p : HandleParams) :
    Isolates (.closeView p) p.handle w (run upcall (.closeView p) w) := by
  have hends : Ends (run upcall (.closeView p) w)
      (fun _ w' => ∃ views, w.engine.views.close p.handle = .ok views ∧
        w' = { w with engine := { w.engine with views } }) fun _ w' => w' = w :=
    Act.ends_map.mpr (Act.ends_ofExcept (fun _ _ => rfl) fun views hc => ⟨views, hc, rfl⟩)
  rcases hrun : run upcall (.closeView p) w with ⟨f | a, w'⟩
  · obtain rfl : w' = w := hends.error hrun
    exact ⟨fun _ _ => rfl, fun _ _ => rfl, fun _ => rfl, nofun⟩
  · obtain ⟨views, hc, rfl⟩ := hends.ok hrun
    refine ⟨fun h' hh' => ?_, fun _ _ => rfl, fun _ => rfl, nofun⟩
    refine Pool.object?_congr ((Pool.find_close_eq hc h').trans (if_neg hh')) fun i _ => ?_
    exact congrArg (·[i]?) (Pool.objects_close hc)

/-- What a commit does to the stores. -/
theorem ends_commit_stores (hsound : w.Sound) (p : HandleParams) :
    Ends (run upcall (.commit p) w) (fun a w' => Takes p.handle w a w')
      fun _ w' => w'.engine.stores = w.engine.stores := by
  refine Act.ends_map.mpr ?_
  cases hi : w.engine.views.find p.handle with
  | error e =>
      have hrefused : commit p w = (.error (.error e), w) := Act.bind_error (Act.ofExcept_error hi)
      rw [hrefused]
      exact rfl
  | ok i =>
      have hlt := hsound.viewHandles p.handle i hi
      have hstore := hsound.placed i hlt
      have hview : w.engine.views.objects[i]? = some (w.view i) := by
        simp [World.view, Pool.get, List.getElem?_eq_getElem hlt]
      have hkept : w.engine.stores.objects[(w.view i).store]? =
          some (w.store (w.view i).store) := by
        simp [World.store, Pool.get, List.getElem?_eq_getElem hstore]
      rw [commit_eq hi]
      split
      · rename_i s' files hs
        exact ⟨_, _, s', Pool.object?_eq_some_iff.mpr ⟨i, hi, hview⟩, hkept, rfl,
          Store.gains_of_store hs, rfl⟩
      · exact rfl

/-- **A call on a view leaves everyone else alone.** -/
theorem isolates_run (hdistinct : w.engine.Distinct) (hsound : w.Sound) (hq : Quiet upcall H)
    (hw : H w) (hh : (.view, h) ∈ r.handles) : Isolates r h w (run upcall r w) := by
  by_cases hclose : ∃ p, r = .closeView p
  · obtain ⟨p, rfl⟩ := hclose
    obtain rfl : p.handle = h := Request.view_unique hh List.mem_cons_self
    exact isolates_close p
  have hcloses : r.closes = none := by
    cases r with
    | closeView p => exact absurd ⟨p, rfl⟩ hclose
    | closeStore | removeTracer => exact absurd hh (by simp [Request.handles])
    | _ => rfl
  have hleaves := (run_serves (hq.leaves_serves (Request.opens_of_view hh) hcloses w) rfl
    ⟨.refl r w, hw⟩).world.1
  refine ⟨fun h' hne => ?_, fun t ht => ?_, fun hfailed => ?_, ?_⟩
  · refine Pool.object?_congr (hleaves.find .view h') fun i hi => hleaves.views i ?_
    intro h'' hh'' hi''
    obtain rfl := Request.view_unique hh hh''
    exact hne (hdistinct.sole (c := .view) hi'' hi)
  · refine Pool.object?_congr (hleaves.find .tracer t) fun i hi => hleaves.tracers i ?_
    intro t' ht' hi'
    rw [hdistinct.sole (c := .tracer) hi hi'] at ht'
    exact ht ht'
  · by_cases hcommit : ∃ p, r = .commit p
    · obtain ⟨p, rfl⟩ := hcommit
      rcases hrun : run upcall (.commit p) w with ⟨f | a, w'⟩
      · exact (ends_commit_stores hsound p).error hrun
      · exact absurd (congrArg Prod.fst hrun) (hfailed p a rfl)
    · have hobjects := hleaves.stores fun p hp => hcommit ⟨p, hp⟩
      exact Pool.eq_of_parts hobjects (hleaves.tables .store)
  · rintro p a rfl ha
    obtain rfl : p.handle = h := Request.view_unique hh List.mem_cons_self
    exact (ends_commit_stores hsound p).ok (Prod.ext ha rfl)

/-! ## Calls one after the other -/

variable {method : String} {args : Option String}

/-- What calls are answered, one after the other. -/
def answers (upcall : Upcall) : List (String × Option String) → World → List (Except Fault Json)
  | [], _ => []
  | call :: calls, w =>
    (dispatch upcall call.1 call.2 w).1 :: answers upcall calls (dispatch upcall call.1 call.2 w).2

theorem answers_eq {y : Category × Handle} {w' : World} {calls : List (String × Option String)}
    (hcalls : ∀ call ∈ calls, Respects H y (dispatch upcall call.1 call.2))
    (hw : World.Alike H y w w') : answers upcall calls w' = answers upcall calls w := by
  induction calls generalizing w w' with
  | nil => rfl
  | cons call calls ih =>
      have hcall := hcalls call List.mem_cons_self
      have hrest := ih (fun c hc => hcalls c (List.mem_cons_of_mem _ hc)) (hcall.alike hw)
      unfold answers
      rw [hcall.answer hw, hrest]

/-- An envelope does nothing to the objects of the module, if the host is quiet. -/
theorem engine_invoke (hq : Quiet upcall H) (hw : H (dispatch upcall method args w).2) :
    (invoke upcall method args w).2.engine = (dispatch upcall method args w).2.engine := by
  unfold invoke
  have hattempt : Act.attempt (dispatch upcall method args) w =
      (.ok (dispatch upcall method args w).1, (dispatch upcall method args w).2) := rfl
  rw [Act.bind_ok hattempt]
  generalize dispatch upcall method args w = o at hw ⊢
  rcases o with ⟨(e | _) | a, w'⟩
  · exact hq.engine_log _ _ _ hw
  · rfl
  · rfl

/-- A commit succeeds on a store in memory. -/
theorem run_commit_memory {v : View} (hv : w.engine.views.object? h = some v)
    (hmemory : (w.store v.store).path = none) :
    ∃ w', run upcall (.commit { handle := h }) w =
      (.ok (reply .commit v.finalize.accounts.root), w') := by
  obtain ⟨i, hi, hview⟩ := Pool.object?_eq_some_iff.mp hv
  obtain rfl : w.view i = v := World.Holds.view hview
  have hcommit : ∃ w', commit { handle := h } w =
      (.ok (w.view i).finalize.accounts.root, w') := by
    rw [commit_eq hi]
    unfold Store.store
    rw [hmemory]
    exact ⟨_, rfl⟩
  obtain ⟨w', hw'⟩ := hcommit
  exact ⟨w', Act.map_ok hw'⟩

/-! ## Isolation -/

/-- **Views are isolated**, at every moment of every run. A call that names a view leaves everyone
else alone, and changes the store of the view only by a commit that is answered, which sets the
entry of the root that it answers. For an apply this takes callbacks that do not call the module.
With such callbacks the envelope does nothing more than the call it is written around.

Whatever is closed, be it a store, another view or a tracer, all calls are answered as if it were
still open, one after the other, as long as they do not name it, and open nothing that could be
given its handle. For an apply this goes for callbacks too, which may call the module in this way.
And the view can still be committed, if its store is in memory. -/
theorem views_isolated {w₀ w : World} (hinit : w₀.engine = {}) (hrun : w₀.Becomes w) (depth : Nat)
    (h : Handle) :
    (∀ method args r, Request.ofCall method args = .ok r → (.view, h) ∈ r.handles →
      (r.asksHost → w.Aloof) →
      Isolates r h w (dispatch (Proxy.nested depth) method args w) ∧
        (w.Aloof → (invoke (Proxy.nested depth) method args w).2.engine =
          (dispatch (Proxy.nested depth) method args w).2.engine)) ∧
    (∀ closing y, closing.closes = some y → y ≠ (.view, h) →
      let w' := (run (Proxy.nested depth) closing w).2
      (∀ calls, (∀ call ∈ calls, ∀ r, Request.ofCall call.1 call.2 = .ok r →
          r.Avoids y ∧ (r.asksHost → w.Makes (·.Avoids y))) →
        answers (Proxy.nested depth) calls w' = answers (Proxy.nested depth) calls w) ∧
      ∀ v, w.engine.views.object? h = some v → (w.store v.store).path = none →
        ∃ root w'', run (Proxy.nested depth) (.commit { handle := h }) w' =
          (.ok (reply .commit root), w'')) ∧
    ∀ depth method args, w₀.Becomes (invoke (Proxy.nested depth) method args w).2 := by
  refine ⟨fun method args r hread hh hhost => ⟨?_, fun haloof => ?_⟩,
    fun closing y hclosing hy => ?_, hrun.call⟩
  · obtain ⟨upcall, H, hq, hw, hsame⟩ := exists_quiet depth w
    rw [dispatch_eq hread, hsame r hhost]
    exact isolates_run (hrun.distinct hinit) (hrun.sound hinit) hq hw hh
  · have hq := Proxy.quiet_nested depth
    refine engine_invoke hq ?_
    rw [dispatch_eq hread]
    exact ((respects_run (hq.unaware _) (Request.avoids_store hh h)).alike (.refl haloof _)).kind
  obtain ⟨upcall, H, hu, hw, hsame⟩ := exists_unaware depth y w
  have halike := alike_closes hclosing hu hw (Proxy.nested depth)
  refine ⟨fun calls hcalls => ?_, fun v hv hmemory => ?_⟩
  · refine answers_eq (fun call hcall => respects_dispatch fun r hread => ?_) halike
    obtain ⟨havoids, hhost⟩ := hcalls call hcall r hread
    rw [hsame r hhost]
    exact respects_run hu havoids
  · have hv' : (run (Proxy.nested depth) closing w).2.engine.views.object? h = some v := by
      rw [← hv]
      exact Pool.object?_congr (halike.sheds.views.find h hy.symm) fun i _ => by
        rw [halike.sheds.views.objects]
    rw [← halike.store] at hmemory
    obtain ⟨w'', hw''⟩ := run_commit_memory hv' hmemory
    exact ⟨_, w'', hw''⟩

/-- Two views are open on a store at the empty root, and one of them was written to. A commit of it
leaves the other one alone. When the store or the other view is closed, it answers the same, and can
be committed. -/
theorem views_isolated_two :
    let after := fun (rs : List Request) (w : World) =>
      rs.foldl (fun w r => (run (Proxy.nested 1) r w).2) w
    let w := after [.openMemory, .openView { databaseHandle := 1, root := .zero },
      .openView { databaseHandle := 1, root := .zero },
      .setBalance { handle := 1, address := .zero, amount := 5 }] {}
    let committed := dispatch (Proxy.nested 1) "StateCommit"
      (some (HandleParams.codec.encode { handle := 1 })) w
    let asked := [("StateGetBalance",
      some (AccountParams.codec.encode { handle := 1, address := .zero }))]
    Isolates (.commit { handle := 1 }) 1 w committed ∧
      ∀ closing ∈ [Request.closeStore { databaseHandle := 1 }, .closeView { handle := 2 }],
        answers (Proxy.nested 1) asked (after [closing] w) = answers (Proxy.nested 1) asked w ∧
        ∃ root w'', run (Proxy.nested 1) (.commit { handle := 1 }) (after [closing] w) =
          (.ok (reply .commit root), w'') := by
  intro after w committed asked
  have hrun : ({} : World).Becomes w := World.Becomes.requests .refl 1 _
  obtain ⟨hcall, hclose, _⟩ := views_isolated rfl hrun 1 1
  have hcommit : Request.ofCall "StateCommit" (some (HandleParams.codec.encode { handle := 1 })) =
      .ok (.commit { handle := 1 }) :=
    congrArg (Request.commit <$> ·) (Request.params_encode HandleParams.roundTrips _)
  have hbalance : Request.ofCall "StateGetBalance"
      (some (AccountParams.codec.encode { handle := 1, address := .zero })) =
      .ok (.balance { handle := 1, address := .zero }) :=
    congrArg (Request.balance <$> ·) (Request.params_encode AccountParams.roundTrips _)
  have hv : w.engine.views.object? 1 = some (w.view 0) := rfl
  refine ⟨(hcall _ _ _ hcommit List.mem_cons_self nofun).1, fun closing hmem => ?_⟩
  have hasked : ∀ y : Category × Handle, y ≠ (.view, 1) → ∀ call ∈ asked, ∀ r,
      Request.ofCall call.1 call.2 = .ok r →
        r.Avoids y ∧ (r.asksHost → w.Makes (·.Avoids y)) := by
    intro y hy call hcall r hread
    obtain rfl := List.mem_singleton.mp hcall
    rw [hbalance] at hread
    cases hread
    exact ⟨⟨fun h => hy (List.mem_singleton.mp h), nofun⟩, nofun⟩
  simp only [List.mem_cons, List.not_mem_nil, or_false] at hmem
  rcases hmem with rfl | rfl
  · have hother : (Category.store, (1 : Handle)) ≠ (.view, 1) := nofun
    obtain ⟨hanswers, hcommitted⟩ := hclose (.closeStore { databaseHandle := 1 }) _ rfl hother
    exact ⟨hanswers asked (hasked _ hother), hcommitted _ hv rfl⟩
  · have hother : (Category.view, (2 : Handle)) ≠ (.view, 1) := by decide
    obtain ⟨hanswers, hcommitted⟩ := hclose (.closeView { handle := 2 }) _ rfl hother
    exact ⟨hanswers asked (hasked _ hother), hcommitted _ hv rfl⟩

end Service

end EvmBridge
