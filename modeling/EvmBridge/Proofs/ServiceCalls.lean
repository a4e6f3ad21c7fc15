import EvmBridge.Proofs.Atomicity
import EvmBridge.Proofs.RequestSteps

/-!
# Requests are calls

What was proved of views that are reached by calls, and of hosts that make only calls, is worth
something only if the service and the host of this development are of that kind. They are: whatever
a request asks for, it does to a view what some calls do (`Service.run_through`), so all that a
callback can do, with callbacks within callbacks to any depth, amounts to calls
(`Proxy.hostCalls_nested`).
-/

namespace EvmBridge

variable {i : Nat} {v : View} {w : World} {upcall : Upcall}

/-! ## Changing one view -/

theorem Through.of_views {w' : World} (h : Through i v w)
    (hw : w'.engine.views = w.engine.views) : Through i v w' := by
  obtain ⟨calls, u, hc, hu⟩ := h
  exact ⟨calls, u, hc, hu.of_views hw⟩

theorem Through.setView_ne (h : Through i v w) {j : Nat} (hj : j ≠ i) (u : View) :
    Through i v (w.setView j u) := by
  obtain ⟨calls, v', hc, hv'⟩ := h
  exact ⟨calls, v', hc, hv'.setView_ne hj u⟩

theorem Through.trans {u : View} {w' : World} (h : Through i v w) (hu : w.Holds i u)
    (h' : Through i u w') : Through i v w' := by
  obtain ⟨calls, u', hc, hu'⟩ := h
  obtain rfl := hu.unique hu'
  obtain ⟨calls', v', hc', hv'⟩ := h'
  exact ⟨calls ++ calls', v', hc.trans hc', hv'⟩

/-- A view is changed as calls would change it, be it this one or another. -/
theorem Through.setView (h : Through i v w) (j : Nat) {f : View → View}
    (hf : ∀ u, ∃ calls, View.Calls u calls (f u)) :
    Through i v (w.setView j (f (w.view j))) := by
  by_cases hj : j = i
  · subst hj
    obtain ⟨calls, u, hc, hu⟩ := h
    obtain ⟨calls', hc'⟩ := hf u
    refine Through.trans ⟨calls, u, hc, hu⟩ hu ⟨calls', f u, hc', ?_⟩
    rw [hu.view]
    exact hu.setView _
  · exact h.setView_ne hj _

/-- An apply on another view may still lead to calls on this one. -/
theorem Executor.apply_through {x : Executor} (hhost : HostCalls x.upcall i) (inv : Invocation)
    (h : Through i v w) : Through i v (x.apply inv w).2 := by
  by_cases hx : x.view = i
  · subst hx
    obtain ⟨calls, u, hc, hu⟩ := h
    exact Through.trans ⟨calls, u, hc, hu⟩ hu (Executor.apply_calls inv hu hhost)
  · exact (hhost.invariant v).apply (fun u hu => hu.setView_ne hx u) inv h

/-! ## Requests -/

namespace Service

theorem through_openView {p : StateParams} (hw : Through i v w) :
    Always (Through i v) (openView p w) := by
  refine always_findStore hw fun _ => always_ofExcept hw fun accounts _ => ?_
  obtain ⟨calls, u, hc, hu⟩ := hw
  refine ⟨calls, u, hc, ?_⟩
  -- the new view comes behind all others
  show (w.engine.views.objects ++ [_])[i]? = some u
  rw [List.getElem?_append_left (List.getElem?_eq_some_iff.mp hu).1]
  exact hu

theorem through_opens {r : Request} {c : Category} (hr : r.opens = some c)
    (hw : Through i v w) : Always (Through i v) (run upcall r w) := by
  cases r with
  | openMemory => exact always_map (hw.of_views rfl)
  | openDisk p =>
      have hfiles : Through i v { w with files := (Store.openAt w.files p.path p.preimages).2 } :=
        hw.of_views rfl
      exact always_map (always_ofExcept hfiles fun _ _ => hfiles.of_views rfl)
  | openView p => exact always_map (through_openView hw)
  | createTracer options => exact always_map (always_ofExcept hw fun _ _ => hw.of_views rfl)
  | _ => exact absurd hr (by simp [Request.opens])

theorem through_closes {r : Request} {x : Category × Handle} (hr : r.closes = some x)
    (hw : Through i v w) : Always (Through i v) (run upcall r w) := by
  cases r with
  | closeStore p | removeTracer p =>
      exact always_map (always_ofExcept hw fun _ _ => hw.of_views rfl)
  | closeView p =>
      refine always_map (always_ofExcept hw fun views hviews => ?_)
      obtain ⟨calls, u, hc, hu⟩ := hw
      refine ⟨calls, u, hc, ?_⟩
      -- the object stays where it stands
      show views.objects[i]? = some u
      rw [Pool.objects_close hviews]
      exact hu
  | _ => exact absurd hr (by simp [Request.closes])

end Service

/-- **What happens while a request is served is made of calls**, as far as a view goes. -/
theorem HostCalls.through (hhost : HostCalls upcall i) (v : View) :
    Invariant upcall (Through i v) where
  elsewhere hw engine _ := hw.of_views (by rw [engine])
  passed text _ hw := hw.of_views (by rw [World.engine_passed])
  starved _ _ hw := hw.of_views rfl
  opened hr hw h := (Service.through_opens hr hw).ok h
  closed hr hw h := (Service.through_closes hr hw).ok h
  called j op _ hw := hw.setView j (f := fun u => (op.run u).2) fun u => ⟨_, .call op u⟩
  committed j _ _ _ hw _ :=
    (hw.setView j (f := View.finalize) fun u => ⟨_, .call .finalize u⟩).of_views rfl
  traced _ _ _ hw := hw.of_views rfl
  applied inv _ hx hw := by
    subst hx
    exact Executor.apply_through hhost inv hw
  host h args _ hw := (hhost.invariant v).settled h args hw

/-- **A request does to a view what some calls do.** -/
theorem Service.run_through (hhost : HostCalls upcall i) (r : Request) (hw : Through i v w) :
    Always (Through i v) (run upcall r w) :=
  run_invariant (hhost.through v) r hw

/-- **The host makes only calls**, with callbacks within callbacks to any depth. The induction is on
the depth: at each level the callbacks may start applies, whose host is the level below. -/
theorem Proxy.hostCalls_nested (depth : Nat) (i : Nat) : HostCalls (nested depth) i := by
  induction depth with
  | zero =>
      intro h args w v hv
      exact ⟨[], v, .none v, hv⟩
  | succ depth ih =>
      intro h args w v hv
      have hserved := serve_invariant (ih.through v) h args (through_of_holds hv)
      exact hserved.of_views (by rw [engine_settle]; rfl)

end EvmBridge
