import EvmBridge.Proofs.Answers
import EvmBridge.Proofs.CommittedStates

/-!
# A refused call leaves no trace

A request reads first: it looks up its handles, and asks whether the change it wants is allowed. It
writes last, and what is written then is not refused any more. So a request that is refused has
written nothing (`Service.clean_run`), and neither has a call that is not understood.

There are four exceptions. A store on disk makes its directory before it reads what is there. A
commit finalizes the view before the file of the state is written. An apply can break off, and a
callback can do anything. `Service.dispatch_refused` is about all calls but the last two.
-/

namespace EvmBridge

/-! ## Methods -/

/-- The method by which this is asked for. -/
def Request.method : Request → String
  | .openMemory => Method.openMemory.name
  | .openDisk _ => Method.openDisk.name
  | .closeStore _ => Method.closeStore.name
  | .openView _ => Method.openView.name
  | .closeView _ => Method.closeView.name
  | .finalize _ => Method.finalize.name
  | .intermediateRoot _ => Method.intermediateRoot.name
  | .commit _ => Method.commit.name
  | .isEmpty _ => Method.isEmpty.name
  | .isExternal _ => Method.isExternal.name
  | .balance _ => Method.balance.name
  | .addBalance _ => Method.addBalance.name
  | .subBalance _ => Method.subBalance.name
  | .setBalance _ => Method.setBalance.name
  | .nonce _ => Method.nonce.name
  | .setNonce _ => Method.setNonce.name
  | .codeHash _ => Method.codeHash.name
  | .code _ => Method.code.name
  | .setCode _ => Method.setCode.name
  | .storage _ => Method.storage.name
  | .setStorage _ => Method.setStorage.name
  | .snapshot _ => Method.snapshot.name
  | .revert _ => Method.revert.name
  | .proof _ => Method.proof.name
  | .dump _ => Method.dump.name
  | .accessSetup _ => Method.accessSetup.name
  | .accessAccount _ => Method.accessAccount.name
  | .accessSlot _ => Method.accessSlot.name
  | .apply _ => Method.apply.name
  | .createTracer _ => Method.createTracer.name
  | .removeTracer _ => Method.removeTracer.name
  | .traceResult _ => Method.traceResult.name
  | .txStart _ => Method.txStart.name
  | .txEnd _ => Method.txEnd.name
  | .frameStart _ => Method.frameStart.name
  | .frameEnd _ => Method.frameEnd.name
  | .frameEnter _ => Method.frameEnter.name
  | .frameExit _ => Method.frameExit.name
  | .invokeCallback _ => Method.invokeCallback.name

theorem Request.of_map_ok {α : Type} {make : α → Request} {o : Except EngineError α} {r : Request}
    (h : make <$> o = .ok r) : ∃ a, o = .ok a ∧ r = make a := by
  cases o with
  | error e => cases h
  | ok a => exact ⟨a, rfl, (Except.ok.inj h).symm⟩

/-- Nothing is asked for by another method than its own. -/
theorem Request.method_ofCall {method : String} {args : Option String} {r : Request}
    (h : ofCall method args = .ok r) : r.method = method := by
  unfold ofCall at h
  split at h
  all_goals first
    | obtain ⟨_, _, rfl⟩ := of_map_ok h
      rfl
    | cases h

/-! ## Requests -/

/-- Either this answers, or the world is as it was. -/
def Clean {α : Type} (w : World) (o : Except Fault α × World) : Prop :=
  Ends o (fun _ _ => True) fun _ w' => w' = w

section

variable {α β : Type} {w : World}

theorem clean_map {a : Act α} {f : α → β} (ha : Clean w (a w)) : Clean w ((f <$> a) w) :=
  Act.ends_map.mpr ha

theorem clean_ofExcept {o : Except EngineError α} {a : α → Act β}
    (ha : ∀ r, o = .ok r → Clean w (a r w)) : Clean w ((Act.ofExcept o >>= a) w) :=
  Act.ends_ofExcept (fun _ _ => rfl) ha

theorem clean_findStore {h : Handle} {a : Nat → Act β} (ha : ∀ i, Clean w (a i w)) :
    Clean w ((Service.findStore h >>= a) w) :=
  clean_ofExcept fun i _ => ha i

theorem clean_findView {h : Handle} {a : Nat → Act β} (ha : ∀ i, Clean w (a i w)) :
    Clean w ((Service.findView h >>= a) w) :=
  clean_ofExcept fun i _ => ha i

theorem clean_findTracer {h : Handle} {a : Nat → Act β} (ha : ∀ i, Clean w (a i w)) :
    Clean w ((Service.findTracer h >>= a) w) :=
  clean_ofExcept fun i _ => ha i

end

namespace Service

variable {α : Type} {upcall : Upcall} {w w' : World} {h : Handle}

theorem clean_look (f : View → α) : Clean w (look h f w) := clean_findView fun _ => trivial

theorem clean_step (f : View → α × View) : Clean w (step h f w) := clean_findView fun _ => trivial

/-- The change is asked for before it is made. -/
theorem clean_updateIf (f : View → Except EngineError View) : Clean w (updateIf h f w) :=
  clean_findView fun _ => clean_ofExcept fun _ _ => trivial

theorem clean_updateTracer (f : Tracer → Tracer) : Clean w (updateTracer h f w) :=
  clean_findTracer fun _ => trivial

/-- Without a number for it, there is no snapshot. -/
theorem clean_snapshot {p : HandleParams} : Clean w (snapshot p w) := by
  refine clean_findView fun i => Act.ends_bind.mpr (ends_snapshotAt.mpr ?_)
  split
  · exact trivial
  · exact rfl

/-- The state of a view should go to a file, and cannot be written there. -/
def WriteFails (p : HandleParams) (w : World) : Prop :=
  ∃ i path fault, w.engine.views.find p.handle = .ok i ∧
    (w.store (w.view i).store).path = some path ∧
    w.files.write (Store.fileOf path (w.view i).finalize.accounts.root)
      (Accounts.codec.encode (w.view i).finalize.accounts) = .error fault

/-- A store refuses a state only if it cannot write a file. -/
theorem of_store_error {s : Store} {files : Files} {root : Hash} {A : Accounts} {e : EngineError}
    (h : s.store files root A = .error e) : ∃ path fault, s.path = some path ∧
      files.write (Store.fileOf path root) (Accounts.codec.encode A) = .error fault := by
  unfold Store.store at h
  dsimp only at h
  split at h
  · cases h
  · rename_i path hpath
    split at h
    · cases h
    · exact ⟨path, _, hpath, ‹_›⟩

theorem clean_commit {p : HandleParams} (hwrite : ¬ WriteFails p w) : Clean w (commit p w) := by
  cases hfind : w.engine.views.find p.handle with
  | error e =>
      have hfound : findView p.handle w = (.error (.error e), w) := Act.ofExcept_error hfind
      have hrefused : commit p w = (.error (.error e), w) := Act.bind_error hfound
      rw [hrefused]
      exact rfl
  | ok i =>
      rw [commit_eq hfind]
      cases hstore : (w.store (w.view i).store).store w.files (w.view i).finalize.accounts.root
          (w.view i).finalize.accounts with
      | error e =>
          obtain ⟨path, fault, hpath, hfault⟩ := of_store_error hstore
          exact absurd ⟨i, path, fault, hfind, hpath, hfault⟩ hwrite
      | ok kept => exact trivial

/-- A store on disk that cannot be opened has at most left its directory. -/
theorem ends_openDisk (p : LevelDbParams) :
    Ends (openDisk p w) (fun _ _ => True) fun _ w' => ∃ files, w' = { w with files } := by
  refine Act.ends_ofExcept (fun _ _ => ⟨_, rfl⟩) fun _ _ => ?_
  exact trivial

/-- **A request that is refused has written nothing.** -/
theorem clean_run (r : Request) (hdisk : ∀ p, r ≠ .openDisk p) (happly : ∀ p, r ≠ .apply p)
    (hcallback : ∀ p, r ≠ .invokeCallback p)
    (hwrite : ∀ p, r = .commit p → ¬ WriteFails p w) : Clean w (run upcall r w) := by
  cases r with
  | openDisk p => exact absurd rfl (hdisk p)
  | apply p => exact absurd rfl (happly p)
  | invokeCallback p => exact absurd rfl (hcallback p)
  | openMemory => exact trivial
  | openView p =>
      exact clean_map (clean_findStore fun _ => clean_ofExcept fun _ _ => trivial)
  | createTracer options => exact clean_map (clean_ofExcept fun _ _ => trivial)
  | closeStore p | closeView p | removeTracer p =>
      exact clean_map (clean_ofExcept fun _ _ => trivial)
  | finalize p | intermediateRoot p | addBalance p | setBalance p | setNonce p | setCode p
  | accessSetup p | accessAccount p | accessSlot p =>
      exact clean_map (clean_step _)
  | snapshot p => exact clean_map clean_snapshot
  | commit p => exact clean_map (clean_commit (hwrite p rfl))
  | isEmpty p | isExternal p | balance p | nonce p | codeHash p | code p | storage p =>
      exact clean_map (clean_look _)
  | subBalance p | setStorage p | revert p => exact clean_map (clean_updateIf _)
  | proof p => exact clean_map (clean_findView fun _ => clean_ofExcept fun _ _ => trivial)
  | dump p => exact clean_map (clean_findView fun _ => clean_ofExcept fun _ _ => trivial)
  | traceResult p => exact clean_map (clean_findTracer fun _ => trivial)
  | txStart p | txEnd p | frameEnd p | frameEnter p | frameExit p =>
      exact clean_map (clean_updateTracer _)
  | frameStart p =>
      -- both handles are looked up before the tracer hears of it
      exact clean_map (clean_findView fun _ => clean_updateTracer _)

/-! ## Calls -/

/-- **A call that is refused leaves no trace.** All handles with their counters, all views, stores
and tracers, and everything else are as they were, whatever the arguments are. Only the directory of
a store that could not be opened may have been made. -/
theorem dispatch_refused {method : String} {args : Option String} {f : Fault}
    (happly : method ≠ "EvmApply") (hcallback : method ≠ "CallbackInvoke")
    (hwrite : ∀ p, Request.ofCall method args = .ok (.commit p) → ¬ WriteFails p w)
    (h : dispatch upcall method args w = (.error f, w')) :
    (∃ files, w' = { w with files }) ∧ (method ≠ "DatabaseOpenLevelDB" → w' = w) := by
  unfold dispatch at h
  cases hread : Request.ofCall method args with
  | error e =>
      rw [Act.bind_error (Act.ofExcept_error hread)] at h
      obtain rfl : w = w' := congrArg Prod.snd h
      exact ⟨⟨_, rfl⟩, fun _ => rfl⟩
  | ok r =>
      rw [Act.bind_ok (Act.ofExcept_ok hread)] at h
      have hmethod : r.method = method := Request.method_ofCall hread
      by_cases hdisk : ∃ p, r = .openDisk p
      · obtain ⟨p, rfl⟩ := hdisk
        have hends : Ends (run upcall (.openDisk p) w) (fun _ _ => True)
            fun _ w' => ∃ files, w' = { w with files } := Act.ends_map.mpr (ends_openDisk p)
        exact ⟨hends.error h, fun hne => absurd hmethod.symm hne⟩
      · have hclean : Clean w (run upcall r w) := by
          refine clean_run r (fun p hp => hdisk ⟨p, hp⟩) (fun p hp => ?_) (fun p hp => ?_)
            fun p hp => hwrite p (hp ▸ hread)
          · rw [hp] at hmethod
            exact happly hmethod.symm
          · rw [hp] at hmethod
            exact hcallback hmethod.symm
        obtain rfl : w' = w := hclean.error h
        exact ⟨⟨_, rfl⟩, fun _ => rfl⟩

/-- An account that has nothing is asked for one. The call is refused, and no account appears. -/
theorem dispatch_refused_overdraft :
    let views : Pool View :=
      { objects := [{ store := 0 }], handles := { current := 1, used := .ofList [(1, 0)] } }
    let w : World := { engine := { views } }
    let args := BalanceParams.codec.encode { handle := 1, address := .zero, amount := 1 }
    ∃ f w', dispatch (fun _ _ w => (none, w)) "StateSubBalance" (some args) w = (.error f, w') ∧
      (∃ files, w' = { w with files }) ∧
      ("StateSubBalance" ≠ "DatabaseOpenLevelDB" → w' = w) := by
  intro views w args
  have hcall : Request.ofCall "StateSubBalance" (some args) =
      .subBalance <$> Request.params .subBalance (some args) := rfl
  have hread : Request.ofCall "StateSubBalance" (some args) =
      .ok (.subBalance { handle := 1, address := .zero, amount := 1 }) := by
    rw [hcall]
    exact congrArg (Request.subBalance <$> ·)
      (Request.params_encode BalanceParams.roundTrips _)
  have hdispatch : dispatch (fun _ _ w => (none, w)) "StateSubBalance" (some args) w =
      (.error (.error (.state (.insufficientBalance .zero 0 1))), w) := by
    unfold dispatch
    rw [Act.bind_ok (Act.ofExcept_ok hread)]
    rfl
  refine ⟨_, _, hdispatch, dispatch_refused (by decide) (by decide) (fun p hp => ?_) hdispatch⟩
  rw [hread] at hp
  cases hp

end Service

end EvmBridge
