import EvmBridge.Proofs.AccountAt
import EvmBridge.Proofs.AccountWrites
import EvmBridge.Proofs.CanonicalStates

/-!
# What pruning shows

Three calls drop the empty accounts of a view: it is finalized, it is asked for an intermediate
root, or it is committed. An absent account counts as an empty one, so no balance, no nonce and no
code changes, and neither does whether an account is empty or a person's.

The storage of an empty account is dropped with it. A slot of an empty account is never set, but an
account can be emptied after its slots were set, and then they are lost
(`View.stranded_storage`). `Service.pruned_answers` says that nothing else is, and that nothing is
lost as long as no call leaves an account empty that holds slots (`ViewOp.Strands`).
-/

namespace EvmBridge

/-- If the account is empty, then so is its storage. -/
def Account.Anchored (account : Account) : Prop := account.isEmpty → account.storage = ∅

/-- The account that a call writes to is empty afterwards, but holds slots. -/
def ViewOp.Strands (op : ViewOp) (v : View) : Prop :=
  ∃ a account, op.target? = some a ∧ (op.run v).2.account? a = some account ∧
    account.isEmpty ∧ account.storage ≠ ∅

theorem ViewOp.leaves_anchored {op : ViewOp} {v : View} (h : ¬ op.Strands v) :
    op.Leaves v Account.Anchored :=
  fun a account htarget hat hempty =>
    Classical.byContradiction fun hslots => h ⟨a, account, htarget, hat, hempty, hslots⟩

/-- An empty account differs from one that does not exist by its storage only. -/
theorem Account.eq_of_isEmpty {account : Account} (h : account.isEmpty) :
    account = { storage := account.storage } := by
  simp only [isEmpty, Bool.and_eq_true, decide_eq_true_eq] at h
  obtain ⟨⟨hnonce, hbalance⟩, hcode⟩ := h
  cases account
  simp_all

namespace View

variable {v : View}

theorem account?_finalize (v : View) (a : Address) :
    v.finalize.account? a = (v.account? a).filter fun account => !account.isEmpty :=
  OrdMap.get?_filter _ _ _

theorem isEmpty_eq (v : View) (a : Address) : v.isEmpty a = (v.accountAt a).isEmpty := by
  unfold isEmpty accountAt
  cases v.account? a <;> rfl

theorem isExternal_eq (v : View) (a : Address) :
    v.isExternal a = (!isPrecompile a && (v.accountAt a).code.isEmpty) := by
  unfold isExternal accountAt
  cases v.account? a <;> rfl

/-- What stands at an address after pruning: what stood there, unless it was empty. -/
theorem accountAt_finalize (v : View) (a : Address) :
    v.finalize.accountAt a = if v.isEmpty a then {} else v.accountAt a := by
  rw [isEmpty_eq, accountAt, account?_finalize, accountAt]
  cases ha : v.account? a with
  | none => rfl
  | some account => cases hempty : account.isEmpty <;> simp [Option.filter, hempty]

/-- So pruning takes away storage only. -/
theorem accountAt_finalize_storage (v : View) (a : Address) :
    v.finalize.accountAt a =
      { v.accountAt a with
        storage := if v.isEmpty a then ∅ else (v.accountAt a).storage } := by
  rw [accountAt_finalize]
  split
  · rename_i hempty
    rw [isEmpty_eq] at hempty
    rw [Account.eq_of_isEmpty hempty]
  · rfl

theorem storage_finalize (v : View) (a : Address) (key : Hash) :
    v.finalize.storage a key = if v.isEmpty a then .zero else v.storage a key := by
  rw [storage_eq, storage_eq, accountAt_finalize_storage]
  split <;> rfl

/-- What is not stranded stays. -/
theorem Each.storage_finalize (hv : v.Each Account.Anchored) (a : Address) (key : Hash) :
    v.finalize.storage a key = v.storage a key := by
  rw [View.storage_finalize]
  split
  · rename_i hempty
    rw [isEmpty_eq, accountAt] at hempty
    rw [storage_eq, accountAt]
    cases ha : v.account? a with
    | none => rfl
    | some account =>
        rw [ha] at hempty
        have hnone : account.storage = ∅ := hv.accounts a account ha hempty
        rw [Option.getD_some, hnone]
        rfl
  · rfl

end View

/-! ## By a handle -/

/-- The requests that prune the view of a handle. -/
def Request.Prunes (r : Request) (h : Handle) : Prop :=
  r = .finalize { handle := h } ∨ r = .intermediateRoot { handle := h } ∨
    r = .commit { handle := h }

namespace Service

variable {w : World} {h : Handle} {u : View}

theorem look_shows {α : Type} (hshows : w.Shows h u) (f : View → α) :
    look h f w = (.ok (f u), w) := by
  obtain ⟨i, hfind, hholds⟩ := hshows
  have hfound : findView h w = (.ok i, w) := Act.ofExcept_ok hfind
  unfold look
  rw [Act.bind_ok hfound, ← hholds.view]
  rfl

/-- However a request to prune ends, the view is pruned then. A commit may fail to write a file. -/
theorem shows_prune (hshows : w.Shows h u) {r : Request} (hr : r.Prunes h) (upcall : Upcall) :
    (run upcall r w).2.Shows h u.finalize := by
  obtain ⟨i, hfind, hholds⟩ := hshows
  have hpruned : (w.setView i u.finalize).Shows h u.finalize :=
    ⟨i, hfind, hholds.setView _⟩
  have hview := hholds.view
  rcases hr with rfl | rfl | rfl
  · rw [run_finalize hfind, hview]
    exact hpruned
  · have hdone := step_ok (fun v => (v.finalize.accounts.root, v.finalize)) hfind
    have hanswer : run upcall (.intermediateRoot { handle := h }) w =
        (.ok (reply .intermediateRoot _), _) := Act.map_ok hdone
    rw [hanswer, hview]
    exact hpruned
  · cases hstore : (w.store (w.view i).store).store w.files (w.view i).finalize.accounts.root
        (w.view i).finalize.accounts with
    | error e =>
        have hfailed : run upcall (.commit { handle := h }) w =
            (.error (.error e), w.setView i (w.view i).finalize) :=
          Act.map_error (by rw [commit_eq hfind, hstore])
        rw [hfailed, hview]
        exact hpruned
    | ok kept =>
        have hdone : run upcall (.commit { handle := h }) w =
            (.ok (reply .commit _), { w.setView i (w.view i).finalize with
              files := kept.2 }.setStore (w.view i).store kept.1) :=
          Act.map_ok (by rw [commit_eq hfind, hstore])
        rw [hdone, hview]
        exact hpruned

/-- **Pruning shows in the storage of empty accounts, and nowhere else.** Take any view that is
reached by any calls, and any of the three requests that prune it. Every balance, nonce and code is
answered as before, and so is whether an account is empty and whether it is a person's. A slot is
answered as before unless its account is empty; then it is answered with zero. If no call left an
account empty that holds slots, then all slots are answered as before. -/
theorem pruned_answers {u₀ : View} {ops : List ViewOp} (hshows : w.Shows h (u₀.after ops))
    {r : Request} (hr : r.Prunes h) (upcall : Upcall) :
    let u := u₀.after ops
    let w' := (run upcall r w).2
    (∀ a, let p : AccountParams := { handle := h, address := a }
      ∀ q ∈ [Request.balance p, .nonce p, .code p, .isEmpty p, .isExternal p],
        ∃ answer, (run upcall q w).1 = .ok answer ∧ (run upcall q w').1 = .ok answer) ∧
    (∀ a key, let q := Request.storage { handle := h, address := a, key }
      (run upcall q w).1 = .ok (reply .storage (u.storage a key)) ∧
      (run upcall q w').1 =
        .ok (reply .storage (if u.isEmpty a then .zero else u.storage a key))) ∧
    (u₀.Each Account.Anchored →
      (∀ k (op : ViewOp), ops[k]? = some op → ¬ op.Strands (u₀.moment ops k)) →
      ∀ a key, let q := Request.storage { handle := h, address := a, key }
        (run upcall q w').1 = (run upcall q w).1) := by
  intro u w'
  have hpruned : w'.Shows h u.finalize := shows_prune hshows hr upcall
  -- what is answered before and after
  have hbefore {α : Type} (f : View → α) : look h f w = (.ok (f u), w) := look_shows hshows f
  have hafter {α : Type} (f : View → α) : look h f w' = (.ok (f u.finalize), w') :=
    look_shows hpruned f
  have hslot (a : Address) (key : Hash) :
      let q := Request.storage { handle := h, address := a, key }
      (run upcall q w).1 = .ok (reply .storage (u.storage a key)) ∧
      (run upcall q w').1 = .ok (reply .storage (u.finalize.storage a key)) :=
    ⟨congrArg Prod.fst (Act.map_ok (hbefore (·.storage a key))),
      congrArg Prod.fst (Act.map_ok (hafter (·.storage a key)))⟩
  refine ⟨fun a => ?_, fun a key => ?_, fun hinit hops a key => ?_⟩
  · intro p q hq
    have hat := u.accountAt_finalize_storage a
    have hsame {α ρ : Type} (m : Method α ρ) {f : View → ρ} (hf : f u.finalize = f u) :
        ∃ answer, ((reply m <$> look h f) w).1 = .ok answer ∧
          ((reply m <$> look h f) w').1 = .ok answer :=
      ⟨_, congrArg Prod.fst (Act.map_ok (hbefore f)),
        hf ▸ congrArg Prod.fst (Act.map_ok (hafter f))⟩
    simp only [List.mem_cons, List.not_mem_nil, or_false] at hq
    rcases hq with rfl | rfl | rfl | rfl | rfl
    · exact hsame .balance (by rw [View.balance_eq, View.balance_eq, hat])
    · exact hsame .nonce (by rw [View.nonce_eq, View.nonce_eq, hat])
    · exact hsame .code (by rw [View.code_eq, View.code_eq, hat])
    · exact hsame .isEmpty (by rw [View.isEmpty_eq, View.isEmpty_eq, hat]; rfl)
    · exact hsame .isExternal (by rw [View.isExternal_eq, View.isExternal_eq, hat])
  · have hlost := u.storage_finalize a key
    exact hlost ▸ hslot a key
  · have hanchored : u.Each Account.Anchored :=
      View.each_after hinit fun k op hk => ViewOp.leaves_anchored (hops k op hk)
    obtain ⟨hthen, hnow⟩ := hslot a key
    exact hnow.trans (hanchored.storage_finalize a key ▸ hthen.symm)

/-- A funded account with a slot, next to one that was touched only. -/
theorem pruned_answers_funded :
    let ops : List ViewOp := [.addBalance (.ofNat 20 1) 0, .setBalance .zero 5,
      .setStorage .zero .zero (some (.ofNat 32 7))]
    let u := (default : View).after ops
    let w : World := { engine := { views :=
      { objects := [u], handles := { current := 1, used := .ofList [(1, 0)] } } } }
    let slot := Request.storage { handle := 1, address := .zero, key := .zero }
    let finalized := (run (Proxy.nested 1) (.finalize { handle := 1 }) w).2
    w.Shows 1 u ∧ u.finalize.accounts ≠ u.accounts ∧
      (run (Proxy.nested 1) slot w).1 = .ok (reply .storage (.ofNat 32 7)) ∧
      (run (Proxy.nested 1) slot finalized).1 = .ok (reply .storage (.ofNat 32 7)) := by
  intro ops u w slot finalized
  have hshows : w.Shows 1 u := ⟨0, by decide +kernel, rfl⟩
  have hsteps : ∀ k (op : ViewOp), ops[k]? = some op →
      ¬ op.Strands ((default : View).moment ops k) := by
    rintro k op hk ⟨a, account, htarget, hat, hempty, hslots⟩
    match k, hk with
    | 0, rfl =>
        -- it is empty, and so is its storage
        cases htarget
        cases hat
        exact hslots rfl
    | 1, rfl | 2, rfl =>
        cases htarget
        cases hat
        exact absurd hempty (by decide +kernel)
  obtain ⟨-, hslot, hsame⟩ := pruned_answers hshows (.inl rfl) (Proxy.nested 1)
  have hkept := hsame ⟨fun _ _ h => absurd h (by simp [default]),
    fun _ h => absurd h (by simp [default])⟩ hsteps .zero .zero
  have hvalue : u.storage .zero .zero = .ofNat 32 7 := by decide +kernel
  have hthen : (run (Proxy.nested 1) slot w).1 = .ok (reply .storage (.ofNat 32 7)) :=
    hvalue ▸ (hslot .zero .zero).1
  exact ⟨hshows, by decide +kernel, hthen, hkept.trans hthen⟩

/-- An account gets a balance, a slot, and gives its balance away again. Its slot is lost, whatever
it is pruned by. -/
theorem pruned_answers_stranded :
    let after := fun (rs : List Request) =>
      rs.foldl (fun w r => (run (Proxy.nested 1) r w).2) ({} : World)
    let slot := Request.storage { handle := 1, address := .zero, key := .zero }
    let w := after [.openMemory, .openView { databaseHandle := 1, root := .zero },
      .addBalance { handle := 1, address := .zero, amount := 5 },
      .setStorage { handle := 1, address := .zero, key := .zero, value := some (.ofNat 32 7) },
      .subBalance { handle := 1, address := .zero, amount := 5 }]
    (run (Proxy.nested 1) slot w).1 = .ok (reply .storage (.ofNat 32 7)) ∧
      ∀ r ∈ [Request.finalize { handle := 1 }, .intermediateRoot { handle := 1 },
          .commit { handle := 1 }],
        (run (Proxy.nested 1) slot (run (Proxy.nested 1) r w).2).1 =
          .ok (reply .storage .zero) := by
  intro after slot w
  have hshows : w.Shows 1 (w.view 0) := ⟨0, by decide +kernel, by rfl⟩
  have hvalue : (w.view 0).storage .zero .zero = .ofNat 32 7 := by decide +kernel
  have hempty : (w.view 0).isEmpty .zero = true := by decide +kernel
  refine ⟨?_, fun r hr => ?_⟩
  · have hthen := look_shows hshows (·.storage .zero .zero)
    exact hvalue ▸ congrArg Prod.fst (Act.map_ok hthen)
  · have hprunes : r.Prunes 1 := by simpa [Request.Prunes] using hr
    have hnow := look_shows (shows_prune hshows hprunes (Proxy.nested 1)) (·.storage .zero .zero)
    have hlost : (w.view 0).finalize.storage .zero .zero = .zero := by
      rw [View.storage_finalize, if_pos hempty]
    exact hlost ▸ congrArg Prod.fst (Act.map_ok hnow)

end Service

end EvmBridge
