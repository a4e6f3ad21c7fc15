import EvmBridge.Proofs.AccountAt
import EvmBridge.Proofs.CommittedStates

/-!
# Equal contents have equal roots

A root is computed from the accounts as they are kept. So it could tell more than the views answer:
an account that was touched but is empty, a slot that was written and set to zero again. It does
not, since neither is ever kept by a view that was finalized. `View.SameContent.accounts_eq` shows
that what is kept is then determined by the answers, and `Service.same_root` that two views with the
same answers have the same root, whatever happened to them before.
-/

namespace EvmBridge

namespace View

/-- Views that answer alike, as far as what stands at each address goes. Whether an account exists
is not asked. -/
structure SameContent (u v : View) : Prop where
  balance : ∀ a, u.balance a = v.balance a
  nonce : ∀ a, u.nonce a = v.nonce a
  code : ∀ a, u.code a = v.code a
  storage : ∀ a key, u.storage a key = v.storage a key

variable {u v : View}

theorem AnswersLike.sameContent (h : u.AnswersLike v) : u.SameContent v :=
  ⟨h.balance, h.nonce, h.code, h.storage⟩

/-- If no account is empty, then an account is there unless an empty one is answered. -/
theorem account?_of_noEmpty (hu : u.accounts.NoEmpty) (a : Address) :
    u.account? a = if (u.accountAt a).isEmpty then none else some (u.accountAt a) := by
  unfold accountAt
  cases ha : u.account? a with
  | none => rfl
  | some account =>
      have hfull : account.isEmpty = false := hu a account ha
      simp [hfull]

/-- If no slot is set to zero, then a slot is there unless zero is answered. -/
theorem storage_of_noZeroSlot (hu : u.accounts.NoZeroSlot) (a : Address) (key : Hash) :
    (u.accountAt a).storage.get? key =
      if u.storage a key = .zero then none else some (u.storage a key) := by
  rw [storage_eq]
  unfold accountAt
  cases hkey : ((u.account? a).getD {}).storage.get? key with
  | none => rfl
  | some value =>
      have hne : value ≠ .zero := by
        rintro rfl
        cases ha : u.account? a with
        | none =>
            rw [ha] at hkey
            exact absurd hkey (by simp)
        | some account =>
            rw [ha] at hkey
            exact hu a account key ha hkey
      rw [Option.getD_some, if_neg hne]

/-- The account at an address is determined by the answers for this address. -/
theorem SameContent.accountAt (h : u.SameContent v) (hu : u.accounts.NoZeroSlot)
    (hv : v.accounts.NoZeroSlot) (a : Address) : u.accountAt a = v.accountAt a := by
  have hstorage : (u.accountAt a).storage = (v.accountAt a).storage := by
    refine OrdMap.ext_get? fun key => ?_
    rw [storage_of_noZeroSlot hu, storage_of_noZeroSlot hv, h.storage]
  have hbalance := h.balance a
  have hnonce := h.nonce a
  have hcode := h.code a
  rw [balance_eq, balance_eq] at hbalance
  rw [nonce_eq, nonce_eq] at hnonce
  rw [code_eq, code_eq] at hcode
  cases hx : u.accountAt a
  cases hy : v.accountAt a
  simp_all

/-- **What a view keeps is determined by what it answers,** if it keeps neither empty accounts nor
slots that are set to zero. -/
theorem SameContent.accounts_eq (h : u.SameContent v) (hu : u.accounts.NoEmpty)
    (hv : v.accounts.NoEmpty) (hu' : u.accounts.NoZeroSlot) (hv' : v.accounts.NoZeroSlot) :
    u.accounts = v.accounts := by
  refine OrdMap.ext_get? fun a => ?_
  show u.account? a = v.account? a
  rw [account?_of_noEmpty hu, account?_of_noEmpty hv, h.accountAt hu' hv']

end View

/-- Where no account is empty there is nothing to drop. -/
theorem Accounts.pruned_of_noEmpty {A : Accounts} (h : A.NoEmpty) : A.pruned = A := by
  refine OrdMap.ext_get? fun a => ?_
  rw [pruned, OrdMap.get?_filter]
  cases ha : A.get? a with
  | none => rfl
  | some account => simp [h a account ha]

/-! ## Finalized views -/

namespace Service

variable {upcall : Upcall} {w w' : World} {h h' : Handle} {i : Nat} {u u' : View}

theorem step_error {α : Type} (f : View → α × View) {e : EngineError}
    (hfind : w.engine.views.find h = .error e) : step h f w = (.error (.error e), w) := by
  have hfound : findView h w = (.error (.error e), w) := Act.ofExcept_error hfind
  unfold step
  exact Act.bind_error hfound

/-- A handle that leads to a view finalizes it. -/
theorem run_finalize (hfind : w.engine.views.find h = .ok i) (upcall : Upcall) :
    run upcall (.finalize { handle := h }) w =
      (.ok (reply .finalize ()), w.setView i (w.view i).finalize) :=
  Act.map_ok (step_ok (fun v => ((), v.finalize)) hfind)

/-- A run that began with an empty module has just finalized this view, by this handle. The store
of the view is in memory. -/
structure Finalized (w : World) (h : Handle) (u : View) : Prop where
  called : ∃ (w₀ w₁ : World) (upcall : Upcall) (a : Json), w₀.engine = {} ∧ Runs w₀ w₁ ∧
    run upcall (.finalize { handle := h }) w₁ = (.ok a, w)
  shows : w.Shows h u
  memory : (w.store u.store).path = none

/-- Every view of a store in memory can be finalized by a handle that leads to it. -/
theorem Runs.finalized {w₀ : World} (hinit : w₀.engine = {}) (hrun : Runs w₀ w)
    (hfind : w.engine.views.find h = .ok i) (hmem : (w.store (w.view i).store).path = none)
    (upcall : Upcall) :
    Finalized (run upcall (.finalize { handle := h }) w).2 h (w.view i).finalize := by
  have hdone := run_finalize hfind upcall
  have hin : i < w.engine.views.objects.length :=
    (hrun.leads.sound (World.sound_start hinit)).viewHandles h i hfind
  have hholds : w.Holds i (w.view i) := by
    unfold World.Holds World.view Pool.get
    rw [List.getElem?_eq_getElem hin]
    rfl
  rw [hdone]
  exact ⟨⟨w₀, w, upcall, _, hinit, hrun, hdone⟩, ⟨i, hfind, hholds.setView _⟩, hmem⟩

/-- **A finalized view keeps nothing that does not count,** in whatever way it was reached. -/
theorem Finalized.canonical (hu : Finalized w h u) :
    u.accounts.NoEmpty ∧ u.accounts.NoZeroSlot := by
  obtain ⟨w₀, w₁, upcall, a, hinit, hrun, hcall⟩ := hu.called
  obtain ⟨i, hfind, hholds⟩ := hu.shows
  have hmem := hu.memory
  cases hfind₁ : w₁.engine.views.find h with
  | error e =>
      have hrefused : run upcall (.finalize { handle := h }) w₁ = (.error (.error e), w₁) :=
        Act.map_error (step_error (fun v => ((), v.finalize)) hfind₁)
      rw [hrefused] at hcall
      cases hcall
  | ok j =>
      rw [run_finalize hfind₁] at hcall
      obtain rfl : w₁.setView j (w₁.view j).finalize = w := congrArg Prod.snd hcall
      -- the handle still leads to the same place
      obtain rfl : j = i := Except.ok.inj (hfind₁.symm.trans hfind)
      obtain rfl : (w₁.view j).finalize = u := by
        rw [← World.view_setView_finalize w₁ j]
        exact hholds.view
      have hsound := hrun.leads.sound (World.sound_start hinit)
      exact ⟨Accounts.noEmpty_pruned _, (hsound.views j hmem).accounts.pruned⟩

/-- The intermediate root is that of what the view keeps already. -/
theorem Finalized.intermediateRoot (hu : Finalized w h u) (upcall : Upcall) :
    (run upcall (.intermediateRoot { handle := h }) w).1 =
      .ok (reply .intermediateRoot u.accounts.root) := by
  obtain ⟨i, hfind, hholds⟩ := hu.shows
  have hsame : u.finalize.accounts = u.accounts := Accounts.pruned_of_noEmpty hu.canonical.1
  have hasked : run upcall (.intermediateRoot { handle := h }) w =
      (reply .intermediateRoot <$> step h fun v => (v.finalize.accounts.root, v.finalize)) w := rfl
  rw [hasked, Act.map_ok (step_ok _ hfind), hholds.view, hsame]

/-- A store in memory takes every state, so a commit answers too. -/
theorem Finalized.commit (hu : Finalized w h u) (upcall : Upcall) :
    (run upcall (.commit { handle := h }) w).1 = .ok (reply .commit u.accounts.root) := by
  obtain ⟨i, hfind, hholds⟩ := hu.shows
  have hsame : u.finalize.accounts = u.accounts := Accounts.pruned_of_noEmpty hu.canonical.1
  have hkept : ∃ kept, (w.store u.store).store w.files u.finalize.accounts.root
      u.finalize.accounts = .ok (kept, w.files) := by
    unfold Store.store
    rw [hu.memory]
    exact ⟨_, rfl⟩
  obtain ⟨kept, hkept⟩ := hkept
  have hanswer : (Service.commit { handle := h } w).1 = .ok u.finalize.accounts.root := by
    rw [commit_eq hfind, hholds.view, hkept]
  rcases hcommit : Service.commit { handle := h } w with ⟨f | root, w'⟩
  · rw [hcommit] at hanswer
    cases hanswer
  · rw [hcommit] at hanswer
    have hasked : run upcall (.commit { handle := h }) w =
        (reply .commit <$> Service.commit { handle := h }) w := rfl
    rw [hasked, Act.map_ok hcommit, Except.ok.inj hanswer, hsame]

/-- **The root depends on the content only, not on the history.** If two views were finalized, and
now answer alike, then they hold the same accounts, and both handles are answered with one and the
same root, whether an intermediate root is asked for or a commit. -/
theorem same_root (hu : Finalized w h u) (hu' : Finalized w' h' u') (hsame : u.SameContent u') :
    u.accounts = u'.accounts ∧ ∃ root, ∀ upcall,
      (run upcall (.intermediateRoot { handle := h }) w).1 =
        .ok (reply .intermediateRoot root) ∧
      (run upcall (.intermediateRoot { handle := h' }) w').1 =
        .ok (reply .intermediateRoot root) ∧
      (run upcall (.commit { handle := h }) w).1 = .ok (reply .commit root) ∧
      (run upcall (.commit { handle := h' }) w').1 = .ok (reply .commit root) := by
  have haccounts : u.accounts = u'.accounts :=
    hsame.accounts_eq hu.canonical.1 hu'.canonical.1 hu.canonical.2 hu'.canonical.2
  refine ⟨haccounts, u.accounts.root, fun upcall => ⟨hu.intermediateRoot upcall, ?_,
    hu.commit upcall, ?_⟩⟩
  · rw [haccounts]
    exact hu'.intermediateRoot upcall
  · rw [haccounts]
    exact hu'.commit upcall

/-- A balance of five, at once or in a roundabout way: over another store, with an account that is
touched only, and with a slot that is set and taken back. -/
theorem same_root_roundabout :
    let after := fun (rs : List Request) =>
      rs.foldl (fun w r => (run (Proxy.nested 1) r w).2) ({} : World)
    let finalized := fun w => (run (Proxy.nested 1) (.finalize { handle := 1 }) w).2
    let w₁ := after [.openMemory, .openView { databaseHandle := 1, root := .zero },
      .setBalance { handle := 1, address := .zero, amount := 5 }]
    let w₂ := after [.openMemory, .openMemory, .openView { databaseHandle := 2, root := .zero },
      .addBalance { handle := 1, address := .ofNat 20 1, amount := 0 },
      .setBalance { handle := 1, address := .zero, amount := 5 },
      .setStorage { handle := 1, address := .zero, key := .zero, value := some (.ofNat 32 7) },
      .snapshot { handle := 1 },
      .setBalance { handle := 1, address := .zero, amount := 9 },
      .revert { handle := 1, revisionId := 0 },
      .setStorage { handle := 1, address := .zero, key := .zero, value := none }]
    let u₁ := (w₁.view 0).finalize
    let u₂ := (w₂.view 0).finalize
    let root : Hash :=
      .ofNat 32 0x621355ce11dac42ec9f66a6dd34c1331170146303cae16ae90005507a8d20fc8
    Finalized (finalized w₁) 1 u₁ ∧ Finalized (finalized w₂) 1 u₂ ∧ u₁.SameContent u₂ ∧
      u₁.balance .zero = 5 ∧ u₁.accounts = u₂.accounts ∧ ∀ upcall,
        (run upcall (.intermediateRoot { handle := 1 }) (finalized w₁)).1 =
          .ok (reply .intermediateRoot root) ∧
        (run upcall (.intermediateRoot { handle := 1 }) (finalized w₂)).1 =
          .ok (reply .intermediateRoot root) ∧
        (run upcall (.commit { handle := 1 }) (finalized w₁)).1 = .ok (reply .commit root) ∧
        (run upcall (.commit { handle := 1 }) (finalized w₂)).1 = .ok (reply .commit root) := by
  intro after finalized w₁ w₂ u₁ u₂ root
  have hu₁ : Finalized (finalized w₁) 1 u₁ :=
    (Runs.start.requests 1 _).finalized rfl (by decide +kernel) (by decide +kernel) _
  have hu₂ : Finalized (finalized w₂) 1 u₂ :=
    (Runs.start.requests 1 _).finalized rfl (by decide +kernel) (by decide +kernel) _
  have hsame : u₁.SameContent u₂ :=
    (View.answersLike_of_accounts (by decide +kernel)).sameContent
  have hroot : u₁.accounts.root = root := by decide +kernel
  obtain ⟨haccounts, root', hanswers⟩ := same_root hu₁ hu₂ hsame
  refine ⟨hu₁, hu₂, hsame, by decide +kernel, haccounts, fun upcall => ?_⟩
  obtain ⟨hroot₁, hroot₂, hcommit₁, hcommit₂⟩ := hanswers upcall
  have hintermediate : reply .intermediateRoot root' = reply .intermediateRoot root :=
    Except.ok.inj (hroot₁.symm.trans (hroot ▸ hu₁.intermediateRoot upcall))
  have hcommit : reply .commit root' = reply .commit root :=
    Except.ok.inj (hcommit₁.symm.trans (hroot ▸ hu₁.commit upcall))
  rw [hintermediate] at hroot₁ hroot₂
  rw [hcommit] at hcommit₁ hcommit₂
  exact ⟨hroot₁, hroot₂, hcommit₁, hcommit₂⟩

end Service

end EvmBridge
