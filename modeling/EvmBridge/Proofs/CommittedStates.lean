import EvmBridge.Proofs.Commits
import EvmBridge.Proofs.EachAccount
import EvmBridge.Proofs.WorldSteps
import Mathlib.Control.Monad.Basic

/-!
# Committed states stay

A store in memory keeps what was committed to it, whatever happens to the views afterwards. Two
facts carry this through every step of the world.

* `World.Sound`: the views of such a store never hold a slot that is set to zero, not even in a
  revision, and its states hold neither such a slot nor an empty account.
* `Store.Grows`: a store changes only by further commits. A later commit under the same root takes
  the place of an earlier one, which makes a difference only if roots are not binding.

`Service.Runs.committed_states` puts them together: a root that was committed can be opened again
and again, and shows what the committing view showed.
-/

namespace EvmBridge

/-! ## States without waste -/

/-- No slot of the account is set to zero. -/
def Account.NoZeroSlot (account : Account) : Prop := ∀ key, account.storage.get? key ≠ some .zero

/-- No slot is set to zero. -/
def Accounts.NoZeroSlot (A : Accounts) : Prop :=
  ∀ a account key, A.get? a = some account → account.storage.get? key ≠ some .zero

/-- No account is empty. -/
def Accounts.NoEmpty (A : Accounts) : Prop :=
  ∀ a account, A.get? a = some account → account.isEmpty = false

namespace Accounts

variable {A : Accounts}

theorem noZeroSlot_iff_each : A.NoZeroSlot ↔ A.Each Account.NoZeroSlot :=
  ⟨fun hA a account hget key => hA a account key hget,
    fun hA a account key hget => hA a account hget key⟩

theorem NoZeroSlot.pruned (hA : A.NoZeroSlot) : A.pruned.NoZeroSlot :=
  noZeroSlot_iff_each.mpr (noZeroSlot_iff_each.mp hA).pruned

theorem noEmpty_pruned (A : Accounts) : A.pruned.NoEmpty := fun _ _ h => (get?_pruned h).2

end Accounts

namespace View

variable {v v' : View}

/-- No slot is set to zero, now or in a revision. -/
structure Tidy (v : View) : Prop where
  accounts : v.accounts.NoZeroSlot
  revisions : ∀ r ∈ v.revisions, r.accounts.NoZeroSlot

theorem tidy_iff_each : v.Tidy ↔ v.Each Account.NoZeroSlot := by
  constructor
  · intro hv
    exact ⟨Accounts.noZeroSlot_iff_each.mp hv.accounts,
      fun r hr => Accounts.noZeroSlot_iff_each.mp (hv.revisions r hr)⟩
  · intro hv
    exact ⟨Accounts.noZeroSlot_iff_each.mpr hv.accounts,
      fun r hr => Accounts.noZeroSlot_iff_each.mpr (hv.revisions r hr)⟩

theorem tidy_default : (default : View).Tidy :=
  tidy_iff_each.mpr ⟨Accounts.each_empty, fun _ h => absurd h (by simp [default])⟩

/-- The storage of an account, empty if there is no account. -/
theorem Tidy.storage (hv : v.Tidy) (a : Address) : ((v.account? a).getD {}).NoZeroSlot := by
  intro key
  cases ha : v.account? a with
  | none => exact fun h => absurd h (by simp)
  | some account => exact hv.accounts a account key ha

theorem Tidy.setStorage (hv : v.Tidy) {a : Address} {key : Hash} {value? : Option Hash}
    (h : v.setStorage a key value? = .ok v') : v'.Tidy := by
  unfold View.setStorage at h
  split at h
  · exact absurd h (by simp)
  · cases h
    refine tidy_iff_each.mpr ((tidy_iff_each.mp hv).write fun key' => ?_)
    dsimp only
    split
    · -- a zero value is never written: it erases the slot
      rename_i value hvalue
      have hne : value ≠ .zero := by
        have := (Option.filter_eq_some_iff.mp hvalue).2
        simpa [FixedBytes.isZero] using this
      dsimp only
      rw [OrdMap.get?_insert]
      split
      · exact fun h => hne (Option.some.inj h)
      · exact hv.storage a key'
    · dsimp only
      rw [OrdMap.get?_erase]
      split
      · simp
      · exact hv.storage a key'

/-- No write leaves a slot set to zero. -/
theorem Edit.tidy (h : v.Edit v') (hv : v.Tidy) : v'.Tidy := by
  have heach := tidy_iff_each.mp hv
  refine tidy_iff_each.mpr ?_
  cases h with
  | write a f hf => exact heach.write fun key => by rw [hf]; exact hv.storage a key
  | slot h => exact tidy_iff_each.mp (hv.setStorage h)
  | access accessList => exact ⟨heach.accounts, heach.revisions⟩
  | finalize => exact heach.finalize
  | snapshot => exact heach.mark
  | revert h => exact heach.revert h

theorem Edit.store (h : v.Edit v') : v'.store = v.store := by
  cases h with
  | slot h =>
      unfold View.setStorage at h
      split at h
      · exact absurd h (by simp)
      · cases h
        rfl
  | revert h =>
      unfold View.revert at h
      split at h
      · exact absurd h (by simp)
      · cases h
        rfl
  | _ => rfl

theorem Edits.tidy (h : v.Edits v') (hv : v.Tidy) : v'.Tidy := by
  induction h with
  | refl => exact hv
  | tail _ he ih => exact he.tidy ih

theorem Edits.store (h : v.Edits v') : v'.store = v.store := by
  induction h with
  | refl => rfl
  | tail _ he ih => exact he.store.trans ih

end View

/-- Views that answer alike, whatever is asked of their accounts. -/
structure View.AnswersLike (u v : View) : Prop where
  balance : ∀ a, u.balance a = v.balance a
  nonce : ∀ a, u.nonce a = v.nonce a
  code : ∀ a, u.code a = v.code a
  codeHash : ∀ a, u.codeHash a = v.codeHash a
  storage : ∀ a key, u.storage a key = v.storage a key

theorem View.answersLike_of_accounts {u v : View} (h : u.accounts = v.accounts) :
    u.AnswersLike v := by
  have hsame : ∀ a, u.account? a = v.account? a := fun a => by rw [account?, account?, h]
  constructor <;> intros
  · simp only [View.balance, hsame]
  · simp only [View.nonce, hsame]
  · simp only [View.code, hsame]
  · simp only [View.codeHash, hsame]
  · simp only [View.storage, hsame]

/-- Its states hold neither empty accounts nor slots that are set to zero. -/
def Store.Tidy (s : Store) : Prop :=
  ∀ root A, s.roots.get? root = some A → A.NoEmpty ∧ A.NoZeroSlot

theorem Store.tidy_of_roots {s : Store} (h : s.roots = ∅) : s.Tidy := by
  intro root A hget
  rw [h] at hget
  exact absurd hget (by simp)

/-- A finalized state can be added. -/
theorem Store.Tidy.store {s s' : Store} {files files' : Files} {root : Hash} {A : Accounts}
    (hs : s.Tidy) (hA : A.NoZeroSlot) (h : s.store files root A.pruned = .ok (s', files')) :
    s'.Tidy := by
  intro root' B hget
  rw [Store.eq_of_store h, OrdMap.get?_insert] at hget
  split at hget
  · cases hget
    exact ⟨A.noEmpty_pruned, hA.pruned⟩
  · exact hs root' B hget

/-! ## What every step keeps -/

namespace World

variable {w w' : World}

/-- Handles lead to objects, views to stores. In memory, neither views nor stores hold what should
not be there; nothing is said of a store on disk, which begins with what its files say. -/
structure Sound (w : World) : Prop where
  storeHandles : w.engine.stores.InRange
  viewHandles : w.engine.views.InRange
  placed : ∀ i < w.engine.views.objects.length,
    (w.view i).store < w.engine.stores.objects.length
  views : ∀ i, (w.store (w.view i).store).path = none → (w.view i).Tidy
  stores : ∀ i, (w.store i).path = none → (w.store i).Tidy

theorem Sound.of_engine (hw : w.Sound) (hstores : w'.engine.stores = w.engine.stores)
    (hviews : w'.engine.views = w.engine.views) : w'.Sound := by
  obtain ⟨h₁, h₂, h₃, h₄, h₅⟩ := hw
  constructor
  all_goals
    simp only [World.store, World.view] at *
    simpa only [hstores, hviews]

theorem sound_start (h : w.engine = {}) : w.Sound := by
  refine ⟨?_, ?_, ?_, fun i _ => ?_, fun i _ => ?_⟩
  · rw [h]
    exact .empty
  · rw [h]
    exact .empty
  · rw [h]
    exact fun i hi => absurd hi (by simp)
  · rw [World.view, h]
    exact View.tidy_default
  · rw [World.store, h]
    exact Store.tidy_of_roots rfl

theorem Sound.openStore (hw : w.Sound) {s : Store} (hs : s.path = none → s.roots = ∅) :
    Sound { w with engine := { w.engine with stores := (w.engine.stores.add s).2 } } := by
  have hold : ∀ i < w.engine.stores.objects.length,
      (w.engine.stores.add s).2.get i = w.engine.stores.get i := fun i hi => by
    rw [Pool.get_add, if_neg (by omega)]
  refine ⟨hw.storeHandles.add s, hw.viewHandles, fun i hi => ?_, fun i hmem => ?_,
    fun i hmem => ?_⟩
  · exact Nat.lt_of_lt_of_le (hw.placed i hi) (by simp [Pool.add])
  · by_cases hi : i < w.engine.views.objects.length
    · refine hw.views i ?_
      rw [World.store, ← hold _ (hw.placed i hi)]
      exact hmem
    · -- no view stands there, and the one that is taken for it holds nothing
      have hdefault : w.view i = default := Pool.get_of_le (Nat.le_of_not_lt hi)
      show (w.view i).Tidy
      rw [hdefault]
      exact View.tidy_default
  · simp only [World.store] at hmem ⊢
    rw [Pool.get_add] at hmem ⊢
    split at hmem
    · rw [if_pos ‹_›]
      exact Store.tidy_of_roots (hs hmem)
    · rw [if_neg ‹_›]
      exact hw.stores i hmem

theorem Sound.openView (hw : w.Sound) {h : Handle} {store : Nat} {root : Hash}
    {accounts : Accounts} (hs : w.engine.stores.find h = .ok store)
    (hl : (w.store store).loadFrom root = .ok accounts) :
    Sound { w with engine :=
      { w.engine with views := (w.engine.views.add { store, accounts }).2 } } := by
  refine ⟨hw.storeHandles, hw.viewHandles.add _, fun i hi => ?_, fun i hmem => ?_, hw.stores⟩
  · simp only [World.view]
    rw [Pool.get_add]
    split
    · exact hw.storeHandles h store hs
    · refine hw.placed i ?_
      simp only [Pool.add, List.length_append, List.length_singleton] at hi
      omega
  · simp only [World.view] at hmem ⊢
    rw [Pool.get_add] at hmem ⊢
    split at hmem
    · rw [if_pos ‹_›]
      refine ⟨?_, fun _ h => absurd h (by simp)⟩
      -- what is loaded is the empty state or was kept by a store that is tidy
      unfold Store.loadFrom at hl
      split at hl
      · cases hl
        exact Accounts.noZeroSlot_iff_each.mpr Accounts.each_empty
      · unfold Store.load at hl
        split at hl
        · rename_i hget
          cases hl
          exact (hw.stores store hmem _ _ hget).2
        · exact absurd hl (by simp)
    · rw [if_neg ‹_›]
      exact hw.views i hmem

theorem Sound.setView (hw : w.Sound) (i : Nat) {v : View} (hv : (w.view i).Edits v) :
    (w.setView i v).Sound := by
  refine ⟨hw.storeHandles, hw.viewHandles.set i v, fun j hj => ?_, fun j hmem => ?_, hw.stores⟩
  · have hj : j < w.engine.views.objects.length := by simpa [World.setView, Pool.set] using hj
    simp only [World.view, World.setView]
    rw [Pool.get_set]
    split
    · rename_i hji
      rw [hv.store, ← hji.1]
      exact hw.placed j hj
    · exact hw.placed j hj
  · simp only [World.view, World.setView] at hmem ⊢
    rw [Pool.get_set] at hmem ⊢
    split at hmem
    · rw [if_pos ‹_›]
      rw [hv.store] at hmem
      exact hv.tidy (hw.views i hmem)
    · rw [if_neg ‹_›]
      exact hw.views j hmem

theorem Sound.setStore (hw : w.Sound) (i : Nat) {s : Store} (hpath : s.path = (w.store i).path)
    (hs : s.path = none → s.Tidy) : (w.setStore i s).Sound := by
  have hpaths : ∀ j, ((w.setStore i s).store j).path = (w.store j).path := fun j => by
    simp only [World.store, World.setStore]
    rw [Pool.get_set]
    split
    · rename_i hji
      rw [hpath, hji.1]
      rfl
    · rfl
  refine ⟨hw.storeHandles.set i s, hw.viewHandles, fun j hj => ?_, fun j hmem => ?_,
    fun j hmem => ?_⟩
  · show (w.view j).store < (w.engine.stores.objects.set i s).length
    rw [List.length_set]
    exact hw.placed j hj
  · rw [hpaths] at hmem
    exact hw.views j hmem
  · simp only [World.store, World.setStore] at hmem ⊢
    rw [Pool.get_set] at hmem ⊢
    split at hmem
    · rw [if_pos ‹_›]
      exact hs hmem
    · rw [if_neg ‹_›]
      exact hw.stores j hmem

/-- **Every step keeps stores and views tidy.** -/
theorem Step.sound (h : w.Step w') (hw : w.Sound) : w'.Sound := by
  cases h with
  | elsewhere stores views _ => exact hw.of_engine stores views
  | passed text => exact hw.of_engine (by rw [engine_passed]) (by rw [engine_passed])
  | starved times => exact hw.of_engine rfl rfl
  | storeOpened hs => exact hw.openStore hs
  | storeClosed hc =>
      have hobjects := Pool.objects_close hc
      refine ⟨hw.storeHandles.close hc, hw.viewHandles, fun i hi => ?_, fun i hmem => ?_,
        fun i hmem => ?_⟩
      · show _ < _
        rw [hobjects]
        exact hw.placed i hi
      · simp only [World.store, Pool.get, hobjects] at hmem
        exact hw.views i hmem
      · simp only [World.store, Pool.get, hobjects] at hmem ⊢
        exact hw.stores i hmem
  | viewOpened hs hl => exact hw.openView hs hl
  | viewClosed hc =>
      have hobjects := Pool.objects_close hc
      refine ⟨hw.storeHandles, hw.viewHandles.close hc, fun i hi => ?_, fun i hmem => ?_,
        hw.stores⟩
      · simp only [World.view, Pool.get, hobjects] at hi ⊢
        exact hw.placed i hi
      · simp only [World.view, Pool.get, hobjects] at hmem ⊢
        exact hw.views i hmem
  | edited i hv => exact hw.setView i hv
  | @committed i store files hs =>
      have hfinal := hw.setView i (View.Edit.finalize (v := w.view i)).edits
      have hfiles : Sound { w.setView i (w.view i).finalize with files } :=
        hfinal.of_engine rfl rfl
      have hkept := Store.eq_of_store hs
      refine hfiles.setStore _ (by rw [hkept]; rfl) fun hmem => ?_
      -- a commit does not move a store between memory and disk
      have hpath : (w.store (w.view i).store).path = none := by rw [hkept] at hmem; exact hmem
      exact (hw.stores _ hpath).store (hw.views i hpath).accounts hs

theorem Leads.sound (h : Leads w w') (hw : w.Sound) : w'.Sound := by
  induction h with
  | refl => exact hw
  | tail _ hs ih => exact hs.sound ih

end World

/-! ## How a store grows -/

/-- A store in memory changes by commits only. -/
def Store.Grows (s s' : Store) : Prop :=
  s'.path = none → s.path = none ∧ ∀ As, s.Reached As → ∃ Bs, s'.Reached (As ++ Bs)

theorem Store.Grows.refl (s : Store) : s.Grows s :=
  fun hmem => ⟨hmem, fun _ hs => ⟨[], by rwa [List.append_nil]⟩⟩

theorem Store.Grows.trans {s s' s'' : Store} (h : s.Grows s') (h' : s'.Grows s'') :
    s.Grows s'' := by
  intro hmem
  obtain ⟨hmem', hgrow'⟩ := h' hmem
  obtain ⟨hmem'', hgrow⟩ := h hmem'
  refine ⟨hmem'', fun As hs => ?_⟩
  obtain ⟨Bs, hBs⟩ := hgrow As hs
  obtain ⟨Cs, hCs⟩ := hgrow' _ hBs
  exact ⟨Bs ++ Cs, by rwa [← List.append_assoc]⟩

namespace World

variable {w w' : World}

/-- **Every step lets each store grow.** -/
theorem Step.grows (h : w.Step w') (i : Nat) : (w.store i).Grows (w'.store i) := by
  have hsame : ∀ {w' : World}, w'.store i = w.store i → (w.store i).Grows (w'.store i) :=
    fun h => by rw [h]; exact .refl _
  cases h with
  | elsewhere stores _ _ => exact hsame (by simp only [World.store, stores])
  | passed text => exact hsame (by simp only [World.store, engine_passed])
  | starved | viewOpened | viewClosed | edited => exact hsame rfl
  | storeClosed hc => exact hsame (by simp only [World.store, Pool.get, Pool.objects_close hc])
  | @storeOpened s hs =>
      simp only [World.store]
      rw [Pool.get_add]
      split
      · -- the place was free, so nothing was committed there
        rename_i hi
        rw [Pool.get_of_le (Nat.le_of_eq hi.symm)]
        intro hmem
        refine ⟨rfl, fun As hAs => ⟨[], ?_⟩⟩
        rw [hAs.eq_nil rfl]
        exact .opened (hs hmem)
      · exact .refl _
  | @committed j store files hs =>
      simp only [World.store, World.setStore]
      rw [Pool.get_set]
      split
      · rename_i hi
        intro hmem
        rw [Store.eq_of_store hs] at hmem
        refine ⟨by rw [hi.1]; exact hmem, fun As hAs => ⟨_, .committed (hi.1 ▸ hAs) hs⟩⟩
      · exact .refl _

theorem Leads.grows (h : Leads w w') (i : Nat) : (w.store i).Grows (w'.store i) := by
  induction h with
  | refl => exact .refl _
  | tail _ hs ih => exact ih.trans (hs.grows i)

end World

/-! ## Runs of the service -/

namespace Service

open World (Leads)

/-- A run of the service: calls one after the other, with callbacks that call back to some depth,
and the steps such calls are made of, so that a run can be looked at in the middle of a call too. -/
inductive Runs (w₀ : World) : World → Prop where
  | start : Runs w₀ w₀
  | call {w : World} (h : Runs w₀ w) (depth : Nat) (method : String) (args : Option String) :
      Runs w₀ (invoke (Proxy.nested depth) method args w).2
  | step {w w' : World} (h : Runs w₀ w) (hs : w.Step w') : Runs w₀ w'

theorem Runs.leads {w₀ w : World} (h : Runs w₀ w) : Leads w₀ w := by
  induction h with
  | start => exact .refl _
  | call _ depth method args ih =>
      exact (invoke_leads (Proxy.leads_nested depth) method args ih).world
  | step _ hs ih => exact ih.step hs

theorem Runs.of_leads {w₀ w w' : World} (h : Runs w₀ w) (hw : Leads w w') : Runs w₀ w' := by
  induction hw with
  | refl => exact h
  | tail _ hs ih => exact ih.step hs

/-- Requests one after the other. -/
theorem Runs.requests {w₀ w : World} (h : Runs w₀ w) (depth : Nat) (rs : List Request) :
    Runs w₀ (rs.foldl (fun w r => (run (Proxy.nested depth) r w).2) w) := by
  induction rs generalizing w with
  | nil => exact h
  | cons r rs ih =>
      exact ih (h.of_leads (run_leads (Proxy.leads_nested depth) r (.refl w)).world)

/-- A commit finalizes the view. Then the store takes its state, or refuses. -/
theorem commit_eq {w : World} {p : HandleParams} {j : Nat}
    (hfind : w.engine.views.find p.handle = .ok j) :
    commit p w =
      match (w.store (w.view j).store).store w.files (w.view j).finalize.accounts.root
        (w.view j).finalize.accounts with
      | .ok (store, files) => (.ok (w.view j).finalize.accounts.root,
          { w.setView j (w.view j).finalize with files }.setStore (w.view j).store store)
      | .error e => (.error (.error e), w.setView j (w.view j).finalize) := by
  have hfound : findView p.handle w = (.ok j, w) := Act.ofExcept_ok hfind
  have hview := World.view_setView_finalize w j
  -- all that follows happens in the world with the finalized view
  generalize hw₁ : w.setView j (w.view j).finalize = w₁ at hview ⊢
  have hasked : commit p w = (do
      let kept ← Act.ofExcept ((w₁.store (w₁.view j).store).store w₁.files
        (w₁.view j).accounts.root (w₁.view j).accounts)
      set ({ w₁ with files := kept.2 }.setStore (w₁.view j).store kept.1)
      return (w₁.view j).accounts.root : Act Hash) w₁ := by
    unfold commit
    rw [Act.bind_ok hfound, ← hw₁]
    rfl
  have hstore : w₁.store (w.view j).store = w.store (w.view j).store := by rw [← hw₁]; rfl
  have hfiles : w₁.files = w.files := by rw [← hw₁]; rfl
  have hplace : (w.view j).finalize.store = (w.view j).store := rfl
  rw [hasked, hview, hplace, hstore, hfiles]
  cases hs : (w.store (w.view j).store).store w.files (w.view j).finalize.accounts.root
      (w.view j).finalize.accounts with
  | error e => exact Act.bind_error (Act.ofExcept_error rfl)
  | ok kept => exact Act.bind_ok (Act.ofExcept_ok rfl)

/-- A commit that is answered finalizes the view, and the store takes its state. -/
theorem commit_ok {w w' : World} {p : HandleParams} {j : Nat} {root : Hash}
    (hfind : w.engine.views.find p.handle = .ok j) (h : commit p w = (.ok root, w')) :
    ∃ store files, (w.store (w.view j).store).store w.files (w.view j).finalize.accounts.root
        (w.view j).finalize.accounts = .ok (store, files) ∧
      root = (w.view j).finalize.accounts.root ∧
      w' = { w.setView j (w.view j).finalize with files }.setStore (w.view j).store store := by
  rw [commit_eq hfind] at h
  cases hs : (w.store (w.view j).store).store w.files (w.view j).finalize.accounts.root
      (w.view j).finalize.accounts with
  | error e =>
      rw [hs] at h
      cases h
  | ok kept =>
      rw [hs] at h
      cases h
      exact ⟨kept.1, kept.2, rfl, rfl, rfl⟩

/-- What a run committed to a store is listed from the start. -/
theorem Runs.reached {w₀ w : World} {i : Nat} (hinit : w₀.engine = {}) (hrun : Runs w₀ w)
    (hmem : (w.store i).path = none) : ∃ As, (w.store i).Reached As := by
  have hstart : (w₀.store i).Reached [] := by
    rw [World.store, hinit]
    exact .opened rfl
  obtain ⟨As, hAs⟩ := (hrun.leads.grows i hmem).2 [] hstart
  exact ⟨As, hAs⟩

/-- A commit lists the state of the view for the store, with the root that was answered. -/
theorem Runs.reached_commit {w₀ w₁ w₂ : World} {p : HandleParams} {j : Nat} {root : Hash}
    {As : List Accounts} (hinit : w₀.engine = {}) (hrun : Runs w₀ w₁)
    (hfind : w₁.engine.views.find p.handle = .ok j) (hcommit : commit p w₁ = (.ok root, w₂))
    (hAs : (w₁.store (w₁.view j).store).Reached As) :
    (w₂.view j).accounts.root = root ∧
      (w₂.store (w₁.view j).store).Reached (As ++ [(w₂.view j).accounts]) := by
  obtain ⟨store, files, hs, hroot, hw₂⟩ := commit_ok hfind hcommit
  have hview : w₂.view j = (w₁.view j).finalize := by
    rw [hw₂]
    exact World.view_setView_finalize w₁ j
  have hkept : w₂.store (w₁.view j).store = store := by
    -- in a sound world the view leads to a store, so what is put there can be seen
    have hsound := hrun.leads.sound (World.sound_start hinit)
    have hin := hsound.placed j (hsound.viewHandles _ _ hfind)
    rw [hw₂]
    simp only [World.store, World.setStore]
    rw [Pool.get_set, if_pos ⟨rfl, hin⟩]
  rw [hkept, hview]
  exact ⟨hroot.symm, .committed hAs hs⟩

/-- **Committed states are immutable and can be opened again.** Look at a store in memory at any
moment of any run. What it keeps at a root has this root, no empty account and no slot that is set
to zero. And take any commit that the run went through, at the top or in a callback: with each
handle of the store its root can be opened. The view that is opened has an empty access list and no
revisions, and answers as the committing view did right after the commit, unless another state was
committed under the root, whichever commits have made the store what it is, or a state that is not
empty was committed under the zero root. -/
theorem Runs.committed_states {w₀ w : World} {i : Nat} (hinit : w₀.engine = {}) (hrun : Runs w₀ w)
    (hmem : (w.store i).path = none) :
    (∃ As, (w.store i).Reached As) ∧
      (∀ root A, (w.store i).roots.get? root = some A →
        A.root = root ∧ A.NoEmpty ∧ A.NoZeroSlot) ∧
      ∀ {w₁ w₂ : World} {p : HandleParams} {j : Nat} {root : Hash}, Runs w₀ w₁ →
        w₁.engine.views.find p.handle = .ok j → (w₁.view j).store = i →
        commit p w₁ = (.ok root, w₂) → Runs w₂ w →
        ∀ database, w.engine.stores.find database = .ok i →
          ∃ h w' u, openView { databaseHandle := database, root } w = (.ok h, w') ∧
            w'.Shows h u ∧ u.accessList = {} ∧ u.revisions = [] ∧
            ∀ As, (w.store i).Reached As →
              u.AnswersLike (w₂.view j) ∨
                (∃ A ∈ As, A ≠ (w₂.view j).accounts ∧ A.root = root) ∨
                root = .zero ∧ (w₂.view j).accounts ≠ ∅ := by
  obtain ⟨As₀, hAs₀⟩ := hrun.reached hinit hmem
  refine ⟨⟨As₀, hAs₀⟩, fun root A hget => ?_, ?_⟩
  · have hsound := hrun.leads.sound (World.sound_start hinit)
    exact ⟨(hAs₀.of_get? hget).2, hsound.stores i hmem root A hget⟩
  rintro w₁ w₂ p j root hbefore hfind rfl hcommit hafter database hdatabase
  -- the state that was committed is still listed
  obtain ⟨hmem₂, hgrow⟩ := hafter.leads.grows _ hmem
  have hleads : Leads w₁ w₂ := by
    have hw₂ := (leads_commit (p := p) (.refl w₁)).world
    rwa [hcommit] at hw₂
  obtain ⟨As₁, hAs₁⟩ := hbefore.reached hinit (hleads.grows _ hmem₂).1
  obtain ⟨hroot, hBs⟩ := hbefore.reached_commit hinit hfind hcommit hAs₁
  obtain ⟨Cs, hCs⟩ := hgrow _ hBs
  obtain ⟨B, hload, hB⟩ := hCs.loadFrom_root (List.mem_append_left _ List.mem_concat_self)
  rw [hroot] at hload hB
  obtain ⟨h, w', hopen, hshows⟩ := openView_eq (p := { databaseHandle := database, root })
    hdatabase hload
  refine ⟨h, w', _, hopen, hshows, rfl, rfl, fun As hAs => ?_⟩
  by_cases hsame : B = (w₂.view j).accounts
  · exact .inl (View.answersLike_of_accounts hsame)
  · -- what was found is another state: the empty one, or one that has taken its place
    rcases hB with ⟨hz, rfl⟩ | hget
    · exact .inr (.inr ⟨hz, fun he => hsame he.symm⟩)
    · obtain ⟨hmemB, hrootB⟩ := hAs.of_get? hget
      exact .inr (.inl ⟨B, hmemB, hsame, hrootB⟩)

/-- A view commits a balance of five and then sets it to seven; its root still shows five. -/
theorem Runs.committed_states_reopened :
    let after := fun (rs : List Request) (w : World) =>
      rs.foldl (fun w r => (run (Proxy.nested 1) r w).2) w
    let w₁ := after [.openMemory, .openView { databaseHandle := 1, root := .zero },
      .setBalance { handle := 1, address := .zero, amount := 5 }] {}
    let w₂ := (commit { handle := 1 } w₁).2
    let w := after [.setBalance { handle := 1, address := .zero, amount := 7 }] w₂
    (w.view 0).balance .zero = 7 ∧ ∃ root, (commit { handle := 1 } w₁).1 = .ok root ∧
      ∃ h w' u, openView { databaseHandle := 1, root } w = (.ok h, w') ∧ w'.Shows h u ∧
        u.balance .zero = 5 := by
  intro after w₁ w₂ w
  have hafter : ∀ {w₀ w : World} (rs : List Request), Runs w₀ w → Runs w₀ (after rs w) :=
    fun rs h => h.requests 1 rs
  have hbefore : Runs {} w₁ := hafter _ .start
  have hfind : w₁.engine.views.find 1 = .ok 0 := by decide +kernel
  rcases hcommit : commit { handle := 1 } w₁ with ⟨f | root, w₂'⟩
  · have hok : (commit { handle := 1 } w₁).1.toOption.isSome = true := by decide +kernel
    rw [hcommit] at hok
    exact absurd hok (by simp [Except.toOption])
  · have hw₂ : w₂ = w₂' := by rw [show w₂ = (commit { handle := 1 } w₁).2 from rfl, hcommit]
    have hrun : Runs {} w :=
      hafter _ (hbefore.of_leads (leads_commit (p := { handle := 1 }) (.refl w₁)).world)
    -- the one commit is all that has made the store what it is
    have hlisted : (w.store 0).Reached [(w₂.view 0).accounts] := by
      have hstart : (w₁.store (w₁.view 0).store).Reached [] := .opened (by decide +kernel)
      have hset : w = w₂.setView 0 ((w₂.view 0).setBalance .zero 7) :=
        congrArg Prod.snd (Act.map_ok (step_ok _ (by decide +kernel)))
      have hkept : w.store 0 = w₂.store 0 := by rw [hset]; rfl
      rw [hkept, hw₂]
      exact (hbefore.reached_commit rfl hfind hcommit hstart).2
    obtain ⟨_, _, hreopen⟩ := Runs.committed_states (i := 0) rfl hrun (by decide +kernel)
    obtain ⟨h, w', u, hopen, hshows, _, _, hu⟩ := hreopen hbefore hfind (by decide +kernel)
      hcommit (hw₂ ▸ hafter _ .start) 1 (by decide +kernel)
    refine ⟨by decide +kernel, root, rfl, h, w', u, hopen, hshows, ?_⟩
    rcases hu _ hlisted with hlike | ⟨A, hA, hne, _⟩ | ⟨hz, _⟩
    · rw [hlike.balance, ← hw₂]
      decide +kernel
    · exact absurd (List.mem_singleton.mp hA) (hw₂ ▸ hne)
    · have hne : (commit { handle := 1 } w₁).1.toOption ≠ some .zero := by decide +kernel
      rw [hcommit, hz] at hne
      exact absurd rfl hne

end Service

end EvmBridge
