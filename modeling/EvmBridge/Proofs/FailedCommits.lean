import EvmBridge.Proofs.CanonicalStates
import EvmBridge.Proofs.Refusals

/-!
# Commits that fail

A commit finalizes the view first and writes the file of the state then. If the file cannot be
written, the commit is refused, but the view stays finalized: its empty accounts are gone, and so
are its revisions (`Service.commit_failed_revision`). All else is as before, and asking again does
what the first commit would have done (`Service.commit_failed`).
-/

namespace EvmBridge

/-- There is nothing to drop twice. -/
theorem View.finalize_finalize (v : View) : v.finalize.finalize = v.finalize := by
  have haccounts := Accounts.pruned_of_noEmpty v.accounts.noEmpty_pruned
  unfold View.finalize
  rw [haccounts]

/-- A view without empty accounts and without revisions is finalized already, and no other is. -/
theorem View.finalize_eq_self_iff {v : View} :
    v.finalize = v ↔ v.accounts.NoEmpty ∧ v.revisions = [] := by
  constructor
  · intro h
    rw [← h]
    exact ⟨v.accounts.noEmpty_pruned, rfl⟩
  · rintro ⟨haccounts, hrevisions⟩
    unfold View.finalize
    rw [Accounts.pruned_of_noEmpty haccounts, ← hrevisions]

namespace World

variable {w : World}

theorem setView_setView (w : World) (i : Nat) (v v' : View) :
    (w.setView i v).setView i v' = w.setView i v' := by
  simp only [setView, Pool.set, List.set_set]

theorem setView_view (w : World) (i : Nat) : w.setView i (w.view i) = w := by
  have hobjects : w.engine.views.objects.set i (w.view i) = w.engine.views.objects := by
    refine List.ext_getElem? fun j => ?_
    rw [List.getElem?_set]
    by_cases hij : i = j
    · subst hij
      by_cases hi : i < w.engine.views.objects.length
      · simp [hi, view, Pool.get]
      · simp [hi]
    · simp [hij]
  unfold setView Pool.set
  rw [hobjects]

end World

/-- What is made of an answer depends on how the act ends only. -/
theorem Act.map_congr {α β : Type} {a : Act α} {g : α → β} {w w' : World} (h : a w = a w') :
    (g <$> a) w = (g <$> a) w' := by
  rcases ha : a w with ⟨_ | _, w₁⟩
  · rw [map_error ha, map_error (h ▸ ha)]
  · rw [map_ok ha, map_ok (h ▸ ha)]

namespace Service

variable {w w' : World} {h : Handle} {upcall : Upcall}

/-- A change that cannot be made to the view leaves everything as it was. -/
theorem updateIf_error {i : Nat} {f : View → Except EngineError View} {e : EngineError}
    (hfind : w.engine.views.find h = .ok i) (hf : f (w.view i) = .error e) :
    updateIf h f w = (.error (.error e), w) := by
  have hlook : findView h w = (.ok i, w) := Act.ofExcept_ok hfind
  have hget : (get : Act World) w = (.ok w, w) := rfl
  exact (Act.bind_ok hlook).trans
    ((Act.bind_ok hget).trans (Act.bind_error (Act.ofExcept_error hf)))

/-- A commit that is refused is answered with its fault. -/
theorem run_commit_error {p : HandleParams} {f : Fault} (h : (commit p w).1 = .error f) :
    run upcall (.commit p) w = (.error f, (commit p w).2) :=
  Act.map_error (Prod.ext h rfl)

/-- A commit that is refused leaves the finalized view behind, and nothing else. -/
theorem left_of_commit_error {p : HandleParams} {i : Nat} {f : Fault}
    (hfind : w.engine.views.find p.handle = .ok i) (h : commit p w = (.error f, w')) :
    w' = w.setView i (w.view i).finalize := by
  rw [commit_eq hfind] at h
  cases hstore : (w.store (w.view i).store).store w.files (w.view i).finalize.accounts.root
      (w.view i).finalize.accounts with
  | error e =>
      rw [hstore] at h
      exact (congrArg Prod.snd h).symm
  | ok kept =>
      rw [hstore] at h
      cases h

/-- Whether the view was finalized before makes no difference to a commit. -/
theorem commit_finalized {p : HandleParams} {i : Nat}
    (hfind : w.engine.views.find p.handle = .ok i) :
    commit p (w.setView i (w.view i).finalize) = commit p w := by
  have hfind' : (w.setView i (w.view i).finalize).engine.views.find p.handle = .ok i := hfind
  rw [commit_eq hfind', commit_eq hfind, World.view_setView_finalize, View.finalize_finalize,
    World.setView_setView]
  rfl

/-- **What a commit leaves behind that cannot write its file.** The view is finalized, and that is
all: every other view, all stores with their roots, the files and the access list are as before. So
nothing has changed if there were no empty accounts and no revisions, and only then. Asking again,
with whatever files, does what the commit would have done with them in the first place. -/
theorem commit_failed {fault : FileFault}
    (hfail : run upcall (.commit { handle := h }) w = (.error (.error (.io fault)), w')) :
    ∃ i, w.engine.views.find h = .ok i ∧
      w' = w.setView i { w.view i with accounts := (w.view i).accounts.pruned, revisions := [] } ∧
      (w' = w ↔ (w.view i).accounts.NoEmpty ∧ (w.view i).revisions = []) ∧
      ∀ files, run upcall (.commit { handle := h }) { w' with files } =
        run upcall (.commit { handle := h }) { w with files } := by
  cases hfind : w.engine.views.find h with
  | error e =>
      -- no such view: this is refused for another reason
      have hrefused : run upcall (.commit { handle := h }) w = (.error (.error e), w) :=
        Act.map_error (Act.bind_error (Act.ofExcept_error hfind))
      rw [hrefused] at hfail
      obtain ⟨rfl, -⟩ := Pool.find_eq_error_iff.mp hfind
      cases hfail
  | ok i =>
      have hleft : w' = w.setView i (w.view i).finalize := by
        rcases hcommit : commit { handle := h } w with ⟨f | root, w₁⟩
        · have hrefused : run upcall (.commit { handle := h }) w = (.error f, w₁) :=
            Act.map_error hcommit
          obtain rfl : w₁ = w' := congrArg Prod.snd (hrefused.symm.trans hfail)
          exact left_of_commit_error hfind hcommit
        · have hdone : run upcall (.commit { handle := h }) w = (.ok (reply .commit root), w₁) :=
            Act.map_ok hcommit
          rw [hdone] at hfail
          cases hfail
      have hview : w'.view i = (w.view i).finalize := by
        rw [hleft, World.view_setView_finalize]
      refine ⟨i, rfl, hleft, ?_, fun files => ?_⟩
      · rw [← View.finalize_eq_self_iff]
        constructor
        · intro hsame
          rw [← hview, hsame]
        · intro hsame
          rw [hleft, hsame, World.setView_view]
      · -- the new files make no difference to what was finalized
        have hretry : commit { handle := h } { w' with files } =
            commit { handle := h } { w with files } := by
          rw [hleft]
          exact commit_finalized (w := { w with files }) hfind
        exact Act.map_congr hretry

/-- The directory of a store is taken away, and a funded account cannot be committed. Nothing has
changed then. -/
theorem commit_failed_funded :
    let opened := [Request.openDisk { path := "/db" },
      .openView { databaseHandle := 1, root := .zero },
      .addBalance { handle := 1, address := .zero, amount := 5 }].foldl
        (fun w r => (run (Proxy.nested 1) r w).2) ({} : World)
    let w : World := { opened with files := {} }
    run (Proxy.nested 1) (.commit { handle := 1 }) w = (.error (.error (.io .notFound)), w) := by
  intro opened w
  have hfault : (commit { handle := 1 } w).1 = .error (.error (.io .notFound)) := by
    decide +kernel
  have hfail : run (Proxy.nested 1) (.commit { handle := 1 }) w =
      (.error (.error (.io .notFound)), (commit { handle := 1 } w).2) := run_commit_error hfault
  obtain ⟨i, hfind, -, hsame, -⟩ := commit_failed hfail
  obtain rfl : i = 0 := Except.ok.inj (hfind.symm.trans (by decide +kernel))
  have hkept : (w.view 0).accounts.pruned = (w.view 0).accounts := by decide +kernel
  have hunchanged := hsame.mpr ⟨hkept ▸ (w.view 0).accounts.noEmpty_pruned, by decide +kernel⟩
  rw [hfail, hunchanged]

/-- The same with an account that was touched only, and a snapshot. The account is gone after the
commit, and the snapshot can no longer be gone back to. -/
theorem commit_failed_revision :
    let opened := [Request.openDisk { path := "/db" },
      .openView { databaseHandle := 1, root := .zero },
      .addBalance { handle := 1, address := .zero, amount := 0 }, .snapshot { handle := 1 }].foldl
        (fun w r => (run (Proxy.nested 1) r w).2) ({} : World)
    let w : World := { opened with files := {} }
    let w' := (run (Proxy.nested 1) (.commit { handle := 1 }) w).2
    (run (Proxy.nested 1) (.commit { handle := 1 }) w).1 = .error (.error (.io .notFound)) ∧
      (w'.view 0).accounts ≠ (w.view 0).accounts ∧ ((w.view 0).revert 0).isSome ∧
      (run (Proxy.nested 1) (.revert { handle := 1, revisionId := 0 }) w').1 =
        .error (.error (.invalidRevision 0)) := by
  intro opened w w'
  have hfault : (commit { handle := 1 } w).1 = .error (.error (.io .notFound)) := by
    decide +kernel
  have hfail : run (Proxy.nested 1) (.commit { handle := 1 }) w =
      (.error (.error (.io .notFound)), (commit { handle := 1 } w).2) := run_commit_error hfault
  have hleft : w' = w.setView 0 (w.view 0).finalize :=
    (congrArg Prod.snd hfail).trans (left_of_commit_error (by decide +kernel) (Prod.ext hfault rfl))
  have hfind : w'.engine.views.find 1 = .ok 0 := by
    rw [hleft]
    decide +kernel
  have hgone : (w'.view 0).revert 0 = none := by
    rw [hleft]
    decide +kernel
  have hrefused : run (Proxy.nested 1) (.revert { handle := 1, revisionId := 0 }) w' =
      (.error (.error (.invalidRevision 0)), w') := by
    refine Act.map_error (updateIf_error hfind ?_)
    have hid : (0 : Int32).toInt = 0 := rfl
    simp only [hid, hgone]
  refine ⟨congrArg Prod.fst hfail, ?_, by decide +kernel, congrArg Prod.fst hrefused⟩
  rw [hleft]
  decide +kernel

end Service

end EvmBridge
