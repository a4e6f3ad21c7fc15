import EvmBridge.Engine.Service
import EvmBridge.Proofs.ExecutorSteps

/-!
# What a store holds after commits

A commit adds one state to a store, under its root. `Store.Reached` lists the states that were
committed, so what is found at a root is one of them (`Reached.of_get?`), and each of their roots
leads somewhere (`Reached.get?_root`). A root can be opened as long as a handle leads to the store
(`Service.openView_eq`).
-/

namespace EvmBridge

namespace Store

variable {s s' : Store} {files files' : Files} {As : List Accounts} {A B : Accounts} {root : Hash}

/-- A store that was empty when it was opened, and the states that were committed to it since. -/
inductive Reached : Store → List Accounts → Prop where
  | opened {s : Store} (h : s.roots = ∅) : Reached s []
  | committed {s s' : Store} {files files' : Files} {As : List Accounts} {A : Accounts}
      (hs : Reached s As) (h : s.store files A.root A = .ok (s', files')) : Reached s' (As ++ [A])

/-- On disk or in memory, a state that is taken is kept under its root. -/
theorem eq_of_store (h : s.store files root A = .ok (s', files')) :
    s' = { s with roots := s.roots.insert root A } := by
  unfold store at h
  dsimp only at h
  split at h
  · cases h
    rfl
  · split at h
    · cases h
      rfl
    · exact absurd h (by simp)

/-- What is found at a root was committed, and has that root. -/
theorem Reached.of_get? (h : s.Reached As) (hget : s.roots.get? root = some A) :
    A ∈ As ∧ A.root = root := by
  induction h with
  | opened h =>
      rw [h] at hget
      exact absurd hget (by simp)
  | @committed s s' _ _ As B _ hstore ih =>
      rw [eq_of_store hstore, OrdMap.get?_insert] at hget
      split at hget
      · rename_i hroot
        cases hget
        exact ⟨by simp, hroot.symm⟩
      · obtain ⟨hmem, hA⟩ := ih hget
        exact ⟨List.mem_append_left _ hmem, hA⟩

/-- Something is found at the root of each state that was committed. -/
theorem Reached.get?_root (h : s.Reached As) (hA : A ∈ As) : ∃ B, s.roots.get? A.root = some B := by
  induction h with
  | opened _ => exact absurd hA (by simp)
  | @committed s s' _ _ As B _ hstore ih =>
      rw [eq_of_store hstore, OrdMap.get?_insert]
      split
      · -- a commit under the same root takes the place of the state, but does not empty it
        exact ⟨B, rfl⟩
      · rename_i hne
        rcases List.mem_append.mp hA with hA | hA
        · exact ih hA
        · rw [List.mem_singleton.mp hA] at hne
          exact absurd rfl hne

theorem loadFrom_zero (s : Store) : s.loadFrom .zero = .ok ∅ := rfl

theorem loadFrom_of_ne_zero (hroot : root ≠ .zero) (hget : s.roots.get? root = some A) :
    s.loadFrom root = .ok A := by
  have hz : ¬ root.isZero = true := by simpa [FixedBytes.isZero] using hroot
  rw [loadFrom, if_neg hz, load, hget]

/-- Each committed root can be loaded. Under the zero root the empty state is found, under any
other one what the store keeps there. -/
theorem Reached.loadFrom_root (h : s.Reached As) (hA : A ∈ As) :
    ∃ B, s.loadFrom A.root = .ok B ∧
      (A.root = .zero ∧ B = ∅ ∨ s.roots.get? A.root = some B) := by
  by_cases hz : A.root = .zero
  · exact ⟨∅, by rw [hz, loadFrom_zero], .inl ⟨hz, rfl⟩⟩
  · obtain ⟨B, hB⟩ := h.get?_root hA
    exact ⟨B, loadFrom_of_ne_zero hz hB, .inr hB⟩

theorem Reached.eq_nil (h : s.Reached As) (hroots : s.roots = ∅) : As = [] := by
  refine List.eq_nil_iff_forall_not_mem.mpr fun A hA => ?_
  obtain ⟨B, hB⟩ := h.get?_root hA
  rw [hroots] at hB
  exact absurd hB (by simp)

end Store

/-! ## Objects and their handles -/

namespace Pool

variable {α : Type} {p : Pool α} {h : Handle} {i : Nat}

/-- The handle of a new object leads behind all others. All other handles lead where they led. -/
theorem find_add_eq (p : Pool α) (a : α) (h : Handle) :
    (p.add a).2.find h = if h = (p.add a).1 then .ok p.objects.length else p.find h := by
  have hget : (p.add a).2.handles.get? h =
      if h = (p.add a).1 then some p.objects.length else p.handles.get? h :=
    OrdMap.get?_insert _ _ _ _
  rw [find, hget]
  by_cases hh : h = (p.add a).1
  · rw [if_pos hh, if_pos hh]
  · rw [if_neg hh, if_neg hh, find]

theorem find_add (p : Pool α) (a : α) : (p.add a).2.find (p.add a).1 = .ok p.objects.length := by
  rw [find_add_eq, if_pos rfl]

/-- A handle can be closed if it leads somewhere. -/
theorem close_eq (p : Pool α) (h : Handle) : p.close h = (p.find h).map fun _ =>
    { p with handles := { p.handles with used := p.handles.used.erase h } } := by
  unfold close find HandleTable.remove?
  cases p.handles.get? h <;> rfl

/-- A handle that is closed leads nowhere. All other handles lead where they led. -/
theorem find_close_eq {p q : Pool α} {h : Handle} (hc : p.close h = .ok q) (h' : Handle) :
    q.find h' = if h' = h then .error (.invalidHandle h') else p.find h' := by
  unfold close HandleTable.remove? at hc
  split at hc
  · rename_i he
    obtain ⟨a, _, heq⟩ := Option.map_eq_some_iff.mp he
    cases hc
    cases heq
    simp only [find, HandleTable.get?, OrdMap.get?_erase]
    by_cases hh : h' = h
    · rw [if_pos hh, if_pos hh]
    · rw [if_neg hh, if_neg hh]
  · exact absurd hc (by simp)

variable [Inhabited α]

theorem get_add (p : Pool α) (a : α) (i : Nat) :
    (p.add a).2.get i = if i = p.objects.length then a else p.get i := by
  simp only [add, get, List.getElem?_append]
  rcases Nat.lt_trichotomy i p.objects.length with hlt | heq | hgt
  · rw [if_pos hlt, if_neg (by omega)]
  · simp [heq]
  · rw [if_neg (by omega), if_neg (by omega), List.getElem?_eq_none (by simp; omega),
      List.getElem?_eq_none (by omega)]

theorem get_set (p : Pool α) (i j : Nat) (a : α) :
    (p.set i a).get j = if j = i ∧ i < p.objects.length then a else p.get j := by
  simp only [set, get, List.getElem?_set]
  by_cases hij : i = j
  · subst hij
    by_cases hi : i < p.objects.length <;> simp [hi]
  · have hji : ¬ j = i := fun h => hij h.symm
    simp [hij, hji]

theorem get_of_le {p : Pool α} (hi : p.objects.length ≤ i) : p.get i = default := by
  rw [get, List.getElem?_eq_none hi]
  rfl

omit [Inhabited α]

/-- All handles lead to objects. -/
def InRange (p : Pool α) : Prop := ∀ h i, p.find h = .ok i → i < p.objects.length

theorem find_eq_ok_iff : p.find h = .ok i ↔ p.handles.used.get? h = some i := by
  unfold find HandleTable.get?
  split <;> simp_all

theorem find_eq_error_iff {e : EngineError} :
    p.find h = .error e ↔ e = .invalidHandle h ∧ p.handles.get? h = none := by
  unfold find
  cases p.handles.get? h with
  | none => simp [eq_comm]
  | some i => simp

theorem objects_close {q : Pool α} (hc : p.close h = .ok q) : q.objects = p.objects := by
  unfold Pool.close at hc
  split at hc
  · cases hc
    rfl
  · exact absurd hc (by simp)

theorem InRange.empty : ({} : Pool α).InRange := by
  intro h i hi
  exact absurd hi (by simp [find, HandleTable.get?])

theorem InRange.add (hp : p.InRange) (a : α) : (p.add a).2.InRange := by
  intro h i hi
  have hlen : (p.add a).2.objects.length = p.objects.length + 1 := by simp [Pool.add]
  rw [find_add_eq] at hi
  rw [hlen]
  split at hi
  · cases hi
    exact Nat.lt_succ_self _
  · exact Nat.lt_succ_of_lt (hp h i hi)

theorem InRange.close {q : Pool α} (hp : p.InRange) (hc : p.close h = .ok q) : q.InRange := by
  intro h' i hi
  rw [find_close_eq hc] at hi
  rw [objects_close hc]
  split at hi
  · exact absurd hi (by simp)
  · exact hp h' i hi

theorem invalid_of_close {e : EngineError} (hc : p.close h = .error e) : e = .invalidHandle h := by
  unfold Pool.close at hc
  split at hc
  · exact absurd hc (by simp)
  · cases hc
    rfl

theorem remove?_of_close {q : Pool α} (hc : p.close h = .ok q) :
    ∃ i, p.handles.remove? h = some (i, q.handles) := by
  unfold Pool.close at hc
  split at hc
  · rename_i i handles he
    cases hc
    exact ⟨i, he⟩
  · exact absurd hc (by simp)

theorem InRange.set (hp : p.InRange) (i : Nat) (a : α) : (p.set i a).InRange := by
  intro h j hj
  rw [Pool.set, List.length_set]
  exact hp h j hj

end Pool

/-- A handle leads to a view. -/
def World.Shows (w : World) (h : Handle) (v : View) : Prop :=
  ∃ i, w.engine.views.find h = .ok i ∧ w.Holds i v

namespace Service

/-- A root is opened by any handle of a store that can load it. The new view has touched nothing. -/
theorem openView_eq {w : World} {p : StateParams} {i : Nat} {accounts : Accounts}
    (hfind : w.engine.stores.find p.databaseHandle = .ok i)
    (hload : (w.store i).loadFrom p.root = .ok accounts) :
    ∃ h w', openView p w = (.ok h, w') ∧ w'.Shows h { store := i, accounts } := by
  refine ⟨(w.engine.views.add { store := i, accounts }).1,
    { w with engine :=
      { w.engine with views := (w.engine.views.add { store := i, accounts }).2 } }, ?_, ?_⟩
  · have hfound : findStore p.databaseHandle w = (.ok i, w) := Act.ofExcept_ok hfind
    unfold openView
    rw [Act.bind_ok hfound]
    exact Act.bind_ok (Act.ofExcept_ok hload)
  · refine ⟨w.engine.views.objects.length, Pool.find_add _ _, ?_⟩
    simp [World.Holds, Pool.add]

/-- A step by a handle that leads to a view answers, and leaves the view as it says. -/
theorem step_ok {α : Type} {w : World} {h : Handle} {i : Nat} (f : View → α × View)
    (hfind : w.engine.views.find h = .ok i) :
    step h f w = (.ok (f (w.view i)).1, w.setView i (f (w.view i)).2) := by
  have hfound : findView h w = (.ok i, w) := Act.ofExcept_ok hfind
  unfold step
  rw [Act.bind_ok hfound]
  rfl

end Service

end EvmBridge
