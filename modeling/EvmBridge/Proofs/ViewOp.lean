import EvmBridge.Engine.Service

/-!
# The calls that can change a view

A `ViewOp` is one of the calls by which a view is written to, with its arguments, and `ViewOp.run`
says what it answers and what it leaves behind. Nothing new is defined here: each operation is the
one of `View`, and `Service.run_through` says that a request to the service does to a view what some
of these calls do.

What all operations have in common as far as revisions go is `ViewOp.run_cases`. An operation
either keeps the stack, or clears it, or puts one revision on it, or goes back to one.
-/

namespace EvmBridge

/-- A call that can change a view. -/
inductive ViewOp where
  | addBalance (a : Address) (amount : Nat)
  | subBalance (a : Address) (amount : Nat)
  | setBalance (a : Address) (amount : Nat)
  | setNonce (a : Address) (nonce : UInt64)
  | setCode (a : Address) (code : Bytes)
  | setStorage (a : Address) (key : Hash) (value : Option Hash)
  | accessSetup (sender : Address) (destination : Option Address) (coinbase : Address)
      (rules : ForkRules)
  | accessAccount (a : Address)
  | accessSlot (a : Address) (key : Hash)
  | finalize
  | intermediateRoot
  /-- Commits to a store, which may fail to take the state. -/
  | commit (fault : Option FileFault)
  | snapshot
  | revert (id : Int32)

/-- What such a call answers. -/
inductive ViewAnswer where
  | done
  /-- Whether what was accessed was accessed before. -/
  | warm (before : Bool)
  | root (root : Hash)
  /-- The number of the revision. -/
  | revision (id : Int32)
  /-- The revision cannot be numbered. -/
  | overflow
  | refused (e : EngineError)
  deriving DecidableEq

namespace ViewOp

/-- The answer and the view of a call that may be refused. A refused call changes nothing. -/
def settle (v : View) : Except EngineError View → ViewAnswer × View
  | .ok v' => (.done, v')
  | .error e => (.refused e, v)

/-- What a call answers, and the view after it. A commit finalizes the view even if its store
does not take the state. -/
def run : ViewOp → View → ViewAnswer × View
  | addBalance a amount, v => (.done, v.addBalance a amount)
  | subBalance a amount, v => settle v ((v.subBalance a amount).mapError .state)
  | setBalance a amount, v => (.done, v.setBalance a amount)
  | setNonce a nonce, v => (.done, v.setNonce a nonce)
  | setCode a code, v => (.done, v.setCode a code)
  | setStorage a key value, v => settle v ((v.setStorage a key value).mapError .state)
  | accessSetup sender destination coinbase rules, v =>
      (.done, v.accessSetup sender destination coinbase rules)
  | accessAccount a, v => (.warm (v.accessAccount a).1, (v.accessAccount a).2)
  | accessSlot a key, v => (.warm (v.accessSlot a key).1, (v.accessSlot a key).2)
  | finalize, v => (.done, v.finalize)
  | intermediateRoot, v => (.root v.finalize.accounts.root, v.finalize)
  | commit none, v => (.root v.finalize.accounts.root, v.finalize)
  | commit (some fault), v => (.refused (.io fault), v.finalize)
  | snapshot, v =>
      match v.snapshot with
      | some (id, v') => (.revision (Int32.ofNat id), v')
      | none => (.overflow, v)
  | revert id, v =>
      settle v (match v.revert id.toInt with
        | some v' => .ok v'
        | none => .error (.invalidRevision id))

/-- The calls that take all revisions away. -/
def Clears : ViewOp → Prop
  | finalize | intermediateRoot | commit _ => True
  | _ => False

/-- Whether a call asks for a snapshot. -/
def isSnapshot : ViewOp → Bool
  | snapshot => true
  | _ => false

/-- A call puts a revision on the stack. A snapshot does, as long as it can be numbered. -/
def Marks (op : ViewOp) (v : View) : Prop := op = .snapshot ∧ v.nextRevision < View.maxRevision

/-- A call takes the revision of this number away from a view: it clears, or it goes back, with
success, to that revision or to an earlier one. -/
def Discards (op : ViewOp) (v : View) (number : Nat) : Prop :=
  op.Clears ∨ ∃ id v', op = .revert id ∧ v.revert id.toInt = some v' ∧ id.toInt ≤ number

theorem run_revert_some {v v' : View} {id : Int32} (h : v.revert id.toInt = some v') :
    (revert id).run v = (.done, v') := by
  rw [run, h]; rfl

theorem run_revert_none {v : View} {id : Int32} (h : v.revert id.toInt = none) :
    (revert id).run v = (.refused (.invalidRevision id), v) := by
  rw [run, h]; rfl

theorem run_snapshot {v : View} (h : v.nextRevision < View.maxRevision) :
    snapshot.run v = (.revision (Int32.ofNat v.nextRevision), v.mark) := by
  rw [run, View.snapshot, if_pos h]

theorem run_snapshot_overflow {v : View} (h : ¬ v.nextRevision < View.maxRevision) :
    snapshot.run v = (.overflow, v) := by
  rw [run, View.snapshot, if_neg h]

/-! ## What a call does to the stack -/

/-- A call that writes to the state and the access list only leaves all revisions alone. -/
def Writes (op : ViewOp) (v : View) : Prop :=
  ¬ op.Marks v ∧ (∀ number, ¬ op.Discards v number) ∧
    ∃ accounts accessList, (op.run v).2 = { v with accounts, accessList }

theorem writes_of {op : ViewOp} {v : View} (hs : ¬ op.Marks v) (hc : ¬ op.Clears)
    (hr : ∀ id, op = .revert id → v.revert id.toInt = none)
    (h : ∃ accounts accessList, (op.run v).2 = { v with accounts, accessList }) :
    op.Writes v := by
  refine ⟨hs, ?_, h⟩
  rintro number (hd | ⟨id, v', rfl, hd, _⟩)
  · exact hc hd
  · rw [hr id rfl] at hd
    exact absurd hd (by simp)

/-- **What a call can do.** It writes to the state and the access list only, or it clears, or it
takes a snapshot, or it goes back to one. A snapshot that cannot be numbered writes nothing. -/
theorem run_cases (op : ViewOp) (v : View) :
    op.Writes v ∨
    (op.Clears ∧ ¬ op.Marks v ∧ (op.run v).2 = v.finalize) ∨
    (op.Marks v ∧ (op.run v).2 = v.mark) ∨
    ∃ id v', op = .revert id ∧ v.revert id.toInt = some v' ∧ (op.run v).2 = v' := by
  have hmarks : op ≠ .snapshot → ¬ op.Marks v := fun hne hm => hne hm.1
  cases op with
  | addBalance a amount =>
      exact Or.inl (writes_of (hmarks (by simp)) id (fun _ h => by cases h) ⟨_, _, rfl⟩)
  | subBalance a amount =>
      refine Or.inl (writes_of (hmarks (by simp)) id (fun _ h => by cases h) ?_)
      simp only [run, View.subBalance]
      split
      · exact ⟨_, _, rfl⟩
      · exact ⟨_, _, rfl⟩
  | setBalance a amount =>
      exact Or.inl (writes_of (hmarks (by simp)) id (fun _ h => by cases h) ⟨_, _, rfl⟩)
  | setNonce a nonce =>
      exact Or.inl (writes_of (hmarks (by simp)) id (fun _ h => by cases h) ⟨_, _, rfl⟩)
  | setCode a code =>
      exact Or.inl (writes_of (hmarks (by simp)) id (fun _ h => by cases h) ⟨_, _, rfl⟩)
  | setStorage a key value =>
      refine Or.inl (writes_of (hmarks (by simp)) id (fun _ h => by cases h) ?_)
      simp only [run, View.setStorage]
      split
      · exact ⟨_, _, rfl⟩
      · exact ⟨_, _, rfl⟩
  | accessSetup sender destination coinbase rules =>
      exact Or.inl (writes_of (hmarks (by simp)) id (fun _ h => by cases h) ⟨_, _, rfl⟩)
  | accessAccount a =>
      exact Or.inl (writes_of (hmarks (by simp)) id (fun _ h => by cases h) ⟨_, _, rfl⟩)
  | accessSlot a key =>
      exact Or.inl (writes_of (hmarks (by simp)) id (fun _ h => by cases h) ⟨_, _, rfl⟩)
  | finalize => exact Or.inr (Or.inl ⟨trivial, hmarks (by simp), rfl⟩)
  | intermediateRoot => exact Or.inr (Or.inl ⟨trivial, hmarks (by simp), rfl⟩)
  | commit fault => cases fault <;> exact Or.inr (Or.inl ⟨trivial, hmarks (by simp), rfl⟩)
  | snapshot =>
      by_cases hfits : v.nextRevision < View.maxRevision
      · exact Or.inr (Or.inr (Or.inl ⟨⟨rfl, hfits⟩, by rw [run_snapshot hfits]⟩))
      · exact Or.inl (writes_of (fun hm => hfits hm.2) id (fun _ h => by cases h)
          ⟨v.accounts, v.accessList, by rw [run_snapshot_overflow hfits]⟩)
  | revert n =>
      cases hr : v.revert n.toInt with
      | none =>
          refine Or.inl (writes_of (hmarks (by simp)) id ?_
            ⟨v.accounts, v.accessList, by rw [run_revert_none hr]⟩)
          intro n' hn
          cases hn
          exact hr
      | some v' => exact Or.inr (Or.inr (Or.inr ⟨n, v', rfl, hr, by rw [run_revert_some hr]⟩))

end ViewOp

end EvmBridge
