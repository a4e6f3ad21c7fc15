import EvmBridge.Proofs.Revisions

/-!
# What a view goes through while the host is called

A callback may call the module back: it may make any calls on the view that is being worked on, and
start applies on it, whose callbacks may do the same. `Calls` relates a view before to a view after
such activity, and lists the calls that were made with the view that each of them met.

An apply takes part in it by what it does to the view itself. It takes a snapshot and changes the
accounts; then come the calls of its own callbacks; in the end it leaves all as it is, or goes back
to its snapshot. `Executor.apply_calls` shows that an apply does nothing else.

A snapshot that was taken before the activity either still sits on the stack, with the same
revisions below it, or its number is gone for good (`Guards`). It sits there unless one of the
calls has discarded it.
-/

namespace EvmBridge.View

/-- From one view to another by calls, each of which is listed with the view it met. -/
inductive Calls : View → List (ViewOp × View) → View → Prop where
  | none (v : View) : Calls v [] v
  | call (op : ViewOp) (v : View) : Calls v [(op, v)] (op.run v).2
  /-- An apply, during which calls are made. -/
  | apply {v u v' : View} {calls : List (ViewOp × View)} (accounts : Accounts)
      (during : Calls { v.mark with accounts } calls u)
      (last : v' = u ∨ u.revert v.nextRevision = some v') : Calls v calls v'
  | trans {v u v' : View} {calls calls' : List (ViewOp × View)} (first : Calls v calls u)
      (then' : Calls u calls' v') : Calls v (calls ++ calls') v'

/-- A view that calls on a freshly opened one have led to. -/
def Reached (v : View) : Prop :=
  ∃ store accounts calls, Calls { store, accounts } calls v

/-! ## What is kept -/

/-- What the activity keeps, if each call is an allowed one. -/
structure Stable (allowed : ViewOp → View → Prop) (K : View → Prop) : Prop where
  /-- It is not about the accounts. -/
  moved : ∀ {v : View} (accounts : Accounts), K v → K { v with accounts }
  /-- An allowed call keeps it. -/
  called : ∀ {v : View} {op : ViewOp}, allowed op v → K v → K (op.run v).2
  /-- A snapshot keeps it. -/
  marked : ∀ {v : View}, K v → K v.mark
  /-- Going back to a snapshot that was taken while it held keeps it. -/
  undone : ∀ {v u v' : View}, K v → K u → u.revert v.nextRevision = some v' → K v'

/-- **Preserved by all activity.** -/
theorem Calls.keeps {allowed : ViewOp → View → Prop} {K : View → Prop} (hK : Stable allowed K)
    {v v' : View} {calls : List (ViewOp × View)} (h : Calls v calls v')
    (hallowed : ∀ c ∈ calls, allowed c.1 c.2) (hv : K v) : K v' := by
  induction h with
  | none => exact hv
  | call op v => exact hK.called (hallowed _ List.mem_cons_self) hv
  | apply accounts _ last ih =>
      have hu := ih hallowed (hK.moved accounts (hK.marked hv))
      rcases last with rfl | hr
      · exact hu
      · exact hK.undone hv hu hr
  | trans _ _ ih ih' =>
      refine ih' (fun c hc => hallowed c (List.mem_append_right _ hc)) (ih (fun c hc => ?_) hv)
      exact hallowed c (List.mem_append_left _ hc)

/-- The numbers stay in order whatever is called. -/
theorem stable_ordered : Stable (fun _ _ => True) Ordered where
  moved _ h := ⟨h.decreasing, h.below⟩
  called {_ op} _ h := h.run op
  marked h := h.mark
  undone _ h hr := h.revert hr

theorem Reached.ordered {v : View} (h : v.Reached) : v.Ordered := by
  obtain ⟨store, accounts, calls, hc⟩ := h
  exact hc.keeps stable_ordered (fun _ _ => trivial) (ordered_of_nil rfl)

/-! ## A snapshot during the activity -/

/-- No revision has this number. -/
def Gone (v : View) (number : Nat) : Prop := ∀ q ∈ v.revisions, q.id ≠ number

/-- A revision was put on the stack. It sits there, or else it was lost and its number is gone. -/
structure Guards (r : Revision) (older : List Revision) (lost : Prop) (v : View) : Prop where
  /-- The numbers decrease below the next one. -/
  ordered : v.Ordered
  /-- The number is not given out again. -/
  below : r.id < v.nextRevision
  /-- It sits there, or is lost. -/
  sits : v.Sits r older ∨ lost ∧ v.Gone r.id

theorem guards_mark {v : View} (h : v.Ordered) (lost : Prop) :
    Guards ⟨v.nextRevision, v.accounts, v.accessList⟩ v.revisions lost v.mark :=
  ⟨h.mark, Nat.lt_succ_self _, Or.inl ⟨[], rfl⟩⟩

/-- Going back to a number takes a revision away if its own is not lower, and leaves it where it is
otherwise. -/
theorem Sits.revert {v v' : View} {r : Revision} {older : List Revision} {id : Int}
    (hord : v.Ordered) (h : v.Sits r older) (hr : v.revert id = some v') :
    (id ≤ r.id ∧ v'.Gone r.id) ∨ ((r.id : Int) < id ∧ v'.Sits r older) := by
  rcases Int.lt_or_le r.id id with hlt | hge
  · right
    refine ⟨hlt, ?_⟩
    obtain ⟨newer, hnew⟩ := h
    obtain ⟨newer', q, older', heq, hq, _, rfl⟩ := revert_some hr
    have hdec := hord.decreasing
    rw [hnew, List.pairwise_append] at hdec
    have holder : ∀ p ∈ older, p.id < r.id := fun p hp => List.rel_of_pairwise_cons hdec.2.1 hp
    -- the revision that is gone back to lies above
    rw [hnew] at heq
    rcases List.append_eq_append_iff.mp heq with ⟨between, _, hb⟩ | ⟨between, _, hb⟩
    · cases between with
      | nil =>
          simp only [List.nil_append, List.cons.injEq] at hb
          rw [← hb.1] at hq
          omega
      | cons p between =>
          simp only [List.cons_append, List.cons.injEq] at hb
          have := holder q (by rw [hb.2]; simp)
          omega
    · cases between with
      | nil =>
          simp only [List.nil_append, List.cons.injEq] at hb
          rw [hb.1] at hq
          omega
      | cons p between =>
          simp only [List.cons_append, List.cons.injEq] at hb
          exact ⟨between, hb.2⟩
  · left
    refine ⟨hge, fun q hq => ?_⟩
    have := ((hord.mem_revert hr q).mp hq).2
    omega

theorem Gone.revert {v v' : View} {number : Nat} {id : Int} (hord : v.Ordered)
    (h : v.Gone number) (hr : v.revert id = some v') : v'.Gone number :=
  fun q hq => h q ((hord.mem_revert hr q).mp hq).1

theorem Guards.moved {r : Revision} {older : List Revision} {lost : Prop} {v : View}
    (h : Guards r older lost v) (accounts : Accounts) (accessList : AccessList) :
    Guards r older lost { v with accounts, accessList } :=
  ⟨⟨h.ordered.decreasing, h.ordered.below⟩, h.below, h.sits⟩

theorem Guards.marked {r : Revision} {older : List Revision} {lost : Prop} {v : View}
    (h : Guards r older lost v) : Guards r older lost v.mark := by
  refine ⟨h.ordered.mark, Nat.lt_succ_of_lt h.below, ?_⟩
  rcases h.sits with ⟨newer, hnew⟩ | ⟨hlost, hgone⟩
  · exact Or.inl ⟨⟨v.nextRevision, v.accounts, v.accessList⟩ :: newer, by simp [mark, hnew]⟩
  · refine Or.inr ⟨hlost, fun q hq => ?_⟩
    rcases List.mem_cons.mp hq with rfl | hq
    · exact Nat.ne_of_gt h.below
    · exact hgone q hq

theorem Guards.revert {r : Revision} {older : List Revision} {lost : Prop} {v v' : View} {id : Int}
    (h : Guards r older lost v) (hlost : lost ∨ (r.id : Int) < id)
    (hr : v.revert id = some v') : Guards r older lost v' := by
  refine ⟨h.ordered.revert hr, ?_, ?_⟩
  · obtain ⟨_, _, _, _, _, _, rfl⟩ := revert_some hr
    exact h.below
  · rcases h.sits with hs | ⟨hl, hgone⟩
    · rcases hs.revert h.ordered hr with ⟨hle, hgone⟩ | ⟨_, hs⟩
      · exact Or.inr ⟨hlost.resolve_right (by omega), hgone⟩
      · exact Or.inl hs
    · exact Or.inr ⟨hl, hgone.revert h.ordered hr⟩

/-- **A snapshot is lost only to a call that discards it.** -/
theorem stable_guards (r : Revision) (older : List Revision) (lost : Prop) :
    Stable (fun op v => lost ∨ ¬ op.Discards v r.id) (Guards r older lost) where
  moved {v} accounts h := h.moved accounts v.accessList
  called {v op} ha h := by
    rcases op.run_cases v with ⟨_, _, accounts, accessList, he⟩ | ⟨hc, _, he⟩ | ⟨_, he⟩ |
      ⟨id, v', rfl, hr, he⟩
    · rw [he]; exact h.moved accounts accessList
    · rw [he]
      have hlost : lost := ha.resolve_right fun hd => hd (Or.inl hc)
      exact ⟨ordered_of_nil rfl, h.below, Or.inr ⟨hlost, by simp [Gone, finalize]⟩⟩
    · rw [he]; exact h.marked
    · rw [he]
      refine h.revert (ha.imp_right fun hd => ?_) hr
      exact Int.lt_of_not_ge fun hle => hd (Or.inr ⟨id, v', rfl, hr, hle⟩)
  marked h := h.marked
  undone hv hu hr := hu.revert (Or.inr (by exact_mod_cast hv.below)) hr

theorem Gone.revert_id {v : View} {number : Nat} (h : v.Gone number) : v.revert number = none := by
  cases hr : v.revert number with
  | none => rfl
  | some v' =>
      obtain ⟨q, hq, hid⟩ := revert_isSome_iff.mp ⟨v', hr⟩
      exact absurd (by exact_mod_cast hid) (h q hq)

end EvmBridge.View
