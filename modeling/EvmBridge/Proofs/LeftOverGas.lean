import EvmBridge.Engine.EntryPoint
import EvmBridge.Proofs.ExecutorSteps

/-!
# The gas that is left over

An invocation pays its cost before it runs. What is left in the end is at most what remained then,
whichever way the invocation ended: a failure leaves nothing, and a success that the host answers is
cut down to what remained. A revert that the host answers is not cut down, so it can leave more gas
than was ever given (`Executor.apply_leftOver_exceeds`). `Executor.apply_leftOver` says that nothing
else can.
-/

namespace EvmBridge.Executor

variable {x : Executor} {w : World} {inv : Invocation} {value : Nat} {remaining : UInt64}

/-- The gas that remains when the cost is paid; none if there is not even that much. -/
def spare (inv : Invocation) : Nat := (fueled inv).gas.toNat - cost (fueled inv)

/-- The host was asked to execute a call with this much gas, and the result is its answer: a revert,
with the gas that the host says is left. -/
def RevertedByHost (x : Executor) (inv : Invocation) (remaining : UInt64) (r : InvocationResult) :
    Prop :=
  ∃ callee h w₁ w₂ a, inv.callee = some callee ∧
    x.context.externalContracts.contains callee ∧ x.context.externalCallback = some h ∧
    Outgoing.query x.upcall InvocationResult.codec h
      (ExternalInvocation.codec.encode
        ({ inv with gas := remaining }.atDepth (x.context.initialDepth + 1))) w₁ = (.ok a, w₂) ∧
    a.reverted = true ∧ r = .revert a.returnData a.leftOverGas

/-- What remained is not exceeded, unless by a revert that the host answered. -/
def Within (x : Executor) (inv : Invocation) (remaining : UInt64) (r : InvocationResult) : Prop :=
  r.leftOverGas.toNat ≤ remaining.toNat ∨ x.RevertedByHost inv remaining r

theorem within_failure (reason : String) : x.Within inv remaining (.failure reason) :=
  Or.inl (Nat.zero_le _)

theorem within_remaining {r : InvocationResult} (h : r.leftOverGas = remaining) :
    x.Within inv remaining r :=
  Or.inl (Nat.le_of_eq (congrArg UInt64.toNat h))

theorem toNat_min_le (a b : UInt64) : (min a b).toNat ≤ b.toNat := by
  show (if a ≤ b then a else b).toNat ≤ b.toNat
  by_cases h : a ≤ b
  · rw [if_pos h]
    exact UInt64.le_iff_toNat_le.mp h
  · exact Nat.le_of_eq (congrArg UInt64.toNat (if_neg h))

/-- Whatever the host answers, only a revert keeps the gas that the answer names. -/
theorem outcome_within (remaining : UInt64) (answer : Except EngineError InvocationResult) :
    (outcome remaining answer).leftOverGas.toNat ≤ remaining.toNat ∨
      ∃ a, answer = .ok a ∧ a.reverted = true ∧
        outcome remaining answer = .revert a.returnData a.leftOverGas := by
  rcases answer with e | a
  · exact Or.inl (Nat.zero_le _)
  · unfold outcome
    by_cases hr : a.reverted = true
    · refine Or.inr ⟨a, rfl, hr, ?_⟩
      simp only [hr, if_true]
    · left
      simp only [hr, Bool.false_eq_true, if_false]
      split
      · exact Nat.zero_le _
      · exact toNat_min_le _ _

/-! ## From the answer to the apply -/

theorem external_within {callee : Address} (hcallee : inv.callee = some callee)
    (hexternal : x.context.externalContracts.contains callee) :
    Ends (x.external inv callee remaining w) (fun r _ => x.Within inv remaining r)
      fun _ _ => True := by
  unfold external
  cases hh : x.context.externalCallback with
  | none => exact within_remaining rfl
  | some h =>
      simp only [Act.ends_bind, ends_nextDepth, ends_trace, ends_query, Act.ends_pure]
      split
      · rw [← hcallee]
        generalize hq : Outgoing.query x.upcall InvocationResult.codec h _ _ = o
        rcases o with ⟨answer, w'⟩
        rcases outcome_within remaining answer with hle | ⟨a, rfl, hr, hout⟩
        · exact Or.inl hle
        · exact Or.inr ⟨callee, h, _, w', a, hcallee, hexternal, hh, hq, hr, hout⟩
      · trivial

theorem answer_within {callee : Address} (hcallee : inv.callee = some callee) :
    Ends (x.answer inv callee remaining w) (fun r _ => x.Within inv remaining r)
      fun _ _ => True := by
  unfold answer
  split
  · exact external_within hcallee ‹_›
  · split
    · refine Act.ends_bind.mpr (.of_forall (fun hash w' => ?_) fun _ _ => trivial)
      exact within_remaining rfl
    · exact within_remaining rfl

theorem body_within :
    Ends (x.body inv value remaining w) (fun r _ => x.Within inv remaining r)
      fun _ _ => True := by
  unfold body
  cases hcallee : inv.callee with
  | none =>
      refine ends_create rfl (within_failure _) (fun _ _ _ => trivial)
        (fun reason _ => within_failure reason) ?_
      intro v' _ _ _ _
      exact within_remaining rfl
  | some callee =>
      refine ends_call rfl (fun _ => trivial) (fun reason _ => within_failure reason) ?_
      intro v' _ _
      exact answer_within hcallee

theorem cost_le (inv : Invocation) : cost inv ≤ intrinsicGas + createGas := by
  unfold cost
  split
  · exact Nat.le_refl _
  · exact Nat.le_add_right _ _

/-- The cost is taken off without wrapping around. -/
theorem toNat_sub_cost (h : cost inv ≤ inv.gas.toNat) :
    (inv.gas - UInt64.ofNat (cost inv)).toNat = inv.gas.toNat - cost inv := by
  have hle : cost inv ≤ 53000 := cost_le inv
  have hcost : (UInt64.ofNat (cost inv)).toNat = cost inv :=
    UInt64.toNat_ofNat_of_lt' (Nat.lt_of_le_of_lt hle (by decide))
  rw [UInt64.toNat_sub_of_le, hcost]
  rw [UInt64.le_iff_toNat_le, hcost]
  exact h

theorem run_within :
    Ends (x.run inv w)
      (fun r _ => r.leftOverGas.toNat ≤ inv.gas.toNat - cost inv ∨
        x.RevertedByHost inv (inv.gas - UInt64.ofNat (cost inv)) r)
      fun _ _ => True := by
  refine ends_run rfl (fun _ => Or.inl (Nat.zero_le _))
    (fun _ _ => Or.inl (Nat.zero_le _)) (fun _ => trivial) fun hcost _ _ => ?_
  refine body_within.imp ?_ fun f w' _ => ?_
  · intro r w' hr
    rw [Within, toNat_sub_cost hcost] at hr
    -- what is undone afterwards does not touch the result
    split
    · exact hr
    · exact Ends.of_forall (fun _ _ => hr) fun _ _ => trivial
  · cases f with
    | error e => exact Ends.of_forall (fun _ _ => trivial) fun _ _ => trivial
    | overflow => trivial

/-- **Gas does not grow, but for a revert of the host.** Take any view, any invocation and any
context, and let the host do anything at all. What an apply leaves over is at most what was given
less the cost, and nothing if less than the cost was given. There is one exception: the host was
asked to execute the call with exactly the gas that remained, it answered a revert, and the result
names the gas that this answer names. -/
theorem apply_leftOver (inv : Invocation) {r : InvocationResult} {w' : World}
    (h : x.apply inv w = (.ok r, w')) :
    r.leftOverGas.toNat ≤ spare inv ∨
      x.RevertedByHost (fueled inv) ((fueled inv).gas - UInt64.ofNat (cost (fueled inv))) r := by
  have hends : Ends (x.apply inv w)
      (fun r _ => r.leftOverGas.toNat ≤ (fueled inv).gas.toNat - cost (fueled inv) ∨
        x.RevertedByHost (fueled inv) ((fueled inv).gas - UInt64.ofNat (cost (fueled inv))) r)
      fun _ _ => True :=
    ends_apply (run_within.imp (fun _ _ hr => hr) fun _ _ h => h)
  exact hends.ok h

/-- An executor that leaves all calls to a host, which always answers the same. -/
def leftTo (answer : InvocationResult) : Executor where
  upcall := fun _ _ w => EntryPoint.answer (InvocationResult.codec.encode answer) w
  view := 0
  tracer := none
  context := { externalContracts := [.zero], externalCallback := some 1 }

/-- A success is cut down: of the five that remained, at most five are left over. -/
theorem apply_leftOver_cut :
    let x := leftTo (.success [] 0xffffffffffffffff)
    let inv : Invocation := { caller := .zero, callee := some .zero, gas := 21005 }
    let w : World := { engine := { views := { objects := [default] } }, connected := true }
    ∃ r w', x.apply inv w = (.ok r, w') ∧ r.isSuccess ∧ r.leftOverGas.toNat ≤ 5 := by
  intro x inv w
  have hsucceeds : (x.apply inv w).1.toOption.any (·.isSuccess) = true := by decide +kernel
  rcases hx : x.apply inv w with ⟨_ | r, w'⟩
  · rw [hx] at hsucceeds
    exact absurd hsucceeds (by simp [Except.toOption])
  rw [hx] at hsucceeds
  have hs : r.isSuccess = true := hsucceeds
  have hspare : spare inv = 5 := by decide
  refine ⟨r, w', rfl, hs, ?_⟩
  rcases apply_leftOver inv hx with hle | ⟨_, _, _, _, a, _, _, _, _, _, rfl⟩
  · rwa [hspare] at hle
  · -- a revert is no success
    exact absurd hs (by simp [InvocationResult.revert, InvocationResult.isSuccess])

/-- A revert is not: nothing remained, and all the gas there can be is left over. -/
theorem apply_leftOver_exceeds :
    let x := leftTo (.revert [] 0xffffffffffffffff)
    let inv : Invocation := { caller := .zero, callee := some .zero, gas := 21000 }
    let w : World := { engine := { views := { objects := [default] } }, connected := true }
    spare inv = 0 ∧
      (x.apply inv w).1.toOption = some (.revert [] 0xffffffffffffffff) := by
  intro x inv w
  refine ⟨by decide, ?_⟩
  decide +kernel

end EvmBridge.Executor
