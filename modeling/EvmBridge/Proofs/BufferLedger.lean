import EvmBridge.Proofs.SortedMap
import EvmBridge.Proofs.WorldSteps

/-!
# Every buffer is released once

A buffer changes hands in both directions: the module creates one for an answer and the host
releases it, a callback has one created for its answer and the module releases it. Whatever goes
wrong in between, and however calls and callbacks nest, a call through the gateway leaves the
buffers as it found them (`Gateway.invoke_balanced`).

The argument is not about calls at all. Of the steps the world is made of, only `passed` creates
or releases anything, and it does both (`Buffers.balanced_passed`).
-/

namespace EvmBridge

namespace Buffers

variable {b b₁ b₂ : Buffers} {id : BufferId}

/-- No live buffer has a name that is still to be given out. -/
def Sound (b : Buffers) : Prop := ∀ id, b.live.contains id → id < b.next

/-- Buffers that were made, one operation after the other, from none at all. -/
inductive Reached : Buffers → Prop where
  | init : Reached {}
  | create {b : Buffers} (size : Int) (h : Reached b) : Reached (b.create size).2
  | write {b : Buffers} (id : BufferId) (bytes : Bytes) (h : Reached b) :
      Reached (b.write id bytes)
  | free {b : Buffers} (id? : Option BufferId) (h : Reached b) : Reached (b.free id?)
  /-- The next creations are made to fail. -/
  | starve {b : Buffers} (times : Nat) (h : Reached b) : Reached { b with failNext := times }

theorem Reached.sound (h : b.Reached) : b.Sound := by
  induction h with
  | init => exact fun id h => absurd h (by simp [OrdMap.contains])
  | @create b size _ ih =>
      unfold Buffers.create
      split
      · exact ih
      · split
        · exact ih
        · intro id hid
          rcases (OrdMap.contains_insert _ _ _ _).mp hid with rfl | hold
          · exact Nat.lt_succ_self _
          · exact Nat.lt_succ_of_lt (ih id hold)
  | @write b k bytes _ ih =>
      unfold Buffers.write
      split
      · exact ih
      · rename_i buffer hk
        intro id hid
        rcases (OrdMap.contains_insert _ _ _ _).mp hid with rfl | hold
        · exact ih _ (Option.isSome_iff_exists.mpr ⟨buffer, hk⟩)
        · exact ih id hold
  | @free b id? _ ih =>
      unfold Buffers.free
      split
      · exact ih
      · split
        · intro id hid
          unfold OrdMap.contains at hid
          rw [OrdMap.get?_erase] at hid
          split at hid
          · exact absurd hid (by simp)
          · exact ih id hid
        · exact ih
  | starve times _ ih => exact ih

/-- Between two moments as many buffers were created as released, and nothing else was released. -/
structure Balanced (b b' : Buffers) : Prop where
  /-- The same buffers are live, and hold the same. -/
  live : b'.live = b.live
  /-- Each new buffer had a name of its own, and there were as many releases. -/
  released : ∃ n, b'.ledger.allocated = b.ledger.allocated + n ∧
    b'.ledger.freed = b.ledger.freed + n ∧ b'.next = b.next + n
  /-- Only live buffers were released. -/
  invalidFrees : b'.ledger.invalidFrees = b.ledger.invalidFrees

theorem Balanced.refl (b : Buffers) : b.Balanced b := ⟨rfl, ⟨0, rfl, rfl, rfl⟩, rfl⟩

theorem Balanced.trans (h : b.Balanced b₁) (h' : b₁.Balanced b₂) : b.Balanced b₂ := by
  obtain ⟨n, ha, hf, hn⟩ := h.released
  obtain ⟨n', ha', hf', hn'⟩ := h'.released
  refine ⟨h'.live.trans h.live, ⟨n + n', ?_, ?_, ?_⟩, h'.invalidFrees.trans h.invalidFrees⟩
  · rw [ha', ha, Nat.add_assoc]
  · rw [hf', hf, Nat.add_assoc]
  · rw [hn', hn, Nat.add_assoc]

theorem Balanced.sound (h : b.Balanced b₁) (hb : b.Sound) : b₁.Sound := by
  intro id hid
  obtain ⟨n, _, _, hn⟩ := h.released
  rw [h.live] at hid
  rw [hn]
  exact Nat.lt_of_lt_of_le (hb id hid) (Nat.le_add_right _ _)

theorem Sound.get?_next (hb : b.Sound) : b.live.get? b.next = none := by
  refine Classical.byContradiction fun hne => ?_
  exact Nat.lt_irrefl _ (hb b.next (Option.isSome_iff_ne_none.mpr hne))

/-- There is a buffer for what fits into one, unless creations are made to fail. -/
theorem isSome_put {bytes : Bytes} (hfail : b.failNext = 0) (hsize : bytes.length < maxSize) :
    (b.put bytes).1.isSome := by
  have hfits : ¬ maxSize < bytes.length + 1 := by omega
  have hpositive : ¬ ((bytes.length : Int) + 1 ≤ 0) := by omega
  simp only [put, if_neg hfits, create, hfail, ne_eq, not_true_eq_false, if_false, if_neg hpositive,
    Option.isSome_some]

theorem put_none {bytes : Bytes} (h : b.put bytes = (none, b₁)) : b.Balanced b₁ := by
  unfold put create at h
  split at h
  · cases h
    exact .refl b
  · split at h
    · exact absurd h (by simp)
    · rename_i hc
      cases h
      split at hc
      · cases hc
        exact ⟨rfl, ⟨0, rfl, rfl, rfl⟩, rfl⟩
      · split at hc
        · cases hc
          exact ⟨rfl, ⟨0, rfl, rfl, rfl⟩, rfl⟩
        · exact absurd hc (by simp)

/-- What becomes of the buffers when one of them is created and filled. -/
theorem put_some {bytes : Bytes} (h : b.put bytes = (some id, b₁)) :
    id = b.next ∧ b₁ = { b with
      live := b.live.insert b.next { size := bytes.length + 1, written := bytes }
      next := b.next + 1
      ledger := { b.ledger with allocated := b.ledger.allocated + 1 } } := by
  unfold put create at h
  split at h
  · exact absurd h (by simp)
  · split at h
    · rename_i hc
      split at hc
      · exact absurd hc (by simp)
      · split at hc
        · exact absurd hc (by simp)
        · simp only [Prod.mk.injEq, Option.some.injEq] at hc h
          obtain ⟨rfl, rfl⟩ := hc
          obtain ⟨rfl, rfl⟩ := h
          refine ⟨rfl, ?_⟩
          simp only [write, OrdMap.get?_insert, if_true, mk.injEq, and_true]
          refine OrdMap.ext_get? fun k => ?_
          simp only [OrdMap.get?_insert]
          split <;> rfl
    · exact absurd h (by simp)

/-- What is read from a new buffer is what was put there, up to the first zero byte. -/
theorem take_put {bytes : Bytes} (h : b.put bytes = (some id, b₁)) :
    (b₁.take id).1 = Bytes.untilNul bytes := by
  obtain ⟨rfl, rfl⟩ := put_some h
  simp only [take, get?, OrdMap.get?_insert, if_true, Option.map_some, Option.getD_some,
    Buffer.text]

/-- **A text passes through a buffer and leaves no trace.** The buffer is created under a new name,
so its release is a release of a live buffer, and no other buffer is released with it. -/
theorem balanced_put_take {bytes : Bytes} (hb : b.Sound) (h : b.put bytes = (some id, b₁)) :
    b.Balanced (b₁.take id).2 := by
  obtain ⟨rfl, rfl⟩ := put_some h
  have hlive : (b.live.insert b.next { size := bytes.length + 1, written := bytes }).contains
      b.next := by
    simp [OrdMap.contains, OrdMap.get?_insert]
  simp only [take, free, hlive, if_true]
  refine ⟨OrdMap.ext_get? fun k => ?_, ⟨1, rfl, rfl, rfl⟩, rfl⟩
  rw [OrdMap.get?_erase, OrdMap.get?_insert]
  split
  · rename_i hk
    rw [hk, hb.get?_next]
  · rfl

end Buffers

namespace World

open Buffers

theorem Step.balanced {w w' : World} (h : w.Step w') (hw : w.buffers.Sound) :
    w.buffers.Balanced w'.buffers := by
  cases h with
  | elsewhere _ _ buffers => rw [buffers]; exact .refl _
  | passed text =>
      -- no buffer was to be had, or it is taken at once
      rcases hp : w.buffers.put (Utf8.encode text) with ⟨_ | id, b⟩
      · rw [EntryPoint.answer, hp]
        exact put_none hp
      · rw [EntryPoint.answer, hp]
        exact balanced_put_take hw hp
  | starved times => exact ⟨rfl, ⟨0, rfl, rfl, rfl⟩, rfl⟩
  | storeOpened | storeClosed | viewOpened | viewClosed | edited | committed => exact .refl _

theorem Leads.balanced {w w' : World} (h : Leads w w') (hw : w.buffers.Sound) :
    w.buffers.Balanced w'.buffers := by
  induction h with
  | refl => exact .refl _
  | tail _ hs ih => exact ih.trans (hs.balanced (ih.sound hw))

end World

namespace Gateway

/-- **Every buffer is released once.** Take any callbacks, registered in any way, which answer or
not, break off, make creations of buffers fail, and call the module and the gateway in turn, to any
depth; and let creations fail from the start on or not. When a call through the gateway returns,
the live buffers are those from before the call, as many were created as released, and nothing
else was released. -/
theorem invoke_balanced {ρ : Type} (depth : Nat) (c : Codec ρ) (method : String)
    (args : Option Json) {w : World} (hw : w.buffers.Reached) :
    w.buffers.Balanced
      (invoke (EntryPoint.invoke (Proxy.nested depth)) c method args w).2.buffers :=
  (invoke_leads (Proxy.leads_nested depth) c method args (.refl w)).balanced hw.sound

/-- A callback that calls the module through the gateway, makes the next creation of a buffer fail
if that was refused, and answers. -/
def nestedCaller : Callback where
  label := 0
  action := .plain fun args => .request "Nowhere" none fun outcome =>
    match outcome with
    | .error _ => .starve 1 (.answer (some args))
    | .ok _ => .crash "unexpected"

theorem invoke_balanced_nested :
    let w : World :=
      { buffers := ((({} : Buffers).put [1, 2, 3]).2)
        connected := true, registry := ⟨.ofList [(1, 0)]⟩, callbacks := [nestedCaller] }
    let args : Json := .obj [("handle", .nat 1), ("args", .str "x"), ("expectResult", .bool true)]
    let call := EntryPoint.invoke (Proxy.nested 2)
    let w' := (invoke call Codec.any "CallbackInvoke" (some args) w).2
    w.buffers.Reached ∧ w.buffers.Balanced w'.buffers ∧ w'.buffers.ledger.allocated = 3 ∧
      w'.buffers.ledger.failed = 1 := by
  intro w args call w'
  have hw : w.buffers.Reached := .write 0 [1, 2, 3] (.create 4 .init)
  have hledger : w'.buffers.ledger = { allocated := 3, freed := 2, failed := 1 } := by
    decide +kernel
  refine ⟨hw, invoke_balanced 2 .any "CallbackInvoke" (some args) hw, ?_, ?_⟩ <;> rw [hledger]

end Gateway

end EvmBridge
