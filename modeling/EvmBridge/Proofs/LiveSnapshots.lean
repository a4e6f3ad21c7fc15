import EvmBridge.Proofs.Revisions
import EvmBridge.Proofs.Since
import Mathlib.Algebra.Ring.Nat
import Mathlib.Data.List.Induction

/-!
# Revisions refine a pure stack

Whoever calls a view sees no list of revisions, only numbers that were answered and the calls since
then. This module says what the numbers are worth in these terms. A snapshot is `Live` if no call
since it has cleared the view or has gone back, with success, to that snapshot or to an earlier
one. `revert_iff_live` says that after any calls on a freshly opened view exactly the live snapshots
can be gone back to, and what that restores.

The invariant is `Stacked`: the revisions are the snapshots that still stand, each with the state
and the access list of its own moment.
-/

namespace EvmBridge.View

/-! ## Histories -/

/-- The view after some calls. -/
def after (v : View) (ops : List ViewOp) : View := ops.foldl (fun v op => (op.run v).2) v

/-- The view just before the `k`-th call. -/
def moment (v : View) (ops : List ViewOp) (k : Nat) : View := v.after (ops.take k)

/-- The answer to the `k`-th call. -/
def answer? (v : View) (ops : List ViewOp) (k : Nat) : Option ViewAnswer :=
  ops[k]?.map fun op => (op.run (v.moment ops k)).1

/-- The `k`-th call takes a snapshot and is answered with this number. -/
def Issued (v : View) (ops : List ViewOp) (k : Nat) (id : Int32) : Prop :=
  ops[k]? = some .snapshot ∧ v.answer? ops k = some (.revision id)

/-- The `j`-th call takes away the snapshot of the `k`-th: it clears the view, or it goes back,
with success, to that snapshot or to an earlier one. -/
def TakesAway (v : View) (ops : List ViewOp) (k j : Nat) : Prop :=
  (∃ op, ops[j]? = some op ∧ op.Clears) ∨
  ∃ k' id, k' ≤ k ∧ v.Issued ops k' id ∧ ops[j]? = some (.revert id) ∧
    v.answer? ops j = some .done

/-- The snapshot of the `k`-th call has this number, and no later call takes it away. -/
def Live (v : View) (ops : List ViewOp) (k : Nat) (id : Int32) : Prop :=
  v.Issued ops k id ∧ ∀ j, k < j → ¬ v.TakesAway ops k j

theorem after_append (v : View) (ops : List ViewOp) (op : ViewOp) :
    v.after (ops ++ [op]) = (op.run (v.after ops)).2 := by
  simp [after]

theorem moment_length (v : View) (ops : List ViewOp) : v.moment ops ops.length = v.after ops := by
  rw [moment, List.take_length]

theorem moment_append {v : View} {ops : List ViewOp} {op : ViewOp} {k : Nat}
    (hk : k ≤ ops.length) : v.moment (ops ++ [op]) k = v.moment ops k := by
  rw [moment, moment, List.take_append_of_le_length hk]

theorem moment_succ {v : View} {ops : List ViewOp} {op : ViewOp} {k : Nat}
    (hop : ops[k]? = some op) : v.moment ops (k + 1) = (op.run (v.moment ops k)).2 := by
  rw [moment, List.take_add_one, hop]
  exact after_append v (ops.take k) op

/-! ## The number of the next snapshot -/

/-- A revision takes its number from the counter. Nothing else does. -/
theorem run_nextRevision (op : ViewOp) (v : View) :
    op.Marks v ∧ (op.run v).2.nextRevision = v.nextRevision + 1 ∨
      ¬ op.Marks v ∧ (op.run v).2.nextRevision = v.nextRevision := by
  rcases op.run_cases v with ⟨hm, _, accounts, accessList, he⟩ | ⟨_, hm, he⟩ | ⟨hm, he⟩ |
    ⟨id, v', rfl, hr, he⟩
  · exact Or.inr ⟨hm, by rw [he]⟩
  · exact Or.inr ⟨hm, by rw [he]; rfl⟩
  · exact Or.inl ⟨hm, by rw [he]; rfl⟩
  · obtain ⟨_, r, older, _, _, _, rfl⟩ := revert_some hr
    exact Or.inr ⟨fun hm => absurd hm.1 (by simp), by rw [he]⟩

/-- The counter does not get past its end. -/
theorem moment_nextRevision_le {v : View} (hv : v.nextRevision ≤ maxRevision) (ops : List ViewOp)
    (k : Nat) : (v.moment ops k).nextRevision ≤ maxRevision := by
  unfold moment
  induction ops.take k using List.reverseRecOn with
  | nil => exact hv
  | append_singleton ops op ih =>
      rw [after_append]
      rcases run_nextRevision op (v.after ops) with ⟨hm, he⟩ | ⟨_, he⟩
      · rw [he]
        exact hm.2
      · rw [he]
        exact ih

/-- It counts snapshots, and no others than are asked for. -/
theorem after_nextRevision_le (v : View) (ops : List ViewOp) :
    (v.after ops).nextRevision ≤ v.nextRevision + ops.countP ViewOp.isSnapshot := by
  induction ops using List.reverseRecOn with
  | nil => exact Nat.le_refl _
  | append_singleton ops op ih =>
      rw [after_append, List.countP_append]
      rcases run_nextRevision op (v.after ops) with ⟨⟨rfl, _⟩, he⟩ | ⟨_, he⟩
      · have hcounted : [ViewOp.snapshot].countP ViewOp.isSnapshot = 1 := rfl
        omega
      · omega

/-- After nothing but snapshots the state is as it was, and the counter has counted them all. -/
theorem after_snapshots (v : View) (n : Nat) (hroom : v.nextRevision + n ≤ maxRevision) :
    ∃ revisions, v.after (List.replicate n .snapshot) =
      { v with nextRevision := v.nextRevision + n, revisions } := by
  induction n with
  | zero => exact ⟨v.revisions, rfl⟩
  | succ n ih =>
      obtain ⟨revisions, he⟩ := ih (by omega)
      have hlt : (v.after (List.replicate n .snapshot)).nextRevision < maxRevision := by
        rw [he]
        show v.nextRevision + n < maxRevision
        omega
      rw [List.replicate_succ', after_append, ViewOp.run_snapshot hlt, he]
      exact ⟨_, rfl⟩

theorem moment_nextRevision_mono (v : View) (ops : List ViewOp) {k k' : Nat} (hk : k ≤ k') :
    (v.moment ops k).nextRevision ≤ (v.moment ops k').nextRevision := by
  induction k', hk using Nat.le_induction with
  | base => exact Nat.le_refl _
  | succ k' _ ih =>
      refine Nat.le_trans ih ?_
      cases hop : ops[k']? with
      | none =>
          rw [moment, moment, List.take_add_one, hop, Option.toList_none, List.append_nil]
      | some op =>
          rw [moment_succ hop]
          rcases run_nextRevision op (v.moment ops k') with ⟨_, he⟩ | ⟨_, he⟩
          · omega
          · omega

/-- The `k`-th call puts a revision on the stack. -/
def Marked (v : View) (ops : List ViewOp) (k : Nat) : Prop :=
  Occurs (fun before op => op.Marks (v.after before)) ops k

theorem marked_iff {v : View} {ops : List ViewOp} {k : Nat} :
    v.Marked ops k ↔ ops[k]? = some .snapshot ∧ (v.moment ops k).nextRevision < maxRevision := by
  constructor
  · rintro ⟨_, hop, rfl, hm⟩
    exact ⟨hop, hm⟩
  · rintro ⟨hop, hm⟩
    exact ⟨_, hop, rfl, hm⟩

/-- After a snapshot the next number is a higher one. -/
theorem Marked.nextRevision_lt {v : View} {ops : List ViewOp} {k k' : Nat} (hm : v.Marked ops k)
    (hk : k < k') : (v.moment ops k).nextRevision < (v.moment ops k').nextRevision := by
  obtain ⟨hop, hm⟩ := marked_iff.mp hm
  have hsucc : (v.moment ops (k + 1)).nextRevision = (v.moment ops k).nextRevision + 1 := by
    rw [moment_succ hop, ViewOp.run_snapshot hm]
    rfl
  have := moment_nextRevision_mono v ops (show k + 1 ≤ k' from hk)
  omega

/-! ## The invariant -/

/-- The snapshot of the `k`-th call still stands: no later call discards its number. -/
def Standing (v : View) (ops : List ViewOp) (k : Nat) : Prop :=
  v.Marked ops k ∧ ∀ j op, k < j → ops[j]? = some op →
    ¬ op.Discards (v.moment ops j) (v.moment ops k).nextRevision

/-- The revision that a snapshot at the `k`-th call keeps. -/
def kept (v : View) (ops : List ViewOp) (k : Nat) : Revision :=
  ⟨(v.moment ops k).nextRevision, (v.moment ops k).accounts, (v.moment ops k).accessList⟩

/-- The revisions are in order, and they are the snapshots that still stand. -/
structure Stacked (v : View) (ops : List ViewOp) : Prop where
  /-- The numbers decrease below the next one. -/
  ordered : (v.after ops).Ordered
  /-- Each snapshot that stands is kept as it was, and nothing else is. -/
  mem : ∀ r, r ∈ (v.after ops).revisions ↔ ∃ k, v.Standing ops k ∧ r = v.kept ops k

theorem Standing.lt {v : View} {ops : List ViewOp} {k : Nat} (h : v.Standing ops k) :
    k < ops.length :=
  h.1.lt

theorem kept_append {v : View} {ops : List ViewOp} {op : ViewOp} {k : Nat}
    (hk : k ≤ ops.length) : v.kept (ops ++ [op]) k = v.kept ops k := by
  rw [kept, kept, moment_append hk]

theorem standing_iff_since {v : View} {ops : List ViewOp} {k : Nat} :
    v.Standing ops k ↔ Since (fun before op => op.Marks (v.after before))
      (fun before op => op.Discards (v.after before) (v.moment ops k).nextRevision) ops k :=
  Iff.rfl

/-- One more call adds at most its own snapshot, and leaves standing what it does not discard. -/
theorem standing_append {v : View} {ops : List ViewOp} {op : ViewOp} {k : Nat} :
    v.Standing (ops ++ [op]) k ↔
      (k = ops.length ∧ op.Marks (v.after ops)) ∨
      (v.Standing ops k ∧ ¬ op.Discards (v.after ops) (v.moment ops k).nextRevision) := by
  by_cases hk : k ≤ ops.length
  · rw [standing_iff_since, standing_iff_since, moment_append hk]
    exact since_append
  · -- there is no such call
    have hnone : ∀ {ops' : List ViewOp}, v.Standing ops' k → k < ops'.length := Standing.lt
    constructor
    · intro h
      have := hnone h
      rw [List.length_append, List.length_singleton] at this
      omega
    · rintro (⟨hl, -⟩ | ⟨h, -⟩)
      · omega
      · have := hnone h
        omega

theorem stacked_init {v : View} (hv : v.revisions = []) : v.Stacked [] := by
  refine ⟨ordered_of_nil hv, fun r => ?_⟩
  show r ∈ v.revisions ↔ _
  rw [hv]
  constructor
  · intro h; simp at h
  · rintro ⟨k, hst, _⟩
    exact absurd hst.lt (Nat.not_lt_zero k)

/-- **Preserved by every call.** -/
theorem stacked_step {v : View} {ops : List ViewOp} (h : v.Stacked ops) (op : ViewOp) :
    v.Stacked (ops ++ [op]) := by
  refine ⟨by rw [after_append]; exact h.ordered.run op, fun r => ?_⟩
  -- what stood before and is not discarded stands, with the same revision
  have hold : (∃ k, v.Standing (ops ++ [op]) k ∧ r = v.kept (ops ++ [op]) k) ↔
      (op.Marks (v.after ops) ∧ r = v.kept ops ops.length) ∨
      (r ∈ (v.after ops).revisions ∧ ¬ op.Discards (v.after ops) r.id) := by
    constructor
    · rintro ⟨k, hst, rfl⟩
      rcases standing_append.mp hst with ⟨rfl, hm⟩ | ⟨hst, hd⟩
      · exact Or.inl ⟨hm, kept_append (Nat.le_refl _)⟩
      · rw [kept_append (Nat.le_of_lt hst.lt)]
        exact Or.inr ⟨(h.mem _).mpr ⟨k, hst, rfl⟩, hd⟩
    · rintro (⟨hm, rfl⟩ | ⟨hr, hd⟩)
      · exact ⟨ops.length, standing_append.mpr (Or.inl ⟨rfl, hm⟩),
          (kept_append (Nat.le_refl _)).symm⟩
      · obtain ⟨k, hst, rfl⟩ := (h.mem r).mp hr
        exact ⟨k, standing_append.mpr (Or.inr ⟨hst, hd⟩),
          (kept_append (Nat.le_of_lt hst.lt)).symm⟩
  rw [hold, after_append]
  rcases op.run_cases (v.after ops) with ⟨hns, hd, accounts, accessList, he⟩ | ⟨hc, hns, he⟩ |
    ⟨hm, he⟩ | ⟨id, v', rfl, hr, he⟩
  · -- a write: everything stays
    rw [he]
    simp [hns, hd]
  · -- everything is discarded
    have hdis : op.Discards (v.after ops) r.id := Or.inl hc
    rw [he]
    simp [hns, hdis, finalize]
  · -- the new revision is the moment of this call
    have hd : ¬ op.Discards (v.after ops) r.id := by
      rw [hm.1]
      rintro (hc | ⟨id, v', hid, _⟩)
      · exact hc
      · exact absurd hid (by simp)
    rw [he]
    simp [hm, hd, mark, kept, moment_length]
  · -- what lies below the number stays
    have hns : ¬ (ViewOp.revert id).Marks (v.after ops) := fun hm => absurd hm.1 (by simp)
    have hd : (ViewOp.revert id).Discards (v.after ops) r.id ↔ id.toInt ≤ r.id := by
      constructor
      · rintro (hc | ⟨id', v'', hid, _, hle⟩)
        · exact False.elim hc
        · cases hid
          exact hle
      · exact fun hle => Or.inr ⟨id, v', rfl, hr, hle⟩
    rw [he, hd, h.ordered.mem_revert hr]
    simp [hns]

theorem stacked {v : View} (hv : v.revisions = []) (ops : List ViewOp) : v.Stacked ops := by
  induction ops using List.reverseRecOn with
  | nil => exact stacked_init hv
  | append_singleton ops op ih => exact stacked_step ih op

/-! ## Live snapshots are those that stand -/

theorem issued_iff {v : View} {ops : List ViewOp} {k : Nat} {id : Int32} :
    v.Issued ops k id ↔
      v.Marked ops k ∧ id = Int32.ofNat (v.moment ops k).nextRevision := by
  rw [marked_iff]
  constructor
  · rintro ⟨hs, ha⟩
    have ha : (ViewOp.snapshot.run (v.moment ops k)).1 = .revision id := by
      rw [answer?, hs] at ha
      exact Option.some.inj ha
    by_cases hm : (v.moment ops k).nextRevision < maxRevision
    · rw [ViewOp.run_snapshot hm] at ha
      exact ⟨⟨hs, hm⟩, (ViewAnswer.revision.inj ha).symm⟩
    · rw [ViewOp.run_snapshot_overflow hm] at ha
      exact absurd ha (by simp)
  · rintro ⟨⟨hs, hm⟩, rfl⟩
    refine ⟨hs, ?_⟩
    rw [answer?, hs, Option.map_some, ViewOp.run_snapshot hm]

theorem run_revert_done_iff {v : View} {id : Int32} :
    ((ViewOp.revert id).run v).1 = .done ↔ ∃ v', v.revert id.toInt = some v' := by
  cases hr : v.revert id.toInt with
  | none => simp [ViewOp.run_revert_none hr]
  | some v' => simp [ViewOp.run_revert_some hr]

/-- The view was just opened. -/
structure Fresh (v : View) : Prop where
  /-- There are no revisions yet. -/
  empty : v.revisions = []
  /-- No number was given out. -/
  zero : v.nextRevision = 0

theorem Fresh.toInt_moment {v : View} (h : v.Fresh) (ops : List ViewOp) (k : Nat) :
    (Int32.ofNat (v.moment ops k).nextRevision).toInt = (v.moment ops k).nextRevision := by
  have hstart : v.nextRevision ≤ maxRevision := by rw [h.zero]; exact Nat.zero_le _
  have hle := moment_nextRevision_le hstart ops k
  exact Int32.toInt_ofNat_of_lt (Nat.lt_of_le_of_lt hle (by decide))

/-- Taking a snapshot away is discarding its number, since earlier snapshots have lower ones. -/
theorem takesAway_iff {v : View} {ops : List ViewOp} (h : v.Fresh) {k j : Nat}
    (hm : v.Marked ops k) :
    v.TakesAway ops k j ↔
      ∃ op, ops[j]? = some op ∧ op.Discards (v.moment ops j) (v.moment ops k).nextRevision := by
  constructor
  · rintro (⟨op, hop, hc⟩ | ⟨k', id, hk, hi, hop, ha⟩)
    · exact ⟨op, hop, Or.inl hc⟩
    · obtain ⟨_, rfl⟩ := issued_iff.mp hi
      rw [answer?, hop] at ha
      obtain ⟨v', hv'⟩ := run_revert_done_iff.mp (Option.some.inj ha)
      refine ⟨_, hop, Or.inr ⟨_, v', rfl, hv', ?_⟩⟩
      rw [h.toInt_moment]
      exact_mod_cast moment_nextRevision_mono v ops hk
  · rintro ⟨op, hop, hc | ⟨id, v', rfl, hv', hle⟩⟩
    · exact Or.inl ⟨op, hop, hc⟩
    · -- the revision that is gone back to is a snapshot of an earlier call
      obtain ⟨r, hr, hid⟩ := revert_isSome_iff.mp ⟨v', hv'⟩
      obtain ⟨k', hst, rfl⟩ := ((stacked h.empty (ops.take j)).mem r).mp hr
      have hk' : k' < j := Nat.lt_of_lt_of_le hst.lt (List.length_take_le j ops)
      have hmoment : v.moment (ops.take j) k' = v.moment ops k' := by
        rw [moment, moment, List.take_take, Nat.min_eq_left (Nat.le_of_lt hk')]
      have hm' : v.Marked ops k' := by
        obtain ⟨hs', hroom⟩ := marked_iff.mp hst.1
        rw [List.getElem?_take_of_lt hk'] at hs'
        exact marked_iff.mpr ⟨hs', hmoment ▸ hroom⟩
      simp only [kept, hmoment] at hid
      refine Or.inr ⟨k', id, ?_, issued_iff.mpr ⟨hm', ?_⟩, hop, ?_⟩
      · rcases Nat.lt_or_ge k k' with hlt | hge
        · have := hm.nextRevision_lt hlt
          omega
        · exact hge
      · rw [← Int32.toInt_inj, h.toInt_moment, hid]
      · rw [answer?, hop]
        exact congrArg some (run_revert_done_iff.mpr ⟨v', hv'⟩)

theorem live_iff {v : View} {ops : List ViewOp} (h : v.Fresh) {k : Nat} {id : Int32} :
    v.Live ops k id ↔
      v.Standing ops k ∧ id = Int32.ofNat (v.moment ops k).nextRevision := by
  constructor
  · rintro ⟨hi, ht⟩
    obtain ⟨hs, hid⟩ := issued_iff.mp hi
    refine ⟨⟨hs, ?_⟩, hid⟩
    intro j op hj hop hd
    exact ht j hj ((takesAway_iff h hs).mpr ⟨op, hop, hd⟩)
  · rintro ⟨⟨hs, hd⟩, hid⟩
    refine ⟨issued_iff.mpr ⟨hs, hid⟩, ?_⟩
    intro j hj ht
    obtain ⟨op, hop, hdis⟩ := (takesAway_iff h hs).mp ht
    exact hd j op hj hop hdis

/-- Going back to a number works, and gives the state and the access list of another view. -/
def Restores (v : View) (id : Int32) (w : View) : Prop :=
  ((ViewOp.revert id).run v).1 = .done ∧
  ((ViewOp.revert id).run v).2.accounts = w.accounts ∧
  ((ViewOp.revert id).run v).2.accessList = w.accessList

/-- Going back to a number is refused, and changes nothing. -/
def Refuses (v : View) (id : Int32) : Prop :=
  (ViewOp.revert id).run v = (.refused (.invalidRevision id), v)

/-- A live snapshot can be gone back to, and gives back its own moment. -/
theorem Fresh.restores {v : View} {ops : List ViewOp} (h : v.Fresh) {k : Nat} {id : Int32}
    (hl : v.Live ops k id) : (v.after ops).Restores id (v.moment ops k) := by
  obtain ⟨hst, rfl⟩ := (live_iff h).mp hl
  have hstack := stacked h.empty ops
  have hmem : v.kept ops k ∈ (v.after ops).revisions := (hstack.mem _).mpr ⟨k, hst, rfl⟩
  obtain ⟨newer, older, heq⟩ := List.append_of_mem hmem
  have hr := Sits.revert_id hstack.ordered ⟨newer, heq⟩
  have hn : ((v.kept ops k).id : Int) =
      (Int32.ofNat (v.moment ops k).nextRevision).toInt := (h.toInt_moment ops k).symm
  rw [hn] at hr
  rw [Restores, ViewOp.run_revert_some hr]
  exact ⟨rfl, rfl, rfl⟩

/-- A number that no live snapshot has is refused. -/
theorem Fresh.refuses {v : View} {ops : List ViewOp} (h : v.Fresh) {id : Int32}
    (hl : ¬ ∃ k, v.Live ops k id) : (v.after ops).Refuses id := by
  cases hr : (v.after ops).revert id.toInt with
  | none => exact ViewOp.run_revert_none hr
  | some v' =>
      obtain ⟨r, hmem, hid⟩ := revert_isSome_iff.mp ⟨v', hr⟩
      obtain ⟨k, hst, rfl⟩ := ((stacked h.empty ops).mem r).mp hmem
      refine absurd ⟨k, (live_iff h).mpr ⟨hst, ?_⟩⟩ hl
      rw [← Int32.toInt_inj, h.toInt_moment, ← hid]
      rfl

/-- No number is answered twice. -/
theorem Fresh.issued_inj {v : View} {ops : List ViewOp} (h : v.Fresh) {k k' : Nat}
    {id : Int32} (hk : v.Issued ops k id) (hk' : v.Issued ops k' id) : k = k' := by
  obtain ⟨hs, rfl⟩ := issued_iff.mp hk
  obtain ⟨hs', he⟩ := issued_iff.mp hk'
  have hn := congrArg Int32.toInt he
  rw [h.toInt_moment, h.toInt_moment] at hn
  rcases Nat.lt_trichotomy k k' with hlt | heq | hgt
  · have := hs.nextRevision_lt hlt
    omega
  · exact heq
  · have := hs'.nextRevision_lt hgt
    omega

/-- With fewer than `2 ^ 31` snapshots the numbers do not run out. -/
theorem Fresh.issued {v : View} {ops : List ViewOp} (h : v.Fresh)
    (hfew : ops.countP ViewOp.isSnapshot < 2 ^ 31) {k : Nat} (hs : ops[k]? = some .snapshot) :
    ∃ id, v.Issued ops k id := by
  have htaken : (v.moment ops k).nextRevision ≤ (ops.take k).countP ViewOp.isSnapshot := by
    have := after_nextRevision_le v (ops.take k)
    rw [h.zero, Nat.zero_add] at this
    exact this
  -- the snapshot itself is not among those before it
  have hmore : (ops.take k).countP ViewOp.isSnapshot + 1 ≤ ops.countP ViewOp.isSnapshot := by
    have hsplit : ops.take (k + 1) = ops.take k ++ [.snapshot] := by
      rw [List.take_add_one, hs, Option.toList_some]
    calc (ops.take k).countP ViewOp.isSnapshot + 1
        = (ops.take (k + 1)).countP ViewOp.isSnapshot := by
          rw [hsplit, List.countP_append]
          rfl
      _ ≤ ops.countP ViewOp.isSnapshot := (List.take_sublist _ _).countP_le
  have hend : maxRevision + 1 = 2 ^ 31 := by decide
  exact ⟨_, issued_iff.mpr ⟨marked_iff.mpr ⟨hs, by omega⟩, rfl⟩⟩

/-! ## After going back -/

/-- Going back to a live snapshot leaves live exactly the snapshots before it. -/
theorem Fresh.live_append_revert {v : View} {ops : List ViewOp} (h : v.Fresh) {k k' : Nat}
    {id id' : Int32} (hl : v.Live ops k id) :
    v.Live (ops ++ [.revert id]) k' id' ↔ v.Live ops k' id' ∧ k' < k := by
  have hdone := (h.restores hl).1
  obtain ⟨hst, rfl⟩ := (live_iff h).mp hl
  obtain ⟨v', hv'⟩ := run_revert_done_iff.mp hdone
  have hmono := fun hk : k ≤ k' => moment_nextRevision_mono v ops hk
  rw [live_iff h, live_iff h, standing_append]
  constructor
  · rintro ⟨⟨_, hs⟩ | ⟨hst', hd⟩, hid⟩
    · exact absurd hs.1 (by simp)
    · rw [moment_append (Nat.le_of_lt hst'.lt)] at hid
      refine ⟨⟨hst', hid⟩, Nat.lt_of_not_le fun hk => hd (Or.inr ⟨_, v', rfl, hv', ?_⟩)⟩
      rw [h.toInt_moment]
      exact_mod_cast hmono hk
  · rintro ⟨⟨hst', hid⟩, hk⟩
    rw [moment_append (Nat.le_of_lt hst'.lt)]
    refine ⟨Or.inr ⟨hst', ?_⟩, hid⟩
    rintro (hc | ⟨id, v'', he, _, hle⟩)
    · exact hc
    · cases he
      rw [h.toInt_moment] at hle
      have := hst'.1.nextRevision_lt hk
      omega

/-- **Revisions refine a pure stack.** Take any calls on a freshly opened view, with fewer than
`2 ^ 31` snapshots. Each snapshot is answered with a number, and no number is answered twice. A
number can be gone back to if and only if it is that of a live snapshot. Going back to it restores
the moment of the snapshot; from then on it and all later snapshots are refused, and the live ones
before it still restore their own moments. Any other number is refused, and nothing changes. -/
theorem revert_iff_live (store : Nat) (accounts : Accounts) (ops : List ViewOp)
    (hfew : ops.countP ViewOp.isSnapshot < 2 ^ 31) :
    let v : View := { store, accounts }
    (∀ id, ((ViewOp.revert id).run (v.after ops)).1 = .done ↔ ∃ k, v.Live ops k id) ∧
    (∀ k id, v.Live ops k id →
      (v.after ops).Restores id (v.moment ops k) ∧
      (∀ k' id', k ≤ k' → v.Issued ops k' id' → (v.after (ops ++ [.revert id])).Refuses id') ∧
      (∀ k' id', k' < k → v.Live ops k' id' →
        (v.after (ops ++ [.revert id])).Restores id' (v.moment ops k'))) ∧
    (∀ id, (¬ ∃ k, v.Live ops k id) → (v.after ops).Refuses id) ∧
    (∀ k k' id, v.Issued ops k id → v.Issued ops k' id → k = k') ∧
    (∀ k, ops[k]? = some .snapshot → ∃ id, v.Issued ops k id) := by
  intro v
  have h : v.Fresh := ⟨rfl, rfl⟩
  refine ⟨fun id => ⟨fun hdone => ?_, fun ⟨k, hl⟩ => (h.restores hl).1⟩, ?_,
    fun id => h.refuses, fun k k' id => h.issued_inj, fun k => h.issued hfew⟩
  · refine Classical.byContradiction fun hl => ?_
    rw [h.refuses hl] at hdone
    exact absurd hdone (by simp)
  · intro k id hl
    refine ⟨h.restores hl, ?_, ?_⟩
    · intro k' id' hk hi
      refine h.refuses ?_
      rintro ⟨k'', hl''⟩
      obtain ⟨hl'', hlt⟩ := (h.live_append_revert hl).mp hl''
      have := h.issued_inj hi hl''.1
      omega
    · intro k' id' hk hl'
      have hr := h.restores ((h.live_append_revert hl).mpr ⟨hl', hk⟩)
      have hlt : k' ≤ ops.length := by
        have := ((live_iff h).mp hl').1.lt
        omega
      rwa [moment_append hlt] at hr

/-- A snapshot before and one after a write: going back to the first undoes the write, and takes
the second away. -/
theorem revert_first_of_two :
    let v : View := { store := 0 }
    let ops : List ViewOp := [.snapshot, .setBalance .zero 7, .snapshot]
    ops.countP ViewOp.isSnapshot < 2 ^ 31 ∧ (v.after ops).Restores 0 v ∧
      (v.after (ops ++ [.revert 0])).Refuses 1 := by
  intro v ops
  have hfew : ops.countP ViewOp.isSnapshot < 2 ^ 31 := by decide
  obtain ⟨hdone, hlive, _, hone, _⟩ := revert_iff_live 0 ∅ ops hfew
  obtain ⟨k, hl⟩ := (hdone 0).mp rfl
  obtain rfl := hone k 0 0 hl.1 ⟨rfl, rfl⟩
  obtain ⟨hr, hlater, _⟩ := hlive 0 0 hl
  exact ⟨hfew, hr, hlater 2 1 (by decide) ⟨rfl, rfl⟩⟩

end EvmBridge.View
