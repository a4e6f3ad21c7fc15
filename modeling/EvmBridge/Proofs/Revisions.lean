import EvmBridge.Proofs.ViewOp

/-!
# The stack of revisions

A view keeps its revisions in a list and finds the one to go back to by its number. That the list
is a stack rests on two facts about the numbers: they decrease from the latest to the earliest, and
all of them lie below the number of the next snapshot. Every call keeps both (`Ordered.run`), so a
number names at most one revision and is never given out again.
-/

namespace EvmBridge

namespace View

/-! ## Going back -/

/-- **What going back does.** It finds the latest revision of the number, restores what that
revision keeps, and drops it with all later ones. -/
theorem revert_some {v v' : View} {id : Int} (h : v.revert id = some v') :
    ∃ newer r older, v.revisions = newer ++ r :: older ∧ (r.id : Int) = id ∧
      (∀ q ∈ newer, (q.id : Int) ≠ id) ∧
      v' = { v with accounts := r.accounts, accessList := r.accessList, revisions := older } := by
  unfold revert at h
  split at h
  · exact absurd h (by simp)
  · rename_i r older hd
    refine ⟨v.revisions.takeWhile fun r => (r.id : Int) ≠ id, r, older, ?_, ?_, ?_,
      (Option.some.inj h).symm⟩
    · rw [← hd, List.takeWhile_append_dropWhile]
    · have hr := List.head?_dropWhile_not (fun r : Revision => (r.id : Int) ≠ id) v.revisions
      rw [hd] at hr
      simpa using hr
    · intro q hq
      have hall := List.all_eq_true.mp (List.all_takeWhile (l := v.revisions)) q hq
      simpa using hall

theorem revert_append {v : View} {newer older : List Revision} {r : Revision}
    (h : v.revisions = newer ++ r :: older) (hn : ∀ q ∈ newer, q.id ≠ r.id) :
    v.revert r.id =
      some { v with accounts := r.accounts, accessList := r.accessList, revisions := older } := by
  have hd : v.revisions.dropWhile (fun q => decide ((q.id : Int) ≠ r.id)) = r :: older := by
    rw [h, List.dropWhile_append_of_pos (fun q hq => by simpa using mod_cast hn q hq)]
    simp
  unfold revert
  rw [hd]

theorem revert_isSome_iff {v : View} {id : Int} :
    (∃ v', v.revert id = some v') ↔ ∃ r ∈ v.revisions, (r.id : Int) = id := by
  constructor
  · rintro ⟨v', h⟩
    obtain ⟨newer, r, older, heq, hr, _⟩ := revert_some h
    exact ⟨r, by rw [heq]; simp, hr⟩
  · rintro ⟨r, hr, rfl⟩
    unfold revert
    split
    · -- all revisions would have been skipped, this one too
      rename_i hd
      have hany := List.any_dropWhile (l := v.revisions) (p := fun q => (q.id : Int) ≠ r.id)
      rw [hd] at hany
      have hall : v.revisions.all (fun q => (q.id : Int) ≠ r.id) = true := by simpa using hany
      exact absurd (List.all_eq_true.mp hall r hr) (by simp)
    · exact ⟨_, rfl⟩

/-! ## The order of the numbers -/

/-- The numbers decrease from the latest revision to the earliest, and lie below the next one. -/
structure Ordered (v : View) : Prop where
  /-- A later revision has a higher number. -/
  decreasing : v.revisions.Pairwise fun newer older => older.id < newer.id
  /-- The next number is higher still. -/
  below : ∀ r ∈ v.revisions, r.id < v.nextRevision

theorem ordered_of_nil {v : View} (h : v.revisions = []) : v.Ordered :=
  ⟨by rw [h]; exact List.Pairwise.nil, by rw [h]; simp⟩

theorem Ordered.mark {v : View} (h : v.Ordered) : v.mark.Ordered := by
  refine ⟨List.Pairwise.cons h.below h.decreasing, ?_⟩
  intro r hr
  rcases List.mem_cons.mp hr with rfl | hr
  · exact Nat.lt_succ_self _
  · exact Nat.lt_succ_of_lt (h.below r hr)

/-- Going back keeps the revisions below the one that is named, and no other. -/
theorem Ordered.mem_revert {v v' : View} {id : Int} (h : v.Ordered) (hr : v.revert id = some v')
    (r : Revision) : r ∈ v'.revisions ↔ r ∈ v.revisions ∧ (r.id : Int) < id := by
  obtain ⟨newer, q, older, heq, rfl, _, rfl⟩ := revert_some hr
  have hdec := h.decreasing
  rw [heq, List.pairwise_append] at hdec
  obtain ⟨_, hq, hnew⟩ := hdec
  rw [heq]
  constructor
  · intro hm
    exact ⟨by simp [hm], by exact_mod_cast List.rel_of_pairwise_cons hq hm⟩
  · rintro ⟨hm, hlt⟩
    rcases List.mem_append.mp hm with hm | hm
    · have := hnew r hm q List.mem_cons_self
      omega
    · rcases List.mem_cons.mp hm with rfl | hm
      · omega
      · exact hm

theorem Ordered.revert {v v' : View} {id : Int} (h : v.Ordered) (hr : v.revert id = some v') :
    v'.Ordered := by
  have hmem := h.mem_revert hr
  obtain ⟨newer, q, older, heq, _, _, rfl⟩ := revert_some hr
  refine ⟨?_, fun r hr => h.below r ((hmem r).mp hr).1⟩
  have hdec := h.decreasing
  rw [heq] at hdec
  exact (List.pairwise_append.mp hdec).2.1.of_cons

/-- **Every call keeps the order.** -/
theorem Ordered.run {v : View} (h : v.Ordered) (op : ViewOp) : (op.run v).2.Ordered := by
  rcases op.run_cases v with ⟨_, _, accounts, accessList, he⟩ | ⟨_, _, he⟩ | ⟨_, he⟩ |
    ⟨id, v', _, hr, he⟩
  · rw [he]; exact ⟨h.decreasing, h.below⟩
  · rw [he]; exact ordered_of_nil rfl
  · rw [he]; exact h.mark
  · rw [he]; exact h.revert hr

/-! ## One revision on the stack -/

/-- A revision is on the stack, with these below it. -/
def Sits (v : View) (r : Revision) (older : List Revision) : Prop :=
  ∃ newer, v.revisions = newer ++ r :: older

/-- A revision that sits on the stack can be gone back to. -/
theorem Sits.revert_id {v : View} {r : Revision} {older : List Revision} (hord : v.Ordered)
    (h : v.Sits r older) :
    v.revert r.id =
      some { v with accounts := r.accounts, accessList := r.accessList, revisions := older } := by
  obtain ⟨newer, hnew⟩ := h
  have hdec := hord.decreasing
  rw [hnew, List.pairwise_append] at hdec
  exact revert_append hnew fun q hq => Nat.ne_of_gt (hdec.2.2 q hq _ List.mem_cons_self)

end View

end EvmBridge
