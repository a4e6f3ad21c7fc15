import EvmBridge.OrdMap
import Mathlib.Algebra.Ring.Nat
import Mathlib.Data.List.Perm.Subperm

/-!
# Maps with ordered keys

A map answers with the last binding it was given for a key, whatever the order of the others. One
that is filled in key order is the list it was filled from; that is how trees over states and
storages are filled, so their entries can be read off. Sums and counts over the bindings of a map
change with one insertion by what the key had before.
-/

namespace EvmBridge.OrdMap

variable {α β : Type} [Ord α]

/-- Maps with the same bindings are equal. -/
theorem ext_toList {m m' : OrdMap α β} (h : m.toList = m'.toList) : m = m' := by
  cases m; cases m'
  simp_all

variable [Std.TransOrd α]

/-- A key above all others is inserted at the end. -/
theorem insertList_above {k : α} {v : β} {l : List (α × β)}
    (h : ∀ e ∈ l, compare e.1 k = .lt) : insertList k v l = l ++ [(k, v)] := by
  induction l with
  | nil => rfl
  | cons e l ih =>
      have hgt : compare k e.1 = .gt := Std.OrientedCmp.gt_of_lt (h e List.mem_cons_self)
      rw [insertList, hgt]
      simp only [ih fun e' he' => h e' (List.mem_cons_of_mem _ he'), List.cons_append]

variable [Std.LawfulEqOrd α]

/-- Filling a map further in key order appends to its bindings. -/
theorem toList_foldl_insert {m : OrdMap α β} {l : List (α × β)}
    (h : Increasing (m.toList ++ l)) :
    (l.foldl (fun m e => m.insert e.1 e.2) m).toList = m.toList ++ l := by
  induction l generalizing m with
  | nil => simp
  | cons e l ih =>
      have hlt := (List.pairwise_append.mp h).2.2
      have hins : (m.insert e.1 e.2).toList = m.toList ++ [e] :=
        insertList_above fun a ha => hlt a ha e List.mem_cons_self
      rw [List.foldl_cons, ih (by rw [hins]; simpa using h), hins]
      simp

/-- **Filling a map in key order changes nothing.** -/
theorem toList_ofList {l : List (α × β)} (h : Increasing l) : (ofList l).toList = l :=
  toList_foldl_insert (m := empty) h

theorem mem_of_mem_foldl_insert {m : OrdMap α β} {l : List (α × β)} {e : α × β}
    (h : e ∈ (l.foldl (fun m e => m.insert e.1 e.2) m).toList) : e ∈ m.toList ∨ e ∈ l := by
  induction l generalizing m with
  | nil => exact .inl h
  | cons x l ih =>
      rcases ih h with hm | hl
      · rcases mem_insertList hm with rfl | hm
        · exact .inr List.mem_cons_self
        · exact .inl hm
      · exact .inr (List.mem_cons_of_mem _ hl)

/-- A map has no other bindings than it was filled with. -/
theorem mem_of_mem_ofList {l : List (α × β)} {e : α × β} (h : e ∈ (ofList l).toList) : e ∈ l :=
  (mem_of_mem_foldl_insert (m := empty) h).resolve_left (by simp [empty])

/-! ## Bindings -/

/-- A key that is filled in again has its last value. -/
theorem get?_foldl_insert [BEq α] [LawfulBEq α] {m : OrdMap α β} {l : List (α × β)} {k : α} :
    (l.foldl (fun m e => m.insert e.1 e.2) m).get? k = (l.reverse.lookup k).or (m.get? k) := by
  have : DecidableEq α := instDecidableEqOfLawfulBEq
  induction l generalizing m with
  | nil => rfl
  | cons e l ih =>
      obtain ⟨k', v⟩ := e
      rw [List.foldl_cons, ih, List.reverse_cons, List.lookup_append, Option.or_assoc, get?_insert]
      congr 1
      by_cases hk : k = k'
      · simp [hk]
      · rw [if_neg hk, List.lookup_cons, beq_false_of_ne hk]
        rfl

/-- A map that was filled is told by the last value of every key. -/
theorem get?_ofList [BEq α] [LawfulBEq α] {l : List (α × β)} {k : α} :
    (ofList l).get? k = l.reverse.lookup k :=
  get?_foldl_insert.trans (Option.or_none ..)

/-- Replacing a value by itself changes nothing, and only that. -/
theorem insert_eq_self_iff [DecidableEq α] {m : OrdMap α β} {k : α} {v : β} :
    m.insert k v = m ↔ m.get? k = some v := by
  constructor
  · intro h
    rw [← h, get?_insert, if_pos rfl]
  · intro h
    refine ext_get? fun k' => ?_
    rw [get?_insert]
    split
    · rename_i heq
      rw [heq, h]
    · rfl

/-- An insertion changes a sum over the bindings by as much as it changes the one binding. -/
theorem sum_insertList (g : α × β → Nat) (k : α) (x : β) {l : List (α × β)} (h : Increasing l) :
    ((insertList k x l).map g).sum + ((lookup k l).map fun y => g (k, y)).getD 0 =
      (l.map g).sum + g (k, x) := by
  induction l with
  | nil => simp [insertList, lookup]
  | cons e l ih =>
      obtain ⟨k', y⟩ := e
      have ih := ih h.of_cons
      unfold insertList lookup
      split
      · -- the new key is below all others
        rename_i hlt
        have hnone : lookup k l = none := lookup_eq_none fun c hc =>
          Std.TransCmp.lt_trans hlt (List.rel_of_pairwise_cons h hc)
        simp [hlt, hnone]
        omega
      · rename_i heq
        obtain rfl := Std.LawfulEqCmp.eq_of_compare heq
        simp
        omega
      · rename_i hgt
        simp [hgt]
        omega

/-! ## Keys -/

omit [Std.TransOrd α] in
/-- Different keys of one kind are at most as many as the map has of that kind. -/
theorem length_le_countP_keys {m : OrdMap α β} {l : List α} {p : α → Bool} (hnodup : l.Nodup)
    (h : ∀ k ∈ l, m.contains k ∧ p k) : l.length ≤ m.keys.countP p := by
  have hsub : l ⊆ m.keys.filter p := by
    intro k hk
    obtain ⟨hmem, hp⟩ := h k hk
    exact List.mem_filter.mpr ⟨mem_keys_iff.mpr hmem, hp⟩
  rw [List.countP_eq_length_filter]
  exact (List.subperm_of_subset hnodup hsub).length_le

omit [Std.TransOrd α] [Std.LawfulEqOrd α] in
theorem countP_keys_le_size {m : OrdMap α β} (p : α → Bool) : m.keys.countP p ≤ m.size := by
  refine Nat.le_trans List.countP_le_length ?_
  rw [keys, List.length_map]
  exact Nat.le_refl _

omit [Std.TransOrd α] in
/-- Different keys of a map are at most as many as it has bindings. -/
theorem length_le_size {m : OrdMap α β} {l : List α} (hnodup : l.Nodup)
    (h : ∀ k ∈ l, m.contains k) : l.length ≤ m.size :=
  Nat.le_trans (length_le_countP_keys (p := fun _ => true) hnodup fun k hk => ⟨h k hk, rfl⟩)
    (countP_keys_le_size _)

theorem contains_insert [DecidableEq α] (m : OrdMap α β) (k k' : α) (v : β) :
    (m.insert k v).contains k' ↔ k' = k ∨ m.contains k' := by
  unfold contains
  rw [get?_insert]
  split
  · rename_i heq
    simp [heq]
  · rename_i hne
    simp [hne]

end EvmBridge.OrdMap
