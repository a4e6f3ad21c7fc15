/-!
# Since

What a history says about a thing often is that it came about at some place and that nothing later
ended it. `Since P Q l k` says so of the `k`-th item of `l`. Both `P` and `Q` may look at the items
before the one they judge, so a history that goes on is judged by the new item alone
(`since_append`).
-/

namespace EvmBridge

variable {α : Type} {P Q : List α → α → Prop} {l : List α} {a b : α} {i k : Nat}

theorem getElem?_concat : (l ++ [a])[i]? = some b ↔ (i = l.length ∧ a = b) ∨ l[i]? = some b := by
  rcases Nat.lt_trichotomy i l.length with hi | rfl | hi
  · rw [List.getElem?_append_left hi]
    exact (or_iff_right fun h => Nat.ne_of_lt hi h.1).symm
  · simp
  · rw [List.getElem?_eq_none (by simp; omega), List.getElem?_eq_none (by omega)]
    simp
    omega

theorem lt_length_of_getElem? (h : l[i]? = some a) : i < l.length :=
  (List.getElem?_eq_some_iff.mp h).1

/-- The `k`-th item is as `P` says. -/
def Occurs (P : List α → α → Prop) (l : List α) (k : Nat) : Prop :=
  ∃ a, l[k]? = some a ∧ P (l.take k) a

/-- The `k`-th item is as `P` says, and no later one is as `Q` says. -/
def Since (P Q : List α → α → Prop) (l : List α) (k : Nat) : Prop :=
  Occurs P l k ∧ ∀ j b, k < j → l[j]? = some b → ¬ Q (l.take j) b

theorem Occurs.lt (h : Occurs P l k) : k < l.length := by
  obtain ⟨b, hb, -⟩ := h
  exact lt_length_of_getElem? hb

theorem occurs_append : Occurs P (l ++ [a]) k ↔ (k = l.length ∧ P l a) ∨ Occurs P l k := by
  constructor
  · rintro ⟨b, hb, hP⟩
    rcases getElem?_concat.mp hb with ⟨rfl, rfl⟩ | hb
    · rw [List.take_left] at hP
      exact .inl ⟨rfl, hP⟩
    · rw [List.take_append_of_le_length (Nat.le_of_lt (lt_length_of_getElem? hb))] at hP
      exact .inr ⟨b, hb, hP⟩
  · rintro (⟨rfl, hP⟩ | ⟨b, hb, hP⟩)
    · refine ⟨a, getElem?_concat.mpr (.inl ⟨rfl, rfl⟩), ?_⟩
      rwa [List.take_left]
    · refine ⟨b, getElem?_concat.mpr (.inr hb), ?_⟩
      rwa [List.take_append_of_le_length (Nat.le_of_lt (lt_length_of_getElem? hb))]

/-- **Going on**: the new item may be the one in question, and else it must not end it. -/
theorem since_append :
    Since P Q (l ++ [a]) k ↔ (k = l.length ∧ P l a) ∨ (Since P Q l k ∧ ¬ Q l a) := by
  constructor
  · rintro ⟨hP, hQ⟩
    rcases occurs_append.mp hP with hnew | hold
    · exact .inl hnew
    · refine .inr ⟨⟨hold, fun j b hj hb => ?_⟩, ?_⟩
      · have := hQ j b hj (getElem?_concat.mpr (.inr hb))
        rwa [List.take_append_of_le_length (Nat.le_of_lt (lt_length_of_getElem? hb))] at this
      · have := hQ l.length a hold.lt (getElem?_concat.mpr (.inl ⟨rfl, rfl⟩))
        rwa [List.take_left] at this
  · rintro (⟨rfl, hP⟩ | ⟨⟨hP, hQ⟩, ha⟩)
    · refine ⟨occurs_append.mpr (.inl ⟨rfl, hP⟩), fun j b hj hb => ?_⟩
      -- nothing comes later
      have := lt_length_of_getElem? hb
      rw [List.length_append, List.length_singleton] at this
      omega
    · refine ⟨occurs_append.mpr (.inr hP), fun j b hj hb => ?_⟩
      rcases getElem?_concat.mp hb with ⟨rfl, rfl⟩ | hb
      · rwa [List.take_left]
      · rw [List.take_append_of_le_length (Nat.le_of_lt (lt_length_of_getElem? hb))]
        exact hQ j b hj hb

theorem Occurs.since_append (h : Occurs P l k) :
    Since P Q (l ++ [a]) k ↔ Since P Q l k ∧ ¬ Q l a :=
  EvmBridge.since_append.trans (or_iff_right fun hnew => Nat.ne_of_lt h.lt hnew.1)

end EvmBridge
