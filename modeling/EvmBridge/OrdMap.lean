/-!
# Finite maps with ordered keys

A map is its list of bindings in strictly increasing key order, so two maps with the same
bindings are equal, whatever was inserted, replaced or removed on the way. Each operation
is described by what it does to `get?`:

* `get?_insert`, `get?_erase`, `get?_empty`, `get?_filter`;
* `ext_get?`: maps that answer every key alike are equal.
-/

namespace EvmBridge

def Increasing {α β : Type} [Ord α] (l : List (α × β)) : Prop :=
  l.Pairwise fun a b => compare a.1 b.1 = .lt

/-- A finite map from `α` to `β`. -/
structure OrdMap (α β : Type) [Ord α] where
  /-- The bindings, in key order. -/
  toList : List (α × β)
  increasing : Increasing toList

namespace OrdMap

variable {α β γ : Type} [Ord α]

/-! ## Lists of bindings -/

/-- What a list of bindings says about `k`. -/
def lookup (k : α) : List (α × β) → Option β
  | [] => none
  | (k', v) :: rest => if compare k k' = .eq then some v else lookup k rest

/-- The list with `k` bound to `v`, in its place. -/
def insertList (k : α) (v : β) : List (α × β) → List (α × β)
  | [] => [(k, v)]
  | (k', v') :: rest =>
    match compare k k' with
    | .lt => (k, v) :: (k', v') :: rest
    | .eq => (k, v) :: rest
    | .gt => (k', v') :: insertList k v rest

theorem mem_insertList {k : α} {v : β} {l : List (α × β)} {a : α × β}
    (h : a ∈ insertList k v l) : a = (k, v) ∨ a ∈ l := by
  induction l with
  | nil => simpa [insertList] using h
  | cons hd tl ih =>
    obtain ⟨k', v'⟩ := hd
    unfold insertList at h
    split at h
    · simpa using h
    · rcases List.mem_cons.1 h with h | h
      · exact .inl h
      · exact .inr (List.mem_cons_of_mem _ h)
    · rcases List.mem_cons.1 h with h | h
      · exact .inr (h ▸ List.mem_cons_self)
      · rcases ih h with h | h
        · exact .inl h
        · exact .inr (List.mem_cons_of_mem _ h)

variable [Std.TransOrd α] [Std.LawfulEqOrd α]

theorem increasing_insertList {k : α} {v : β} {l : List (α × β)} (h : Increasing l) :
    Increasing (insertList k v l) := by
  induction l with
  | nil => simp [insertList, Increasing]
  | cons hd tl ih =>
    obtain ⟨k', v'⟩ := hd
    have htl : Increasing tl := List.Pairwise.of_cons h
    have hhd := fun a (ha : a ∈ tl) => List.rel_of_pairwise_cons h ha
    unfold insertList
    split
    · next hlt =>
      refine List.Pairwise.cons ?_ h
      intro a ha
      rcases List.mem_cons.1 ha with ha | ha
      · exact ha ▸ hlt
      · exact Std.TransCmp.lt_trans hlt (hhd a ha)
    · next heq =>
      have hk : k = k' := Std.LawfulEqCmp.eq_of_compare heq
      exact List.Pairwise.cons (fun a ha => hk ▸ hhd a ha) htl
    · next hgt =>
      refine List.Pairwise.cons ?_ (ih htl)
      intro a ha
      rcases mem_insertList ha with ha | ha
      · subst ha
        exact Std.OrientedCmp.lt_of_gt hgt
      · exact hhd a ha

omit [Std.TransOrd α] in
theorem lookup_insertList (k k' : α) (v : β) (l : List (α × β)) :
    lookup k' (insertList k v l) = if compare k' k = .eq then some v else lookup k' l := by
  induction l with
  | nil => simp [insertList, lookup]
  | cons hd tl ih =>
    obtain ⟨a, b⟩ := hd
    unfold insertList
    split
    · simp [lookup]
    · next heq =>
      have hk : k = a := Std.LawfulEqCmp.eq_of_compare heq
      subst hk
      by_cases h : compare k' k = .eq <;> simp [lookup, h]
    · next hgt =>
      simp only [lookup, ih]
      by_cases h : compare k' a = .eq
      · have hk : k' = a := Std.LawfulEqCmp.eq_of_compare h
        subst hk
        have hne : compare k' k ≠ .eq := by
          intro h'
          have hk : k' = k := Std.LawfulEqCmp.eq_of_compare h'
          subst hk
          simp [Std.ReflCmp.compare_self] at hgt
        simp [hne]
      · simp [h]

omit [Std.TransOrd α] in
theorem lookup_eq_some_iff {l : List (α × β)} (h : Increasing l) {k : α} {v : β} :
    lookup k l = some v ↔ (k, v) ∈ l := by
  induction l with
  | nil => simp [lookup]
  | cons hd tl ih =>
    obtain ⟨a, b⟩ := hd
    have htl : Increasing tl := List.Pairwise.of_cons h
    have hhd := fun c (hc : c ∈ tl) => List.rel_of_pairwise_cons h hc
    unfold lookup
    by_cases hk : compare k a = .eq
    · have hk' : k = a := Std.LawfulEqCmp.eq_of_compare hk
      subst hk'
      simp only [Std.ReflCmp.compare_self, if_true, Option.some.injEq, List.mem_cons, Prod.mk.injEq,
        true_and]
      constructor
      · exact fun h => .inl h.symm
      · rintro (h | h)
        · exact h.symm
        · have := hhd _ h
          simp [Std.ReflCmp.compare_self] at this
    · simp only [hk, if_false, ih htl, List.mem_cons, Prod.mk.injEq]
      constructor
      · exact .inr
      · rintro (⟨rfl, _⟩ | h)
        · simp [Std.ReflCmp.compare_self] at hk
        · exact h

omit [Std.TransOrd α] [Std.LawfulEqOrd α] in
/-- A key below all others is not bound. -/
theorem lookup_eq_none {l : List (α × β)} {k : α} (h : ∀ e ∈ l, compare k e.1 = .lt) :
    lookup k l = none := by
  induction l with
  | nil => rfl
  | cons e l ih =>
    unfold lookup
    rw [h e List.mem_cons_self]
    simpa using ih fun d hd => h d (List.mem_cons_of_mem _ hd)

/-- Increasing lists that answer every key alike are equal. -/
theorem eq_of_lookup_eq {l₁ l₂ : List (α × β)} (h₁ : Increasing l₁) (h₂ : Increasing l₂)
    (h : ∀ k, lookup k l₁ = lookup k l₂) : l₁ = l₂ := by
  induction l₁ generalizing l₂ with
  | nil =>
    cases l₂ with
    | nil => rfl
    | cons b bs => have := h b.1; simp [lookup, Std.ReflCmp.compare_self] at this
  | cons a as ih =>
    cases l₂ with
    | nil => have := h a.1; simp [lookup, Std.ReflCmp.compare_self] at this
    | cons b bs =>
      have ha : (a.1, a.2) ∈ b :: bs := by
        rw [← lookup_eq_some_iff h₂, ← h, lookup_eq_some_iff h₁]
        exact List.mem_cons_self
      have hb : (b.1, b.2) ∈ a :: as := by
        rw [← lookup_eq_some_iff h₁, h, lookup_eq_some_iff h₂]
        exact List.mem_cons_self
      have hab : a = b := by
        rcases List.mem_cons.1 ha with ha | ha
        · exact ha
        · rcases List.mem_cons.1 hb with hb | hb
          · exact hb.symm
          · have hlt := List.rel_of_pairwise_cons h₁ hb
            have hgt := List.rel_of_pairwise_cons h₂ ha
            have := Std.TransCmp.lt_trans hlt hgt
            simp [Std.ReflCmp.compare_self] at this
      subst hab
      congr 1
      refine ih h₁.of_cons h₂.of_cons fun k => ?_
      have hk := h k
      unfold lookup at hk
      by_cases hka : compare k a.1 = .eq
      · have hka' : k = a.1 := Std.LawfulEqCmp.eq_of_compare hka
        subst hka'
        rw [lookup_eq_none fun c hc => List.rel_of_pairwise_cons h₁ hc,
          lookup_eq_none fun c hc => List.rel_of_pairwise_cons h₂ hc]
      · simpa [hka] using hk

/-! ## Maps -/

def empty : OrdMap α β := ⟨[], List.Pairwise.nil⟩

instance : EmptyCollection (OrdMap α β) := ⟨empty⟩

instance : Inhabited (OrdMap α β) := ⟨empty⟩

def get? (m : OrdMap α β) (k : α) : Option β := lookup k m.toList

def contains (m : OrdMap α β) (k : α) : Bool := (m.get? k).isSome

/-- Binds `k` to `v`, replacing an earlier binding. -/
def insert (m : OrdMap α β) (k : α) (v : β) : OrdMap α β :=
  ⟨insertList k v m.toList, increasing_insertList m.increasing⟩

def filter (p : α → β → Bool) (m : OrdMap α β) : OrdMap α β :=
  ⟨m.toList.filter fun e => p e.1 e.2, m.increasing.filter _⟩

def erase (m : OrdMap α β) (k : α) : OrdMap α β := m.filter fun k' _ => compare k k' ≠ .eq

def size (m : OrdMap α β) : Nat := m.toList.length

def isEmpty (m : OrdMap α β) : Bool := m.toList.isEmpty

def keys (m : OrdMap α β) : List α := m.toList.map Prod.fst

/-- The map of a list of bindings; of two bindings of one key the later one counts. -/
def ofList (l : List (α × β)) : OrdMap α β := l.foldl (fun m e => m.insert e.1 e.2) empty

instance [DecidableEq α] [DecidableEq β] : DecidableEq (OrdMap α β) := fun a b =>
  if h : a.toList = b.toList then
    isTrue (by cases a; cases b; simp_all)
  else isFalse (fun hab => h (hab ▸ rfl))

omit [Std.TransOrd α] [Std.LawfulEqOrd α] in
@[simp] theorem get?_empty (k : α) : (∅ : OrdMap α β).get? k = none := rfl

theorem get?_insert [DecidableEq α] (m : OrdMap α β) (k k' : α) (v : β) :
    (m.insert k v).get? k' = if k' = k then some v else m.get? k' := by
  have := lookup_insertList k k' v m.toList
  by_cases h : k' = k
  · subst h
    simpa [get?, insert, Std.ReflCmp.compare_self] using this
  · have hne : compare k' k ≠ .eq := fun h' => h (Std.LawfulEqCmp.eq_of_compare h')
    simpa [get?, insert, hne, h] using this

omit [Std.TransOrd α] in
theorem get?_eq_some_iff {m : OrdMap α β} {k : α} {v : β} :
    m.get? k = some v ↔ (k, v) ∈ m.toList := lookup_eq_some_iff m.increasing

omit [Std.TransOrd α] in
theorem mem_keys_iff {m : OrdMap α β} {k : α} : k ∈ m.keys ↔ (m.get? k).isSome := by
  simp [keys, Option.isSome_iff_exists, get?_eq_some_iff]

/-- Maps that answer every key alike are equal. -/
theorem ext_get? {m₁ m₂ : OrdMap α β} (h : ∀ k, m₁.get? k = m₂.get? k) : m₁ = m₂ := by
  have := eq_of_lookup_eq m₁.increasing m₂.increasing h
  cases m₁; cases m₂; simp_all

omit [Std.TransOrd α] in
theorem get?_filter (p : α → β → Bool) (m : OrdMap α β) (k : α) :
    (m.filter p).get? k = (m.get? k).filter (p k) := by
  apply Option.ext
  intro v
  rw [get?_eq_some_iff, Option.filter_eq_some_iff, get?_eq_some_iff]
  simp [filter]

omit [Std.TransOrd α] in
theorem get?_erase [DecidableEq α] (m : OrdMap α β) (k k' : α) :
    (m.erase k).get? k' = if k' = k then none else m.get? k' := by
  rw [erase, get?_filter]
  by_cases h : k' = k
  · subst h
    cases m.get? k' <;> simp [Std.ReflCmp.compare_self, Option.filter]
  · have hne : compare k k' ≠ .eq := fun h' => h (Std.LawfulEqCmp.eq_of_compare h').symm
    cases m.get? k' <;> simp [hne, h, Option.filter]

end OrdMap

/-- A finite set with ordered members. -/
abbrev OrdSet (α : Type) [Ord α] := OrdMap α Unit

end EvmBridge
