import EvmBridge.HandleTable
import EvmBridge.Proofs.SortedMap
import Mathlib.Logic.Relation
import Mathlib.Order.WellFounded

/-!
# How handles are given out

`HandleTable.add` looks for a free handle among one more than there are objects. Here the search has
no bound: its counter has 32 bits and goes up by one in each round, from zero again at the end,
until it stands at a handle that is free. `Passes` is a round that meets a handle in use, `Finds` a
whole search.

Handles are ordered by their `distance` ahead of the counter, going around. A round brings every
handle that it does not stand at closer by one (`distance_advance`), and no free handle is passed,
so a search can stop nowhere but at the closest free handle (`finds_iff_closest`), and it stops if
and only if there is one (`exists_finds_iff`). The handles that it passes are all in use and differ
in their distance from the one it stops at, so there are no more of them than objects
(`Closest.distance_le`): the bounded search is long enough.

The counter of a table that objects were added to and removed from stays in its range, wherever the
search takes it (`Reached.current_le`, `counter_nonneg`). `Reached.add_closest` is the whole
account.
-/

namespace EvmBridge.HandleTable

variable {α : Type} {t : HandleTable α} {c c' h h' : Handle} {n tries : Nat}

/-- The tables that come about by adding and removing. -/
inductive Reached : HandleTable α → Prop where
  | empty : Reached {}
  | add {t : HandleTable α} (hreached : Reached t) (a : α) : Reached (t.add a).2
  | remove {t t' : HandleTable α} {h : Handle} {a : α} (hreached : Reached t)
      (hremove : t.remove? h = some (a, t')) : Reached t'

/-- A positive handle that is not in use. -/
def Free (t : HandleTable α) (h : Handle) : Prop := 0 < h.toInt ∧ t.get? h = none

/-! ## The search without a bound -/

/-- The counter as it is kept, in 32 bits. -/
def counter (t : HandleTable α) : Handle := Int32.ofNat t.current

/-- The counter after one more round: at the greatest handle it is put to zero first, and then one
is added. A sum that does not fit has no result. -/
def advance (c : Handle) : Option Handle :=
  let base := if c = Int32.maxValue then 0 else c
  if base.toInt + 1 ≤ maxHandle then some (base + 1) else none

/-- A round that meets a handle in use, so that another one follows. -/
def Passes (t : HandleTable α) (c c' : Handle) : Prop := advance c = some c' ∧ t.get? c' ≠ none

/-- A round that meets a handle that is not in use. -/
def Stops (t : HandleTable α) (c h : Handle) : Prop := advance c = some h ∧ t.get? h = none

/-- A search that ends: some rounds that meet handles in use, and the one that finds `h`. -/
def Finds (t : HandleTable α) (c h : Handle) : Prop :=
  ∃ c', Relation.ReflTransGen t.Passes c c' ∧ t.Stops c' h

theorem toInt_ofNat (hn : n ≤ maxHandle) : (Int32.ofNat n).toInt = n :=
  Int32.toInt_ofNat_of_lt (Nat.lt_of_le_of_lt hn (by decide))

theorem next_le (hn : n ≤ maxHandle) : next n ≤ maxHandle := by
  unfold next maxHandle at *
  split <;> omega

/-- Counting in 32 bits never overflows. -/
theorem advance_ofNat (hn : n ≤ maxHandle) :
    advance (Int32.ofNat n) = some (Int32.ofNat (next n)) := by
  have hint := toInt_ofNat hn
  unfold advance next
  by_cases hmax : n = maxHandle
  · subst hmax
    decide
  · have hne : Int32.ofNat n ≠ Int32.maxValue := by
      intro heq
      rw [heq, Int32.toInt_maxValue] at hint
      unfold maxHandle at hmax
      omega
    have hfits : (Int32.ofNat n).toInt + 1 ≤ maxHandle := by
      omega
    simp only [if_neg hne, if_pos hfits, if_neg hmax]
    rw [Int32.ofNat_add]
    rfl

theorem exists_ofNat (hc : 0 ≤ c.toInt) : ∃ n ≤ maxHandle, Int32.ofNat n = c := by
  have hlt := c.toInt_lt
  have hn : c.toInt.toNat ≤ maxHandle := by
    unfold maxHandle
    omega
  refine ⟨c.toInt.toNat, hn, Int32.toInt_inj.mp ?_⟩
  rw [toInt_ofNat hn]
  omega

/-- A counter that is not negative can always go on. -/
theorem exists_advance (hc : 0 ≤ c.toInt) : ∃ c', advance c = some c' := by
  obtain ⟨n, hn, rfl⟩ := exists_ofNat hc
  exact ⟨_, advance_ofNat hn⟩

theorem toInt_advance (hc : 0 ≤ c.toInt) (hadvance : advance c = some c') :
    c'.toInt = if c.toInt = maxHandle then 1 else c.toInt + 1 := by
  obtain ⟨n, hn, rfl⟩ := exists_ofNat hc
  rw [advance_ofNat hn] at hadvance
  obtain rfl := Option.some.inj hadvance
  rw [toInt_ofNat hn, toInt_ofNat (next_le hn), next]
  split <;> split <;> omega

theorem advance_pos (hc : 0 ≤ c.toInt) (hadvance : advance c = some c') : 0 < c'.toInt := by
  rw [toInt_advance hc hadvance]
  split <;> omega

/-! ## Going around -/

/-- How far ahead of a counter a handle is, going around after the greatest one. The handle that the
counter stands at comes last. -/
def distance (c h : Handle) : Nat :=
  if c.toInt < h.toInt then (h.toInt - c.toInt).toNat
  else (h.toInt + maxHandle - c.toInt).toNat

/-- The first free handle ahead of a counter. -/
def Closest (t : HandleTable α) (c h : Handle) : Prop :=
  t.Free h ∧ ∀ h', t.Free h' → distance c h ≤ distance c h'

theorem distance_pos (hh : 0 < h.toInt) : 0 < distance c h := by
  have := c.toInt_lt
  unfold distance maxHandle
  split <;> omega

/-- The handle of the next round is the one closest ahead. -/
theorem distance_eq_one_iff (hc : 0 ≤ c.toInt) (hadvance : advance c = some c')
    (hh : 0 < h.toInt) : distance c h = 1 ↔ h = c' := by
  rw [← Int32.toInt_inj, toInt_advance hc hadvance]
  have := c.toInt_lt
  have := h.toInt_lt
  unfold distance maxHandle
  split <;> split <;> omega

theorem eq_of_distance_eq (hc : 0 ≤ c.toInt) (hh : 0 < h.toInt) (hh' : 0 < h'.toInt)
    (heq : distance c h = distance c h') : h = h' := by
  have := c.toInt_lt
  have := h.toInt_lt
  have := h'.toInt_lt
  refine Int32.toInt_inj.mp ?_
  unfold distance maxHandle at heq
  split at heq <;> split at heq <;> omega

/-- A round brings all other handles closer by one. -/
theorem distance_advance (hc : 0 ≤ c.toInt) (hadvance : advance c = some c') (hh : 0 < h.toInt)
    (hne : h ≠ c') : distance c h = distance c' h + 1 := by
  have hint := toInt_advance hc hadvance
  rw [Ne, ← Int32.toInt_inj, hint] at hne
  have := c.toInt_lt
  have := h.toInt_lt
  unfold distance
  rw [hint]
  unfold maxHandle at hne ⊢
  split at hne <;> split <;> split <;> omega

/-- No free handle is passed, so the first one stays the first. -/
theorem closest_of_passes (hc : 0 ≤ c.toInt) (hpass : t.Passes c c') :
    t.Closest c h ↔ t.Closest c' h := by
  obtain ⟨hadvance, hused⟩ := hpass
  have hcloser : ∀ f, t.Free f → distance c f = distance c' f + 1 := by
    intro f hf
    refine distance_advance hc hadvance hf.1 ?_
    rintro rfl
    exact hused hf.2
  constructor
  · intro ⟨hfree, hmin⟩
    refine ⟨hfree, fun f hf => ?_⟩
    have := hmin f hf
    rw [hcloser h hfree, hcloser f hf] at this
    omega
  · intro ⟨hfree, hmin⟩
    refine ⟨hfree, fun f hf => ?_⟩
    have := hmin f hf
    rw [hcloser h hfree, hcloser f hf]
    omega

/-- The first free handle is the next one, if that is free. -/
theorem closest_of_stops (hc : 0 ≤ c.toInt) (hstop : t.Stops c c') :
    t.Closest c h ↔ h = c' := by
  obtain ⟨hadvance, hnone⟩ := hstop
  have hpos := advance_pos hc hadvance
  have hone := (distance_eq_one_iff hc hadvance hpos).mpr rfl
  constructor
  · intro ⟨hfree, hmin⟩
    refine (distance_eq_one_iff hc hadvance hfree.1).mp ?_
    have := hmin c' ⟨hpos, hnone⟩
    have := distance_pos (c := c) hfree.1
    omega
  · rintro rfl
    refine ⟨⟨hpos, hnone⟩, fun f hf => ?_⟩
    have := distance_pos (c := c) hf.1
    omega

/-! ## Where the search stops -/

/-- Wherever the search takes the counter, it stays in its range, and the next round does not
overflow. -/
theorem counter_nonneg (hc : 0 ≤ c.toInt) (hrun : Relation.ReflTransGen t.Passes c c') :
    0 ≤ c'.toInt ∧ (advance c').isSome := by
  have hnonneg : 0 ≤ c'.toInt := by
    induction hrun with
    | refl => exact hc
    | tail _ hpass ih => exact Int.le_of_lt (advance_pos ih hpass.1)
  obtain ⟨c'', hadvance⟩ := exists_advance hnonneg
  exact ⟨hnonneg, by rw [hadvance]; rfl⟩

theorem closest_of_run (hc : 0 ≤ c.toInt) (hrun : Relation.ReflTransGen t.Passes c c') :
    t.Closest c h ↔ t.Closest c' h := by
  induction hrun with
  | refl => exact Iff.rfl
  | tail hrun hpass ih => exact ih.trans (closest_of_passes (counter_nonneg hc hrun).1 hpass)

/-- One round towards the first free handle: it is found, or it is closer by one. -/
theorem Closest.round (hc : 0 ≤ c.toInt) (hclosest : t.Closest c h) :
    (t.Stops c h ∧ distance c h = 1) ∨
      ∃ c', t.Passes c c' ∧ 0 ≤ c'.toInt ∧ t.Closest c' h ∧ distance c h = distance c' h + 1 := by
  obtain ⟨c', hadvance⟩ := exists_advance hc
  by_cases hused : t.get? c' = none
  · obtain rfl := (closest_of_stops hc ⟨hadvance, hused⟩).mp hclosest
    exact .inl ⟨⟨hadvance, hused⟩, (distance_eq_one_iff hc hadvance hclosest.1.1).mpr rfl⟩
  · have hpass : t.Passes c c' := ⟨hadvance, hused⟩
    have hne : h ≠ c' := by
      rintro rfl
      exact hused hclosest.1.2
    exact .inr ⟨c', hpass, Int.le_of_lt (advance_pos hc hadvance),
      (closest_of_passes hc hpass).mp hclosest, distance_advance hc hadvance hclosest.1.1 hne⟩

/-- The rounds on the way to the first free handle, from the last one back to the first. The
induction is on how far ahead the handle is. -/
@[elab_as_elim]
theorem Closest.rounds {motive : Handle → Prop} (hc : 0 ≤ c.toInt) (hclosest : t.Closest c h)
    (last : ∀ c, t.Stops c h → distance c h = 1 → motive c)
    (before : ∀ c c', t.Passes c c' → distance c h = distance c' h + 1 → motive c' → motive c) :
    motive c := by
  induction hd : distance c h generalizing c with
  | zero =>
      have := distance_pos (c := c) hclosest.1.1
      omega
  | succ d ih =>
      rcases hclosest.round hc with ⟨hstop, hone⟩ | ⟨c', hpass, hc', hclosest', hcloser⟩
      · exact last c hstop hone
      · exact before c c' hpass hcloser (ih hc' hclosest' (by omega))

/-- The search ends at the first free handle. -/
theorem Closest.finds (hc : 0 ≤ c.toInt) (hclosest : t.Closest c h) : t.Finds c h := by
  refine hclosest.rounds hc ?_ ?_
  · intro c hstop _
    exact ⟨c, .refl, hstop⟩
  · intro c c' hpass _ ⟨last, hrun, hstop⟩
    exact ⟨last, .head hpass hrun, hstop⟩

/-- **The search finds the first free handle and nothing else.** -/
theorem finds_iff_closest (hc : 0 ≤ c.toInt) : t.Finds c h ↔ t.Closest c h := by
  constructor
  · intro ⟨last, hrun, hstop⟩
    refine (closest_of_run hc hrun).mpr ?_
    exact (closest_of_stops (counter_nonneg hc hrun).1 hstop).mpr rfl
  · exact Closest.finds hc

theorem exists_closest (hfree : ∃ h, t.Free h) (c : Handle) : ∃ h, t.Closest c h := by
  obtain ⟨h, hh, hmin⟩ := (measure (distance c)).wf.has_min {h | t.Free h} hfree
  exact ⟨h, hh, fun f hf => Nat.le_of_not_lt (hmin f hf)⟩

/-- **The search ends if and only if some handle is free.** -/
theorem exists_finds_iff (hc : 0 ≤ c.toInt) : (∃ h, t.Finds c h) ↔ ∃ h, t.Free h := by
  constructor
  · intro ⟨h, hfinds⟩
    exact ⟨h, ((finds_iff_closest hc).mp hfinds).1⟩
  · intro hfree
    obtain ⟨h, hclosest⟩ := exists_closest hfree c
    exact ⟨h, hclosest.finds hc⟩

/-! ## The bounded search -/

/-- The handles that are passed on the way. They are told apart by how far they are from where the
search stops. -/
theorem Closest.exists_passed (hc : 0 ≤ c.toInt) (hclosest : t.Closest c h) :
    ∃ l : List Handle, l.length + 1 = distance c h ∧ l.Nodup ∧
      ∀ x ∈ l, t.get? x ≠ none ∧ distance x h < distance c h := by
  refine hclosest.rounds hc ?_ ?_
  · intro c _ hone
    exact ⟨[], hone.symm, List.nodup_nil, fun x hx => absurd hx List.not_mem_nil⟩
  · intro c c' hpass hcloser ⟨l, hlength, hnodup, hpassed⟩
    refine ⟨c' :: l, ?_, List.nodup_cons.mpr ⟨?_, hnodup⟩, ?_⟩
    · rw [List.length_cons, hlength, hcloser]
    · intro hmem
      exact Nat.lt_irrefl _ (hpassed c' hmem).2
    · intro x hx
      rcases List.mem_cons.mp hx with rfl | hx
      · exact ⟨hpass.2, by omega⟩
      · obtain ⟨hused, hlt⟩ := hpassed x hx
        exact ⟨hused, by omega⟩

/-- There are no more handles on the way than objects. -/
theorem Closest.distance_le (hc : 0 ≤ c.toInt) (hclosest : t.Closest c h) :
    distance c h ≤ t.used.size + 1 := by
  obtain ⟨l, hlength, hnodup, hpassed⟩ := hclosest.exists_passed hc
  have := OrdMap.length_le_size hnodup fun x hx => Option.isSome_iff_ne_none.mpr (hpassed x hx).1
  omega

theorem search_le (hn : n ≤ maxHandle) : t.search tries n ≤ maxHandle := by
  induction tries generalizing n with
  | zero => exact hn
  | succ tries ih =>
      unfold search
      dsimp only
      split
      · exact ih (next_le hn)
      · exact next_le hn

/-- A bound on the rounds does no harm if it is not below the distance. -/
theorem search_eq (hn : n ≤ maxHandle) (hclosest : t.Closest (Int32.ofNat n) h)
    (htries : distance (Int32.ofNat n) h ≤ tries) : Int32.ofNat (t.search tries n) = h := by
  have hc : 0 ≤ (Int32.ofNat n).toInt := by
    rw [toInt_ofNat hn]
    omega
  induction tries generalizing n with
  | zero =>
      have := distance_pos (c := Int32.ofNat n) hclosest.1.1
      omega
  | succ tries ih =>
      have hadvance := advance_ofNat hn
      unfold search
      rcases hclosest.round hc with ⟨⟨hfound, hnone⟩, _⟩ | ⟨c', hpass, hc', hclosest', hcloser⟩
      · rw [hadvance] at hfound
        obtain rfl := Option.some.inj hfound
        have hunused : ¬ t.used.contains (Int32.ofNat (next n)) :=
          Option.not_isSome_iff_eq_none.mpr hnone
        exact congrArg Int32.ofNat (if_neg hunused)
      · obtain ⟨hpassed, hused⟩ := hpass
        rw [hadvance] at hpassed
        obtain rfl := Option.some.inj hpassed
        have hcontains : t.used.contains (Int32.ofNat (next n)) :=
          Option.isSome_iff_ne_none.mpr hused
        dsimp only
        rw [if_pos hcontains]
        exact ih (next_le hn) hclosest' (by omega) hc'

/-! ## Reached tables -/

/-- Before the table goes around, the next handle is given out if it is free. -/
theorem add_eq (a : α) (hcurrent : t.current = n) (hn : n < maxHandle)
    (hfree : t.get? (Int32.ofNat (n + 1)) = none) :
    t.add a = (Int32.ofNat (n + 1),
      { current := n + 1, used := t.used.insert (Int32.ofNat (n + 1)) a }) := by
  have hnext : next t.current = n + 1 := by
    rw [next, hcurrent, if_neg (Nat.ne_of_lt hn)]
  have hunused : ¬ t.used.contains (Int32.ofNat (n + 1)) := by
    unfold get? at hfree
    rw [OrdMap.contains, hfree]
    exact Bool.false_ne_true
  have hfirst : t.firstFree = n + 1 := by
    unfold firstFree search
    rw [hnext]
    exact if_neg hunused
  unfold add
  rw [hfirst]

theorem current_remove {t' : HandleTable α} {a : α} (hremove : t.remove? h = some (a, t')) :
    t'.current = t.current := by
  obtain ⟨_, _, heq⟩ := Option.map_eq_some_iff.mp hremove
  rw [← (Prod.mk.inj heq).2]

/-- The counter never leaves its range. -/
theorem Reached.current_le (hreached : t.Reached) : t.current ≤ maxHandle := by
  induction hreached with
  | empty => exact Nat.zero_le _
  | add _ a ih => exact search_le ih
  | remove _ hremove ih =>
      rw [current_remove hremove]
      exact ih

theorem Reached.counter_toInt (hreached : t.Reached) : t.counter.toInt = t.current :=
  toInt_ofNat hreached.current_le

theorem Reached.closest_add (hreached : t.Reached) (hclosest : t.Closest t.counter h) (a : α) :
    (t.add a).1 = h := by
  have hc : 0 ≤ t.counter.toInt := by
    rw [hreached.counter_toInt]
    omega
  exact search_eq hreached.current_le hclosest (hclosest.distance_le hc)

/-- **Handing out a handle ends, and hands out the first free one.** In a table that was made by any
adding and removing, and in which a handle is free:

* the counter is in its range wherever the search takes it, and one more round does not overflow;
* the search without a bound finds the handle that is handed out, and no other;
* that one was free, and all other free handles are farther ahead of the counter, going around after
  the greatest one; the counter stops there;
* it names the new object, and all other handles name what they named before. -/
theorem Reached.add_closest (hreached : t.Reached) (hfree : ∃ h, t.Free h) (a : α) :
    (t.current ≤ maxHandle ∧ t.counter.toInt = t.current ∧
      ∀ c, Relation.ReflTransGen t.Passes t.counter c → 0 ≤ c.toInt ∧ (advance c).isSome) ∧
    (∀ h, t.Finds t.counter h ↔ h = (t.add a).1) ∧
    (t.Free (t.add a).1 ∧ ∀ h, t.Free h → h ≠ (t.add a).1 →
      distance t.counter (t.add a).1 < distance t.counter h) ∧
    ((t.add a).2.current : Int) = (t.add a).1.toInt ∧
    ∀ h, (t.add a).2.get? h = if h = (t.add a).1 then some a else t.get? h := by
  have hc : 0 ≤ t.counter.toInt := by
    rw [hreached.counter_toInt]
    omega
  obtain ⟨first, hfinds⟩ := (exists_finds_iff hc).mpr hfree
  have hclosest := (finds_iff_closest hc).mp hfinds
  have hadd : (t.add a).1 = first := hreached.closest_add hclosest a
  refine ⟨⟨hreached.current_le, hreached.counter_toInt, fun c hrun => counter_nonneg hc hrun⟩,
    fun h => ?_, ⟨hadd ▸ hclosest.1, fun h hh hne => ?_⟩, (hreached.add a).counter_toInt.symm,
    fun h => ?_⟩
  · rw [finds_iff_closest hc]
    constructor
    · intro hclosest'
      exact (hreached.closest_add hclosest' a).symm
    · intro heq
      rw [heq, hadd]
      exact hclosest
  · rw [hadd] at hne ⊢
    refine Nat.lt_of_le_of_ne (hclosest.2 h hh) fun heq => hne ?_
    exact (eq_of_distance_eq hc hclosest.1.1 hh.1 heq).symm
  · exact OrdMap.get?_insert ..

/-! ## Around the end -/

/-- To add an object and remove it again moves the counter on and changes nothing else. -/
theorem Reached.add_remove (hreached : t.Reached) (a : α) (hcurrent : t.current = n)
    (hn : n < maxHandle) (hfree : t.get? (Int32.ofNat (n + 1)) = none) :
    Reached { t with current := n + 1 } := by
  have hadd := add_eq a hcurrent hn hfree
  have hback : (t.used.insert (Int32.ofNat (n + 1)) a).erase (Int32.ofNat (n + 1)) = t.used := by
    refine OrdMap.ext_get? fun k => ?_
    rw [OrdMap.get?_erase, OrdMap.get?_insert]
    split
    · rename_i heq
      rw [heq]
      exact hfree.symm
    · rfl
  have hremove : (t.add a).2.remove? (Int32.ofNat (n + 1)) =
      some (a, { t with current := n + 1 }) := by
    have hget : (t.add a).2.get? (Int32.ofNat (n + 1)) = some a := by
      rw [hadd]
      exact (OrdMap.get?_insert ..).trans (if_pos rfl)
    rw [remove?, hget, hadd]
    simp only [Option.map_some, hback]
  exact .remove (hreached.add a) hremove

/-- An object may keep the first handle while the counter goes on to the last one. -/
theorem reached_first (a : α) (hn : n < maxHandle) :
    Reached { current := n + 1, used := .ofList [(1, a)] } := by
  induction n with
  | zero => exact .add .empty a
  | succ n ih =>
      refine (ih (by omega)).add_remove a rfl hn ?_
      have hne : Int32.ofNat (n + 2) ≠ 1 := by
        intro heq
        have := congrArg Int32.toInt heq
        rw [toInt_ofNat (by omega), Int32.toInt_one] at this
        omega
      exact (OrdMap.get?_insert ..).trans (if_neg hne)

/-- The counter stands at the greatest handle, and the first one is in use: the second one is handed
out. -/
theorem add_closest_around :
    let t : HandleTable String := { current := maxHandle, used := .ofList [(1, "kept")] }
    t.Reached ∧ (∃ h, t.Free h) ∧ (t.add "new").1 = 2 ∧ t.Finds t.counter 2 ∧
      (∀ h, t.Free h → h ≠ 2 → 2 < distance t.counter h) ∧
      (t.add "new").2.get? 1 = some "kept" := by
  intro t
  have hreached : t.Reached := reached_first "kept" (by decide)
  have hfree : ∃ h, t.Free h := ⟨2, by decide, by decide⟩
  obtain ⟨_, hfinds, ⟨_, hclosest⟩, _, hget⟩ := hreached.add_closest hfree "new"
  have hadd : (t.add "new").1 = 2 := by decide
  have hdistance : distance t.counter 2 = 2 := by decide
  rw [hadd, hdistance] at hclosest
  refine ⟨hreached, hfree, hadd, (hfinds 2).mpr hadd.symm, hclosest, ?_⟩
  rw [hget, hadd]
  decide

end EvmBridge.HandleTable
