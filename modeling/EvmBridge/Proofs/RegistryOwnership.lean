import EvmBridge.Host.Registry
import EvmBridge.Proofs.Since
import EvmBridge.Proofs.SortedMap
import Mathlib.Algebra.Ring.Nat
import Mathlib.Data.List.Induction
import Mathlib.Data.List.Nodup

/-!
# Who owns a registration

Handles of callbacks are taken up again at once. A release that comes late is therefore aimed at
whatever has the handle by then, and does no harm only because it names the instance it was made
for.

Here a registry is used in any order by code that registers instances and releases them, and by
guards. A registration `Stands` if no later operation has ended it, and the registrations that stand
are what the registry has (`Registrations.get?_eq_some_iff`). What a guard can end is its own
registration (`Legal.stands_release_iff`), because nobody else can register the instance it was
given. `Legal.ownership` puts this together with what the other operations do.
-/

namespace EvmBridge

namespace Registry

variable {r : Registry} {h h' : Handle} {id id' : CallbackId}

/-! ## The least free handle -/

/-- A positive handle that is not registered. -/
def Free (r : Registry) (h : Handle) : Prop := 0 < h.toInt ∧ r.get? h = none

/-- Some handle is free. -/
def HasRoom (r : Registry) : Prop := ∃ h, r.Free h

/-- A free handle below all others. -/
def LeastFree (r : Registry) (h : Handle) : Prop := r.Free h ∧ ∀ h', r.Free h' → h.toInt ≤ h'.toInt

/-- How many positive handles are registered. -/
def positives (r : Registry) : Nat := r.entries.keys.countP fun h => 0 < h.toInt

/-- The search passes over registered handles only, and stops at one only if it runs out of
tries. -/
theorem search_spec (r : Registry) (tries c : Nat) :
    c ≤ r.search tries c ∧
      (∀ i, c ≤ i → i < r.search tries c → r.entries.contains (Int32.ofNat i)) ∧
      (r.entries.contains (Int32.ofNat (r.search tries c)) → r.search tries c = c + tries) := by
  induction tries generalizing c with
  | zero => exact ⟨Nat.le_refl c, fun i hi hlt => absurd hi (Nat.not_le.mpr hlt), fun _ => rfl⟩
  | succ tries ih =>
      unfold search
      by_cases hc : r.entries.contains (Int32.ofNat c)
      · rw [if_pos hc]
        obtain ⟨hle, hpassed, hstop⟩ := ih (c + 1)
        refine ⟨by omega, fun i hi hlt => ?_, fun hm => ?_⟩
        · rcases Nat.eq_or_lt_of_le hi with rfl | hi
          · exact hc
          · exact hpassed i hi hlt
        · have := hstop hm
          omega
      · rw [if_neg hc]
        exact ⟨Nat.le_refl c, fun i hi hlt => absurd hi (Nat.not_le.mpr hlt),
          fun hm => absurd hm hc⟩

/-- Handles that are registered from one on are at most as many as there are positive ones. -/
theorem le_positives {n : Nat} (hn : n < 2 ^ 31)
    (hall : ∀ i, 1 ≤ i → i < n + 1 → r.entries.contains (Int32.ofNat i)) : n ≤ r.positives := by
  have hinj : ∀ i ∈ List.range' 1 n, ∀ j ∈ List.range' 1 n,
      Int32.ofNat i = Int32.ofNat j → i = j := by
    intro i hi j hj heq
    have hi' := (List.mem_range'_1.mp hi).2
    have hj' := (List.mem_range'_1.mp hj).2
    have := congrArg Int32.toInt heq
    rw [Int32.toInt_ofNat_of_lt (by omega), Int32.toInt_ofNat_of_lt (by omega)] at this
    omega
  have hnodup : ((List.range' 1 n).map Int32.ofNat).Nodup :=
    List.Nodup.map_on hinj List.nodup_range'
  have hle := OrdMap.length_le_countP_keys (m := r.entries) (p := fun h => 0 < h.toInt) hnodup <| by
    intro h hmem
    obtain ⟨i, hi, rfl⟩ := List.mem_map.mp hmem
    obtain ⟨hpos, hlt⟩ := List.mem_range'_1.mp hi
    refine ⟨hall i hpos (by omega), ?_⟩
    rw [Int32.toInt_ofNat_of_lt (by omega)]
    exact decide_eq_true (by omega)
  rw [List.length_map, List.length_range'] at hle
  exact hle

/-- As long as not all handles are in use, there is one that is free. -/
theorem hasRoom_of_positives (hfew : r.positives < 2 ^ 31 - 1) : r.HasRoom := by
  by_contra hfull
  have hall : ∀ i, 1 ≤ i → i < 2 ^ 31 - 1 + 1 → r.entries.contains (Int32.ofNat i) := by
    intro i hi hlt
    by_contra hnone
    refine hfull ⟨Int32.ofNat i, ?_, Option.not_isSome_iff_eq_none.mp hnone⟩
    rw [Int32.toInt_ofNat_of_lt (by omega)]
    omega
  have := le_positives (by omega) hall
  omega

theorem positives_le_size (r : Registry) : r.positives ≤ r.entries.size :=
  OrdMap.countP_keys_le_size _

/-- The search passes over no free handle. -/
theorem search_le (tries : Nat) (hfree : r.Free h) : (r.search tries 1 : Int) ≤ h.toInt := by
  obtain ⟨-, hpassed, -⟩ := r.search_spec tries 1
  obtain ⟨hpos, hnone⟩ := hfree
  by_contra hlt
  have hh : Int32.ofNat h.toInt.toNat = h := by
    have := h.toInt_lt
    refine Int32.toInt_inj.mp ?_
    rw [Int32.toInt_ofNat_of_lt (by omega)]
    omega
  have hmapped := hpassed h.toInt.toNat (by omega) (by omega)
  rw [hh, OrdMap.contains] at hmapped
  unfold get? at hnone
  rw [hnone] at hmapped
  exact Bool.false_ne_true hmapped

/-- **A registration takes the least free handle**, and finds it among one more handles than there
are positive ones in use. -/
theorem leastFree_lowestFree (hroom : r.HasRoom) :
    r.LeastFree r.lowestFree ∧ r.lowestFree.toInt ≤ r.positives + 1 := by
  obtain ⟨hpos, hpassed, hstop⟩ := r.search_spec (r.entries.size + 1) 1
  have hbelow : ∀ f, r.Free f → (r.search (r.entries.size + 1) 1 : Int) ≤ f.toInt :=
    fun f hf => search_le _ hf
  unfold lowestFree
  generalize r.search (r.entries.size + 1) 1 = m at *
  obtain ⟨f, hf⟩ := hroom
  have hm : m < 2 ^ 31 := by
    have := hbelow f hf
    have := f.toInt_lt
    omega
  have hcount : m - 1 ≤ r.positives :=
    le_positives (by omega) fun i hi hlt => hpassed i hi (by omega)
  have hfree : r.get? (Int32.ofNat m) = none := by
    by_contra hmapped
    have := hstop (Option.isSome_iff_ne_none.mpr hmapped)
    have := r.positives_le_size
    omega
  unfold LeastFree Free
  rw [Int32.toInt_ofNat_of_lt hm]
  exact ⟨⟨⟨by omega, hfree⟩, hbelow⟩, by omega⟩

theorem get?_register (hroom : r.HasRoom) :
    (r.register id).2.1.get? h' = some id' ↔
      (id = id' ∧ r.lowestFree = h') ∨ r.get? h' = some id' := by
  obtain ⟨⟨⟨-, hfree⟩, -⟩, -⟩ := leastFree_lowestFree hroom
  have hget : (r.register id).2.1.get? h' = if h' = r.lowestFree then some id else r.get? h' :=
    OrdMap.get?_insert ..
  rw [hget]
  by_cases hh : h' = r.lowestFree
  · rw [if_pos hh, Option.some_inj, hh, hfree]
    simp
  · rw [if_neg hh]
    simp [Ne.symm hh]

theorem get?_registerLog :
    (r.registerLog id).2.1.get? h' = some id' ↔
      (id = id' ∧ logHandle = h') ∨ (r.get? h' = some id' ∧ h' ≠ logHandle) := by
  have hget : (r.registerLog id).2.1.get? h' = if h' = logHandle then some id else r.get? h' :=
    OrdMap.get?_insert ..
  rw [hget]
  by_cases hh : h' = logHandle
  · rw [if_pos hh, Option.some_inj]
    simp [hh]
  · rw [if_neg hh]
    simp [hh, Ne.symm hh]

theorem unregister_owner (hh : r.get? h = some id) :
    ∃ events, r.unregister h id = (true, ⟨r.entries.erase h⟩, events) := by
  unfold get? at hh
  unfold unregister
  rw [hh]
  exact ⟨_, if_pos rfl⟩

theorem unregister_other (hh : r.get? h ≠ some id) :
    ∃ events, r.unregister h id = (false, r, events) := by
  unfold get? at hh
  unfold unregister
  cases hget : r.entries.get? h with
  | none => exact ⟨_, rfl⟩
  | some owner => exact ⟨_, if_neg fun howner => hh (by rw [hget, howner])⟩

/-- Nothing is released but the handle, and that only for its own instance. -/
theorem get?_unregister :
    (r.unregister h id).2.1.get? h' = some id' ↔
      r.get? h' = some id' ∧ ¬ (h = h' ∧ r.get? h' = some id) := by
  by_cases hh : r.get? h = some id
  · obtain ⟨events, heq⟩ := unregister_owner hh
    have hget : (⟨r.entries.erase h⟩ : Registry).get? h' = if h' = h then none else r.get? h' :=
      OrdMap.get?_erase ..
    rw [heq, hget]
    by_cases hne : h' = h
    · subst hne
      simp [hh]
    · simp [hne, Ne.symm hne]
  · obtain ⟨events, heq⟩ := unregister_other hh
    rw [heq]
    constructor
    · exact fun hget => ⟨hget, by rintro ⟨rfl, hid⟩; exact hh hid⟩
    · exact And.left

end Registry

/-! ## Histories -/

/-- A registry, and the guards that were made with it. -/
structure Registrations where
  registry : Registry := {}
  /-- In the order in which they were made. -/
  guards : List Guard := []

/-- A use of a registry. -/
inductive RegistryOp where
  | register (id : CallbackId)
  | registerLog (id : CallbackId)
  | unregister (h : Handle) (id : CallbackId)
  /-- Makes a guard, which registers an instance. -/
  | guard (id : CallbackId)
  /-- Closes a guard or drops it. A guard that is closed is dropped afterwards. -/
  | release (i : Nat)
  deriving DecidableEq, Repr

/-- The answer to a use. -/
inductive RegistryAnswer where
  | handle (h : Handle)
  | removed (done : Bool)
  | done
  deriving DecidableEq, Repr

namespace RegistryOp

/-- What a use does. -/
def run (op : RegistryOp) (s : Registrations) : RegistryAnswer × Registrations :=
  match op with
  | .register id =>
    let (h, registry, _) := s.registry.register id
    (.handle h, { s with registry })
  | .registerLog id =>
    let (h, registry, _) := s.registry.registerLog id
    (.handle h, { s with registry })
  | .unregister h id =>
    let (removed, registry, _) := s.registry.unregister h id
    (.removed removed, { s with registry })
  | .guard id =>
    let (g, registry, _) := Guard.register s.registry id
    (.handle g.handle, { registry, guards := s.guards ++ [g] })
  | .release i =>
    match s.guards[i]? with
    | none => (.done, s)
    | some g =>
      let (g, registry, _) := g.release s.registry
      (.done, { registry, guards := s.guards.set i g })

/-- A free handle is looked for. -/
def takes : RegistryOp → Bool
  | .register _ | .guard _ => true
  | .registerLog _ | .unregister _ _ | .release _ => false

/-- The instance that is registered. -/
def registers : RegistryOp → Option CallbackId
  | .register id | .registerLog id | .guard id => some id
  | .unregister _ _ | .release _ => none

/-- The use ends the registration of a handle: the owner takes it back, or a guard that was not
released before, or another log bridge replaces it. -/
def Ends (s : Registrations) (h : Handle) : RegistryOp → Prop
  | .unregister h' id => h' = h ∧ s.registry.get? h = some id
  | .registerLog _ => h = Registry.logHandle
  | .release i => ∃ g, s.guards[i]? = some g ∧ g.released = false ∧ g.handle = h ∧
      s.registry.get? h = some g.callback
  | .register _ | .guard _ => False

variable {op : RegistryOp} {s : Registrations} {h : Handle} {id : CallbackId} {i : Nat}
  {g : Guard}

theorem run_unregister (s : Registrations) (h : Handle) (id : CallbackId) :
    (unregister h id).run s =
      if s.registry.get? h = some id then
        (.removed true, { s with registry := ⟨s.registry.entries.erase h⟩ })
      else (.removed false, s) := by
  by_cases hh : s.registry.get? h = some id
  · obtain ⟨events, heq⟩ := Registry.unregister_owner hh
    rw [if_pos hh, run, heq]
  · obtain ⟨events, heq⟩ := Registry.unregister_other hh
    rw [if_neg hh, run, heq]

theorem run_release (hg : s.guards[i]? = some g) :
    (release i).run s = (.done,
      { registry := if g.released then s.registry
          else (s.registry.unregister g.handle g.callback).2.1
        guards := s.guards.set i { g with released := true } }) := by
  have hrun : (release i).run s = (.done,
      { registry := (g.release s.registry).2.1
        guards := s.guards.set i (g.release s.registry).1 }) := by
    unfold run
    simp only [hg]
  rw [hrun]
  unfold Guard.release
  cases hr : g.released with
  | true =>
      have hsame : { g with released := true } = g := by rw [← hr]
      rw [hsame]
      rfl
  | false => rfl

theorem run_takes (op : RegistryOp) (s : Registrations) (ht : op.takes) :
    ∃ id, op.registers = some id ∧ (op.run s).1 = .handle s.registry.lowestFree ∧
      (op.run s).2.registry = ⟨s.registry.entries.insert s.registry.lowestFree id⟩ := by
  cases op with
  | register id => exact ⟨id, rfl, rfl, rfl⟩
  | guard id => exact ⟨id, rfl, rfl, rfl⟩
  | registerLog id => exact absurd ht Bool.false_ne_true
  | unregister h id => exact absurd ht Bool.false_ne_true
  | release i => exact absurd ht Bool.false_ne_true

/-- **What a use does to the registry**: it adds a registration of its own, and of the others those
stand that it does not end. -/
theorem get?_run (hroom : op.takes → s.registry.HasRoom) :
    (op.run s).2.registry.get? h = some id ↔
      (op.registers = some id ∧ (op.run s).1 = .handle h) ∨
        (s.registry.get? h = some id ∧ ¬ op.Ends s h) := by
  cases op with
  | register id' =>
      refine (Registry.get?_register (hroom rfl)).trans ?_
      simp [registers, Ends, run, Registry.register]
  | guard id' =>
      refine (Registry.get?_register (hroom rfl)).trans ?_
      simp [registers, Ends, run, Registry.register, Guard.register]
  | registerLog id' =>
      refine Registry.get?_registerLog.trans ?_
      simp [registers, Ends, run, Registry.registerLog]
  | unregister h' id' =>
      refine Registry.get?_unregister.trans ?_
      simp [registers, Ends]
  | release i =>
      cases hg : s.guards[i]? with
      | none => simp [run, registers, Ends, hg]
      | some g =>
          rw [run_release hg]
          cases hr : g.released with
          | true => simp [registers, Ends, hg, hr]
          | false =>
              refine Registry.get?_unregister.trans ?_
              simp [registers, Ends, hg, hr]

/-- A guard is there before, or it is made now. It is released if it was so before or is released
now. -/
theorem guards_run (hg : (op.run s).2.guards[i]? = some g) :
    (i = s.guards.length ∧ op = .guard g.callback ∧ (op.run s).1 = .handle g.handle ∧
      g.released = false) ∨
    ∃ g', s.guards[i]? = some g' ∧ g.handle = g'.handle ∧ g.callback = g'.callback ∧
      (g.released = true ↔ g'.released = true ∨ op = .release i) := by
  cases op with
  | register id => exact .inr ⟨g, hg, rfl, rfl, by simp⟩
  | registerLog id => exact .inr ⟨g, hg, rfl, rfl, by simp⟩
  | unregister h id => exact .inr ⟨g, hg, rfl, rfl, by simp⟩
  | guard id =>
      replace hg : (s.guards ++ [(Guard.register s.registry id).1])[i]? = some g := hg
      rcases getElem?_concat.mp hg with ⟨rfl, rfl⟩ | hg
      · exact .inl ⟨rfl, rfl, rfl, rfl⟩
      · exact .inr ⟨g, hg, rfl, rfl, by simp⟩
  | release i' =>
      cases hg' : s.guards[i']? with
      | none =>
          have hsame : (release i').run s = (.done, s) := by simp [run, hg']
          rw [hsame] at hg
          refine .inr ⟨g, hg, rfl, rfl, ?_⟩
          have hne : i' ≠ i := by
            rintro rfl
            rw [hg'] at hg
            cases hg
          simp [hne]
      | some g' =>
          rw [run_release hg'] at hg
          replace hg : (s.guards.set i' { g' with released := true })[i]? = some g := hg
          by_cases hi : i' = i
          · subst hi
            rw [List.getElem?_set_self (List.getElem?_eq_some_iff.mp hg').1] at hg
            cases hg
            exact .inr ⟨g', hg', rfl, rfl, by simp⟩
          · rw [List.getElem?_set_ne hi] at hg
            exact .inr ⟨g, hg, rfl, rfl, by simp [hi]⟩

/-- A handle that is looked for is positive. -/
theorem answer_pos (hroom : s.registry.HasRoom) (ht : op.takes) (ha : (op.run s).1 = .handle h) :
    0 < h.toInt := by
  obtain ⟨⟨⟨hpos, -⟩, -⟩, -⟩ := Registry.leastFree_lowestFree hroom
  obtain ⟨id, -, hanswer, -⟩ := op.run_takes s ht
  rw [hanswer] at ha
  cases ha
  exact hpos

end RegistryOp

namespace Registrations

/-- The registrations after some uses of a new registry. -/
def after (ops : List RegistryOp) : Registrations := ops.foldl (fun s op => (op.run s).2) {}

/-- A use, after others, registers an instance under a handle. -/
def Registers (h : Handle) (id : CallbackId) (before : List RegistryOp) (op : RegistryOp) : Prop :=
  op.registers = some id ∧ (op.run (after before)).1 = .handle h

/-- The `k`-th use registered an instance under a handle, and no later one has ended that. -/
def Stands (ops : List RegistryOp) (k : Nat) (h : Handle) (id : CallbackId) : Prop :=
  Since (Registers h id) (fun before op => op.Ends (after before) h) ops k

/-- A use, after others, makes a guard, which is the `i`-th. -/
def Makes (i : Nat) (g : Guard) (before : List RegistryOp) (op : RegistryOp) : Prop :=
  op = .guard g.callback ∧ (op.run (after before)).1 = .handle g.handle ∧
    (after before).guards.length = i

/-- What can be taken for granted about uses of a registry. -/
structure Legal (ops : List RegistryOp) : Prop where
  /-- The instance a guard is made for is its own: nobody else can register it. -/
  own : ∀ {j k : Nat} {id : CallbackId} {op : RegistryOp}, ops[k]? = some (.guard id) →
    ops[j]? = some op → op.registers = some id → j = k
  /-- When a handle is looked for, there is one: not all positive handles are in use. -/
  room : ∀ {k : Nat} {op : RegistryOp}, ops[k]? = some op → op.takes →
    (after (ops.take k)).registry.HasRoom

variable {ops : List RegistryOp} {op : RegistryOp} {h h' : Handle} {id id' : CallbackId}
  {i i' k k' : Nat} {g g' : Guard}

theorem after_append (ops : List RegistryOp) (op : RegistryOp) :
    after (ops ++ [op]) = (op.run (after ops)).2 := by
  simp [after]

theorem Legal.of_append (hl : Legal (ops ++ [op])) :
    Legal ops ∧ (op.takes → (after ops).registry.HasRoom) := by
  have hlast : (ops ++ [op])[ops.length]? = some op := getElem?_concat.mpr (.inl ⟨rfl, rfl⟩)
  refine ⟨⟨fun hk hj hreg => ?_, fun hk ht => ?_⟩, fun ht => ?_⟩
  · exact hl.own (getElem?_concat.mpr (.inr hk)) (getElem?_concat.mpr (.inr hj)) hreg
  · have := hl.room (getElem?_concat.mpr (.inr hk)) ht
    rwa [List.take_append_of_le_length (Nat.le_of_lt (lt_length_of_getElem? hk))] at this
  · have := hl.room hlast ht
    rwa [List.take_left] at this

theorem stands_append : Stands (ops ++ [op]) k h id ↔
    (k = ops.length ∧ Registers h id ops op) ∨ (Stands ops k h id ∧ ¬ op.Ends (after ops) h) :=
  since_append

/-! ## What a registry has -/

/-- **The registrations that stand are what the registry has.** -/
theorem get?_eq_some_iff (hl : Legal ops) :
    (after ops).registry.get? h = some id ↔ ∃ k, Stands ops k h id := by
  induction ops using List.reverseRecOn with
  | nil =>
      constructor
      · intro hget
        cases hget
      · rintro ⟨k, hs⟩
        exact absurd hs.1.lt (Nat.not_lt_zero k)
  | append_singleton ops op ih =>
      obtain ⟨hl, hroom⟩ := hl.of_append
      rw [after_append, RegistryOp.get?_run hroom, ih hl]
      constructor
      · rintro (hnew | ⟨⟨k, hs⟩, he⟩)
        · exact ⟨ops.length, stands_append.mpr (.inl ⟨rfl, hnew⟩)⟩
        · exact ⟨k, stands_append.mpr (.inr ⟨hs, he⟩)⟩
      · rintro ⟨k, hs⟩
        rcases stands_append.mp hs with ⟨-, hnew⟩ | ⟨hs, he⟩
        · exact .inl hnew
        · exact .inr ⟨⟨k, hs⟩, he⟩

/-- A registration that a guard's instance has is the one that the guard made. -/
theorem Legal.unique (hl : Legal ops) (hm : Occurs (Makes i g) ops k)
    (hr : Occurs (Registers h g.callback) ops k') : k' = k := by
  obtain ⟨_, hk, rfl, -⟩ := hm
  obtain ⟨op, hk', hreg, -⟩ := hr
  exact hl.own hk hk' hreg

theorem Legal.handle_pos (hl : Legal ops) (hm : Occurs (Makes i g) ops k) :
    0 < g.handle.toInt := by
  obtain ⟨_, hk, rfl, ha, -⟩ := hm
  exact RegistryOp.answer_pos (hl.room hk rfl) rfl ha

theorem Makes.registers {before : List RegistryOp} (hm : Makes i g before op) :
    Registers g.handle g.callback before op := by
  obtain ⟨rfl, ha, -⟩ := hm
  exact ⟨rfl, ha⟩

/-- One use registers one instance under one handle. -/
theorem registers_inj (hr : Occurs (Registers h id) ops k)
    (hr' : Occurs (Registers h' id') ops k) : h = h' ∧ id = id' := by
  obtain ⟨op, hop, hreg, ha⟩ := hr
  obtain ⟨op', hop', hreg', ha'⟩ := hr'
  obtain rfl : op = op' := Option.some.inj (hop.symm.trans hop')
  exact ⟨RegistryAnswer.handle.inj (ha.symm.trans ha'), Option.some.inj (hreg.symm.trans hreg')⟩

theorem occurs_registers (hm : Occurs (Makes i g) ops k) :
    Occurs (Registers g.handle g.callback) ops k := by
  obtain ⟨op, hk, hm⟩ := hm
  exact ⟨op, hk, hm.registers⟩

/-! ## What guards end -/

/-- A guard, the use that made it, and what became of it: it is released if it was released since,
and its registration stands unless it was released or unregistered since. -/
structure MadeAt (ops : List RegistryOp) (i : Nat) (g : Guard) (k : Nat) : Prop where
  made : Occurs (Makes i g) ops k
  released : g.released = false ↔ Since (Makes i g) (fun _ op => op = .release i) ops k
  stands : Stands ops k g.handle g.callback ↔
    Since (Makes i g)
      (fun _ op => op = .release i ∨ op = .unregister g.handle g.callback) ops k

theorem MadeAt.released_of_stands (hm : MadeAt ops i g k)
    (hs : Stands ops k g.handle g.callback) : g.released = false :=
  hm.released.mpr ⟨hm.made, fun j op hj hop hrel => (hm.stands.mp hs).2 j op hj hop (.inl hrel)⟩

/-- Each guard was made by some use, and became what its history says. -/
def Guarded (ops : List RegistryOp) : Prop :=
  ∀ i g, (after ops).guards[i]? = some g → ∃ k, MadeAt ops i g k

/-- While the registration of a guard stands, it takes the guard to end it, or somebody who has the
instance. -/
theorem MadeAt.ends_iff (hl : Legal ops) (hguarded : Guarded ops)
    (hg : (after ops).guards[i]? = some g) (hm : MadeAt ops i g k)
    (hs : Stands ops k g.handle g.callback) :
    op.Ends (after ops) g.handle ↔ op = .release i ∨ op = .unregister g.handle g.callback := by
  have hget : (after ops).registry.get? g.handle = some g.callback :=
    (get?_eq_some_iff hl).mpr ⟨k, hs⟩
  cases op with
  | register id => simp [RegistryOp.Ends]
  | guard id => simp [RegistryOp.Ends]
  | registerLog id =>
      -- the guard has a positive handle
      have hne : g.handle ≠ Registry.logHandle := fun hzero => by
        have := hl.handle_pos hm.made
        rw [hzero] at this
        exact absurd this (by decide)
      simp [RegistryOp.Ends, hne]
  | unregister h id => simp [RegistryOp.Ends, hget, eq_comm]
  | release i' =>
      constructor
      · rintro ⟨g', hg', -, -, hget'⟩
        -- the guard that is released has the same instance, so it is the same guard
        have hc : g.callback = g'.callback := Option.some.inj (hget.symm.trans hget')
        obtain ⟨k', hm'⟩ := hguarded i' g' hg'
        have hreg := occurs_registers hm'.made
        rw [← hc] at hreg
        obtain rfl := hl.unique hm.made hreg
        obtain ⟨op, hop, -, -, hi⟩ := hm.made
        obtain ⟨op', hop', -, -, hi'⟩ := hm'.made
        exact .inl (by rw [← hi, ← hi'])
      · rintro (heq | heq)
        · cases heq
          exact ⟨g, hg, hm.released_of_stands hs, rfl, hget⟩
        · cases heq

theorem guarded_init : Guarded [] := fun _ _ hg => by cases hg

/-- **Preserved by every use.** -/
theorem guarded_step (hl : Legal (ops ++ [op])) (hguarded : Guarded ops) :
    Guarded (ops ++ [op]) := by
  intro i g hg
  rw [after_append] at hg
  rcases RegistryOp.guards_run hg with ⟨hi, hop, ha, hr⟩ | ⟨g', hg', hh, hc, hr⟩
  · -- it is made now
    have hnew : Makes i g ops op := ⟨hop, ha, hi.symm⟩
    refine ⟨ops.length, occurs_append.mpr (.inl ⟨rfl, hnew⟩), ?_, ?_⟩
    · exact iff_of_true hr (since_append.mpr (.inl ⟨rfl, hnew⟩))
    · exact iff_of_true (stands_append.mpr (.inl ⟨rfl, hnew.registers⟩))
        (since_append.mpr (.inl ⟨rfl, hnew⟩))
  · obtain ⟨k, hm⟩ := hguarded i g' hg'
    have hmakes : Makes i g = Makes i g' := by
      funext before op
      rw [Makes, Makes, hh, hc]
    refine ⟨k, ?_, ?_, ?_⟩
    · rw [hmakes]
      exact occurs_append.mpr (.inr hm.made)
    · rw [hmakes, hm.made.since_append, ← hm.released, ← Bool.not_eq_true, ← Bool.not_eq_true, hr,
        not_or]
    · rw [hmakes, hh, hc, hm.made.since_append, ← hm.stands, Stands,
        (occurs_registers hm.made).since_append]
      exact and_congr_right fun hs => not_congr (hm.ends_iff hl.of_append.1 hguarded hg' hs)

theorem Legal.guarded (hl : Legal ops) : Guarded ops := by
  induction ops using List.reverseRecOn with
  | nil => exact guarded_init
  | append_singleton ops op ih => exact guarded_step hl (ih hl.of_append.1)

/-- **Releasing a guard ends its own registration, if that stands, and no other.** -/
theorem Legal.stands_release_iff (hl : Legal ops) (hg : (after ops).guards[i]? = some g)
    (hm : MadeAt ops i g k) :
    Stands (ops ++ [.release i]) k' h id ↔ Stands ops k' h id ∧ k' ≠ k := by
  have hnone : ¬ (k' = ops.length ∧ Registers h id ops (.release i)) := by
    rintro ⟨-, hreg, -⟩
    cases hreg
  rw [stands_append, or_iff_right hnone]
  refine and_congr_right fun hs => not_congr ⟨?_, ?_⟩
  · -- what it ends has the guard's instance
    rintro ⟨g', hg', -, -, hget⟩
    obtain rfl : g = g' := Option.some.inj (hg.symm.trans hg')
    obtain rfl : id = g.callback :=
      Option.some.inj (((get?_eq_some_iff hl).mpr ⟨k', hs⟩).symm.trans hget)
    exact hl.unique hm.made hs.1
  · rintro rfl
    obtain ⟨rfl, rfl⟩ := registers_inj hs.1 (occurs_registers hm.made)
    exact ⟨g, hg, hm.released_of_stands hs, rfl, (get?_eq_some_iff hl).mpr ⟨k', hs⟩⟩

/-- The registration of a guard that is released is taken out of the registry if it stands. -/
theorem Legal.registry_release (hl : Legal ops) (hg : (after ops).guards[i]? = some g)
    (hm : MadeAt ops i g k) :
    (Stands ops k g.handle g.callback → ((RegistryOp.release i).run (after ops)).2.registry =
      ⟨(after ops).registry.entries.erase g.handle⟩) ∧
    (¬ Stands ops k g.handle g.callback →
      ((RegistryOp.release i).run (after ops)).2.registry = (after ops).registry) := by
  rw [RegistryOp.run_release hg]
  constructor
  · intro hs
    obtain ⟨events, heq⟩ := Registry.unregister_owner ((get?_eq_some_iff hl).mpr ⟨k, hs⟩)
    rw [hm.released_of_stands hs, heq]
    rfl
  · intro hs
    have hother : (after ops).registry.get? g.handle ≠ some g.callback := fun hget => by
      obtain ⟨k', hs'⟩ := (get?_eq_some_iff hl).mp hget
      obtain rfl := hl.unique hm.made hs'.1
      exact hs hs'
    obtain ⟨events, heq⟩ := Registry.unregister_other hother
    rw [heq]
    exact ite_self _

/-! ## The law -/

/-- **The handle of the log is left alone** by all but the log bridge that is installed and the one
that is taken back. -/
theorem Legal.logHandle_kept (hl : Legal (ops ++ [op]))
    (hchange : (op.run (after ops)).2.registry.get? Registry.logHandle ≠
      (after ops).registry.get? Registry.logHandle) :
    (∃ id, op = .registerLog id) ∨ ∃ id, op = .unregister Registry.logHandle id ∧
      (after ops).registry.get? Registry.logHandle = some id := by
  obtain ⟨hbefore, hroom⟩ := hl.of_append
  by_contra hneither
  rw [not_or] at hneither
  obtain ⟨hlog, hunregister⟩ := hneither
  refine hchange (Option.ext fun id => ?_)
  have hnew : ¬ (op.registers = some id ∧ (op.run (after ops)).1 = .handle Registry.logHandle) := by
    rintro ⟨hreg, ha⟩
    have hzero : ∀ ht : op.takes, False := fun ht =>
      absurd (RegistryOp.answer_pos (hroom ht) ht ha) (by decide)
    cases op with
    | register id => exact hzero rfl
    | guard id => exact hzero rfl
    | registerLog id => exact hlog ⟨id, rfl⟩
    | unregister h id => cases hreg
    | release i => cases hreg
  have hends : ¬ op.Ends (after ops) Registry.logHandle := by
    intro hends
    cases op with
    | register id => exact hends
    | guard id => exact hends
    | registerLog id => exact hlog ⟨id, rfl⟩
    | unregister h id =>
        obtain ⟨rfl, hget⟩ := hends
        exact hunregister ⟨id, rfl, hget⟩
    | release i =>
        -- the handle of a guard is positive
        obtain ⟨g, hg, -, hzero, -⟩ := hends
        obtain ⟨k, hm⟩ := hbefore.guarded i g hg
        have := hbefore.handle_pos hm.made
        rw [hzero] at this
        exact absurd this (by decide)
  rw [RegistryOp.get?_run hroom, or_iff_right hnew]
  exact and_iff_left hends

/-- What is true of a registry and its guards after some uses. -/
structure Ownership (ops : List RegistryOp) : Prop where
  /-- A handle leads to the instance that was registered under it, while that registration
  stands. -/
  mapped : ∀ h id, (after ops).registry.get? h = some id ↔ ∃ k, Stands ops k h id
  /-- A registration takes the least free handle, and changes nothing else. -/
  least : (after ops).registry.HasRoom → ∀ op : RegistryOp, op.takes → ∃ h id,
    (after ops).registry.LeastFree h ∧ h.toInt ≤ (after ops).registry.positives + 1 ∧
    op.registers = some id ∧ (op.run (after ops)).1 = .handle h ∧
    (op.run (after ops)).2.registry = ⟨(after ops).registry.entries.insert h id⟩
  /-- The handle of the log is changed by the log bridge only. -/
  log : ∀ op : RegistryOp, Legal (ops ++ [op]) →
    (op.run (after ops)).2.registry.get? Registry.logHandle ≠
      (after ops).registry.get? Registry.logHandle →
    (∃ id, op = .registerLog id) ∨ ∃ id, op = .unregister Registry.logHandle id ∧
      (after ops).registry.get? Registry.logHandle = some id
  /-- A handle is released for the instance it leads to, and else nothing happens. -/
  unregister : ∀ h id, (RegistryOp.unregister h id).run (after ops) =
    if (after ops).registry.get? h = some id then
      (.removed true,
        { after ops with registry := ⟨(after ops).registry.entries.erase h⟩ })
    else (.removed false, after ops)
  /-- A guard ends the registration that it made, if that stands, and no other. -/
  guards : ∀ i g, (after ops).guards[i]? = some g → ∃ k, MadeAt ops i g k ∧
    (Stands ops k g.handle g.callback → ((RegistryOp.release i).run (after ops)).2.registry =
      ⟨(after ops).registry.entries.erase g.handle⟩) ∧
    (¬ Stands ops k g.handle g.callback →
      ((RegistryOp.release i).run (after ops)).2.registry = (after ops).registry) ∧
    ∀ k' h id, Stands (ops ++ [.release i]) k' h id ↔ Stands ops k' h id ∧ k' ≠ k

/-- **Registrations are released by their owners only**, in whatever order a registry is used, with
instances that are registered many times, and whatever handles and instances are named. -/
theorem Legal.ownership (hl : Legal ops) : Ownership ops where
  mapped h id := get?_eq_some_iff hl
  least hroom op ht := by
    obtain ⟨hleast, hcount⟩ := Registry.leastFree_lowestFree hroom
    obtain ⟨id, hreg, hrun⟩ := op.run_takes (after ops) ht
    exact ⟨_, id, hleast, hcount, hreg, hrun⟩
  log op hl' hchange := hl'.logHandle_kept hchange
  unregister h id := RegistryOp.run_unregister ..
  guards i g hg := by
    obtain ⟨k, hm⟩ := hl.guarded i g hg
    obtain ⟨hstands, hends⟩ := hl.registry_release hg hm
    exact ⟨k, hm, hstands, hends, fun k' h id => hl.stands_release_iff hg hm⟩

/-- A guard is closed, and its handle goes to somebody else. When the guard is dropped, the handle
stays with its new owner. -/
theorem Legal.ownership_reassigned :
    let ops := [RegistryOp.guard 0, .release 0, .register 1]
    Legal ops ∧ ((RegistryOp.release 0).run (after ops)).2.registry.get? 1 = some 1 := by
  intro ops
  have hlegal : Legal ops := by
    refine ⟨fun {j k id op} hk hj hreg => ?_, fun {k op} hk ht => ?_⟩
    · rcases k with _ | _ | _ | k <;> cases hk
      rcases j with _ | _ | _ | j <;> cases hj <;> cases hreg
      rfl
    · rcases k with _ | _ | _ | k <;> cases hk
      · exact Registry.hasRoom_of_positives (by decide)
      · cases ht
      · exact Registry.hasRoom_of_positives (by decide)
  refine ⟨hlegal, ?_⟩
  obtain ⟨k, hm, -, hends, -⟩ := hlegal.ownership.guards 0 ⟨1, 0, true⟩ rfl
  have hreleased : ¬ Stands ops k 1 0 := fun hs => by
    have := hm.released_of_stands hs
    cases this
  rw [hends hreleased]
  rfl

end Registrations

end EvmBridge
