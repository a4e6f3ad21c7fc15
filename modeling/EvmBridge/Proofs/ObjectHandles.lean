import EvmBridge.Proofs.Commits
import Mathlib.Data.List.Nodup

/-!
# Requests and handles

Stores, views and tracers are named by handles of their own. A request names the handles it needs,
and is refused before anything is done if one of them leads nowhere (`Service.run_stale`). The
handles themselves are touched by two kinds of requests only: one that opens adds an object behind
all others and answers its handle (`Service.ends_opens`), one that closes takes a handle out
(`Service.ends_closes`).
-/

namespace EvmBridge

/-- What a handle can name. -/
inductive Category where
  | store
  | view
  | tracer
  deriving DecidableEq, Repr

namespace Engine

/-- The handles of a category, each with the place of its object. -/
def table (e : Engine) : Category → HandleTable Nat
  | .store => e.stores.handles
  | .view => e.views.handles
  | .tracer => e.tracers.handles

/-- How many objects of a category there ever were. -/
def count (e : Engine) : Category → Nat
  | .store => e.stores.objects.length
  | .view => e.views.objects.length
  | .tracer => e.tracers.objects.length

/-- Where the object of a handle stands. -/
def find (e : Engine) : Category → Handle → Except EngineError Nat
  | .store => e.stores.find
  | .view => e.views.find
  | .tracer => e.tracers.find

/-- A handle of a category leads nowhere. -/
def stale (e : Engine) (x : Category × Handle) : Bool := ((e.table x.1).get? x.2).isNone

variable {e e' : Engine} {c : Category} {h : Handle} {i : Nat}

theorem find_eq_ok_iff : e.find c h = .ok i ↔ (e.table c).get? h = some i := by
  cases c
  · exact Pool.find_eq_ok_iff
  · exact Pool.find_eq_ok_iff
  · exact Pool.find_eq_ok_iff

theorem find_of_stale (hs : e.stale (c, h)) : e.find c h = .error (.invalidHandle h) := by
  have hnone : (e.table c).get? h = none := Option.isNone_iff_eq_none.mp hs
  cases c
  · exact Pool.find_eq_error_iff.mpr ⟨rfl, hnone⟩
  · exact Pool.find_eq_error_iff.mpr ⟨rfl, hnone⟩
  · exact Pool.find_eq_error_iff.mpr ⟨rfl, hnone⟩

/-- Tables that agree on a handle lead it to the same place. -/
theorem find_congr (h' : (e'.table c).get? h = (e.table c).get? h) : e'.find c h = e.find c h := by
  cases hi : (e.table c).get? h with
  | none =>
      rw [find_of_stale (Option.isNone_iff_eq_none.mpr hi),
        find_of_stale (Option.isNone_iff_eq_none.mpr (h'.trans hi))]
  | some i => rw [find_eq_ok_iff.mpr hi, find_eq_ok_iff.mpr (h'.trans hi)]

/-- There is one object more: it stands behind all others, and this is its handle. -/
structure Adds (e e' : Engine) (c : Category) (h : Handle) : Prop where
  table : (e.table c).add (e.count c) = (h, e'.table c)
  count : e'.count c = e.count c + 1
  others : ∀ c' ≠ c, e'.table c' = e.table c' ∧ e'.count c' = e.count c'

/-- A handle is taken out. Its object stays where it stands. -/
structure Drops (e e' : Engine) (c : Category) (h : Handle) : Prop where
  table : ∃ i, (e.table c).remove? h = some (i, e'.table c)
  count : e'.count c = e.count c
  others : ∀ c' ≠ c, e'.table c' = e.table c' ∧ e'.count c' = e.count c'

/-- Handles are as they were, and so are the places of the objects. -/
def SameHandles (e e' : Engine) : Prop := ∀ c, e'.table c = e.table c ∧ e'.count c = e.count c

/-- The new handle leads behind all others. All other handles lead where they led. -/
theorem Adds.table_get? (hadds : e.Adds e' c h) (c' : Category) (h' : Handle) :
    (e'.table c').get? h' =
      if (c', h') = (c, h) then some (e.count c) else (e.table c').get? h' := by
  by_cases hc : c' = c
  · subst hc
    obtain ⟨rfl, htable⟩ := Prod.mk.inj hadds.table
    rw [← htable, HandleTable.get?, OrdMap.get?_insert]
    simp [HandleTable.get?]
  · rw [(hadds.others c' hc).1, if_neg fun heq => hc (congrArg Prod.fst heq)]

/-- A handle that leads somewhere is the new one or led there before. -/
theorem Adds.of_find (hadds : e.Adds e' c h) {c' : Category} {h' : Handle}
    (hi : e'.find c' h' = .ok i) :
    (c' = c ∧ h' = h ∧ i = e.count c) ∨ e.find c' h' = .ok i := by
  rw [find_eq_ok_iff, hadds.table_get?] at hi
  split at hi
  · rename_i heq
    obtain ⟨hc, hh⟩ := Prod.mk.inj heq
    exact .inl ⟨hc, hh, (Option.some.inj hi).symm⟩
  · exact .inr (find_eq_ok_iff.mpr hi)

theorem Adds.count_le (hadds : e.Adds e' c h) (c' : Category) : e.count c' ≤ e'.count c' := by
  by_cases hc : c' = c
  · subst hc
    rw [hadds.count]
    exact Nat.le_succ _
  · exact Nat.le_of_eq (hadds.others c' hc).2.symm

/-- The handle that is taken out leads nowhere. All other handles lead where they led. -/
theorem Drops.table_get? (hdrops : e.Drops e' c h) (c' : Category) (h' : Handle) :
    (e'.table c').get? h' = if (c', h') = (c, h) then none else (e.table c').get? h' := by
  by_cases hc : c' = c
  · subst hc
    obtain ⟨_, hremoved⟩ := hdrops.table
    obtain ⟨_, _, hpair⟩ := Option.map_eq_some_iff.mp hremoved
    rw [← (Prod.mk.inj hpair).2, HandleTable.get?, OrdMap.get?_erase]
    simp [HandleTable.get?]
  · rw [(hdrops.others c' hc).1, if_neg fun heq => hc (congrArg Prod.fst heq)]

/-- The handle was in use. -/
theorem Drops.exists_find (hdrops : e.Drops e' c h) : ∃ i, e.find c h = .ok i := by
  obtain ⟨_, hremoved⟩ := hdrops.table
  obtain ⟨i, hi, _⟩ := Option.map_eq_some_iff.mp hremoved
  exact ⟨i, find_eq_ok_iff.mpr hi⟩

/-- A handle that leads somewhere led there before. -/
theorem Drops.of_find (hdrops : e.Drops e' c h) {c' : Category} {h' : Handle}
    (hi : e'.find c' h' = .ok i) : e.find c' h' = .ok i := by
  rw [find_eq_ok_iff, hdrops.table_get?] at hi
  split at hi
  · exact absurd hi (by simp)
  · exact find_eq_ok_iff.mpr hi

theorem Drops.find_eq (hdrops : e.Drops e' c h) (c' : Category) (h' : Handle) :
    e'.find c' h' = if (c', h') = (c, h) then .error (.invalidHandle h') else e.find c' h' := by
  have hget := hdrops.table_get? c' h'
  split
  · rename_i heq
    rw [if_pos heq] at hget
    exact find_of_stale (Option.isNone_iff_eq_none.mpr hget)
  · rename_i hne
    rw [if_neg hne] at hget
    exact find_congr hget

/-- One handle more is in use. -/
theorem Adds.exists_find_iff (hadds : e.Adds e' c h) {c' : Category} {h' : Handle} :
    (∃ i, e'.find c' h' = .ok i) ↔ (c', h') = (c, h) ∨ ∃ i, e.find c' h' = .ok i := by
  simp only [find_eq_ok_iff, hadds.table_get?]
  split <;> simp [*]

/-- One handle less is in use. -/
theorem Drops.exists_find_iff (hdrops : e.Drops e' c h) {c' : Category} {h' : Handle} :
    (∃ i, e'.find c' h' = .ok i) ↔ (c', h') ≠ (c, h) ∧ ∃ i, e.find c' h' = .ok i := by
  simp only [find_eq_ok_iff, hdrops.table_get?]
  split <;> simp [*]

theorem Drops.count_eq (hdrops : e.Drops e' c h) (c' : Category) : e'.count c' = e.count c' := by
  by_cases hc : c' = c
  · subst hc
    exact hdrops.count
  · exact (hdrops.others c' hc).2

namespace SameHandles

theorem refl (e : Engine) : e.SameHandles e := fun _ => ⟨rfl, rfl⟩

theorem trans {e'' : Engine} (h : e.SameHandles e') (h' : e'.SameHandles e'') :
    e.SameHandles e'' :=
  fun c => ⟨(h' c).1.trans (h c).1, (h' c).2.trans (h c).2⟩

theorem of_eq (h : e' = e) : e.SameHandles e' := h ▸ refl e

theorem find_eq (hsame : e.SameHandles e') (c : Category) (h : Handle) :
    e'.find c h = e.find c h :=
  find_congr (by rw [(hsame c).1])

/-! Writing to an object moves no handle. -/

theorem setView (w : World) (i : Nat) (v : View) :
    w.engine.SameHandles (w.setView i v).engine := by
  intro c
  cases c <;> first | exact ⟨rfl, rfl⟩ | exact ⟨rfl, List.length_set⟩

theorem setStore (w : World) (i : Nat) (s : Store) :
    w.engine.SameHandles (w.setStore i s).engine := by
  intro c
  cases c <;> first | exact ⟨rfl, rfl⟩ | exact ⟨rfl, List.length_set⟩

theorem setTracer (w : World) (i : Nat) (t : Tracer) :
    w.engine.SameHandles (w.setTracer i t).engine := by
  intro c
  cases c <;> first | exact ⟨rfl, rfl⟩ | exact ⟨rfl, List.length_set⟩

end SameHandles

/-- Every handle leads to an object, and no two handles of a category lead to the same one. -/
structure Distinct (e : Engine) : Prop where
  inRange : ∀ {c : Category} {h : Handle} {i : Nat}, e.find c h = .ok i → i < e.count c
  sole : ∀ {c : Category} {h h' : Handle} {i : Nat}, e.find c h = .ok i → e.find c h' = .ok i →
    h' = h

namespace Distinct

/-- The tables say whether handles are distinct. -/
theorem of_nodup (h : ∀ c, ((e.table c).used.toList.map Prod.snd).Nodup ∧
    ∀ x ∈ (e.table c).used.toList, x.2 < e.count c) : e.Distinct := by
  have hmem : ∀ {c h i}, e.find c h = .ok i → (h, i) ∈ (e.table c).used.toList := fun hi =>
    OrdMap.get?_eq_some_iff.mp (find_eq_ok_iff.mp hi)
  constructor
  · exact fun {c} _ _ hi => (h c).2 _ (hmem hi)
  · intro c h₁ h₂ i hi₁ hi₂
    exact congrArg Prod.fst (List.inj_on_of_nodup_map (h c).1 (hmem hi₂) (hmem hi₁) rfl)

theorem empty : Distinct {} :=
  of_nodup fun c => by cases c <;> exact ⟨.nil, fun _ h => nomatch h⟩

theorem same (he : e.Distinct) (hsame : e.SameHandles e') : e'.Distinct := by
  have hfind : ∀ {c h i}, e'.find c h = .ok i → e.find c h = .ok i := by
    intro c h i hi
    rw [find_eq_ok_iff, (hsame c).1] at hi
    exact find_eq_ok_iff.mpr hi
  refine ⟨fun {c} _ _ hi => ?_, fun hi hi' => he.sole (hfind hi) (hfind hi')⟩
  rw [(hsame c).2]
  exact he.inRange (hfind hi)

/-- An object that is added has a place of its own. -/
theorem adds (he : e.Distinct) (hadds : e.Adds e' c h) : e'.Distinct := by
  constructor
  · intro c' h' i hi
    rcases hadds.of_find hi with ⟨rfl, _, rfl⟩ | hold
    · rw [hadds.count]
      exact Nat.lt_succ_self _
    · exact Nat.lt_of_lt_of_le (he.inRange hold) (hadds.count_le c')
  · intro c' h₁ h₂ i h₁i h₂i
    rcases hadds.of_find h₁i with ⟨rfl, rfl, rfl⟩ | hold₁
    · rcases hadds.of_find h₂i with ⟨_, rfl, _⟩ | hold₂
      · rfl
      · exact absurd (he.inRange hold₂) (Nat.lt_irrefl _)
    · rcases hadds.of_find h₂i with ⟨rfl, _, rfl⟩ | hold₂
      · exact absurd (he.inRange hold₁) (Nat.lt_irrefl _)
      · exact he.sole hold₁ hold₂

theorem drops (he : e.Distinct) (hdrops : e.Drops e' c h) : e'.Distinct := by
  refine ⟨fun {c'} _ _ hi => ?_, fun hi hi' => he.sole (hdrops.of_find hi) (hdrops.of_find hi')⟩
  rw [hdrops.count_eq c']
  exact he.inRange (hdrops.of_find hi)

end Distinct

end Engine

namespace Request

/-- Which kind of object a request opens. -/
def opens : Request → Option Category
  | .openMemory | .openDisk _ => some .store
  | .openView _ => some .view
  | .createTracer _ => some .tracer
  | _ => none

/-- Which handle a request closes. -/
def closes : Request → Option (Category × Handle)
  | .closeStore p => some (.store, p.databaseHandle)
  | .closeView p => some (.view, p.handle)
  | .removeTracer p => some (.tracer, p.tracerHandle)
  | _ => none

/-- The handles of objects that a request names, in the order in which they are looked up. -/
def handles : Request → List (Category × Handle)
  | .openMemory | .openDisk _ | .createTracer _ | .invokeCallback _ => []
  | .closeStore p => [(.store, p.databaseHandle)]
  | .openView p => [(.store, p.databaseHandle)]
  | .closeView p | .finalize p | .intermediateRoot p | .commit p | .snapshot p =>
      [(.view, p.handle)]
  | .isEmpty p | .isExternal p | .balance p | .nonce p | .codeHash p | .code p
  | .accessAccount p => [(.view, p.handle)]
  | .addBalance p | .subBalance p | .setBalance p => [(.view, p.handle)]
  | .setNonce p => [(.view, p.handle)]
  | .setCode p => [(.view, p.handle)]
  | .storage p => [(.view, p.handle)]
  | .setStorage p => [(.view, p.handle)]
  | .revert p => [(.view, p.handle)]
  | .proof p => [(.view, p.handle)]
  | .dump p => [(.view, p.handle)]
  | .accessSetup p => [(.view, p.handle)]
  | .accessSlot p => [(.view, p.handle)]
  | .apply p => (.view, p.handle) :: p.context.tracer.toList.map (.tracer, ·)
  | .removeTracer p | .traceResult p => [(.tracer, p.tracerHandle)]
  | .txStart p => [(.tracer, p.tracerHandle)]
  | .txEnd p => [(.tracer, p.tracerHandle)]
  | .frameStart p => [(.view, p.stateDB), (.tracer, p.tracerHandle)]
  | .frameEnd p => [(.tracer, p.tracerHandle)]
  | .frameEnter p => [(.tracer, p.tracerHandle)]
  | .frameExit p => [(.tracer, p.tracerHandle)]

end Request

namespace Service

open Engine (Adds Drops)

variable {upcall : Upcall} {w w' : World} {r : Request} {c : Category} {h : Handle} {a : Json}

/-! ## Opening -/

theorem ends_addStore (s : Store) :
    Ends (addStore s w) (fun h w' => Adds w.engine w'.engine .store h) fun _ _ => False := by
  refine ⟨rfl, List.length_append, fun c hc => ?_⟩
  cases c <;> first | exact absurd rfl hc | exact ⟨rfl, rfl⟩

theorem ends_addView (v : View) :
    Ends (addView v w) (fun h w' => Adds w.engine w'.engine .view h) fun _ _ => False := by
  refine ⟨rfl, List.length_append, fun c hc => ?_⟩
  cases c <;> first | exact absurd rfl hc | exact ⟨rfl, rfl⟩

theorem ends_addTracer (t : Tracer) :
    Ends (addTracer t w) (fun h w' => Adds w.engine w'.engine .tracer h) fun _ _ => False := by
  refine ⟨rfl, List.length_append, fun c hc => ?_⟩
  cases c <;> first | exact absurd rfl hc | exact ⟨rfl, rfl⟩

/-- What a refused request that opens leaves: a store on disk has made its directory. -/
def Refused (r : Request) (w w' : World) : Prop :=
  w' = w ∨ ∃ p, r = .openDisk p ∧
    w' = { w with files := (Store.openAt w.files p.path p.preimages).2 }

/-- **What opens answers the handle of the object it adds.** What is refused has at most created a
directory. -/
theorem ends_opens (hr : r.opens = some c) :
    Ends (run upcall r w)
      (fun a w' => ∃ h, a = Codec.int32.toJson h ∧ Adds w.engine w'.engine c h)
      fun _ w' => Refused r w w' := by
  cases r with
  | openMemory =>
      cases hr
      refine Act.ends_map.mpr ((ends_addStore .memory).imp ?_ fun _ _ h => h.elim)
      exact fun h w' hadds => ⟨h, rfl, hadds⟩
  | openDisk p =>
      cases hr
      refine Act.ends_map.mpr (Act.ends_ofExcept (fun _ _ => .inr ⟨p, rfl, rfl⟩) fun s _ => ?_)
      refine (ends_addStore s).imp ?_ fun _ _ h => h.elim
      exact fun h w' hadds => ⟨h, rfl, hadds⟩
  | openView p =>
      cases hr
      refine Act.ends_map.mpr (Act.ends_ofExcept (fun _ _ => .inl rfl) fun i _ =>
        Act.ends_ofExcept (fun _ _ => .inl rfl) fun accounts _ => ?_)
      refine (ends_addView { store := i, accounts }).imp ?_ fun _ _ h => h.elim
      exact fun h w' hadds => ⟨h, rfl, hadds⟩
  | createTracer options =>
      cases hr
      refine Act.ends_map.mpr (Act.ends_ofExcept (fun _ _ => .inl rfl) fun t _ => ?_)
      refine (ends_addTracer t).imp ?_ fun _ _ h => h.elim
      exact fun h w' hadds => ⟨h, rfl, hadds⟩
  | _ => exact absurd hr (by simp [Request.opens])

/-! ## Closing -/

theorem drops_of_close {α : Type} {p q : Pool α} {e e' : Engine} (hc : p.close h = .ok q)
    (htable : e.table c = p.handles ∧ e'.table c = q.handles)
    (hcount : e.count c = p.objects.length ∧ e'.count c = q.objects.length)
    (others : ∀ c' ≠ c, e'.table c' = e.table c' ∧ e'.count c' = e.count c') : Drops e e' c h := by
  obtain ⟨i, hi⟩ := Pool.remove?_of_close hc
  refine ⟨⟨i, ?_⟩, ?_, others⟩
  · rw [htable.1, htable.2]
    exact hi
  · rw [hcount.1, hcount.2, Pool.objects_close hc]

/-- **What closes takes out the handle it names**, if it leads somewhere. -/
theorem ends_closes (hr : r.closes = some (c, h)) :
    Ends (run upcall r w) (fun _ w' => Drops w.engine w'.engine c h)
      fun f w' => f = .error (.invalidHandle h) ∧ w' = w := by
  have hrefused : ∀ {α : Type} {p : Pool α} {e : EngineError}, p.close h = .error e →
      Fault.error e = .error (.invalidHandle h) ∧ w = w :=
    fun he => ⟨congrArg Fault.error (Pool.invalid_of_close he), rfl⟩
  cases r with
  | closeStore p =>
      cases hr
      refine Act.ends_map.mpr (Act.ends_ofExcept (fun _ => hrefused) fun stores hc => ?_)
      refine drops_of_close hc ⟨rfl, rfl⟩ ⟨rfl, rfl⟩ fun c' hne => ?_
      cases c' <;> first | exact absurd rfl hne | exact ⟨rfl, rfl⟩
  | closeView p =>
      cases hr
      refine Act.ends_map.mpr (Act.ends_ofExcept (fun _ => hrefused) fun views hc => ?_)
      refine drops_of_close hc ⟨rfl, rfl⟩ ⟨rfl, rfl⟩ fun c' hne => ?_
      cases c' <;> first | exact absurd rfl hne | exact ⟨rfl, rfl⟩
  | removeTracer p =>
      cases hr
      refine Act.ends_map.mpr (Act.ends_ofExcept (fun _ => hrefused) fun tracers hc => ?_)
      refine drops_of_close hc ⟨rfl, rfl⟩ ⟨rfl, rfl⟩ fun c' hne => ?_
      cases c' <;> first | exact absurd rfl hne | exact ⟨rfl, rfl⟩
  | _ => exact absurd hr (by simp [Request.closes])

/-- A handle in use can be closed. -/
theorem closes_of_find {i : Nat} (hr : r.closes = some (c, h)) (hi : w.engine.find c h = .ok i) :
    ∃ a w', run upcall r w = (.ok a, w') := by
  cases r with
  | closeStore p =>
      cases hr
      have hclose := Pool.close_eq w.engine.stores p.databaseHandle
      rw [show w.engine.stores.find _ = .ok i from hi] at hclose
      exact ⟨_, _, Act.map_ok (Act.bind_ok (Act.ofExcept_ok hclose))⟩
  | closeView p =>
      cases hr
      have hclose := Pool.close_eq w.engine.views p.handle
      rw [show w.engine.views.find _ = .ok i from hi] at hclose
      exact ⟨_, _, Act.map_ok (Act.bind_ok (Act.ofExcept_ok hclose))⟩
  | removeTracer p =>
      cases hr
      have hclose := Pool.close_eq w.engine.tracers p.tracerHandle
      rw [show w.engine.tracers.find _ = .ok i from hi] at hclose
      exact ⟨_, _, Act.map_ok (Act.bind_ok (Act.ofExcept_ok hclose))⟩
  | _ => exact absurd hr (by simp [Request.closes])

/-! ## Handles that lead nowhere -/

section

variable {α ρ : Type} {m : Method α ρ}

/-- A request that first looks up a store goes no further if there is none. -/
theorem stale_store (hs : w.engine.stale (.store, h)) {next : Nat → Act ρ} :
    (reply m <$> (findStore h >>= next)) w = (.error (.error (.invalidHandle h)), w) :=
  Act.map_error (Act.bind_error (Act.ofExcept_error (Engine.find_of_stale hs)))

theorem stale_view (hs : w.engine.stale (.view, h)) {next : Nat → Act ρ} :
    (reply m <$> (findView h >>= next)) w = (.error (.error (.invalidHandle h)), w) :=
  Act.map_error (Act.bind_error (Act.ofExcept_error (Engine.find_of_stale hs)))

theorem stale_tracer (hs : w.engine.stale (.tracer, h)) {next : Nat → Act ρ} :
    (reply m <$> (findTracer h >>= next)) w = (.error (.error (.invalidHandle h)), w) :=
  Act.map_error (Act.bind_error (Act.ofExcept_error (Engine.find_of_stale hs)))

end

/-- A handle is not closed twice. -/
theorem stale_closes (hr : r.closes = some (c, h)) (hnone : (w.engine.table c).get? h = none) :
    run upcall r w = (.error (.error (.invalidHandle h)), w) := by
  have hends : Ends (run upcall r w) (fun _ w' => Drops w.engine w'.engine c h)
      fun f w' => f = .error (.invalidHandle h) ∧ w' = w := ends_closes hr
  rcases hrun : run upcall r w with ⟨f | a, w'⟩
  · obtain ⟨rfl, rfl⟩ := hends.error hrun
    rfl
  · obtain ⟨i, hi⟩ := (hends.ok hrun).table
    rw [HandleTable.remove?, hnone] at hi
    exact absurd hi (by simp)

theorem findView_of_not_stale (hs : ¬ w.engine.stale (.view, h)) :
    ∃ i, findView h w = (.ok i, w) := by
  obtain ⟨i, hi⟩ := Option.ne_none_iff_exists'.mp (mt Option.isNone_iff_eq_none.mpr hs)
  exact ⟨i, Act.ofExcept_ok (Pool.find_eq_ok_iff.mpr hi)⟩

theorem of_find?_singleton {α : Type} {p : α → Bool} {x y : α} (h : [x].find? p = some y) :
    p y ∧ x = y := by
  rw [List.find?_singleton] at h
  split at h
  · cases h
    exact ⟨‹_›, rfl⟩
  · exact absurd h (by simp)

/-- **A handle that leads nowhere stops a request at once.** Of several such handles, the one that
is looked up first is named. -/
theorem run_stale (hs : r.handles.find? w.engine.stale = some (c, h)) :
    run upcall r w = (.error (.error (.invalidHandle h)), w) := by
  cases r with
  | openMemory | openDisk | createTracer | invokeCallback =>
      exact absurd hs (by simp [Request.handles])
  | closeStore p | closeView p | removeTracer p =>
      obtain ⟨hstale, hx⟩ := of_find?_singleton hs
      have hnone := Option.isNone_iff_eq_none.mp hstale
      exact stale_closes (congrArg some hx) hnone
  | openView p =>
      obtain ⟨hstale, hx⟩ := of_find?_singleton hs
      cases hx
      exact stale_store hstale
  | finalize p | intermediateRoot p | commit p | snapshot p | isEmpty p | isExternal p | balance p
  | nonce p | codeHash p | code p | accessAccount p | addBalance p | subBalance p | setBalance p
  | setNonce p | setCode p | storage p | setStorage p | revert p | proof p | dump p | accessSetup p
  | accessSlot p =>
      obtain ⟨hstale, hx⟩ := of_find?_singleton hs
      cases hx
      exact stale_view hstale
  | traceResult p | txStart p | txEnd p | frameEnd p | frameEnter p | frameExit p =>
      obtain ⟨hstale, hx⟩ := of_find?_singleton hs
      cases hx
      exact stale_tracer hstale
  | apply p =>
      by_cases hview : w.engine.stale (.view, p.handle)
      · rw [Request.handles, List.find?_cons_of_pos hview] at hs
        cases hs
        exact stale_view hview
      rw [Request.handles, List.find?_cons_of_neg hview] at hs
      obtain ⟨i, hi⟩ := findView_of_not_stale hview
      cases ht : p.context.tracer with
      | none =>
          rw [ht] at hs
          exact absurd hs (by simp)
      | some t =>
          rw [ht] at hs
          obtain ⟨hstale, hx⟩ := of_find?_singleton hs
          cases hx
          refine Act.map_error ?_
          unfold apply
          rw [Act.bind_ok hi, ht]
          exact Act.bind_error (Act.map_error (Act.ofExcept_error (Engine.find_of_stale hstale)))
  | frameStart p =>
      by_cases hview : w.engine.stale (.view, p.stateDB)
      · rw [Request.handles, List.find?_cons_of_pos hview] at hs
        cases hs
        exact stale_view hview
      rw [Request.handles, List.find?_cons_of_neg hview] at hs
      obtain ⟨hstale, hx⟩ := of_find?_singleton hs
      obtain ⟨i, hi⟩ := findView_of_not_stale hview
      cases hx
      refine Act.map_error ?_
      rw [Act.bind_ok hi]
      exact Act.bind_error (Act.ofExcept_error (Engine.find_of_stale hstale))

end Service

end EvmBridge
