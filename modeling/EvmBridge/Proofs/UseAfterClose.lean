import EvmBridge.Proofs.Answers
import EvmBridge.Proofs.HandleAllocation
import EvmBridge.Proofs.WorldSteps

/-!
# Handles that were closed

A table gives out handles in order, from one upwards, and goes back to the beginning only when the
greatest handle was given out. So in a run that opens no more objects than there are handles, no
handle is given out twice, and a handle that was closed leads nowhere for ever.

`Service.History` is a run with the list of what was opened and closed in it. The list accounts for
the tables completely (`Service.Accounted`): this is what a single opening or closing preserves, and
all else leaves the tables alone. `Service.History.no_use_after_close` reads off what happens to the
requests that name a handle.
-/

namespace EvmBridge

namespace Service

/-! ## Histories -/

/-- What happened to a handle. -/
inductive Entry where
  | opened (c : Category) (h : Handle)
  | closed (c : Category) (h : Handle)
  deriving DecidableEq, Repr

/-- An object of this category was opened. -/
def Entry.opens (c : Category) : Entry → Bool
  | .opened c' _ => c' = c
  | .closed _ _ => false

/-- How often objects of a category were opened. -/
def opens (c : Category) (es : List Entry) : Nat := es.countP (Entry.opens c)

theorem opens_append (c : Category) (es₁ es₂ : List Entry) :
    opens c (es₁ ++ es₂) = opens c es₁ + opens c es₂ := List.countP_append

theorem opens_le_append (c : Category) (es₁ es₂ : List Entry) :
    opens c es₁ ≤ opens c (es₁ ++ es₂) :=
  (List.sublist_append_left es₁ es₂).countP_le

theorem opens_opened (c : Category) (h : Handle) (es : List Entry) :
    opens c (es ++ [.opened c h]) = opens c es + 1 := by
  simp [opens, Entry.opens]

/-- A run, with what was opened and closed in it, earliest first. -/
inductive History (w₀ : World) : List Entry → World → Prop where
  | start : History w₀ [] w₀
  /-- A request opened an object, and answered its handle. -/
  | opened {es : List Entry} {w w' : World} {upcall : Upcall} {r : Request} {c : Category}
      {h : Handle} (hist : History w₀ es w) (hr : r.opens = some c)
      (hrun : run upcall r w = (.ok (Codec.int32.toJson h), w')) :
      History w₀ (es ++ [.opened c h]) w'
  /-- A request closed a handle. -/
  | closed {es : List Entry} {w w' : World} {upcall : Upcall} {r : Request} {c : Category}
      {h : Handle} {a : Json} (hist : History w₀ es w) (hr : r.closes = some (c, h))
      (hrun : run upcall r w = (.ok a, w')) : History w₀ (es ++ [.closed c h]) w'
  /-- Something else happened, that left all handles as they were. -/
  | other {es : List Entry} {w w' : World} (hist : History w₀ es w)
      (hsame : w.engine.SameHandles w'.engine) : History w₀ es w'

variable {w₀ w₁ w₂ w w' : World} {es es₁ es₂ : List Entry} {c : Category} {h : Handle}

theorem History.trans (hist : History w₀ es₁ w₁) (hafter : History w₁ es₂ w) :
    History w₀ (es₁ ++ es₂) w := by
  induction hafter with
  | start => rwa [List.append_nil]
  | opened _ hr hrun ih =>
      rw [← List.append_assoc]
      exact ih.opened hr hrun
  | closed _ hr hrun ih =>
      rw [← List.append_assoc]
      exact ih.closed hr hrun
  | other _ hsame ih => exact ih.other hsame

/-- Whatever changes the world goes on with a history. -/
theorem History.change (hist : History w₀ es w) (hc : w.Change w') :
    ∃ es', History w₀ (es ++ es') w' := by
  have hother : w.engine.SameHandles w'.engine → ∃ es', History w₀ (es ++ es') w' := fun hsame =>
    ⟨[], by rw [List.append_nil]; exact hist.other hsame⟩
  cases hc with
  | elsewhere engine _ => exact hother (.of_eq engine)
  | passed text => exact hother (.of_eq (World.engine_passed text w))
  | starved times => exact hother (.refl _)
  | opened hr hrun =>
      obtain ⟨h, rfl, _⟩ := (ends_opens hr).ok hrun
      exact ⟨_, hist.opened hr hrun⟩
  | closed hr hrun => exact ⟨_, hist.closed hr hrun⟩
  | edited i hv => exact hother (.setView w i _)
  | committed i hs => exact hother ((Engine.SameHandles.setView w i _).trans (.setStore _ _ _))
  | traced i t => exact hother (.setTracer w i t)

theorem History.steady (w : World) (depth : Nat) :
    Steady (Proxy.nested depth) fun w' => ∃ es, History w es w' := by
  refine Proxy.steady_nested ?_ depth
  rintro w₁ w₂ ⟨es, hist⟩ hc
  obtain ⟨es', hist'⟩ := hist.change hc
  exact ⟨es ++ es', hist'⟩

/-- **A call goes on with a history**, whatever it asks for, whether it is answered or refused, and
with callbacks that call back to any depth. -/
theorem History.call (w : World) (depth : Nat) (method : String) (args : Option String) :
    ∃ es, History w es (invoke (Proxy.nested depth) method args w).2 :=
  (invoke_invariant (History.steady w depth).invariant method args ⟨[], .start⟩).world

/-- **No two handles of a category ever lead to the same object**, also when handles are given out
again. -/
theorem History.distinct (hist : History w₀ es w) (hinit : w₀.engine.Distinct) :
    w.engine.Distinct := by
  induction hist with
  | start => exact hinit
  | opened _ hr hrun ih =>
      obtain ⟨_, _, hadds⟩ := (ends_opens hr).ok hrun
      exact ih.adds hadds
  | closed _ hr hrun ih => exact ih.drops ((ends_closes hr).ok hrun)
  | other _ hsame ih => exact ih.same hsame

/-! ## What a history accounts for -/

/-- The table of a category is as its history says: handles were given out from one upwards, the
object of each handle stands right below its number, and those that were closed are gone. -/
structure Accounted (es : List Entry) (e : Engine) (c : Category) : Prop where
  current : (e.table c).current = opens c es
  count : e.count c = opens c es
  get? : ∀ h i, (e.table c).get? h = some i ↔
    h.toInt = i + 1 ∧ i < opens c es ∧ .closed c h ∉ es
  opened : ∀ h : Handle, .opened c h ∈ es → h.toInt ≤ opens c es
  closed : ∀ h : Handle, .closed c h ∈ es → h.toInt ≤ opens c es

theorem toJson_int32_inj {m n : Int32} (h : Codec.int32.toJson m = Codec.int32.toJson n) :
    m = n := by
  have hnum : Json.num (.int m.toInt) = Json.num (.int n.toInt) := h
  exact Int32.toInt_inj.mp (by simpa using hnum)

namespace Accounted

variable {e e' : Engine}

theorem congr (hacc : Accounted es e c) {es' : List Entry}
    (hsame : e'.table c = e.table c ∧ e'.count c = e.count c) (hopens : opens c es' = opens c es)
    (hopened : ∀ h, .opened c h ∈ es' → .opened c h ∈ es)
    (hclosed : ∀ h, .closed c h ∈ es' ↔ .closed c h ∈ es) : Accounted es' e' c := by
  obtain ⟨htable, hcount⟩ := hsame
  refine ⟨?_, ?_, fun h i => ?_, fun h hmem => ?_, fun h hmem => ?_⟩
  · rw [htable, hopens]
    exact hacc.current
  · rw [hcount, hopens]
    exact hacc.count
  · rw [htable, hopens, hclosed]
    exact hacc.get? h i
  · rw [hopens]
    exact hacc.opened h (hopened h hmem)
  · rw [hopens]
    exact hacc.closed h ((hclosed h).mp hmem)

/-- The object that is added gets the next handle, which no history has named so far. -/
theorem handle (hacc : Accounted es e c) (hfew : opens c es < HandleTable.maxHandle)
    (hadds : e.Adds e' c h) :
    h.toInt = opens c es + 1 ∧
      e'.table c =
        { current := opens c es + 1, used := (e.table c).used.insert h (opens c es) } := by
  have hfree : (e.table c).get? (Int32.ofNat (opens c es + 1)) = none := by
    refine Option.eq_none_iff_forall_ne_some.mpr fun i hi => ?_
    obtain ⟨hplace, hi, _⟩ := (hacc.get? _ i).mp hi
    rw [HandleTable.toInt_ofNat hfew] at hplace
    omega
  have hadded := hadds.table
  rw [HandleTable.add_eq _ hacc.current hfew hfree, hacc.count] at hadded
  obtain ⟨rfl, htable⟩ := Prod.mk.inj hadded
  exact ⟨HandleTable.toInt_ofNat hfew, htable.symm⟩

theorem add (hacc : Accounted es e c) (hfew : opens c es < HandleTable.maxHandle)
    (hadds : e.Adds e' c h) : Accounted (es ++ [.opened c h]) e' c := by
  obtain ⟨hh, htable⟩ := hacc.handle hfew hadds
  have hopens := opens_opened c h es
  have hclosed : ∀ h', .closed c h' ∈ es ++ [.opened c h] ↔ .closed c h' ∈ es := by simp
  refine ⟨?_, ?_, fun h' i => ?_, fun h' hmem => ?_, fun h' hmem => ?_⟩
  · rw [htable, hopens]
  · rw [hadds.count, hopens, hacc.count]
  · rw [htable, hopens, hclosed, HandleTable.get?, OrdMap.get?_insert]
    by_cases hne : h' = h
    · -- it was never closed, since it was never given out
      subst hne
      have hnew : .closed c h' ∉ es := fun hmem => by
        have := hacc.closed h' hmem
        omega
      rw [if_pos rfl, Option.some_inj]
      constructor
      · rintro rfl
        exact ⟨hh, Nat.lt_succ_self _, hnew⟩
      · intro hi
        omega
    · rw [if_neg hne]
      refine (hacc.get? h' i).trans (and_congr_right fun hplace => and_congr_left fun _ => ?_)
      have hother : i ≠ opens c es := fun hi => hne (Int32.toInt_inj.mp (by omega))
      omega
  · rw [hopens]
    rcases List.mem_append.mp hmem with hmem | hmem
    · have := hacc.opened h' hmem
      omega
    · cases List.mem_singleton.mp hmem
      omega
  · rw [hopens]
    have := hacc.closed h' ((hclosed h').mp hmem)
    omega

theorem drop (hacc : Accounted es e c) (hdrops : e.Drops e' c h) :
    Accounted (es ++ [.closed c h]) e' c := by
  have hopens : opens c (es ++ [.closed c h]) = opens c es := by simp [opens, Entry.opens]
  obtain ⟨i, hi⟩ := hdrops.table
  obtain ⟨j, hj, hpair⟩ := Option.map_eq_some_iff.mp hi
  have htable := (Prod.mk.inj hpair).2
  refine ⟨?_, ?_, fun h' k => ?_, fun h' hmem => ?_, fun h' hmem => ?_⟩
  · rw [← htable, hopens]
    exact hacc.current
  · rw [hdrops.count, hopens]
    exact hacc.count
  · rw [← htable, hopens, HandleTable.get?, OrdMap.get?_erase]
    have hmem : .closed c h' ∈ es ++ [.closed c h] ↔ .closed c h' ∈ es ∨ h' = h := by simp
    rw [hmem, not_or]
    by_cases hne : h' = h
    · simp [hne]
    · rw [if_neg hne]
      refine (hacc.get? h' k).trans ?_
      simp [hne]
  · rw [hopens]
    exact hacc.opened h' (by simpa using hmem)
  · rw [hopens]
    rcases List.mem_append.mp hmem with hmem | hmem
    · exact hacc.closed h' hmem
    · cases List.mem_singleton.mp hmem
      have := (hacc.get? h j).mp hj
      omega

end Accounted

/-- **A history accounts for the tables**, as long as there are handles enough for what it opens. -/
theorem History.accounted (hinit : w₀.engine = {}) (hist : History w₀ es w)
    (hfew : opens c es ≤ HandleTable.maxHandle) : Accounted es w.engine c := by
  induction hist with
  | start =>
      rw [hinit]
      refine ⟨?_, ?_, fun h i => ?_, fun h hmem => ?_, fun h hmem => ?_⟩
      · cases c <;> rfl
      · cases c <;> rfl
      · cases c <;> simp [Engine.table, HandleTable.get?, opens]
      · exact absurd hmem List.not_mem_nil
      · exact absurd hmem List.not_mem_nil
  | @opened es w w' upcall r c' h hist hr hrun ih =>
      have hacc := ih ((opens_le_append c es _).trans hfew)
      obtain ⟨h', ha, hadds⟩ := (ends_opens hr).ok hrun
      obtain rfl := toJson_int32_inj ha
      by_cases hc : c' = c
      · subst hc
        rw [opens_opened] at hfew
        exact hacc.add hfew hadds
      · refine hacc.congr (hadds.others c (Ne.symm hc)) ?_ (fun h' hmem => ?_) fun h' => ?_
        · simp [opens, Entry.opens, hc]
        · simpa [Ne.symm hc] using hmem
        · simp
  | @closed es w w' upcall r c' h a hist hr hrun ih =>
      have hacc := ih ((opens_le_append c es _).trans hfew)
      have hdrops := (ends_closes hr).ok hrun
      by_cases hc : c' = c
      · subst hc
        exact hacc.drop hdrops
      · refine hacc.congr (hdrops.others c (Ne.symm hc)) ?_ (fun h' hmem => ?_) fun h' => ?_
        · simp [opens, Entry.opens]
        · simpa using hmem
        · simp [Ne.symm hc]
  | other _ hsame ih => exact (ih hfew).congr (hsame c) rfl (fun _ h => h) fun _ => Iff.rfl

/-! ## Requests that come too late -/

variable {upcall : Upcall} {r : Request} {a : Json}

/-- A call that names a handle that leads nowhere is refused. Only the log is told of it. -/
theorem dispatch_stale {method : String} {args : Option String}
    (hread : Request.ofCall method args = .ok r) (hmem : (c, h) ∈ r.handles)
    (hs : w.engine.stale (c, h)) :
    ∃ c' h', r.handles.find? w.engine.stale = some (c', h') ∧
      dispatch upcall method args w = (.error (.error (.invalidHandle h')), w) ∧
      invoke upcall method args w =
        (.ok (Envelope.failure (EngineError.invalidHandle h').message).encode,
          Outgoing.log upcall .debug "call failed" [("method", .str method),
            ("err", .str (EngineError.invalidHandle h').message)] w) := by
  have hsome : (r.handles.find? w.engine.stale).isSome := List.find?_isSome.mpr ⟨_, hmem, hs⟩
  obtain ⟨⟨c', h'⟩, hfirst⟩ := Option.isSome_iff_exists.mp hsome
  have hdispatch : dispatch upcall method args w = (.error (.error (.invalidHandle h')), w) := by
    rw [dispatch_eq hread]
    exact run_stale hfirst
  refine ⟨c', h', hfirst, hdispatch, ?_⟩
  unfold invoke
  rw [Act.bind_ok (Act.attempt_eq hdispatch)]
  rfl

/-- **No use after close.** Take any run from the start, and in it any request that opens an object.
The answer is a positive handle, and none that was given out in this category before. Look again at
any later moment, as long as there are handles enough for all that was opened. If the handle was not
closed since, it leads to the object, and no other handle does. If it was, each call that names it
is refused, nothing is done, and the error names the first handle of the call that leads nowhere.
All this holds of the worlds between any calls, and of those in the middle of a call, for a call
does nothing but go on with the run. -/
theorem History.no_use_after_close (hinit : w₀.engine = {}) (hbefore : History w₀ es₁ w₁)
    (hopens : r.opens = some c) (hrun : run upcall r w₁ = (.ok a, w₂))
    (hafter : History w₂ es₂ w) (hfew : opens c es₁ + 1 + opens c es₂ ≤ HandleTable.maxHandle) :
    (∃ h, a = Codec.int32.toJson h ∧ 0 < h.toInt ∧ (∀ h', .opened c h' ∈ es₁ → h' ≠ h) ∧
      (.closed c h ∉ es₂ → ∀ h', w.engine.find c h' = .ok (w₁.engine.count c) ↔ h' = h) ∧
      (.closed c h ∈ es₂ → ∀ (upcall : Upcall) method args r, Request.ofCall method args = .ok r →
        (c, h) ∈ r.handles → ∃ c' h', r.handles.find? w.engine.stale = some (c', h') ∧
          dispatch upcall method args w = (.error (.error (.invalidHandle h')), w) ∧
          invoke upcall method args w =
            (.ok (Envelope.failure (EngineError.invalidHandle h').message).encode,
              Outgoing.log upcall .debug "call failed" [("method", .str method),
                ("err", .str (EngineError.invalidHandle h').message)] w))) ∧
      ∀ depth method args, ∃ es, History w es (invoke (Proxy.nested depth) method args w).2 := by
  refine ⟨?_, History.call w⟩
  obtain ⟨h, rfl, hadds⟩ := (ends_opens hopens).ok hrun
  have hacc₁ : Accounted es₁ w₁.engine c := hbefore.accounted hinit (by omega)
  obtain ⟨hh, -⟩ := hacc₁.handle (by omega) hadds
  -- the whole run, up to the moment at which we look
  have hall : opens c ((es₁ ++ [.opened c h]) ++ es₂) = opens c es₁ + 1 + opens c es₂ := by
    rw [opens_append, opens_opened]
  have hacc : Accounted ((es₁ ++ [.opened c h]) ++ es₂) w.engine c :=
    ((hbefore.opened hopens hrun).trans hafter).accounted hinit (by omega)
  have hfind : ∀ h' i, w.engine.find c h' = .ok i ↔ h'.toInt = i + 1 ∧
      i < opens c es₁ + 1 + opens c es₂ ∧ .closed c h' ∉ (es₁ ++ [.opened c h]) ++ es₂ := by
    intro h' i
    rw [Engine.find_eq_ok_iff, hacc.get?, hall]
  refine ⟨h, rfl, by omega, fun h' hmem => ?_, fun hopen h' => ?_, fun hclosed => ?_⟩
  · rintro rfl
    have := hacc₁.opened h' hmem
    omega
  · rw [hfind, hacc₁.count]
    constructor
    · rintro ⟨hh', -, -⟩
      exact Int32.toInt_inj.mp (by omega)
    · rintro rfl
      refine ⟨hh, by omega, fun hmem => ?_⟩
      -- before it was opened it was not closed
      simp only [List.mem_append, List.mem_singleton, reduceCtorEq, or_false] at hmem
      rcases hmem with hmem | hmem
      · have := hacc₁.closed h' hmem
        omega
      · exact hopen hmem
  · intro upcall method args r hread hmem
    refine dispatch_stale hread hmem (Option.isNone_iff_eq_none.mpr ?_)
    refine Option.eq_none_iff_forall_ne_some.mpr fun i hi => ?_
    obtain ⟨-, -, hnever⟩ := (hacc.get? h i).mp hi
    exact hnever (List.mem_append_right _ hclosed)

/-- A view is opened and closed. In between its handle leads to it, afterwards it cannot be closed
again. -/
theorem History.no_use_after_close_twice :
    let upcall := Proxy.nested 1
    let w₁ := (run upcall .openMemory {}).2
    let w₂ := (run upcall (.openView { databaseHandle := 1, root := .zero }) w₁).2
    let w := (run upcall (.closeView { handle := 1 }) w₂).2
    w₂.engine.find .view 1 = .ok 0 ∧
      dispatch upcall "StateClose" (some (HandleParams.codec.encode { handle := 1 })) w =
        (.error (.error (.invalidHandle 1)), w) := by
  intro upcall w₁ w₂ w
  have hmemory : Request.openMemory.opens = some .store := rfl
  have hbefore : History {} ([] ++ [.opened .store 1]) w₁ :=
    .opened .start hmemory (show run upcall .openMemory {} = _ from rfl)
  have hopens : (Request.openView { databaseHandle := 1, root := .zero }).opens = some .view := rfl
  have hrun : run upcall (.openView { databaseHandle := 1, root := .zero }) w₁ =
      (.ok (Codec.int32.toJson 1), w₂) := rfl
  have hcloses : (Request.closeView { handle := 1 }).closes = some (.view, 1) := rfl
  have hafter : History w₂ ([] ++ [.closed .view 1]) w :=
    .closed .start hcloses (show run upcall (.closeView { handle := 1 }) w₂ = (.ok _, _) from rfl)
  have hcall : ∀ args, Request.ofCall "StateClose" args =
      .closeView <$> Request.params .closeView args := fun _ => rfl
  constructor
  · have hfew : opens .view [.opened .store 1] + 1 + opens .view [] ≤ HandleTable.maxHandle := by
      decide
    obtain ⟨⟨h, ha, _, _, hopen, _⟩, _⟩ :=
      no_use_after_close rfl hbefore hopens hrun .start hfew
    obtain rfl := toJson_int32_inj ha
    exact (hopen List.not_mem_nil 1).mpr rfl
  · have hfew : opens .view [.opened .store 1] + 1 + opens .view [.closed .view 1] ≤
        HandleTable.maxHandle := by
      decide
    obtain ⟨⟨h, ha, _, _, _, hclosed⟩, _⟩ :=
      no_use_after_close rfl hbefore hopens hrun hafter hfew
    obtain rfl := toJson_int32_inj ha
    have hread : Request.ofCall "StateClose" (some (HandleParams.codec.encode { handle := 1 })) =
        .ok (.closeView { handle := 1 }) := by
      rw [hcall]
      exact congrArg (Request.closeView <$> ·)
        (Request.params_encode HandleParams.roundTrips _)
    have hmem : (Category.view, (1 : Handle)) ∈ (Request.closeView { handle := 1 }).handles :=
      List.mem_cons_self
    obtain ⟨c', h', hfirst, hdispatch, _⟩ := hclosed List.mem_cons_self upcall _ _ _ hread hmem
    obtain ⟨_, hx⟩ := of_find?_singleton hfirst
    cases hx
    exact hdispatch

end Service

end EvmBridge
