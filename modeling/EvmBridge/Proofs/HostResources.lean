import EvmBridge.Host.Resource
import EvmBridge.Proofs.HandleCalls

/-!
# Resources mirror objects

The host holds a resource for each object that it opened, and the resource knows whether it was
closed. `Resource.Hosted` follows what a host does, with the resources that it came to hold: it
opens, uses, closes and drops them in any order, also from callbacks while another call is under
way.

`Resource.Mirrors` says how the resources stand to the handles of the module: those that are open
name the handles in use, each handle once, and each of the others was closed once. It is kept by
what is opened (`Mirrors.opened`) and closed (`Mirrors.released`), so it holds whenever all that was
opened and closed is booked as resources (`Mirrors.of_booked`), as long as handles are not given out
again. A host has all of it booked at every moment (`Hosted.booked`), and so it goes on with any
call (`exists_booked`). `Hosted.mirrored` draws the conclusion for the host: what it closes is
there, and nothing else goes with it.
-/

namespace EvmBridge

open Engine (Adds Drops SameHandles)

/-- What a resource of this kind stands for. -/
def ResourceKind.category : ResourceKind → Category
  | .database => .store
  | .state => .view
  | .tracer => .tracer

theorem ResourceKind.exists_category (c : Category) : ∃ kind, ResourceKind.category kind = c := by
  cases c with
  | store => exact ⟨.database, rfl⟩
  | view => exact ⟨.state, rfl⟩
  | tracer => exact ⟨.tracer, rfl⟩

namespace Resource

/-- What the handle of a resource names. -/
def name (r : Resource) : Category × Handle := (r.kind.category, r.handle)

/-! ## Opening -/

/-- What a host can ask for to get a resource. -/
inductive Opening where
  | memory
  | disk (path : Bytes) (preimages : Bool)
  | view (store : Resource) (root : Hash)
  | tracer (options : TraceOptions)

def Opening.run (entry : EntryPoint) : Opening → World → Except GatewayError Resource × World
  | .memory => openMemory entry
  | .disk path preimages => openDisk entry path preimages
  | .view store root => openView entry store root
  | .tracer options => createTracer entry options

variable {r : Resource} {rs : List Resource} {es : List Service.Entry} {e e' : Engine}
  {w w' w₀ : World}

/-- A resource was opened, with a new handle. -/
structure Opened (w : World) (r : Resource) (w' : World) : Prop where
  isOpen : r.isOpen = true
  adds : Adds w.engine w'.engine r.name.1 r.name.2
  history : ∀ {w₀ es}, Service.History w₀ es w →
    Service.History w₀ (es ++ [.opened r.name.1 r.name.2]) w'

/-- There is a resource with a new handle, or the host is told of a failure, and no handle is new
but for what callbacks do. -/
inductive OpensOne (w : World) : Except GatewayError Resource × World → Prop where
  | opened {r : Resource} {w' : World} (h : Opened w r w') : OpensOne w (.ok r, w')
  | failed {x : GatewayError} {w' : World}
      (h : w.Makes Request.KeepsHandles → w.engine.SameHandles w'.engine) :
      OpensOne w (.error x, w')

/-- A call that opens makes a resource of its handle. -/
theorem ofCall_opens {α σ : Type} {m : Method α Handle} {args : Option Json}
    {read : Option String → Except EngineError σ} {request : σ → Request} (kind : ResourceKind)
    (depth : Nat) (hm : m.result = .int32) (hmethod : '\x00' ∉ m.name.toList)
    (hread : ∀ args, Request.ofCall m.name args = request <$> read args)
    (hopens : ∀ p, (request p).opens = some kind.category)
    (hfail : w.buffers.failNext = 0) :
    OpensOne w (ofCall kind
      (Gateway.invoke (EntryPoint.invoke (Proxy.nested depth)) m.result m.name args w)) := by
  have hcall : ∀ r, Request.ofCall m.name (args.map Json.render) = .ok r →
      r.opens = some kind.category := by
    intro r hr
    rw [hread] at hr
    obtain ⟨p, _, rfl⟩ := Request.of_map_ok hr
    exact hopens p
  rw [hm]
  rcases Gateway.opens_cases depth hmethod hcall hfail with
    ⟨h, w', hinvoke, hadds, hhist⟩ | ⟨x, w', hinvoke, hsame⟩
  · rw [hinvoke]
    exact .opened ⟨rfl, hadds, fun hist => (hhist hist).other (.refl _)⟩
  · rw [hinvoke]
    exact .failed hsame

/-- **A host opens one resource at a time, or none.** -/
theorem Opening.run_opens (o : Opening) (depth : Nat) (hfail : w.buffers.failNext = 0) :
    OpensOne w (o.run (EntryPoint.invoke (Proxy.nested depth)) w) := by
  have hmemory : ∀ args, Request.ofCall Method.openMemory.name args =
      (fun _ => .openMemory) <$> Request.noParams args := fun _ => rfl
  have hdisk : ∀ args, Request.ofCall Method.openDisk.name args =
      .openDisk <$> Request.params .openDisk args := fun _ => rfl
  have hview : ∀ args, Request.ofCall Method.openView.name args =
      .openView <$> Request.params .openView args := fun _ => rfl
  have htracer : ∀ args, Request.ofCall Method.createTracer.name args =
      .createTracer <$> Request.params .createTracer args := fun _ => rfl
  cases o with
  | memory =>
      unfold Opening.run openMemory Gateway.call
      exact ofCall_opens .database depth rfl (by decide) hmemory (fun _ => rfl) hfail
  | disk path preimages =>
      show OpensOne w (openDisk _ path preimages w)
      unfold openDisk Gateway.callWith
      cases GatewayError.pathText path with
      | error x => exact .failed fun _ => .refl _
      | ok path =>
          exact ofCall_opens .database depth rfl (by decide) hdisk (fun _ => rfl) hfail
  | view store root =>
      unfold Opening.run openView Gateway.callWith
      exact ofCall_opens .state depth rfl (by decide) hview (fun _ => rfl) hfail
  | tracer options =>
      unfold Opening.run createTracer Gateway.callWith
      exact ofCall_opens .tracer depth rfl (by decide) htracer (fun _ => rfl) hfail

/-! ## Closing -/

/-- What closing a resource asks of the module. One that is open takes one call
(`exists_closedBy`), and for one that is not nothing is called (`close_closed`). -/
def closing (r : Resource) : List Service.Entry :=
  if r.isOpen then [.closed r.name.1 r.name.2] else []

/-- A resource is closed by one call, whatever answers it. -/
structure ClosedBy (r : Resource) (method : String) (args : Json) : Prop where
  crosses : '\x00' ∉ method.toList
  /-- The call asks for what the resource names to be closed. -/
  asks : ∃ req, Request.ofCall method ((some args).map Json.render) = .ok req ∧
    req.closes = some (r.name.1, r.name.2)
  close : ∀ entry w, r.close entry w =
    let told := w.emit { severity := .debug, message := "resource closed", fields := r.fields }
    let (out, w') := Gateway.invoke entry .ignored method (some args) told
    (out, { r with isOpen := false }, w')
  /-- Dropping is closing, up to what is told of it. -/
  drop : ∀ entry w, ∃ events, r.drop entry w =
    ((r.close entry w).2.1, (r.close entry w).2.2.emitAll events)

theorem exists_drop_eq (r : Resource) (entry : EntryPoint) (w : World) :
    ∃ events, r.drop entry w = ((r.close entry w).2.1, (r.close entry w).2.2.emitAll events) := by
  unfold drop
  rcases r.close entry w with ⟨_ | _, r', w'⟩
  · exact ⟨[_], rfl⟩
  · exact ⟨[], rfl⟩

theorem exists_closedBy (hr : r.isOpen = true) : ∃ method args, r.ClosedBy method args := by
  have hstore : ∀ args, Request.ofCall "DatabaseClose" args =
      .closeStore <$> Request.params .closeStore args := fun _ => rfl
  have hview : ∀ args, Request.ofCall "StateClose" args =
      .closeView <$> Request.params .closeView args := fun _ => rfl
  have htracer : ∀ args, Request.ofCall "TracerRemove" args =
      .removeTracer <$> Request.params .removeTracer args := fun _ => rfl
  rcases r with ⟨kind, h, isOpen⟩
  subst hr
  cases kind with
  | database =>
      refine ⟨"DatabaseClose", DatabaseParams.codec.toJson { databaseHandle := h }, by decide,
        ⟨.closeStore { databaseHandle := h }, ?_, rfl⟩, fun _ _ => rfl, exists_drop_eq _⟩
      rw [hstore]
      exact congrArg (Request.closeStore <$> ·) (Request.params_encode DatabaseParams.roundTrips _)
  | state =>
      refine ⟨"StateClose", HandleParams.codec.toJson { handle := h }, by decide,
        ⟨.closeView { handle := h }, ?_, rfl⟩, fun _ _ => rfl, exists_drop_eq _⟩
      rw [hview]
      exact congrArg (Request.closeView <$> ·) (Request.params_encode HandleParams.roundTrips _)
  | tracer =>
      refine ⟨"TracerRemove", TracerParams.codec.toJson { tracerHandle := h }, by decide,
        ⟨.removeTracer { tracerHandle := h }, ?_, rfl⟩, fun _ _ => rfl, exists_drop_eq _⟩
      rw [htracer]
      exact congrArg (Request.removeTracer <$> ·) (Request.params_encode TracerParams.roundTrips _)

/-- A resource that is not open is left alone. Nothing is called. -/
theorem close_closed (hr : r.isOpen = false) (entry : EntryPoint) (w : World) :
    r.close entry w = (.ok (), r, w) := by
  rw [close, hr]
  rfl

theorem drop_closed (hr : r.isOpen = false) (entry : EntryPoint) (w : World) :
    r.drop entry w = (r, w) := by
  rw [drop, close_closed hr]

/-- A resource was closed: its handle is gone, and no other one. The host was not refused, and it
was answered if there was a buffer for the answer. -/
structure Released (w : World) (r : Resource) (out : Except GatewayError Unit) (w' : World) :
    Prop where
  drops : Drops w.engine w'.engine r.name.1 r.name.2
  history : ∀ {w₀ es}, Service.History w₀ es w →
    Service.History w₀ (es ++ [.closed r.name.1 r.name.2]) w'
  not_refused : ∀ m t message, out ≠ .error (.operation m t message)
  answered : w.buffers.failNext = 0 → out = .ok ()

/-- **A resource that is open is closed by one call.** -/
theorem close_open {i : Nat} (hr : r.isOpen = true) (hi : w.engine.find r.name.1 r.name.2 = .ok i)
    (upcall : Upcall) :
    ∃ out w', r.close (EntryPoint.invoke upcall) w = (out, { r with isOpen := false }, w') ∧
      Released w r out w' := by
  obtain ⟨method, args, hmethod, ⟨req, hread, hcloses⟩, hcall, -⟩ := exists_closedBy hr
  let told := w.emit { severity := .debug, message := "resource closed", fields := r.fields }
  obtain ⟨out, w', hinvoke, hdrops, hhist, hnot, hok⟩ :=
    Gateway.closes_cases (w := told) upcall hmethod hread hcloses hi
  refine ⟨out, w', ?_, hdrops, fun hist => hhist (hist.other (.refl _)), hnot, hok⟩
  rw [hcall]
  dsimp only
  rw [hinvoke]

/-- Dropping closes. If that fails, this is told as an event. -/
theorem drop_open {i : Nat} (hr : r.isOpen = true) (hi : w.engine.find r.name.1 r.name.2 = .ok i)
    (upcall : Upcall) :
    ∃ out w', r.drop (EntryPoint.invoke upcall) w = ({ r with isOpen := false }, w') ∧
      Released w r out w' := by
  obtain ⟨out, w', hclose, hreleased⟩ := close_open hr hi upcall
  rw [drop, hclose]
  cases out with
  | ok => exact ⟨_, w', rfl, hreleased⟩
  | error x =>
      exact ⟨_, _, rfl, hreleased.drops, fun hist => (hreleased.history hist).other (.refl _),
        hreleased.not_refused, hreleased.answered⟩

/-- What becomes of a resource that the host is done with. -/
inductive Ended (w : World) (r : Resource) : Resource → World → Prop where
  | released {out : Except GatewayError Unit} {w' : World} (hr : r.isOpen = true)
      (h : Released w r out w') : Ended w r { r with isOpen := false } w'
  | closed (hr : r.isOpen = false) : Ended w r r w

section

variable {upcall : Upcall} {out : Except GatewayError Unit} {r' : Resource}

theorem ended_of_close (hlive : r.isOpen = true → ∃ i, w.engine.find r.name.1 r.name.2 = .ok i)
    (hclose : r.close (EntryPoint.invoke upcall) w = (out, r', w')) : Ended w r r' w' := by
  cases hr : r.isOpen with
  | false =>
      rw [close_closed hr] at hclose
      cases hclose
      exact .closed hr
  | true =>
      obtain ⟨i, hi⟩ := hlive hr
      obtain ⟨_, _, heq, hreleased⟩ := close_open hr hi upcall
      rw [heq] at hclose
      cases hclose
      exact .released hr hreleased

theorem ended_of_drop (hlive : r.isOpen = true → ∃ i, w.engine.find r.name.1 r.name.2 = .ok i)
    (hdrop : r.drop (EntryPoint.invoke upcall) w = (r', w')) : Ended w r r' w' := by
  cases hr : r.isOpen with
  | false =>
      rw [drop_closed hr] at hdrop
      cases hdrop
      exact .closed hr
  | true =>
      obtain ⟨i, hi⟩ := hlive hr
      obtain ⟨_, _, heq, hreleased⟩ := drop_open hr hi upcall
      rw [heq] at hdrop
      cases hdrop
      exact .released hr hreleased

theorem Ended.history (h : Ended w r r' w') (hist : Service.History w₀ es w) :
    Service.History w₀ (es ++ r.closing) w' := by
  cases h with
  | released hr h =>
      rw [closing, if_pos hr]
      exact h.history hist
  | closed hr =>
      rw [closing, hr, if_neg Bool.false_ne_true, List.append_nil]
      exact hist

end

/-! ## Booking -/

/-- What was opened is booked as a resource that is open, and what was closed as a resource that was
open before and is not any more. -/
inductive Books : Service.Entry → List Resource → List Resource → Prop where
  | opened {rs : List Resource} {r : Resource} (hr : r.isOpen = true) :
      Books (.opened r.name.1 r.name.2) rs (rs ++ [r])
  | closed {rs₁ rs₂ : List Resource} {r : Resource} (hr : r.isOpen = true) :
      Books (.closed r.name.1 r.name.2) (rs₁ ++ r :: rs₂) (rs₁ ++ { r with isOpen := false } :: rs₂)

/-- All that was opened and closed is booked, earliest first. -/
inductive Booked (rs : List Resource) : List Service.Entry → List Resource → Prop where
  | none : Booked rs [] rs
  | entry {es : List Service.Entry} {rs₁ rs₂ : List Resource} {x : Service.Entry}
      (booked : Booked rs es rs₁) (h : Books x rs₁ rs₂) : Booked rs (es ++ [x]) rs₂

section

variable {es' : List Service.Entry} {rs₁ rs₂ : List Resource}

theorem Booked.trans (h : Booked rs es rs₁) (hafter : Booked rs₁ es' rs₂) :
    Booked rs (es ++ es') rs₂ := by
  induction hafter with
  | none => rwa [List.append_nil]
  | entry _ hx ih =>
      rw [← List.append_assoc]
      exact ih.entry hx

theorem Booked.of_nil (h : Booked rs [] rs₁) : rs₁ = rs := by
  generalize hes : [] = es at h
  cases h with
  | none => rfl
  | entry => exact absurd hes (by simp)

theorem Booked.of_concat {x : Service.Entry} (h : Booked rs (es ++ [x]) rs₂) :
    ∃ rs₁, Booked rs es rs₁ ∧ Books x rs₁ rs₂ := by
  generalize hes : es ++ [x] = es' at h
  cases h with
  | none => exact absurd hes (by simp)
  | entry booked hx =>
      obtain ⟨rfl, hlast⟩ := List.append_inj' hes rfl
      cases hlast
      exact ⟨_, booked, hx⟩

theorem Ended.booked {r' : Resource} (h : Ended w r r' w') :
    Booked (rs₁ ++ r :: rs₂) r.closing (rs₁ ++ r' :: rs₂) := by
  cases h with
  | released hr _ =>
      rw [closing, if_pos hr]
      exact Booked.none.entry (.closed hr)
  | closed hr =>
      rw [closing, hr, if_neg Bool.false_ne_true]
      exact .none

end

/-! ## Mirrors -/

/-- Resources stand to the module as a mirror: each has a handle of its own, those that are open
have the handles in use, and each other one was closed once. -/
structure Mirrors (rs : List Resource) (es : List Service.Entry) (e : Engine) : Prop where
  distinct : (rs.map name).Nodup
  named : ∀ r ∈ rs, .opened r.name.1 r.name.2 ∈ es
  closed : ∀ r ∈ rs, es.count (.closed r.name.1 r.name.2) = if r.isOpen then 0 else 1
  live : ∀ c h, (∃ i, e.find c h = .ok i) ↔ ∃ r ∈ rs, r.isOpen ∧ r.name = (c, h)

namespace Mirrors

theorem empty : Mirrors [] [] {} where
  distinct := .nil
  named _ h := nomatch h
  closed _ h := nomatch h
  live c h := by
    simp only [Engine.find_eq_ok_iff]
    cases c <;> simp [Engine.table, HandleTable.get?]

theorem same (hm : Mirrors rs es e) (hsame : e.SameHandles e') : Mirrors rs es e' :=
  { hm with live := fun c h => by rw [hsame.find_eq, hm.live] }

theorem perm {rs' : List Resource} (hm : Mirrors rs es e) (hperm : rs.Perm rs') :
    Mirrors rs' es e where
  distinct := (hperm.map name).nodup_iff.mp hm.distinct
  named r hr := hm.named r (hperm.mem_iff.mpr hr)
  closed r hr := hm.closed r (hperm.mem_iff.mpr hr)
  live c h := by simp only [hm.live, hperm.mem_iff]

/-- **Opening is mirrored**: the handle is new to all resources, and nobody has closed it. -/
theorem opened (hm : Mirrors rs es e) (hr : r.isOpen = true)
    (hadds : Adds e e' r.name.1 r.name.2) (hacc : Service.Accounted es e r.name.1)
    (hfew : Service.opens r.name.1 es < HandleTable.maxHandle) :
    Mirrors (r :: rs) (es ++ [.opened r.name.1 r.name.2]) e' := by
  -- handles go upwards, so the history has not named this one
  obtain ⟨hnext, -⟩ := hacc.handle hfew hadds
  have hopened : .opened r.name.1 r.name.2 ∉ es := fun hmem => by
    have := hacc.opened _ hmem
    omega
  have hclosed : .closed r.name.1 r.name.2 ∉ es := fun hmem => by
    have := hacc.closed _ hmem
    omega
  refine ⟨?_, ?_, ?_, fun c h => ?_⟩
  · rw [List.map_cons, List.nodup_cons]
    refine ⟨fun hmem => ?_, hm.distinct⟩
    obtain ⟨r', hr', hname⟩ := List.mem_map.mp hmem
    exact hopened (hname ▸ hm.named r' hr')
  · intro r' hr'
    rcases List.mem_cons.mp hr' with rfl | hr'
    · exact List.mem_append_right _ (List.mem_singleton_self _)
    · exact List.mem_append_left _ (hm.named r' hr')
  · intro r' hr'
    rw [List.count_append, List.count_singleton, if_neg (by simp), Nat.add_zero]
    rcases List.mem_cons.mp hr' with rfl | hr'
    · rw [if_pos hr, List.count_eq_zero_of_not_mem hclosed]
    · exact hm.closed r' hr'
  · rw [hadds.exists_find_iff, hm.live]
    simp only [List.mem_cons, or_and_right, exists_or, exists_eq_left, hr, true_and]
    exact or_congr_left eq_comm

/-- **Closing is mirrored**: one resource is closed, and was not closed before. -/
theorem released (hm : Mirrors (r :: rs) es e) (hr : r.isOpen = true)
    (hdrops : Drops e e' r.name.1 r.name.2) :
    Mirrors ({ r with isOpen := false } :: rs) (es ++ [.closed r.name.1 r.name.2]) e' := by
  -- this is the only resource with this handle
  have hothers : ∀ x ∈ rs, x.name ≠ r.name := fun x hx heq =>
    (List.nodup_cons.mp hm.distinct).1 (heq ▸ List.mem_map_of_mem hx)
  refine ⟨hm.distinct, ?_, ?_, fun c h => ?_⟩
  · intro x hx
    refine List.mem_append_left _ ?_
    rcases List.mem_cons.mp hx with rfl | hx
    · exact hm.named r List.mem_cons_self
    · exact hm.named x (List.mem_cons_of_mem _ hx)
  · intro x hx
    rw [List.count_append]
    rcases List.mem_cons.mp hx with rfl | hx
    · have hnever := hm.closed r List.mem_cons_self
      rw [if_pos hr] at hnever
      show es.count (.closed r.name.1 r.name.2) +
        [Service.Entry.closed r.name.1 r.name.2].count (.closed r.name.1 r.name.2) = 1
      rw [hnever, List.count_singleton_self]
    · have hother : ([.closed r.name.1 r.name.2] : List Service.Entry).count
          (.closed x.name.1 x.name.2) = 0 := by
        refine List.count_eq_zero_of_not_mem fun hmem => hothers x hx ?_
        obtain ⟨hc, hh⟩ := Service.Entry.closed.inj (List.mem_singleton.mp hmem)
        exact Prod.ext hc hh
      rw [hother]
      exact hm.closed x (List.mem_cons_of_mem _ hx)
  · rw [hdrops.exists_find_iff, hm.live]
    simp only [List.mem_cons, or_and_right, exists_or, exists_eq_left, hr, true_and,
      Bool.false_eq_true, false_and, false_or]
    constructor
    · rintro ⟨hne, heq | hx⟩
      · exact absurd heq.symm hne
      · exact hx
    · rintro ⟨x, hx, hxopen, hxname⟩
      exact ⟨fun heq => hothers x hx (hxname.trans heq), .inr ⟨x, hx, hxopen, hxname⟩⟩

theorem find (hm : Mirrors rs es e) (hmem : r ∈ rs) (hr : r.isOpen = true) :
    ∃ i, e.find r.name.1 r.name.2 = .ok i :=
  (hm.live _ _).mpr ⟨r, hmem, hr, rfl⟩

/-- **Resources mirror the handles of the module** if all that was opened and closed from the start
is booked. -/
theorem of_booked (hinit : w₀.engine = {}) (hist : Service.History w₀ es w)
    (hbooked : Booked [] es rs) (hfew : ∀ c, Service.opens c es ≤ HandleTable.maxHandle) :
    Mirrors rs es w.engine := by
  induction hist generalizing rs with
  | start =>
      rw [hbooked.of_nil, hinit]
      exact .empty
  | @opened es w w' upcall req c h hist hreq hrun ih =>
      have hbefore : ∀ c, Service.opens c es ≤ HandleTable.maxHandle := fun c =>
        (Service.opens_le_append c _ _).trans (hfew c)
      obtain ⟨rs₁, hfirst, hlast⟩ := hbooked.of_concat
      obtain ⟨_, ha, hadds⟩ := (Service.ends_opens hreq).ok hrun
      obtain rfl := Service.toJson_int32_inj ha
      cases hlast with
      | @opened _ r hr =>
          have hcount := hfew r.name.1
          rw [Service.opens_opened] at hcount
          have hacc := hist.accounted hinit (hbefore r.name.1)
          have hm := (ih hfirst hbefore).opened hr hadds hacc hcount
          exact hm.perm (List.perm_append_singleton r rs₁).symm
  | @closed es w w' upcall req c h a hist hreq hrun ih =>
      have hbefore : ∀ c, Service.opens c es ≤ HandleTable.maxHandle := fun c =>
        (Service.opens_le_append c _ _).trans (hfew c)
      obtain ⟨rs₁, hfirst, hlast⟩ := hbooked.of_concat
      have hdrops := (Service.ends_closes hreq).ok hrun
      cases hlast with
      | closed hr =>
          have hm := ((ih hfirst hbefore).perm List.perm_middle).released hr hdrops
          exact hm.perm List.perm_middle.symm
  | other _ hsame ih => exact (ih hbooked hfew).same hsame

end Mirrors

/-- **All that is opened and closed can be booked.** What is closed was in use, so a resource that
is open has its handle. -/
theorem exists_booked {es' : List Service.Entry} (hinit : w₀.engine = {})
    (hist : Service.History w₀ es w) (hbooked : Booked [] es rs)
    (hafter : Service.History w es' w')
    (hfew : ∀ c, Service.opens c (es ++ es') ≤ HandleTable.maxHandle) :
    ∃ rs', Booked rs es' rs' := by
  induction hafter with
  | start => exact ⟨rs, .none⟩
  | @opened es' w w' upcall req c h hafter hreq hrun ih =>
      rw [← List.append_assoc] at hfew
      obtain ⟨rs₁, hthen⟩ := ih fun c => (Service.opens_le_append c _ _).trans (hfew c)
      obtain ⟨kind, rfl⟩ := ResourceKind.exists_category c
      let r : Resource := { kind, handle := h }
      have hr : r.isOpen = true := rfl
      exact ⟨rs₁ ++ [r], hthen.entry (.opened hr)⟩
  | @closed es' w w' upcall req c h a hafter hreq hrun ih =>
      rw [← List.append_assoc] at hfew
      have hbefore := fun c => (Service.opens_le_append c _ _).trans (hfew c)
      obtain ⟨rs₁, hthen⟩ := ih hbefore
      have hm := Mirrors.of_booked hinit (hist.trans hafter) (hbooked.trans hthen) hbefore
      have hdrops := (Service.ends_closes hreq).ok hrun
      obtain ⟨r, hmem, hr, hname⟩ := (hm.live c h).mp hdrops.exists_find
      obtain ⟨front, back, rfl⟩ := List.append_of_mem hmem
      cases hname
      exact ⟨_, hthen.entry (.closed hr)⟩
  | other _ _ ih => exact ih hfew

/-! ## Hosts -/

/-- What a host does with resources: the resources that it came to hold, and what was opened and
closed for them, both earliest first. The worlds are those between any calls, and those in the
middle of a call, when a callback has its turn. -/
inductive Hosted (w₀ : World) : List Resource → List Service.Entry → World → Prop where
  | start : Hosted w₀ [] [] w₀
  | opened {rs : List Resource} {es : List Service.Entry} {w w' : World} {r : Resource}
      (o : Opening) (depth : Nat) (hosted : Hosted w₀ rs es w) (hfail : w.buffers.failNext = 0)
      (hrun : o.run (EntryPoint.invoke (Proxy.nested depth)) w = (.ok r, w')) :
      Hosted w₀ (rs ++ [r]) (es ++ [.opened r.name.1 r.name.2]) w'
  | failed {rs : List Resource} {es : List Service.Entry} {w w' : World} {x : GatewayError}
      (o : Opening) (depth : Nat) (hosted : Hosted w₀ rs es w) (hfail : w.buffers.failNext = 0)
      (hmakes : w.Makes Request.KeepsHandles)
      (hrun : o.run (EntryPoint.invoke (Proxy.nested depth)) w = (.error x, w')) :
      Hosted w₀ rs es w'
  /-- A resource is used: any call, with any callbacks, that opens and closes nothing by itself. -/
  | used {ρ : Type} {rs : List Resource} {es : List Service.Entry} {w : World} {method : String}
      {args : Option Json} (c : Codec ρ) (depth : Nat) (hosted : Hosted w₀ rs es w)
      (hmakes : w.Makes Request.KeepsHandles)
      (hr : ∀ r, Request.ofCall method (args.map Json.render) = .ok r → r.KeepsHandles) :
      Hosted w₀ rs es (Gateway.invoke (EntryPoint.invoke (Proxy.nested depth)) c method args w).2
  /-- Any call, or a part of it, in which callbacks open and close in their turn. All that is opened
  becomes a resource, and all that is closed was a resource that was open. -/
  | called {rs rs' : List Resource} {es es' : List Service.Entry} {w w' : World}
      (hosted : Hosted w₀ rs es w) (hist : Service.History w es' w')
      (hbooked : Booked rs es' rs') : Hosted w₀ rs' (es ++ es') w'
  | closed {rs₁ rs₂ : List Resource} {es : List Service.Entry} {w w' : World} {r r' : Resource}
      {out : Except GatewayError Unit} (upcall : Upcall) (hosted : Hosted w₀ (rs₁ ++ r :: rs₂) es w)
      (hclose : r.close (EntryPoint.invoke upcall) w = (out, r', w')) :
      Hosted w₀ (rs₁ ++ r' :: rs₂) (es ++ r.closing) w'
  | dropped {rs₁ rs₂ : List Resource} {es : List Service.Entry} {w w' : World} {r r' : Resource}
      (upcall : Upcall) (hosted : Hosted w₀ (rs₁ ++ r :: rs₂) es w)
      (hdrop : r.drop (EntryPoint.invoke upcall) w = (r', w')) :
      Hosted w₀ (rs₁ ++ r' :: rs₂) (es ++ r.closing) w'
  /-- The host minds its own business: callbacks, buffers, files. -/
  | elsewhere {rs : List Resource} {es : List Service.Entry} {w w' : World}
      (hosted : Hosted w₀ rs es w) (hengine : w'.engine = w.engine) : Hosted w₀ rs es w'

namespace Hosted

/-- What the host asked for is what happened to the handles, and all of it is booked. -/
theorem booked (hinit : w₀.engine = {}) (hosted : Hosted w₀ rs es w)
    (hfew : ∀ c, Service.opens c es ≤ HandleTable.maxHandle) :
    Service.History w₀ es w ∧ Booked [] es rs := by
  induction hosted with
  | start => exact ⟨.start, .none⟩
  | opened o depth _ hfail hrun ih =>
      obtain ⟨hist, hbooked⟩ := ih fun c => (Service.opens_le_append c _ _).trans (hfew c)
      have hopens := o.run_opens depth hfail
      rw [hrun] at hopens
      cases hopens with
      | opened h => exact ⟨h.history hist, hbooked.entry (.opened h.isOpen)⟩
  | failed o depth _ hfail hmakes hrun ih =>
      obtain ⟨hist, hbooked⟩ := ih hfew
      have hopens := o.run_opens depth hfail
      rw [hrun] at hopens
      cases hopens with
      | failed h => exact ⟨hist.other (h hmakes), hbooked⟩
  | used c depth _ hmakes hr ih =>
      obtain ⟨hist, hbooked⟩ := ih hfew
      exact ⟨hist.other (Gateway.invoke_keepsHandles depth c hr hmakes), hbooked⟩
  | called _ hafter hthen ih =>
      obtain ⟨hist, hbooked⟩ := ih fun c => (Service.opens_le_append c _ _).trans (hfew c)
      exact ⟨hist.trans hafter, hbooked.trans hthen⟩
  | closed upcall _ hclose ih =>
      have hbefore := fun c => (Service.opens_le_append c _ _).trans (hfew c)
      obtain ⟨hist, hbooked⟩ := ih hbefore
      have hm := Mirrors.of_booked hinit hist hbooked hbefore
      have hend := ended_of_close (hm.find (List.mem_append_right _ List.mem_cons_self)) hclose
      exact ⟨hend.history hist, hbooked.trans hend.booked⟩
  | dropped upcall _ hdrop ih =>
      have hbefore := fun c => (Service.opens_le_append c _ _).trans (hfew c)
      obtain ⟨hist, hbooked⟩ := ih hbefore
      have hm := Mirrors.of_booked hinit hist hbooked hbefore
      have hend := ended_of_drop (hm.find (List.mem_append_right _ List.mem_cons_self)) hdrop
      exact ⟨hend.history hist, hbooked.trans hend.booked⟩
  | elsewhere _ hengine ih =>
      obtain ⟨hist, hbooked⟩ := ih hfew
      exact ⟨hist.other (.of_eq hengine), hbooked⟩

/-- **Host resources mirror the objects of the module.** A host opens, uses, closes and drops
resources in any order, and no more of them than there are handles. At every moment the handles in
use, of each category, are those of the resources that are open, and each resource has a handle of
its own. For each resource that is not open there was one close, and none for one that is open. All
of them were done: what was asked for is the history of the module.

Whatever is closed or dropped next, one call closes it if it is open, is not refused, and takes out
its handle and no other one. From then on nothing is called for it.

The moments are those between any calls, and those in the middle of a call: whatever callbacks do,
all that a call does with the handles is to open and to close, and all of it can be booked. -/
theorem mirrored (hinit : w₀.engine = {}) (hosted : Hosted w₀ rs es w)
    (hfew : ∀ c, Service.opens c es ≤ HandleTable.maxHandle) :
    (∀ c h, (∃ i, w.engine.find c h = .ok i) ↔ ∃ r ∈ rs, r.isOpen ∧ r.name = (c, h)) ∧
    (rs.map name).Nodup ∧
    Service.History w₀ es w ∧
    (∀ r ∈ rs, es.count (.closed r.name.1 r.name.2) = if r.isOpen then 0 else 1) ∧
    (∀ r ∈ rs, r.isOpen → (∃ method args, r.ClosedBy method args) ∧ ∀ upcall,
      (∃ out w', r.close (EntryPoint.invoke upcall) w = (out, { r with isOpen := false }, w') ∧
        Released w r out w') ∧
      ∃ out w', r.drop (EntryPoint.invoke upcall) w = ({ r with isOpen := false }, w') ∧
        Released w r out w') ∧
    (∀ r : Resource, r.isOpen = false → ∀ entry w,
      r.close entry w = (.ok (), r, w) ∧ r.drop entry w = (r, w)) ∧
    ∀ {ρ : Type} (c : Codec ρ) depth method args, ∃ es',
      Service.History w es'
        (Gateway.invoke (EntryPoint.invoke (Proxy.nested depth)) c method args w).2 ∧
      ((∀ c, Service.opens c (es ++ es') ≤ HandleTable.maxHandle) → ∃ rs', Booked rs es' rs') := by
  obtain ⟨hist, hbooked⟩ := hosted.booked hinit hfew
  have hm := Mirrors.of_booked hinit hist hbooked hfew
  refine ⟨hm.live, hm.distinct, hist, hm.closed, fun r hmem hr => ?_, fun r hr entry w => ?_,
    fun c depth method args => ?_⟩
  · obtain ⟨i, hi⟩ := hm.find hmem hr
    exact ⟨exists_closedBy hr, fun upcall => ⟨close_open hr hi upcall, drop_open hr hi upcall⟩⟩
  · exact ⟨close_closed hr entry w, drop_closed hr entry w⟩
  · have hsteady := Service.History.steady w depth
    obtain ⟨es', hafter⟩ := Gateway.invoke_invariant hsteady.invariant c method args ⟨[], .start⟩
    exact ⟨es', hafter, exists_booked hinit hist hbooked hafter⟩

/-- A view outlives the resource of its store. When it is dropped too, nothing is in use. -/
theorem mirrored_two :
    let entry := EntryPoint.invoke (Proxy.nested 1)
    let store : Resource := { kind := .database, handle := 1 }
    let view : Resource := { kind := .state, handle := 1 }
    let w₁ := (openMemory entry {}).2
    let w₂ := (openView entry store .zero w₁).2
    ∃ out w w', store.close entry w₂ = (out, { store with isOpen := false }, w) ∧
      (∀ c h, (∃ i, w.engine.find c h = .ok i) ↔ (c, h) = (.view, 1)) ∧
      view.drop entry w = ({ view with isOpen := false }, w') ∧
      ∀ c h i, w'.engine.find c h ≠ .ok i := by
  intro entry store view w₁ w₂
  have hstore : (openMemory entry {}).1 = .ok store := by decide +kernel
  have hview : (openView entry store .zero w₁).1 = .ok view := by decide +kernel
  have hfail : w₁.buffers.failNext = 0 := by decide +kernel
  have hmemory : Opening.memory.run entry {} = (.ok store, w₁) := by
    rw [Opening.run]
    exact Prod.fst_eq_iff.mp hstore
  have hopen : (Opening.view store .zero).run entry w₁ = (.ok view, w₂) := by
    rw [Opening.run]
    exact Prod.fst_eq_iff.mp hview
  -- from here on it does not matter what else there is in these worlds
  clear_value w₂ w₁
  have hfew : ∀ c, Service.opens c (([.opened .store 1] ++ [.opened .view 1]) ++ store.closing) ≤
      HandleTable.maxHandle := by
    intro c
    cases c <;> decide
  have hstart : Hosted {} [] [] {} := .start
  have h₁ : Hosted {} ([] ++ [store]) _ w₁ :=
    hstart.opened .memory 1 rfl hmemory
  have h₂ : Hosted {} ([] ++ store :: [view]) _ w₂ :=
    h₁.opened (.view store .zero) 1 hfail hopen
  obtain ⟨-, -, -, -, hends₂, -, -⟩ := mirrored rfl h₂ fun c =>
    (Service.opens_le_append c _ _).trans (hfew c)
  obtain ⟨⟨out, w, hclose, -⟩, -⟩ := (hends₂ store List.mem_cons_self rfl).2 (Proxy.nested 1)
  obtain ⟨hlive, -, -, -, hends, -, -⟩ := mirrored rfl (h₂.closed (Proxy.nested 1) hclose) hfew
  have hmem : view ∈ [{ store with isOpen := false }, view] :=
    List.mem_cons_of_mem _ (List.mem_singleton_self _)
  have hsole : ∀ c h, (∃ i, w.engine.find c h = .ok i) ↔ (c, h) = (.view, 1) := by
    intro c h
    rw [hlive]
    constructor
    · rintro ⟨r, hr, hopen, hname⟩
      rcases List.mem_cons.mp hr with rfl | hr
      · cases hopen
      · cases List.mem_singleton.mp hr
        exact hname.symm
    · exact fun hname => ⟨view, hmem, rfl, hname.symm⟩
  obtain ⟨-, out', w', hdrop, hreleased⟩ := (hends view hmem rfl).2 (Proxy.nested 1)
  refine ⟨out, w, w', hclose, hsole, hdrop, fun c h i hi => ?_⟩
  obtain ⟨hne, hbefore⟩ := hreleased.drops.exists_find_iff.mp ⟨i, hi⟩
  exact hne ((hsole c h).mp hbefore)

end Hosted

end Resource

end EvmBridge
