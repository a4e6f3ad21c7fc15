import EvmBridge.World

/-!
# What tracers are told

A tracer has one stack, whoever reports to it: the frames that have not ended, innermost first. It
is told in six ways how a transaction goes on (`Capture`), in whatever order.

A top frame that starts takes the place of everything on the stack, so all that is on it afterwards
is nested in this frame (`Tracer.Open`). When the frame ends, the stack is empty and the frame is
the recording; further ends find nothing to end and are ignored (`Tracer.Ended`). So the recording
is that of the top frame that started last, with its first end (`Tracer.ended_of_start`).
-/

namespace EvmBridge

/-- Something a tracer is told. -/
inductive Capture where
  | txStart (gasLimit : UInt64)
  | txEnd (restGas : UInt64)
  | start (s : FrameStart)
  | enter (s : FrameStart)
  | exit (f : FrameEnd)
  | finish (f : FrameEnd) (duration : UInt64)
  deriving DecidableEq, Repr

namespace Capture

/-- No top frame starts or ends. -/
def isInner : Capture → Bool
  | .start _ | .finish _ _ => false
  | _ => true

/-- No frame starts, neither a top frame nor a nested one. -/
def opensNone : Capture → Bool
  | .start _ | .enter _ => false
  | _ => true

/-- A nested frame starts. -/
def isEnter : Capture → Bool
  | .enter _ => true
  | _ => false

end Capture

namespace Tracer

variable {t : Tracer} {s : FrameStart} {f : FrameEnd} {c : Capture} {cs : List Capture}
  {stack : List OpenFrame} {root : Frame}

def tell (t : Tracer) : Capture → Tracer
  | .txStart gasLimit => t.txStart gasLimit
  | .txEnd restGas => t.txEnd restGas
  | .start s => t.start s
  | .enter s => t.enter s
  | .exit f => t.exit f
  | .finish f duration => t.finish f duration

def tellAll (t : Tracer) (cs : List Capture) : Tracer := cs.foldl tell t

@[simp] theorem tellAll_nil (t : Tracer) : t.tellAll [] = t := rfl

@[simp] theorem tellAll_cons (t : Tracer) (c : Capture) (cs : List Capture) :
    t.tellAll (c :: cs) = (t.tell c).tellAll cs := rfl

@[simp] theorem tellAll_append (t : Tracer) (cs ds : List Capture) :
    t.tellAll (cs ++ ds) = (t.tellAll cs).tellAll ds := List.foldl_append

theorem kind_tell (t : Tracer) (c : Capture) : (t.tell c).kind = t.kind := by
  cases c with
  | finish f duration =>
      unfold tell finish
      dsimp only
      split <;> rfl
  | _ => rfl

theorem kind_tellAll (t : Tracer) (cs : List Capture) : (t.tellAll cs).kind = t.kind := by
  induction cs generalizing t with
  | nil => rfl
  | cons c cs ih => rw [tellAll_cons, ih, kind_tell]

/-- The stack ends as the recording. -/
theorem tell_finish_some {duration : UInt64} (h : fold f t.opened = some root) :
    t.tell (.finish f duration) = { t with opened := [], root := some root, duration } := by
  simp only [tell, finish, h]

/-- There is no frame that could end. -/
theorem tell_finish_none {duration : UInt64} (h : fold f t.opened = none) :
    t.tell (.finish f duration) = { t with duration } := by
  simp only [tell, finish, h]

/-- What a tracer keeps whatever it is told, it keeps all along. -/
theorem tellAll_keeps {J : Tracer → Prop} (ht : J t)
    (hstep : ∀ {t} (c : Capture), c ∈ cs → J t → J (t.tell c)) : J (t.tellAll cs) := by
  induction cs generalizing t with
  | nil => exact ht
  | cons c cs ih =>
      exact ih (hstep c List.mem_cons_self ht) fun d hd => hstep d (List.mem_cons_of_mem _ hd)

/-! ## An open top frame -/

/-- All frames on a stack are nested in one that started like this. -/
def Within (s : FrameStart) (stack : List OpenFrame) : Prop :=
  stack.getLast?.map OpenFrame.start = some s

/-- A frame leaves the one it is nested in where it is. -/
theorem within_closeInner (h : Within s stack) : Within s (closeInner f stack) := by
  unfold closeInner
  split
  · rename_i inner outer rest
    cases rest with
    | nil => exact h
    | cons o rest => exact h
  · exact h

/-- The outermost frame is what comes of a stack. -/
theorem fold_within (h : Within s stack) : ∃ calls, fold f stack = some (.node s f calls) := by
  induction stack using fold.induct with
  | case1 => exact absurd h (by simp [Within])
  | case2 outer =>
      cases Option.some.inj h
      exact ⟨outer.calls, by rw [fold]; rfl⟩
  | case3 inner outer rest ih =>
      rw [fold]
      refine ih ?_
      cases rest with
      | nil => exact h
      | cons o rest => exact h

/-- A top frame started like this, and has not ended. -/
structure Open (t : Tracer) (s : FrameStart) : Prop where
  opened : Within s t.opened
  root : t.root = none

theorem open_start (t : Tracer) (s : FrameStart) : (t.tell (.start s)).Open s := ⟨rfl, rfl⟩

/-- Only a top frame can leave the outermost one. -/
theorem within_tell (h : Within s t.opened) (hc : c.isInner) : Within s (t.tell c).opened := by
  cases c with
  | txStart | txEnd => exact h
  | start | finish => exact absurd hc Bool.false_ne_true
  | enter s' =>
      show Within s (⟨s', []⟩ :: t.opened)
      cases ht : t.opened with
      | nil =>
          rw [ht] at h
          exact absurd h (by simp [Within])
      | cons o rest =>
          rw [ht] at h
          exact h
  | exit f => exact within_closeInner h

theorem root_tell (hc : c.isInner) (t : Tracer) : (t.tell c).root = t.root := by
  cases c with
  | start | finish => exact absurd hc Bool.false_ne_true
  | _ => rfl

theorem root_tellAll (hcs : ∀ c ∈ cs, c.isInner) (t : Tracer) : (t.tellAll cs).root = t.root :=
  tellAll_keeps (J := fun u => u.root = t.root) rfl fun c hc h => (root_tell (hcs c hc) _).trans h

theorem Open.tell (h : t.Open s) (hc : c.isInner) : (t.tell c).Open s :=
  ⟨within_tell h.opened hc, (root_tell hc t).trans h.root⟩

theorem Open.tellAll (h : t.Open s) (hcs : ∀ c ∈ cs, c.isInner) : (t.tellAll cs).Open s :=
  tellAll_keeps (J := fun t => t.Open s) h fun c hc h => h.tell (hcs c hc)

/-! ## A recording -/

/-- A top frame has ended, and nothing was started since. -/
structure Ended (t : Tracer) (root : Frame) : Prop where
  opened : t.opened = []
  root : t.root = some root

theorem ended_of_within (h : Within s t.opened) (f : FrameEnd) (duration : UInt64) :
    ∃ calls, (t.tell (.finish f duration)).Ended (.node s f calls) := by
  obtain ⟨calls, hfold⟩ := fold_within (f := f) h
  refine ⟨calls, ?_⟩
  rw [tell_finish_some hfold]
  exact ⟨rfl, rfl⟩

/-- While no frame is open, nothing but a frame that starts has an effect. -/
theorem tell_of_idle (h : t.opened = []) (hc : c.opensNone) :
    (t.tell c).opened = [] ∧ (t.tell c).root = t.root := by
  cases c with
  | txStart | txEnd => exact ⟨h, rfl⟩
  | start | enter => exact absurd hc Bool.false_ne_true
  | exit f =>
      refine ⟨?_, rfl⟩
      show closeInner f t.opened = []
      rw [h]
      rfl
  | finish f duration =>
      have hnone : Tracer.fold f t.opened = none := by rw [h, fold]
      rw [tell_finish_none hnone]
      exact ⟨h, rfl⟩

theorem Ended.tell (h : t.Ended root) (hc : c.opensNone) : (t.tell c).Ended root := by
  obtain ⟨hopened, hroot⟩ := tell_of_idle h.opened hc
  exact ⟨hopened, hroot.trans h.root⟩

theorem Ended.tellAll (h : t.Ended root) (hcs : ∀ c ∈ cs, c.opensNone) :
    (t.tellAll cs).Ended root :=
  tellAll_keeps (J := fun t => t.Ended root) h fun c hc h => h.tell (hcs c hc)

/-- **The recording is that of the top frame that started last, with its first end**, whatever was
recorded before. -/
theorem ended_of_start (t : Tracer) (s : FrameStart) (f : FrameEnd) (duration : UInt64)
    {inner after : List Capture} (hinner : ∀ c ∈ inner, c.isInner)
    (hafter : ∀ c ∈ after, c.opensNone) :
    ∃ calls, (t.tellAll (.start s :: inner ++ .finish f duration :: after)).Ended
      (.node s f calls) := by
  obtain ⟨calls, hended⟩ := ended_of_within ((open_start t s).tellAll hinner).opened f duration
  refine ⟨calls, ?_⟩
  rw [tellAll_append, tellAll_cons, tellAll_cons]
  exact hended.tellAll hafter

end Tracer

/-! ## Tracers in the world -/

namespace World

variable {w w' : World} {i j : Nat} {t u : Tracer}

/-- There is a tracer at a place, and this is it. -/
def Records (w : World) (i : Nat) (t : Tracer) : Prop := w.engine.tracers.objects[i]? = some t

theorem Records.tracer (h : w.Records i t) : w.tracer i = t := by
  rw [World.tracer, Pool.get, h]
  rfl

theorem records_of_call (h : (w.tracer i).kind = .call) : w.Records i (w.tracer i) := by
  unfold World.tracer Pool.get at h ⊢
  unfold World.Records
  cases ht : w.engine.tracers.objects[i]? with
  | some t => rfl
  | none =>
      -- what is taken for a missing tracer is no call tracer
      rw [ht] at h
      exact absurd h (by decide)

theorem Records.setTracer (h : w.Records i t) (t' : Tracer) : (w.setTracer i t').Records i t' :=
  List.getElem?_set_self (List.getElem?_eq_some_iff.mp h).1

theorem Records.setTracer_ne (h : w.Records i t) (hj : j ≠ i) (t' : Tracer) :
    (w.setTracer j t').Records i t := by
  show (w.engine.tracers.objects.set j t')[i]? = some t
  rw [List.getElem?_set_ne hj]
  exact h

theorem Records.of_tracers (h : w.Records i t) (hw : w'.engine.tracers = w.engine.tracers) :
    w'.Records i t := by
  rw [Records, hw]
  exact h

end World

end EvmBridge
