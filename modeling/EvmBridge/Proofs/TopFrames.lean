import EvmBridge.Proofs.Captures

/-!
# Which frame is the top frame

A tracer can be told of starts and ends in any order. The recording should be that of the top frame
that started last, with the first end that came after it (`Capture.Completed`), and there should be
none if no end came.

A nested frame spoils this if it starts while no frame is open. Nothing keeps it from being the
outermost one on the stack, so the next end makes it the recording (`Capture.Strayed`). This is the
only way, and then it is a stray that is reported (`Tracer.top_frame`).

The argument goes along the ends. As long as no frame is open, only a frame that starts has an
effect, and what it has recorded stays the recording until that frame ends (`Tracer.root_of_idle`).
-/

namespace EvmBridge

namespace Capture

/-- No top frame starts. -/
def startsNone : Capture → Bool
  | .start _ => false
  | _ => true

variable {before after cs : List Capture} {c : Capture} {s : FrameStart} {f : FrameEnd}

/-- This top frame started last, and this is the first end that came after it. -/
def Completed (cs : List Capture) (s : FrameStart) (f : FrameEnd) : Prop :=
  ∃ before inner duration later, cs = before ++ .start s :: (inner ++ .finish f duration :: later) ∧
    (∀ c ∈ inner, c.isInner) ∧ ∀ c ∈ later, c.startsNone

/-- No frame has started since a top frame ended, if one ever did. -/
def Idle (cs : List Capture) : Prop :=
  (∀ c ∈ cs, c.opensNone) ∨
    ∃ before f duration after, cs = before ++ .finish f duration :: after ∧
      ∀ c ∈ after, c.opensNone

/-- A nested frame started while no frame was open, this is the first end that came after it, and no
top frame has started since. -/
def Strayed (cs : List Capture) (s : FrameStart) (f : FrameEnd) : Prop :=
  ∃ before inner duration later, cs = before ++ .enter s :: (inner ++ .finish f duration :: later) ∧
    Idle before ∧ (∀ c ∈ inner, c.isInner) ∧ ∀ c ∈ later, c.startsNone

theorem idle_of_finish (before : List Capture) (f : FrameEnd) (duration : UInt64)
    (h : Idle after) : Idle (before ++ .finish f duration :: after) := by
  rcases h with hnone | ⟨earlier, g, d, rest, rfl, hrest⟩
  · exact .inr ⟨before, f, duration, after, rfl, hnone⟩
  · refine .inr ⟨before ++ .finish f duration :: earlier, g, d, rest, ?_, hrest⟩
    rw [List.append_assoc, List.cons_append]

/-- What strays in after an end strays in, whatever came before. -/
theorem Strayed.behind (h : Strayed after s f) (before : List Capture) (c : Capture)
    (inner : List Capture) (g : FrameEnd) (duration : UInt64) :
    Strayed (before ++ c :: (inner ++ .finish g duration :: after)) s f := by
  obtain ⟨idle, inner', d, rest, rfl, hidle, hinner, hrest⟩ := h
  refine ⟨before ++ c :: inner ++ .finish g duration :: idle, inner', d, rest, by simp,
    idle_of_finish _ g duration hidle, hinner, hrest⟩

/-- A history without top frames, up to its first end. -/
theorem inner_or_finish (h : ∀ c ∈ cs, c.startsNone) :
    (∀ c ∈ cs, c.isInner) ∨ ∃ inner f duration later, cs = inner ++ .finish f duration :: later ∧
      (∀ c ∈ inner, c.isInner) ∧ ∀ c ∈ later, c.startsNone := by
  induction cs with
  | nil => exact .inl fun c hc => absurd hc List.not_mem_nil
  | cons c cs ih =>
      obtain ⟨hc, hcs⟩ := List.forall_mem_cons.mp h
      cases hinner : c.isInner with
      | false =>
          cases c with
          | start s => exact absurd hc Bool.false_ne_true
          | finish f duration => exact .inr ⟨[], f, duration, cs, rfl, by simp, hcs⟩
          | _ => cases hinner
      | true =>
          rcases ih hcs with hall | ⟨inner, f, duration, later, rfl, hall, hlater⟩
          · exact .inl (List.forall_mem_cons.mpr ⟨hinner, hall⟩)
          · exact .inr ⟨c :: inner, f, duration, later, rfl,
              List.forall_mem_cons.mpr ⟨hinner, hall⟩, hlater⟩

/-- A history without top frames, up to its first nested one. -/
theorem opensNone_or_enter (h : ∀ c ∈ cs, c.startsNone) :
    (∀ c ∈ cs, c.opensNone) ∨ ∃ before s after, cs = before ++ .enter s :: after ∧
      (∀ c ∈ before, c.opensNone) ∧ ∀ c ∈ after, c.startsNone := by
  induction cs with
  | nil => exact .inl fun c hc => absurd hc List.not_mem_nil
  | cons c cs ih =>
      obtain ⟨hc, hcs⟩ := List.forall_mem_cons.mp h
      cases hopens : c.opensNone with
      | false =>
          cases c with
          | start s => exact absurd hc Bool.false_ne_true
          | enter s => exact .inr ⟨[], s, cs, rfl, by simp, hcs⟩
          | _ => cases hopens
      | true =>
          rcases ih hcs with hall | ⟨before, s, after, rfl, hall, hafter⟩
          · exact .inl (List.forall_mem_cons.mpr ⟨hopens, hall⟩)
          · exact .inr ⟨c :: before, s, after, rfl, List.forall_mem_cons.mpr ⟨hopens, hall⟩, hafter⟩

/-- A history from its last top frame on. -/
theorem startsNone_or_start (cs : List Capture) :
    (∀ c ∈ cs, c.startsNone) ∨ ∃ before s after, cs = before ++ .start s :: after ∧
      ∀ c ∈ after, c.startsNone := by
  induction cs with
  | nil => exact .inl fun c hc => absurd hc List.not_mem_nil
  | cons c cs ih =>
      rcases ih with hall | ⟨before, s, after, rfl, hafter⟩
      · cases c with
        | start s => exact .inr ⟨[], s, cs, rfl, hall⟩
        | _ => exact .inl (List.forall_mem_cons.mpr ⟨rfl, hall⟩)
      · exact .inr ⟨c :: before, s, after, rfl, hafter⟩

end Capture

namespace Tracer

open Capture

variable {t : Tracer} {cs : List Capture} {s : FrameStart} {f : FrameEnd} {calls : List Frame}

/-! ## While no frame is open -/

theorem tellAll_of_idle (h : t.opened = []) (hcs : ∀ c ∈ cs, c.opensNone) :
    (t.tellAll cs).opened = [] ∧ (t.tellAll cs).root = t.root := by
  refine tellAll_keeps (J := fun u => u.opened = [] ∧ u.root = t.root) ⟨h, rfl⟩ fun c hc hu => ?_
  obtain ⟨hopened, hroot⟩ := tell_of_idle hu.1 (hcs c hc)
  exact ⟨hopened, hroot.trans hu.2⟩

/-- The end of a top frame leaves no frame open. -/
theorem opened_finish (t : Tracer) (f : FrameEnd) (duration : UInt64) :
    (t.tell (.finish f duration)).opened = [] := by
  cases hopened : t.opened with
  | nil => exact (tell_of_idle hopened rfl).1
  | cons o rest =>
      have hwithin : Within ((o :: rest).getLast (List.cons_ne_nil o rest)).start t.opened := by
        rw [Within, hopened, List.getLast?_eq_some_getLast (List.cons_ne_nil o rest)]
        rfl
      obtain ⟨calls, hended⟩ := ended_of_within hwithin f duration
      exact hended.opened

theorem opened_of_idle (h : t.opened = []) (hcs : Idle cs) : (t.tellAll cs).opened = [] := by
  rcases hcs with hnone | ⟨before, f, duration, after, rfl, hafter⟩
  · exact (tellAll_of_idle h hnone).1
  · rw [tellAll_append, tellAll_cons]
    exact (tellAll_of_idle (opened_finish _ f duration) hafter).1

/-- A frame ends, and with it all that was started in it. -/
theorem ended_of_inner {inner : List Capture} (h : Within s t.opened)
    (hinner : ∀ c ∈ inner, c.isInner) (f : FrameEnd) (duration : UInt64) :
    ∃ calls, ((t.tellAll inner).tell (.finish f duration)).Ended (.node s f calls) :=
  ended_of_within (tellAll_keeps (J := fun u => Within s u.opened) h fun c hc hu =>
    within_tell hu (hinner c hc)) f duration

/-- A nested frame that strays in is the outermost one. -/
theorem within_of_stray (h : t.opened = []) (hcs : Idle cs) (s : FrameStart) :
    Within s ((t.tellAll cs).tell (.enter s)).opened := by
  show Within s (⟨s, []⟩ :: (t.tellAll cs).opened)
  rw [opened_of_idle h hcs]
  rfl

/-- **While no frame is open and no top frame starts, only a stray changes the recording**, and then
it is the recording of a stray. -/
theorem root_of_idle (h : t.opened = []) (hcs : ∀ c ∈ cs, c.startsNone) :
    (t.tellAll cs).root = t.root ∨
      ∃ s f, Strayed cs s f ∧ ∃ calls, (t.tellAll cs).root = some (.node s f calls) := by
  -- along the ends
  induction hlen : cs.length using Nat.strongRecOn generalizing t cs with | ind n ih => ?_
  rcases opensNone_or_enter hcs with hnone | ⟨before, s, after, rfl, hbefore, hafter⟩
  · exact .inl (tellAll_of_idle h hnone).2
  · rcases inner_or_finish hafter with hinner | ⟨inner, f, duration, later, rfl, hinner, hlater⟩
    · refine .inl ?_
      rw [tellAll_append, tellAll_cons, root_tellAll hinner, root_tell rfl]
      exact (tellAll_of_idle h hbefore).2
    · obtain ⟨calls, hended⟩ :=
        ended_of_inner (within_of_stray h (.inl hbefore) s) hinner f duration
      have hshort : later.length < n := by
        rw [← hlen]
        simp
        omega
      simp only [tellAll_append, tellAll_cons]
      rcases ih _ hshort hended.opened hlater rfl with hsame | ⟨s', f', hstray, hroot⟩
      · exact .inr ⟨s, f, ⟨before, inner, duration, later, rfl, .inl hbefore, hinner, hlater⟩,
          calls, hsame.trans hended.root⟩
      · exact .inr ⟨s', f', hstray.behind before _ inner f duration, hroot⟩

/-- A fresh tracer has recorded nothing. -/
theorem fresh_of_create {options : TraceOptions} (h : create options = .ok t) :
    t.opened = [] ∧ t.root = none := by
  unfold create at h
  split at h
  · cases h
    exact ⟨rfl, rfl⟩
  · split at h
    · cases h
      exact ⟨rfl, rfl⟩
    · cases h

/-! ## The report -/

/-- The report is that of a top frame that started and ended like this. -/
def Reports (t : Tracer) (s : FrameStart) (f : FrameEnd) : Prop :=
  t.result ≠ .null ∧ ∃ calls,
    t.result = match t.kind with
      | .call => (Frame.node s f calls).toJson
      | .structLogger => t.summary (.node s f calls)

theorem result_of_root_none (h : t.root = none) : t.result = .null := by rw [result, h]

theorem reports_of_root (h : t.root = some (.node s f calls)) : t.Reports s f := by
  have hresult : t.result = match t.kind with
      | .call => (Frame.node s f calls).toJson
      | .structLogger => t.summary (.node s f calls) := by
    cases hkind : t.kind with
    | call => simp only [result, h, hkind]
    | structLogger => simp only [result, h, hkind]
  refine ⟨?_, calls, hresult⟩
  rw [hresult]
  split
  · rw [Frame.toJson]
    exact Json.noConfusion
  · exact Json.noConfusion

/-- After the end of a top frame it is reported, or else a stray that came later. -/
theorem Ended.reports (h : t.Ended (.node s f calls)) (hcs : ∀ c ∈ cs, c.startsNone) :
    (t.tellAll cs).Reports s f ∨ ∃ s f, Strayed cs s f ∧ (t.tellAll cs).Reports s f := by
  rcases root_of_idle h.opened hcs with hsame | ⟨s', f', hstray, calls', hroot⟩
  · exact .inl (reports_of_root (hsame.trans h.root))
  · exact .inr ⟨s', f', hstray, reports_of_root hroot⟩

/-- The top frame that started last is reported with its first end, or else a stray. -/
theorem reports_of_completed (t : Tracer) (h : Completed cs s f) :
    (t.tellAll cs).Reports s f ∨ ∃ s f, Strayed cs s f ∧ (t.tellAll cs).Reports s f := by
  obtain ⟨before, inner, duration, later, rfl, hinner, hlater⟩ := h
  have hopen := open_start (t.tellAll before) s
  obtain ⟨calls, hended⟩ := ended_of_inner hopen.opened hinner f duration
  simp only [tellAll_append, tellAll_cons]
  rcases hended.reports hlater with hreports | ⟨s', f', hstray, hreports⟩
  · exact .inl hreports
  · exact .inr ⟨s', f', hstray.behind before _ inner f duration, hreports⟩

/-- Where a frame strays in, a stray is reported: this one, or one that came later. -/
theorem reports_of_strayed (h : t.opened = []) (hcs : Strayed cs s f) :
    ∃ s f, Strayed cs s f ∧ (t.tellAll cs).Reports s f := by
  have hstrayed := hcs
  obtain ⟨before, inner, duration, later, rfl, hbefore, hinner, hlater⟩ := hcs
  obtain ⟨calls, hended⟩ := ended_of_inner (within_of_stray h hbefore s) hinner f duration
  simp only [tellAll_append, tellAll_cons]
  rcases hended.reports hlater with hreports | ⟨s', f', hstray, hreports⟩
  · exact ⟨s, f, hstrayed, hreports⟩
  · exact ⟨s', f', hstray.behind before _ inner f duration, hreports⟩

/-- Nothing is reported before the end of a top frame, but for a stray. -/
theorem result_of_not_completed (h : t.opened = []) (hroot : t.root = none)
    (hcs : ∀ s f, ¬ Completed cs s f) :
    (t.tellAll cs).result = .null ∨ ∃ s f, Strayed cs s f := by
  rcases startsNone_or_start cs with hnone | ⟨before, s, after, rfl, hafter⟩
  · rcases root_of_idle h hnone with hsame | ⟨s, f, hstray, _⟩
    · exact .inl (result_of_root_none (hsame.trans hroot))
    · exact .inr ⟨s, f, hstray⟩
  · rcases inner_or_finish hafter with hinner | ⟨inner, f, duration, later, rfl, hinner, hlater⟩
    · refine .inl (result_of_root_none ?_)
      rw [tellAll_append, tellAll_cons]
      exact ((open_start _ s).tellAll hinner).root
    · exact absurd ⟨before, inner, duration, later, rfl, hinner, hlater⟩ (hcs s f)

/-- **Only strays keep the recording from being that of the top frame that started last.** Without
one there is a report as soon as that frame has ended, and it is of that frame with its first end;
with one the report is of a stray. -/
theorem top_frame {options : TraceOptions} (ht : create options = .ok t) (cs : List Capture) :
    ((∀ s f, ¬ Strayed cs s f) →
      ((t.tellAll cs).result = .null ↔ ∀ s f, ¬ Completed cs s f) ∧
      ∀ s f, Completed cs s f → (t.tellAll cs).Reports s f) ∧
    ((∃ s f, Strayed cs s f) → ∃ s f, Strayed cs s f ∧ (t.tellAll cs).Reports s f) := by
  obtain ⟨hopened, hroot⟩ := fresh_of_create ht
  refine ⟨fun hno => ?_, fun ⟨s, f, hstray⟩ => reports_of_strayed hopened hstray⟩
  have hreports : ∀ s f, Completed cs s f → (t.tellAll cs).Reports s f := by
    intro s f hcompleted
    rcases reports_of_completed t hcompleted with hreports | ⟨s', f', hstray, _⟩
    · exact hreports
    · exact absurd hstray (hno s' f')
  refine ⟨⟨fun hnull s f h => (hreports s f h).1 hnull, fun hnone => ?_⟩, hreports⟩
  rcases result_of_not_completed hopened hroot hnone with hnull | ⟨s, f, hstray⟩
  · exact hnull
  · exact absurd hstray (hno s f)

/-- Ends and exits before, within and after a top frame: the report is of that frame, with the first
end after its start. -/
theorem top_frame_stray_ends :
    let s : FrameStart := { opCode := .call, sender := .zero, target := .zero, gas := 7 }
    let cs : List Capture :=
      [.exit {}, .finish {} 1, .start s, .exit {}, .finish { gasUsed := 5 } 2, .finish {} 3]
    (∀ s f, ¬ Strayed cs s f) ∧
    ((({ kind := .structLogger } : Tracer).tellAll cs).Reports s { gasUsed := 5 }) := by
  intro s cs
  have hno : ∀ s' f', ¬ Strayed cs s' f' := by
    rintro s' f' ⟨before, inner, duration, later, hsplit, -⟩
    have hmem : Capture.enter s' ∈ cs := hsplit ▸ by simp
    simp [cs] at hmem
  have hcompleted : Completed cs s { gasUsed := 5 } :=
    ⟨[.exit {}, .finish {} 1], [.exit {}], 2, [.finish {} 3], rfl, by decide, by decide⟩
  have hfresh : create {} = .ok { kind := .structLogger } := rfl
  exact ⟨hno, ((top_frame hfresh cs).1 hno).2 _ _ hcompleted⟩

/-- A nested frame that starts on a fresh tracer is reported when the next end comes, although no
top frame has ever started; one that starts after a top frame has ended takes the place of this
frame. -/
theorem top_frame_strays :
    let s := fun gas => ({ opCode := .call, sender := .zero, target := .zero, gas } : FrameStart)
    let t : Tracer := { kind := .call, options := { tracer := "callTracer" } }
    let stray : List Capture := [.enter (s 1), .finish { gasUsed := 5 } 0]
    let late := .start (s 0) :: .finish {} 0 :: stray
    create { tracer := "callTracer" } = .ok t ∧
    (∀ s f, ¬ Completed stray s f) ∧
    (t.tellAll stray).result = (Frame.node (s 1) { gasUsed := 5 } []).toJson ∧
    Completed late (s 0) {} ∧
    (t.tellAll late).result = (Frame.node (s 1) { gasUsed := 5 } []).toJson := by
  intro s t stray late
  refine ⟨rfl, ?_, ?_, ⟨[], [], 0, stray, rfl, by simp, by decide⟩, ?_⟩
  · rintro s' f ⟨before, inner, duration, later, hsplit, -⟩
    have hmem : Capture.start s' ∈ stray := hsplit ▸ by simp
    simp [stray] at hmem
  · simp [t, stray, tell, enter, finish, fold, OpenFrame.close, result]
  · simp [t, late, stray, tell, start, enter, finish, fold, OpenFrame.close, result]

end Tracer

end EvmBridge
