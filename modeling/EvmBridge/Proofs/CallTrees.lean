import EvmBridge.Proofs.FrameDepth
import EvmBridge.Proofs.HexReading
import EvmBridge.Proofs.ObjectMembers

/-!
# The tree of calls

A call tracer is told of nested frames one after the other. They may end in any order of starts and
ends: more may start than end, and more may end than have started. The frames are numbered as they
start, from one, and the top frame is number zero. Which of them are open at a time can be said
without any tree (`Nesting.openAfter`): a start adds a number, an end takes the last one away, and
is ignored if there is none.

The recording is read in preorder (`Frame.walk`). It lists the frames in the order of their numbers,
each with the end that closed it, if one did, and below the frames that were open when it started
(`Tracer.result_tree`). No two trees have the same report (`Frame.toJson_inj`).

The argument reads a stack in the same way as a tree (`Tracer.walked`). A frame that starts is one
more in the list. A frame that ends changes its own end and nothing else, although it moves from the
stack into the frame around it; that is so when frames end one by one and when the end of the top
frame ends all of them.
-/

namespace EvmBridge

/-! ## What is nested in a top frame -/

/-- A nested frame starts or ends. -/
inductive Nesting where
  | enter (s : FrameStart)
  | exit (f : FrameEnd)
  deriving DecidableEq, Repr

namespace Nesting

variable {before after es ds : List Nesting} {e d : Nesting} {s : FrameStart} {f g : FrameEnd}
  {k n : Nat} {stack rest : List Nat}

def capture : Nesting → Capture
  | enter s => .enter s
  | exit f => .exit f

/-- The frames that start, in order. -/
def entered : List Nesting → List FrameStart
  | [] => []
  | enter s :: es => s :: entered es
  | exit _ :: es => entered es

/-- The frames that are open in the end, innermost first, if these were open before and `n` is the
number of the next one. -/
def openFrom (n : Nat) (stack : List Nat) : List Nesting → List Nat
  | [] => stack
  | enter _ :: es => openFrom (n + 1) (n :: stack) es
  | exit _ :: es => openFrom n stack.tail es

/-- The frames that are open in the end, innermost first, without the top frame. -/
def openAfter (es : List Nesting) : List Nat := openFrom 1 [] es

/-- A frame is closed with this end: when it ended so, the frame was the innermost open one. -/
def Closes (es : List Nesting) (k : Nat) (g : FrameEnd) : Prop :=
  ∃ before after rest, es = before ++ exit g :: after ∧ openAfter before = k :: rest

theorem entered_append (es ds : List Nesting) : entered (es ++ ds) = entered es ++ entered ds := by
  induction es with
  | nil => rfl
  | cons e es ih =>
      cases e with
      | enter s => rw [List.cons_append, entered, ih, entered, List.cons_append]
      | exit f => rw [List.cons_append, entered, ih, entered]

theorem openFrom_append (n : Nat) (stack : List Nat) (es ds : List Nesting) :
    openFrom n stack (es ++ ds) =
      openFrom (n + (entered es).length) (openFrom n stack es) ds := by
  induction es generalizing n stack with
  | nil => rfl
  | cons e es ih =>
      cases e with
      | enter s =>
          rw [List.cons_append, openFrom, ih, entered, List.length_cons, openFrom,
            Nat.add_right_comm, Nat.add_assoc]
      | exit f => rw [List.cons_append, openFrom, ih, entered, openFrom]

theorem openAfter_enter (es : List Nesting) (s : FrameStart) :
    openAfter (es ++ [enter s]) = ((entered es).length + 1) :: openAfter es := by
  rw [openAfter, openFrom_append, Nat.add_comm]
  rfl

theorem openAfter_exit (es : List Nesting) (f : FrameEnd) :
    openAfter (es ++ [exit f]) = (openAfter es).tail := by
  rw [openAfter, openFrom_append]
  rfl

/-- Open frames have been entered. -/
theorem le_of_mem_openAfter (h : k ∈ openAfter es) : 0 < k ∧ k ≤ (entered es).length := by
  induction es using List.reverseRecOn with
  | nil => exact absurd h (by simp [openAfter, openFrom])
  | append_singleton es e ih =>
      rw [entered_append, List.length_append]
      cases e with
      | enter s =>
          rw [openAfter_enter] at h
          rcases List.mem_cons.mp h with rfl | h
          · exact ⟨Nat.succ_pos _, Nat.le_refl _⟩
          · exact ⟨(ih h).1, Nat.le_succ_of_le (ih h).2⟩
      | exit f =>
          rw [openAfter_exit] at h
          exact ih (List.mem_of_mem_tail h)

theorem nodup_openAfter (es : List Nesting) : (openAfter es).Nodup := by
  induction es using List.reverseRecOn with
  | nil => exact List.nodup_nil
  | append_singleton es e ih =>
      cases e with
      | enter s =>
          rw [openAfter_enter]
          exact List.nodup_cons.mpr
            ⟨fun h => absurd (le_of_mem_openAfter h).2 (Nat.not_succ_le_self _), ih⟩
      | exit f =>
          rw [openAfter_exit]
          exact ih.sublist (List.tail_sublist _)

/-- A frame that has ended is not open again. -/
theorem not_mem_openAfter (h : openAfter before = k :: rest) (g : FrameEnd) (after : List Nesting) :
    k ∉ openAfter (before ++ exit g :: after) := by
  induction after using List.reverseRecOn with
  | nil =>
      rw [openAfter_exit, h]
      exact (List.nodup_cons.mp (h ▸ nodup_openAfter before)).1
  | append_singleton after e ih =>
      rw [← List.cons_append, ← List.append_assoc]
      cases e with
      | enter s =>
          have hk := (le_of_mem_openAfter (h ▸ List.mem_cons_self : k ∈ openAfter before)).2
          rw [openAfter_enter, entered_append, List.length_append, List.mem_cons]
          exact fun hmem => hmem.elim (fun heq => by omega) ih
      | exit f =>
          rw [openAfter_exit]
          exact fun hmem => ih (List.mem_of_mem_tail hmem)

theorem Closes.not_mem_openAfter (h : Closes es k g) : k ∉ openAfter es := by
  obtain ⟨before, after, rest, rfl, hopened⟩ := h
  exact Nesting.not_mem_openAfter hopened g after

theorem Closes.pos (h : Closes es k g) : 0 < k := by
  obtain ⟨before, after, rest, rfl, hopened⟩ := h
  exact (le_of_mem_openAfter (hopened ▸ List.mem_cons_self : k ∈ openAfter before)).1

/-- A step of a history is its last one or an earlier one. -/
theorem eq_or_split (h : es ++ [e] = before ++ d :: after) :
    (es = before ∧ e = d ∧ after = []) ∨ ∃ after', es = before ++ d :: after' := by
  rcases List.eq_nil_or_concat after with rfl | ⟨after', x, rfl⟩
  · obtain ⟨hes, hed⟩ := List.append_inj' h rfl
    exact .inl ⟨hes, (List.cons.inj hed).1, rfl⟩
  · rw [List.concat_eq_append, ← List.cons_append, ← List.append_assoc] at h
    exact .inr ⟨after', (List.append_inj' h rfl).1⟩

theorem Closes.snoc (h : Closes es k g) (e : Nesting) : Closes (es ++ [e]) k g := by
  obtain ⟨before, after, rest, rfl, hopened⟩ := h
  exact ⟨before, after ++ [e], rest, by rw [List.append_assoc, List.cons_append], hopened⟩

theorem closes_snoc (h : Closes (es ++ [e]) k g) :
    (e = exit g ∧ ∃ rest, openAfter es = k :: rest) ∨ Closes es k g := by
  obtain ⟨before, after, rest, hes, hopened⟩ := h
  rcases eq_or_split hes with ⟨rfl, rfl, _⟩ | ⟨after', hes⟩
  · exact .inl ⟨rfl, rest, hopened⟩
  · exact .inr ⟨before, after', rest, hes, hopened⟩

/-- Every frame that has started is open, or was closed. -/
theorem openAfter_or_closes (hpos : 0 < k) (hk : k ≤ (entered es).length) :
    k ∈ openAfter es ∨ ∃ g, Closes es k g := by
  induction es using List.reverseRecOn with
  | nil => exact absurd hk (Nat.not_le.mpr hpos)
  | append_singleton es e ih =>
      rw [entered_append, List.length_append] at hk
      cases e with
      | enter s =>
          rw [openAfter_enter]
          by_cases hnew : k = (entered es).length + 1
          · exact .inl (hnew ▸ List.mem_cons_self)
          · have hk : k ≤ (entered es).length := Nat.le_of_lt_succ (Nat.lt_of_le_of_ne hk hnew)
            rcases ih hk with hopen | ⟨g, hg⟩
            · exact .inl (List.mem_cons_of_mem _ hopen)
            · exact .inr ⟨g, hg.snoc _⟩
      | exit f =>
          rw [openAfter_exit]
          rcases ih hk with hopen | ⟨g, hg⟩
          · cases hes : openAfter es with
            | nil =>
                rw [hes] at hopen
                exact absurd hopen (List.not_mem_nil)
            | cons j rest =>
                rw [hes] at hopen
                rcases List.mem_cons.mp hopen with rfl | hopen
                · exact .inr ⟨f, es, [], rest, rfl, hes⟩
                · exact .inl hopen
          · exact .inr ⟨g, hg.snoc _⟩

end Nesting

/-! ## Walks -/

/-- A frame in a tree. -/
structure Visit where
  /-- The numbers of the frames around it, innermost first. -/
  above : List Nat
  start : FrameStart
  finish : FrameEnd
  deriving DecidableEq, Repr

namespace Visit

variable {vs : List Visit} {g : FrameEnd}

/-- The frame, with this end. -/
def ended (v : Visit) (g : FrameEnd) : Visit := { v with finish := g }

/-- What does not depend on the end of a frame stays as it is. -/
theorem map_modify_ended {β : Type} {p : Visit → β} (hp : ∀ v, p (v.ended g) = p v)
    (vs : List Visit) (k : Nat) : (vs.modify k (·.ended g)).map p = vs.map p := by
  refine List.ext_getElem? fun j => ?_
  rw [List.getElem?_map, List.getElem?_map, List.getElem?_modify]
  cases vs[j]? with
  | none => rfl
  | some v =>
      by_cases hj : k = j
      · simp [hj, hp]
      · simp [hj]

theorem map_finish_modify (vs : List Visit) (k : Nat) (g : FrameEnd) :
    (vs.modify k (·.ended g)).map finish = (vs.map finish).set k g := by
  refine List.ext_getElem? fun j => ?_
  rw [List.getElem?_map, List.getElem?_modify, List.getElem?_set, List.getElem?_map,
    List.length_map]
  by_cases hj : k = j
  · subst hj
    by_cases hk : k < vs.length
    · simp [hk, ended]
    · simp [hk]
  · simp [hj]

theorem modify_ended (front back : List Visit) (v : Visit) (g : FrameEnd) :
    (front ++ v :: back).modify front.length (·.ended g) = front ++ v.ended g :: back := by
  induction front with
  | nil => rfl
  | cons u front ih =>
      rw [List.cons_append, List.length_cons, List.modify_succ_cons, ih, List.cons_append]

end Visit

namespace Frame

mutual

/-- The frames of a tree in preorder. The first one has number `n` and is below these frames. -/
def walkFrom (above : List Nat) (n : Nat) : Frame → List Visit
  | node s f calls => ⟨above, s, f⟩ :: walkAll (n :: above) (n + 1) calls

def walkAll (above : List Nat) (n : Nat) : List Frame → List Visit
  | [] => []
  | c :: cs => c.walkFrom above n ++ walkAll above (n + c.count) cs

end

/-- The frames of a tree in preorder, with the numbers of those they are below. -/
def walk (root : Frame) : List Visit := root.walkFrom [] 0

mutual

theorem length_walkFrom (above : List Nat) (n : Nat) :
    ∀ c : Frame, (c.walkFrom above n).length = c.count
  | node s f calls => by rw [walkFrom, List.length_cons, length_walkAll, count]

/-- So the numbers in a walk are places in it. -/
theorem length_walkAll (above : List Nat) (n : Nat) :
    ∀ cs : List Frame, (walkAll above n cs).length = countAll cs
  | [] => rfl
  | c :: cs => by
      rw [walkAll, List.length_append, length_walkFrom, length_walkAll, countAll]

end

theorem walkAll_append (above : List Nat) (n : Nat) (cs ds : List Frame) :
    walkAll above n (cs ++ ds) = walkAll above n cs ++ walkAll above (n + countAll cs) ds := by
  induction cs generalizing n with
  | nil => rfl
  | cons c cs ih =>
      rw [List.cons_append, walkAll, ih, walkAll, countAll, List.append_assoc, Nat.add_assoc]

end Frame

/-! ## Reports -/

theorem OpCode.name_inj {c d : OpCode} : c.name = d.name ↔ c = d := by
  constructor
  · cases c <;> cases d <;> first | exact fun _ => rfl | exact fun h => absurd h (by decide)
  · exact congrArg name

namespace Frame

variable {s s' : FrameStart} {f f' : FrameEnd} {nested nested' : List Json}

/-- The members of a report. -/
def members (s : FrameStart) (f : FrameEnd) (nested : List Json) : List (String × Json) :=
  ownMembers s f ++ if nested.isEmpty then [] else [("calls", .arr nested)]

/-- No name occurs twice. -/
theorem nodup_members (s : FrameStart) (f : FrameEnd) (nested : List Json) :
    ((members s f nested).map Prod.fst).Nodup := by
  unfold members ownMembers
  cases s.value <;> cases f.output.isEmpty <;> cases f.error.isEmpty <;> cases nested.isEmpty <;>
    simp

/-- What may be left out is the same if it is shown alike. -/
theorem eq_of_shown {α : Type} {a b d : α} (h : ∀ x, (a ≠ d ∧ x = a) ↔ (b ≠ d ∧ x = b)) :
    a = b := by
  by_cases ha : a = d
  · by_cases hb : b = d
    · rw [ha, hb]
    · exact ((h b).mpr ⟨hb, rfl⟩).2.symm
  · exact ((h a).mp ⟨ha, rfl⟩).2

/-- An object of such members tells all of them. -/
theorem members_inj (h : Json.object (members s f nested) = Json.object (members s' f' nested')) :
    s = s' ∧ f = f' ∧ nested = nested' := by
  have hmem : ∀ name v, (name, v) ∈ members s f nested ↔ (name, v) ∈ members s' f' nested' := by
    intro name v
    rw [← Json.member?_object_eq_some_iff (nodup_members s f nested), h,
      Json.member?_object_eq_some_iff (nodup_members s' f' nested')]
  have hopCode : s.opCode = s'.opCode := by
    simpa [members, ownMembers, OpCode.name_inj] using hmem "type" (.str s.opCode.name)
  have hsender : s.sender = s'.sender := by
    simpa [members, ownMembers, FixedBytes.toHex_inj] using hmem "from" (.str s.sender.toHex)
  have htarget : s.target = s'.target := by
    simpa [members, ownMembers, FixedBytes.toHex_inj] using hmem "to" (.str s.target.toHex)
  have hinput : s.input = s'.input := by
    simpa [members, ownMembers, Hex.encode_inj] using hmem "input" (.str (Hex.encode s.input))
  have hgas : s.gas = s'.gas := by
    simpa [members, ownMembers, Quantity.encode_inj, UInt64.toNat_inj] using
      hmem "gas" (.str (Quantity.encode s.gas.toNat))
  have hused : f.gasUsed = f'.gasUsed := by
    simpa [members, ownMembers, Quantity.encode_inj, UInt64.toNat_inj] using
      hmem "gasUsed" (.str (Quantity.encode f.gasUsed.toNat))
  have hvalue : s.value = s'.value := Option.ext fun v => by
    simpa [members, ownMembers, Quantity.encode_inj] using
      hmem "value" (.str (Quantity.encode v))
  have houtput : f.output = f'.output := eq_of_shown (d := []) fun bs => by
    simpa [members, ownMembers, Hex.encode_inj] using hmem "output" (.str (Hex.encode bs))
  have herror : f.error = f'.error := eq_of_shown (d := "") fun text => by
    simpa [members, ownMembers] using hmem "error" (.str text)
  have hnested : nested = nested' := eq_of_shown (d := []) fun vs => by
    simpa [members, ownMembers] using hmem "calls" (.arr vs)
  cases s; cases s'; cases f; cases f'
  simp_all

mutual

/-- **No two trees have the same report.** -/
theorem toJson_inj : ∀ {c d : Frame}, c.toJson = d.toJson → c = d
  | node s f cs, node s' f' ds, h => by
      rw [toJson, toJson] at h
      obtain ⟨rfl, rfl, hnested⟩ := members_inj h
      rw [toJsons_inj hnested]

theorem toJsons_inj : ∀ {cs ds : List Frame}, toJsons cs = toJsons ds → cs = ds
  | [], [], _ => rfl
  | [], d :: ds, h => absurd h (by simp [toJsons])
  | c :: cs, [], h => absurd h (by simp [toJsons])
  | c :: cs, d :: ds, h => by
      rw [toJsons, toJsons] at h
      obtain ⟨hfirst, hrest⟩ := List.cons.inj h
      rw [toJson_inj hfirst, toJsons_inj hrest]

end

end Frame

namespace Tracer

variable {stack : List OpenFrame} {f : FrameEnd} {root : Frame}

/-- The numbers of the frames on a stack, innermost first. -/
def numbers : List OpenFrame → List Nat
  | [] => []
  | _ :: rest => pending rest :: numbers rest

/-- The frames on a stack in preorder, with those they have completed. -/
def walked : List OpenFrame → List Visit
  | [] => []
  | o :: rest =>
    walked rest ++ ⟨numbers rest, o.start, {}⟩ ::
      Frame.walkAll (numbers (o :: rest)) (pending rest + 1) o.calls

theorem length_walked (stack : List OpenFrame) : (walked stack).length = pending stack := by
  induction stack with
  | nil => rfl
  | cons o rest ih =>
      rw [walked, List.length_append, List.length_cons, Frame.length_walkAll, ih, pending]
      omega

/-- A frame that starts comes last. -/
theorem walked_enter (s : FrameStart) (stack : List OpenFrame) :
    walked (⟨s, []⟩ :: stack) = walked stack ++ [⟨numbers stack, s, {}⟩] := by
  rw [walked, Frame.walkAll]

/-- A frame that ends stays where it is. -/
theorem walked_close (inner outer : OpenFrame) (rest : List OpenFrame) (f : FrameEnd) :
    walked ({ outer with calls := outer.calls ++ [inner.close f] } :: rest) =
      walked (outer :: rest) ++ ⟨numbers (outer :: rest), inner.start, f⟩ ::
        Frame.walkAll (numbers (inner :: outer :: rest)) (pending (outer :: rest) + 1)
          inner.calls := by
  have hnumber : pending rest + 1 + Frame.countAll outer.calls = pending (outer :: rest) := by
    rw [pending]
    omega
  simp only [walked, Frame.walkAll_append, Frame.walkAll, OpenFrame.close, Frame.walkFrom, numbers,
    hnumber, List.append_nil, List.append_assoc, List.cons_append]

/-- Only its end is new. -/
theorem walked_closeInner (inner outer : OpenFrame) (rest : List OpenFrame) (f : FrameEnd) :
    walked (closeInner f (inner :: outer :: rest)) =
      (walked (inner :: outer :: rest)).modify (pending (outer :: rest)) (·.ended f) := by
  have hmodify := Visit.modify_ended (walked (outer :: rest))
    (Frame.walkAll (numbers (inner :: outer :: rest)) (pending (outer :: rest) + 1) inner.calls)
    ⟨numbers (outer :: rest), inner.start, {}⟩ f
  rw [length_walked] at hmodify
  rw [closeInner, walked_close]
  exact hmodify.symm

/-- The end of the top frame is all that is added when the frames that are open are closed. -/
theorem walk_fold (h : fold f stack = some root) :
    root.walk = (walked stack).modify 0 (·.ended f) := by
  induction stack using fold.induct with
  | case1 =>
      rw [fold] at h
      exact absurd h (by simp)
  | case2 outer =>
      rw [fold] at h
      cases h
      rfl
  | case3 inner outer rest ih =>
      rw [fold] at h
      rw [ih h, walked_close]
      rfl

end Tracer

/-! ## What a walk tells of a history -/

/-- What is in a list stays at its place when the list gets longer. -/
theorem getElem?_append_of_some {α : Type} {as : List α} {i : Nat} {a : α} (h : as[i]? = some a)
    (bs : List α) : (as ++ bs)[i]? = some a := by
  rw [List.getElem?_append_left (List.getElem?_eq_some_iff.mp h).1, h]

namespace Nesting

variable {before after es : List Nesting} {vs : List Visit} {s : FrameStart} {g : FrameEnd}
  {k : Nat} {rest : List Nat}

/-- These are the frames of a history, in preorder. -/
structure Listed (s : FrameStart) (es : List Nesting) (vs : List Visit) : Prop where
  /-- They stand in the order in which they started, the top frame first. -/
  starts : vs.map Visit.start = s :: entered es
  /-- A frame that was closed has the end that closed it. -/
  closed : ∀ {k g}, Closes es k g → (vs.map Visit.finish)[k]? = some g
  /-- A frame that is open has none. -/
  unclosed : ∀ {k}, k ∈ openAfter es → (vs.map Visit.finish)[k]? = some {}
  /-- A frame is below those that were open when it started, and below the top frame. -/
  above : ∀ {before after s'}, es = before ++ enter s' :: after →
    (vs.map Visit.above)[(entered before).length + 1]? = some (openAfter before ++ [0])

namespace Listed

theorem length_eq (h : Listed s es vs) : vs.length = (entered es).length + 1 := by
  rw [← List.length_map Visit.start, h.starts, List.length_cons]

theorem start (s : FrameStart) : Listed s [] [⟨[], s, {}⟩] where
  starts := rfl
  closed := by
    rintro k g ⟨before, after, _, hes, _⟩
    exact absurd hes.symm (by simp)
  unclosed hk := absurd hk (by simp [openAfter, openFrom])
  above hes := absurd hes.symm (by simp)

/-- A frame that starts is one more. -/
theorem enter (h : Listed s es vs) (s' : FrameStart) :
    Listed s (es ++ [enter s']) (vs ++ [⟨openAfter es ++ [0], s', {}⟩]) where
  starts := by
    rw [List.map_append, h.starts, entered_append]
    rfl
  closed hk := by
    rw [List.map_append]
    refine getElem?_append_of_some (h.closed ?_) _
    exact (closes_snoc hk).resolve_left fun heq => Nesting.noConfusion heq.1
  unclosed hk := by
    rw [List.map_append]
    rw [openAfter_enter, ← h.length_eq] at hk
    rcases List.mem_cons.mp hk with rfl | hk
    · rw [← List.length_map Visit.finish]
      exact List.getElem?_concat_length
    · exact getElem?_append_of_some (h.unclosed hk) _
  above hes := by
    rw [List.map_append]
    rcases eq_or_split hes with ⟨rfl, _, _⟩ | ⟨after', hes⟩
    · rw [← h.length_eq, ← List.length_map Visit.above]
      exact List.getElem?_concat_length
    · exact getElem?_append_of_some (h.above hes) _

/-- A frame that ends is the innermost one. -/
theorem exit (h : Listed s es vs) (hopened : openAfter es = k :: rest) (g : FrameEnd) :
    Listed s (es ++ [exit g]) (vs.modify k (·.ended g)) where
  starts := by
    rw [Visit.map_modify_ended (fun _ => rfl), h.starts, entered_append]
    exact (List.append_nil _).symm
  closed {j g'} hj := by
    rw [Visit.map_finish_modify]
    rcases closes_snoc hj with ⟨heq, rest', hopened'⟩ | hj
    · cases heq
      rw [hopened] at hopened'
      obtain rfl := (List.cons.inj hopened').1
      have hk := h.unclosed (hopened ▸ List.mem_cons_self : k ∈ openAfter es)
      exact List.getElem?_set_self (List.getElem?_eq_some_iff.mp hk).1
    · have hne : k ≠ j := by
        rintro rfl
        exact hj.not_mem_openAfter (hopened ▸ List.mem_cons_self)
      rw [List.getElem?_set_ne hne]
      exact h.closed hj
  unclosed {j} hj := by
    have hnodup := nodup_openAfter es
    rw [openAfter_exit, hopened, List.tail_cons] at hj
    rw [hopened] at hnodup
    have hne : k ≠ j := fun heq => (List.nodup_cons.mp hnodup).1 (heq ▸ hj)
    rw [Visit.map_finish_modify, List.getElem?_set_ne hne]
    exact h.unclosed (hopened ▸ List.mem_cons_of_mem k hj)
  above hes := by
    rw [Visit.map_modify_ended (fun _ => rfl)]
    obtain ⟨after', hes⟩ := (eq_or_split hes).resolve_left fun heq => Nesting.noConfusion heq.2.1
    exact h.above hes

/-- An end is ignored if no frame is open. -/
theorem ignore (h : Listed s es vs) (hopened : openAfter es = []) (g : FrameEnd) :
    Listed s (es ++ [.exit g]) vs where
  starts := by
    rw [h.starts, entered_append]
    exact congrArg (s :: ·) (List.append_nil _).symm
  closed hk := by
    refine h.closed ((closes_snoc hk).resolve_left ?_)
    rintro ⟨_, rest, hrest⟩
    exact absurd (hopened.symm.trans hrest) (List.cons_ne_nil _ _).symm
  unclosed hk := by
    rw [openAfter_exit, hopened] at hk
    exact absurd hk List.not_mem_nil
  above hes := by
    obtain ⟨after', hes⟩ := (eq_or_split hes).resolve_left fun heq => Nesting.noConfusion heq.2.1
    exact h.above hes

/-- The end of the top frame is that of no other frame. -/
theorem finish (h : Listed s es vs) (f : FrameEnd) : Listed s es (vs.modify 0 (·.ended f)) where
  starts := by
    rw [Visit.map_modify_ended (fun _ => rfl), h.starts]
  closed hk := by
    rw [Visit.map_finish_modify, List.getElem?_set_ne (Nat.ne_of_lt hk.pos)]
    exact h.closed hk
  unclosed hk := by
    rw [Visit.map_finish_modify, List.getElem?_set_ne (Nat.ne_of_lt (le_of_mem_openAfter hk).1)]
    exact h.unclosed hk
  above hes := by
    rw [Visit.map_modify_ended (fun _ => rfl)]
    exact h.above hes

end Listed

end Nesting

/-! ## The recording of a history -/

namespace Tracer

open Nesting

variable {t : Tracer} {s : FrameStart} {es : List Nesting} {stack : List OpenFrame}
  {g : FrameEnd}

/-- The frames on a stack are those of a history. -/
structure Follows (s : FrameStart) (es : List Nesting) (stack : List OpenFrame) : Prop where
  listed : Listed s es (walked stack)
  numbers : numbers stack = openAfter es ++ [0]

namespace Follows

theorem start (s : FrameStart) : Follows s [] [⟨s, []⟩] := ⟨.start s, rfl⟩

theorem enter (h : Follows s es stack) (s' : FrameStart) :
    Follows s (es ++ [.enter s']) (⟨s', []⟩ :: stack) := by
  constructor
  · rw [walked_enter, h.numbers]
    exact h.listed.enter s'
  · rw [Tracer.numbers, h.numbers, openAfter_enter, ← length_walked, h.listed.length_eq]
    rfl

/-- Only the top frame is left if none is open in it, and it is not ended like this. -/
theorem closeInner_eq (h : Follows s es stack) (hopen : openAfter es = []) (g : FrameEnd) :
    closeInner g stack = stack := by
  have hnumbers := h.numbers
  rw [hopen] at hnumbers
  rcases stack with _ | ⟨inner, _ | ⟨outer, rest⟩⟩
  · rfl
  · rfl
  · exact absurd (List.cons.inj hnumbers).2 (List.cons_ne_nil _ _)

theorem exit (h : Follows s es stack) (g : FrameEnd) :
    Follows s (es ++ [.exit g]) (closeInner g stack) := by
  obtain ⟨hlisted, hnumbers⟩ := h
  cases hopen : openAfter es with
  | nil =>
      rw [closeInner_eq ⟨hlisted, hnumbers⟩ hopen]
      exact ⟨hlisted.ignore hopen g, by rw [hnumbers, openAfter_exit, hopen]; rfl⟩
  | cons k rest =>
      rw [hopen] at hnumbers
      rcases stack with _ | ⟨inner, _ | ⟨outer, stack⟩⟩
      · exact absurd hnumbers (List.cons_ne_nil _ _).symm
      · exact absurd (List.cons.inj hnumbers).2 (by simp [Tracer.numbers])
      obtain ⟨rfl, hrest⟩ := List.cons.inj hnumbers
      constructor
      · rw [walked_closeInner]
        exact hlisted.exit hopen g
      · rw [openAfter_exit, hopen]
        exact hrest

end Follows

/-- **The stack follows what the tracer is told**, whatever it was told before the top frame
started. -/
theorem follows_tellAll (t : Tracer) (s : FrameStart) (es : List Nesting) :
    Follows s es ((t.tell (.start s)).tellAll (es.map capture)).opened := by
  induction es using List.reverseRecOn with
  | nil => exact .start s
  | append_singleton es e ih =>
      rw [List.map_append, tellAll_append]
      cases e with
      | enter s' => exact ih.enter s'
      | exit g => exact ih.exit g

/-- What a tracer is told of a top frame and all that is nested in it. -/
def session (s : FrameStart) (es : List Nesting) (f : FrameEnd) (duration : UInt64) :
    List Capture :=
  .start s :: es.map capture ++ [.finish f duration]

theorem tellAll_session (t : Tracer) (s : FrameStart) (es : List Nesting) (f : FrameEnd)
    (duration : UInt64) :
    t.tellAll (session s es f duration) =
      ((t.tell (.start s)).tellAll (es.map capture)).tell (.finish f duration) := by
  rw [session, List.cons_append, tellAll_cons, tellAll_append]
  rfl

/-- An end is ignored if no nested frame is open. -/
theorem session_ignore (t : Tracer) {before after : List Nesting} (hopen : openAfter before = [])
    (s : FrameStart) (g f : FrameEnd) (duration : UInt64) :
    t.tellAll (session s (before ++ .exit g :: after) f duration) =
      t.tellAll (session s (before ++ after) f duration) := by
  let u := (t.tell (.start s)).tellAll (before.map capture)
  have hignored : u.tell (.exit g) = u :=
    congrArg (fun stack => { u with opened := stack })
      ((follows_tellAll t s before).closeInner_eq hopen g)
  rw [tellAll_session, tellAll_session, List.map_append, List.map_cons, tellAll_append,
    tellAll_cons, capture, hignored, List.map_append, tellAll_append]

/-- **The recording is the tree of the frames that were entered.** It has one node for the top frame
and one for each frame that was entered, in this order, whatever the tracer recorded before. A frame
has the end that closed it, or none if only the end of the top frame closed it, and is below the
frames that were open when it started. Ends are ignored while no frame is open. -/
theorem result_tree {t : Tracer} (hkind : t.kind = .call) (s : FrameStart) (es : List Nesting)
    (f : FrameEnd) (duration : UInt64) :
    ∃ root : Frame,
      (∀ tree : Frame, (t.tellAll (session s es f duration)).result = tree.toJson ↔ tree = root) ∧
      root.walk.head? = some ⟨[], s, f⟩ ∧
      Listed s es root.walk ∧
      (∀ k, 0 < k → k < root.walk.length → k ∈ openAfter es ∨ ∃ g, Closes es k g) ∧
      ∀ before g after, es = before ++ .exit g :: after → openAfter before = [] →
        (t.tellAll (session s (before ++ after) f duration)).result =
          (t.tellAll (session s es f duration)).result := by
  have hinner : ∀ c ∈ es.map capture, c.isInner := by
    intro c hc
    obtain ⟨e, _, rfl⟩ := List.mem_map.mp hc
    cases e <;> rfl
  obtain ⟨calls, hfold⟩ := fold_within (f := f) ((open_start t s).tellAll hinner).opened
  have hresult : (t.tellAll (session s es f duration)).result =
      (Frame.node s f calls).toJson := by
    have hkind' : ((t.tell (.start s)).tellAll (es.map capture)).kind = .call := by
      rw [kind_tellAll]
      exact hkind
    rw [tellAll_session, tell_finish_some hfold, result, hkind']
  have hlisted : Listed s es (Frame.node s f calls).walk := by
    rw [walk_fold hfold]
    exact (follows_tellAll t s es).listed.finish f
  refine ⟨.node s f calls, fun tree => ?_, rfl, hlisted, fun k hpos hk => ?_, ?_⟩
  · rw [hresult]
    exact ⟨fun h => (Frame.toJson_inj h).symm, fun h => congrArg Frame.toJson h.symm⟩
  · rw [hlisted.length_eq] at hk
    exact openAfter_or_closes hpos (Nat.le_of_lt_succ hk)
  · rintro before g after rfl hopen
    rw [session_ignore t hopen]

/-- An end before any start, a frame that ends, and two that do not. -/
theorem result_tree_unbalanced :
    let s := fun gas => ({ opCode := .call, sender := .zero, target := .zero, gas } : FrameStart)
    let es : List Nesting :=
      [.exit {}, .enter (s 1), .enter (s 2), .exit { gasUsed := 5 }, .enter (s 3)]
    let t := ({ kind := .call, opened := [⟨s 4, []⟩] } : Tracer)
    ∃ root : Frame,
      (t.tellAll (session (s 0) es { gasUsed := 9 } 0)).result = root.toJson ∧
      root.walk.map Visit.start = [s 0, s 1, s 2, s 3] ∧
      (root.walk.map Visit.finish)[1]? = some ({} : FrameEnd) ∧
      (root.walk.map Visit.finish)[2]? = some { gasUsed := 5 } ∧
      (root.walk.map Visit.above)[3]? = some [1, 0] := by
  intro s es t
  obtain ⟨root, hreport, _, hlisted, _, _⟩ := result_tree (t := t) rfl (s 0) es { gasUsed := 9 } 0
  have hclosed : Closes es 2 { gasUsed := 5 } :=
    ⟨[.exit {}, .enter (s 1), .enter (s 2)], [.enter (s 3)], [1], rfl, rfl⟩
  have hthird : es =
      [.exit {}, .enter (s 1), .enter (s 2), .exit { gasUsed := 5 }] ++ .enter (s 3) :: [] := rfl
  exact ⟨root, (hreport root).mpr rfl, hlisted.starts,
    hlisted.unclosed (List.mem_cons_of_mem _ List.mem_cons_self), hlisted.closed hclosed,
    hlisted.above hthird⟩

end Tracer

end EvmBridge
