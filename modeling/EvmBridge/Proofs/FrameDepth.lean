import EvmBridge.Proofs.Answers
import EvmBridge.Proofs.Captures

/-!
# How deep frames nest

A frame is an object, and the frames it called are an array in it, so `n` frames inside each other
make `2 * n - 1` levels of JSON (`Frame.depth_toJson`). What a tracer does with its stack creates no
frame: no more are nested in a recording than were entered (`Tracer.Small`).
-/

namespace EvmBridge

/-! ## How deep a recording is -/

namespace Json

theorem depthOfMembers_le {ms : List (String × Json)} {n : Nat} (h : ∀ e ∈ ms, e.2.depth ≤ n) :
    depthOfMembers ms ≤ n := by
  induction ms with
  | nil => exact Nat.zero_le n
  | cons e ms ih =>
      rw [depthOfMembers]
      exact Nat.max_le.mpr ⟨h e List.mem_cons_self, ih fun d hd => h d (List.mem_cons_of_mem e hd)⟩

theorem le_depthOfMembers {ms : List (String × Json)} {e : String × Json} (h : e ∈ ms) :
    e.2.depth ≤ depthOfMembers ms := by
  induction ms with
  | nil => exact absurd h (by simp)
  | cons d ms ih =>
      rw [depthOfMembers]
      rcases List.mem_cons.mp h with rfl | h
      · exact Nat.le_max_left _ _
      · exact Nat.le_trans (ih h) (Nat.le_max_right _ _)

/-- One member after others that nest nothing decides how deep an object is. -/
theorem depth_object_append {ms : List (String × Json)} (hflat : ∀ e ∈ ms, e.2.depth = 0)
    (k : String) (v : Json) : (object (ms ++ [(k, v)])).depth = v.depth + 1 := by
  have hlast : (OrdMap.ofList (ms ++ [(k, v)])).get? k = some v := by
    rw [OrdMap.ofList, List.foldl_append]
    exact (OrdMap.get?_insert _ _ _ _).trans (if_pos rfl)
  have hmem : (k, v) ∈ (OrdMap.ofList (ms ++ [(k, v)])).toList :=
    OrdMap.get?_eq_some_iff.mp hlast
  have hle : depthOfMembers (OrdMap.ofList (ms ++ [(k, v)])).toList ≤ v.depth := by
    refine depthOfMembers_le fun e he => ?_
    rcases List.mem_append.mp (OrdMap.mem_of_mem_ofList he) with he | he
    · rw [hflat e he]
      exact Nat.zero_le _
    · exact Nat.le_of_eq (congrArg (·.2.depth) (List.mem_singleton.mp he))
  rw [object, depth, Nat.le_antisymm hle (le_depthOfMembers hmem)]

theorem depth_object_flat {ms : List (String × Json)} (hflat : ∀ e ∈ ms, e.2.depth = 0) :
    (object ms).depth = 1 := by
  have hle : depthOfMembers (OrdMap.ofList ms).toList ≤ 0 :=
    depthOfMembers_le fun e he => Nat.le_of_eq (hflat e (OrdMap.mem_of_mem_ofList he))
  rw [object, depth, Nat.le_zero.mp hle]

end Json

namespace Frame

mutual

/-- How many frames are nested in each other, this one included. -/
def levels : Frame → Nat
  | node _ _ calls => levelsOf calls + 1

/-- How many are nested in one of these frames. -/
def levelsOf : List Frame → Nat
  | [] => 0
  | f :: fs => max f.levels (levelsOf fs)

end

theorem levels_pos (f : Frame) : 0 < f.levels := by
  cases f
  rw [levels]
  exact Nat.succ_pos _

theorem depth_ownMembers {s : FrameStart} {f : FrameEnd} {e : String × Json}
    (he : e ∈ ownMembers s f) : e.2.depth = 0 := by
  obtain ⟨text, htext⟩ := exists_str_of_mem he
  rw [htext]
  rfl

mutual

/-- **Each frame makes two levels**, itself and the array it stands in; the top frame stands in
none. -/
theorem depth_toJson : ∀ f : Frame, f.toJson.depth + 1 = 2 * f.levels
  | node s f calls => by
      have hcalls := depth_toJsons calls
      rw [toJson, levels]
      cases calls with
      | nil =>
          have hown : (Json.object (ownMembers s f)).depth = 1 :=
            Json.depth_object_flat fun e he => depth_ownMembers he
          simpa [toJsons, levelsOf] using hown
      | cons c cs =>
          have hsome : (toJsons (c :: cs)).isEmpty = false := by rw [toJsons]; rfl
          rw [hsome, if_neg Bool.false_ne_true,
            Json.depth_object_append fun e he => depth_ownMembers he, Json.depth]
          have hpos := levels_pos c
          have hle : c.levels ≤ levelsOf (c :: cs) := by
            rw [levelsOf]
            exact Nat.le_max_left _ _
          omega

theorem depth_toJsons : ∀ fs : List Frame,
    Json.depthOfItems (toJsons fs) = 2 * levelsOf fs - 1
  | [] => rfl
  | f :: fs => by
      have hf := depth_toJson f
      have hfs := depth_toJsons fs
      rw [toJsons, Json.depthOfItems, levelsOf]
      omega

end

mutual

theorem canonical_toJson : ∀ f : Frame, f.toJson.canonical = f.toJson
  | node s f calls => by
      have hcalls := canonical_toJsons calls
      rw [toJson]
      refine Json.canonical_object fun e he => ?_
      rcases List.mem_append.mp he with he | he
      · obtain ⟨text, htext⟩ := exists_str_of_mem he
        rw [htext]
        rfl
      · split at he
        · exact absurd he (by simp)
        · rw [List.mem_singleton.mp he]
          exact congrArg Json.arr hcalls

theorem canonical_toJsons : ∀ fs : List Frame, Json.canonicalItems (toJsons fs) = toJsons fs
  | [] => rfl
  | f :: fs => by
      rw [toJsons, Json.canonicalItems, canonical_toJson f, canonical_toJsons fs]

end

end Frame

namespace Tracer

/-- How many frames of a recording are nested in each other. -/
def levels (t : Tracer) : Nat := t.root.elim 0 Frame.levels

variable {t : Tracer}

theorem depth_result (ht : t.kind = .call) : t.result.depth = 2 * t.levels - 1 := by
  unfold result levels
  cases hroot : t.root with
  | none => rfl
  | some root =>
      have hdepth := root.depth_toJson
      dsimp only
      rw [ht]
      show root.toJson.depth = 2 * root.levels - 1
      omega

theorem canonical_result (ht : t.kind = .call) : t.result.canonical = t.result := by
  unfold result
  cases hroot : t.root with
  | none => rfl
  | some root =>
      dsimp only
      rw [ht]
      exact root.canonical_toJson

end Tracer

/-! ## How many frames there are -/

namespace Frame

mutual

/-- How many frames there are, this one included. -/
def count : Frame → Nat
  | node _ _ calls => countAll calls + 1

def countAll : List Frame → Nat
  | [] => 0
  | f :: fs => f.count + countAll fs

end

theorem countAll_append (fs gs : List Frame) : countAll (fs ++ gs) = countAll fs + countAll gs := by
  induction fs with
  | nil => rw [List.nil_append, countAll, Nat.zero_add]
  | cons f fs ih => rw [List.cons_append, countAll, countAll, ih, Nat.add_assoc]

mutual

theorem levels_le_count : ∀ f : Frame, f.levels ≤ f.count
  | node _ _ calls => by
      rw [levels, count]
      exact Nat.succ_le_succ (levelsOf_le_countAll calls)

theorem levelsOf_le_countAll : ∀ fs : List Frame, levelsOf fs ≤ countAll fs
  | [] => Nat.le_refl 0
  | f :: fs => by
      have hf := levels_le_count f
      have hfs := levelsOf_le_countAll fs
      rw [levelsOf, countAll]
      omega

end

end Frame

namespace Tracer

variable {t : Tracer} {n : Nat}

/-- How many frames there are on a stack, with those they have completed. -/
def pending : List OpenFrame → Nat
  | [] => 0
  | o :: rest => Frame.countAll o.calls + 1 + pending rest

/-- A frame that ends is counted where it was called. -/
theorem pending_close (inner outer : OpenFrame) (rest : List OpenFrame) (f : FrameEnd) :
    pending ({ outer with calls := outer.calls ++ [inner.close f] } :: rest) =
      pending (inner :: outer :: rest) := by
  simp only [pending, OpenFrame.close, Frame.countAll_append, Frame.countAll, Frame.count]
  omega

theorem pending_closeInner (f : FrameEnd) (stack : List OpenFrame) :
    pending (closeInner f stack) = pending stack := by
  unfold closeInner
  split
  · exact pending_close _ _ _ f
  · rfl

theorem count_fold {f : FrameEnd} {stack : List OpenFrame} {root : Frame}
    (h : fold f stack = some root) : root.count = pending stack := by
  induction stack using fold.induct with
  | case1 =>
      rw [fold] at h
      exact absurd h (by simp)
  | case2 outer =>
      rw [fold] at h
      cases h
      rfl
  | case3 inner outer rest ih =>
      rw [fold] at h
      rw [ih h, pending_close]

/-- There are at most this many frames besides the top frame, on the stack and in the recording. -/
structure Small (n : Nat) (t : Tracer) : Prop where
  opened : pending t.opened ≤ n + 1
  root : ∀ root, t.root = some root → root.count ≤ n + 1

/-- Only a frame that is entered is one more. -/
theorem Small.tell (h : t.Small n) (c : Capture) :
    (t.tell c).Small (n + if c.isEnter then 1 else 0) := by
  obtain ⟨hopened, hroot⟩ := h
  cases c with
  | txStart | txEnd => exact ⟨hopened, hroot⟩
  | start s => exact ⟨Nat.le_add_left 1 n, fun _ h => absurd h (by simp [Tracer.tell, start])⟩
  | enter s =>
      refine ⟨?_, fun root h => Nat.le_succ_of_le (hroot root h)⟩
      show Frame.countAll [] + 1 + pending t.opened ≤ n + 1 + 1
      rw [Frame.countAll]
      omega
  | exit f =>
      refine ⟨?_, hroot⟩
      show pending (closeInner f t.opened) ≤ n + 1
      rw [pending_closeInner]
      exact hopened
  | finish f duration =>
      cases hfold : fold f t.opened with
      | none =>
          rw [tell_finish_none hfold]
          exact ⟨hopened, hroot⟩
      | some root =>
          rw [tell_finish_some hfold]
          refine ⟨Nat.zero_le _, fun root' h => ?_⟩
          cases h
          rw [count_fold hfold]
          exact hopened

theorem Small.tellAll (h : t.Small n) (cs : List Capture) :
    (t.tellAll cs).Small (n + cs.countP Capture.isEnter) := by
  induction cs generalizing t n with
  | nil => exact h
  | cons c cs ih =>
      rw [List.countP_cons, Nat.add_comm (cs.countP _), ← Nat.add_assoc]
      exact ih (h.tell c)

theorem Small.levels (h : t.Small n) : t.levels ≤ n + 1 := by
  unfold Tracer.levels
  cases hroot : t.root with
  | none => exact Nat.zero_le _
  | some root => exact Nat.le_trans root.levels_le_count (h.root root hroot)

end Tracer

end EvmBridge
