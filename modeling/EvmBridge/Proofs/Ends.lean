import EvmBridge.World

/-!
# How an act ends

An act ends with an answer or in a fault, and leaves a world behind in both cases. `Ends` says what
holds of either end. One lemma for each way to build an act reduces a statement about the whole to
one about its parts, so that a program is followed step by step from its first world.
-/

namespace EvmBridge

/-- How an act ended: with an answer and a world that satisfy `Q`, or with a fault and a world that
satisfy `E`. -/
def Ends {α : Type} (o : Except Fault α × World) (Q : α → World → Prop)
    (E : Fault → World → Prop) : Prop :=
  match o with
  | (.ok r, w) => Q r w
  | (.error f, w) => E f w

variable {α β : Type} {w : World}

section

variable {o : Except Fault α × World} {Q : α → World → Prop} {E : Fault → World → Prop}

theorem Ends.ok (h : Ends o Q E) {r : α} (ho : o = (.ok r, w)) : Q r w := by
  subst ho; exact h

theorem Ends.error (h : Ends o Q E) {f : Fault} (ho : o = (.error f, w)) : E f w := by
  subst ho; exact h

theorem Ends.imp {Q' : α → World → Prop} {E' : Fault → World → Prop} (h : Ends o Q E)
    (hQ : ∀ r w, Q r w → Q' r w) (hE : ∀ f w, E f w → E' f w) : Ends o Q' E' := by
  rcases o with ⟨_ | _, w⟩
  · exact hE _ _ h
  · exact hQ _ _ h

theorem Ends.of_forall (hQ : ∀ r w, Q r w) (hE : ∀ f w, E f w) : Ends o Q E := by
  rcases o with ⟨_ | _, w⟩
  · exact hE _ _
  · exact hQ _ _

/-- Both ends satisfy the same. -/
theorem Ends.world {J : World → Prop} (h : Ends o (fun _ => J) fun _ => J) : J o.2 := by
  rcases o with ⟨_ | _, w⟩ <;> exact h

theorem Ends.of_world {J : World → Prop} (h : J o.2) : Ends o (fun _ => J) fun _ => J := by
  rcases o with ⟨_ | _, w⟩ <;> exact h

end

/-- Naming an error differently makes no answer. -/
theorem of_mapError_ok {ε ε' : Type} {f : ε → ε'} {o : Except ε α} {r : α}
    (h : o.mapError f = .ok r) : o = .ok r := by
  cases o with
  | error e => cases h
  | ok a => exact congrArg Except.ok (Except.ok.inj h)

namespace Act

variable {a : Act α} {f : α → Act β} {Q : β → World → Prop} {E : Fault → World → Prop}

@[simp] theorem ends_pure {r : β} : Ends ((pure r : Act β) w) Q E ↔ Q r w := Iff.rfl

@[simp] theorem ends_bind :
    Ends ((a >>= f) w) Q E ↔ Ends (a w) (fun r w => Ends (f r w) Q E) E := by
  show Ends (ExceptT.bindCont f (a w).1 (a w).2) Q E ↔ Ends (a w) _ E
  rcases a w with ⟨_ | _, w⟩ <;> exact Iff.rfl

@[simp] theorem ends_map {g : α → β} :
    Ends ((g <$> a) w) Q E ↔ Ends (a w) (fun r => Q (g r)) E := by
  rw [map_eq_pure_bind, ends_bind]
  exact Iff.rfl

@[simp] theorem ends_refuse {e : EngineError} :
    Ends ((refuse e : Act β) w) Q E ↔ E (.error e) w := Iff.rfl

@[simp] theorem ends_attempt {Q : Except Fault α → World → Prop} :
    Ends (attempt a w) Q E ↔ Ends (a w) (fun r => Q (.ok r)) (fun e => Q (.error e)) := by
  show Ends (.ok (a w).1, (a w).2) Q E ↔ _
  rcases a w with ⟨_ | _, w⟩ <;> exact Iff.rfl

theorem ends_ofExcept {o : Except EngineError α} (he : ∀ e, o = .error e → E (.error e) w)
    (hr : ∀ r, o = .ok r → Ends (f r w) Q E) : Ends ((Act.ofExcept o >>= f) w) Q E := by
  cases o with
  | error e => exact he e rfl
  | ok r => exact hr r rfl

/-- An act goes on from the answer of its first part. -/
theorem bind_ok {r : α} {w' : World} (h : a w = (.ok r, w')) : (a >>= f) w = f r w' := by
  show ExceptT.bindCont f (a w).1 (a w).2 = _
  rw [h]
  rfl

/-- An act that breaks off in its first part goes no further. -/
theorem bind_error {e : Fault} {w' : World} (h : a w = (.error e, w')) :
    (a >>= f) w = (.error e, w') := by
  show ExceptT.bindCont f (a w).1 (a w).2 = _
  rw [h]
  rfl

theorem map_ok {g : α → β} {r : α} {w' : World} (h : a w = (.ok r, w')) :
    (g <$> a) w = (.ok (g r), w') := by
  rw [map_eq_pure_bind, bind_ok h]
  rfl

theorem map_error {g : α → β} {e : Fault} {w' : World} (h : a w = (.error e, w')) :
    (g <$> a) w = (.error e, w') := by
  rw [map_eq_pure_bind, bind_error h]

theorem attempt_eq {o : Except Fault α} {w' : World} (h : a w = (o, w')) :
    attempt a w = (.ok o, w') := by
  unfold attempt
  rw [h]

theorem ofExcept_ok {o : Except EngineError α} {r : α} (h : o = .ok r) :
    Act.ofExcept o w = (.ok r, w) := by
  rw [h]
  rfl

theorem ofExcept_error {o : Except EngineError α} {e : EngineError} (h : o = .error e) :
    Act.ofExcept o w = (.error (.error e), w) := by
  rw [h]
  rfl

end Act

end EvmBridge
