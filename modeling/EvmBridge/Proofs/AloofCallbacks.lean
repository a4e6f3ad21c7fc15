import EvmBridge.Host.Proxy
import EvmBridge.Proofs.BufferLedger
import EvmBridge.Proofs.NulFree

/-!
# Callbacks that keep to themselves

A callback is aloof if it does not call the module. It may answer anything or nothing, break off,
and make the creation of buffers fail. Such a callback does not see the objects of the module and
does not change them, and what it answers does not depend on them (`Aside`). This goes for the whole
way from the proxy to the callback and back.

So what arrives in the module can be told without the module: `World.arriving` is the text that is
read from a callback, if there is one, and `Outgoing.toOption_query` says that a query comes to
nothing but this text, decoded.
-/

namespace EvmBridge

/-! ## Aloof callbacks -/

/-- Code that does not call the module. -/
def Behaviour.Aloof {α : Type} : Behaviour α → Prop
  | answer _ | crash _ => True
  | call .. | request .. => False
  | starve _ next => next.Aloof
  | note _ next => next.Aloof
  | count next => ∀ calls, (next calls).Aloof

def Action.Aloof : Action → Prop
  | .plain respond => ∀ args, (respond args).Aloof
  | .blockHash provide => ∀ number, (provide number).Aloof
  | .external execute => ∀ inv, (execute inv).Aloof
  | .log => True

namespace World

/-- No callback calls the module. -/
def Aloof (w : World) : Prop :=
  ∀ id : CallbackId, (w.callbacks[id]?.getD (default : Callback)).action.Aloof

/-- The world with other objects in the module. -/
def withEngine (w : World) (e : Engine) : World := { w with engine := e }

end World

/-- What is done aside from the objects of the module: it goes the same way whatever they are, and
leaves them alone. Callbacks stay aloof. -/
structure Aside {β : Type} (f : World → β × World) : Prop where
  blind : ∀ {w : World}, w.Aloof → ∀ e : Engine,
    f (w.withEngine e) = ((f w).1, (f w).2.withEngine e)
  aloof : ∀ {w : World}, w.Aloof → (f w).2.Aloof

theorem Aside.engine {β : Type} {f : World → β × World} (hf : Aside f) {w : World} (hw : w.Aloof) :
    (f w).2.engine = w.engine := by
  have hblind : f w = ((f w).1, (f w).2.withEngine w.engine) := hf.blind hw w.engine
  rw [hblind]
  rfl

namespace Aside

variable {β γ ι : Type} {f : World → β × World}

theorem pure (b : β) : Aside fun w => (b, w) := ⟨fun _ _ => rfl, fun hw => hw⟩

theorem emit (b : β) (e : Event) : Aside fun w => (b, w.emit e) := ⟨fun _ _ => rfl, fun hw => hw⟩

/-- Something else may be done before, if it is done aside as well. -/
theorem after {g : World → World} (hf : Aside f)
    (hblind : ∀ (w : World) (e : Engine), g (w.withEngine e) = (g w).withEngine e)
    (haloof : ∀ {w : World}, w.Aloof → (g w).Aloof) : Aside fun w => f (g w) where
  blind {w} hw e := by
    rw [hblind]
    exact hf.blind (haloof hw) e
  aloof hw := hf.aloof (haloof hw)

theorem bind {g : β → World → γ × World} (hf : Aside f) (hg : ∀ b, Aside (g b)) :
    Aside fun w => g (f w).1 (f w).2 where
  blind hw e := by
    rw [hf.blind hw e]
    exact (hg _).blind (hf.aloof hw) e
  aloof hw := (hg _).aloof (hf.aloof hw)

end Aside

/-! ## From the callback to the proxy -/

/-- A callback stays aloof when its calls are counted. -/
theorem World.Aloof.count {w : World} (hw : w.Aloof) (id : CallbackId) (n : Nat) :
    let c := w.callbacks[id]?.getD default
    World.Aloof { w with callbacks := w.callbacks.set id { c with calls := n } } := by
  intro c id'
  dsimp only
  rw [List.getElem?_set]
  by_cases h : id = id'
  · subst h
    rw [if_pos rfl]
    split
    · exact hw id
    · exact trivial
  · rw [if_neg h]
    exact hw id'

theorem Behaviour.aside {α : Type} {b : Behaviour α} (hb : b.Aloof) (upcall : Upcall)
    (id : CallbackId) : Aside (b.run upcall id) := by
  induction b with
  | answer a => exact ⟨fun _ _ => rfl, fun hw => hw⟩
  | crash message => exact ⟨fun _ _ => rfl, fun hw => hw⟩
  | call method args next => exact hb.elim
  | request method args next => exact hb.elim
  | starve times next ih =>
      show Aside fun w =>
        next.run upcall id { w with buffers := { w.buffers with failNext := times } }
      exact (ih hb).after (fun _ _ => rfl) fun hw => hw
  | note n next ih =>
      show Aside fun w => next.run upcall id (w.note id n)
      exact (ih hb).after (fun _ _ => rfl) fun hw => hw
  | count next ih =>
      -- what is done next depends on the callback, but not on the module
      exact ⟨fun hw e => (ih _ (hb _)).blind (hw.count id _) e,
        fun hw => (ih _ (hb _)).aloof (hw.count id _)⟩

namespace Callback

theorem aside_finish {α : Type} {f : World → Except String α × World} (hf : Aside f)
    {answer : α → World → Option String × World} (hanswer : ∀ a, Aside (answer a)) :
    Aside fun w => finish answer (f w) := by
  refine hf.bind (g := fun r w => finish answer (r, w)) fun r => ?_
  cases r with
  | error message => exact .pure _
  | ok a => exact (hanswer a).bind fun s? => .pure (Except.ok s?)

theorem aside_hashAnswer (args : String) (o : Except String Hash) : Aside (hashAnswer args o) := by
  cases o with
  | error e => exact .emit _ _
  | ok hash => exact .pure _

theorem aside_resultAnswer (o : Except String InvocationResult) : Aside (resultAnswer o) := by
  cases o with
  | error e => exact .emit _ _
  | ok r => exact .pure _

/-- **An aloof callback works aside from the module.** -/
theorem aside {action : Action} (ha : action.Aloof) (upcall : Upcall) (id : CallbackId)
    (args : String) : Aside (run upcall id action args) := by
  have hnoted : ∀ {β : Type} {f : World → β × World}, Aside f →
      Aside fun w => f (w.note id (.called args)) :=
    fun hf => hf.after (fun _ _ => rfl) fun hw => hw
  unfold run
  cases action with
  | plain respond => exact hnoted (Behaviour.aside (ha args) upcall id)
  | blockHash provide =>
      cases Codec.quantity.decode args with
      | error e => exact hnoted (aside_finish (.pure _) (aside_hashAnswer args))
      | ok number =>
          exact hnoted
            (aside_finish (Behaviour.aside (ha number) upcall id) (aside_hashAnswer args))
  | external execute =>
      cases ExternalInvocation.codec.decode args with
      | error e => exact hnoted (aside_finish (.pure _) aside_resultAnswer)
      | ok inv =>
          exact hnoted (aside_finish (Behaviour.aside (ha inv) upcall id) aside_resultAnswer)
  | log =>
      cases LogRecord.codec.decode args with
      | error e => exact .emit _ _
      | ok r => exact .emit _ _

end Callback

namespace Proxy

/-- What is told of a callback that breaks off is told aside as well. -/
theorem aside_dispatch (upcall : Upcall) (registry : Registry) (h : Handle) (args : String) :
    Aside (dispatch upcall registry h args) := by
  unfold dispatch
  cases registry.get? h with
  | none => exact .emit _ _
  | some id =>
      constructor
      · intro w hw e
        have hrun := (Callback.aside (hw id) upcall id args).blind hw e
        have hsame : (w.withEngine e).callbacks = w.callbacks := rfl
        dsimp only
        rw [hsame, hrun]
        rcases Callback.run upcall id (w.callbacks[id]?.getD default).action args w with
          ⟨message | answer, w'⟩
        · rfl
        · rfl
      · intro w hw
        have hrun := (Callback.aside (hw id) upcall id args).aloof hw
        dsimp only
        split <;> rename_i he <;> rw [he] at hrun
        · exact hrun
        · exact hrun

theorem aside_hand (text : String) : Aside (hand text) := by
  constructor
  · intro w hw e
    have hsame : (w.withEngine e).buffers = w.buffers := rfl
    unfold hand
    dsimp only
    rw [hsame]
    rcases w.buffers.put (Utf8.encode text) with ⟨_ | id, buffers⟩
    · rfl
    · rfl
  · intro w hw
    unfold hand
    dsimp only
    rcases w.buffers.put (Utf8.encode text) with ⟨_ | id, buffers⟩
    · exact hw
    · exact hw

/-- **Serving a callback is done aside from the module.** -/
theorem aside_serve (upcall : Upcall) (h : Handle) (args? : Option Bytes) :
    Aside (serve upcall h args?) := by
  unfold serve
  cases args?.elim (.ok "") fun bytes => BufferError.readText (some bytes) with
  | error e => exact .emit _ _
  | ok args =>
      constructor
      · intro w hw e
        have hdispatch := aside_dispatch upcall w.registry h args
        have haloof := hdispatch.aloof hw
        have hsame : (w.withEngine e).registry = w.registry := rfl
        dsimp only
        rw [hsame, hdispatch.blind hw e]
        generalize dispatch upcall w.registry h args w = o at haloof ⊢
        rcases o with ⟨_ | answer, w'⟩
        · rfl
        · exact (aside_hand answer).blind haloof e
      · intro w hw
        have haloof := (aside_dispatch upcall w.registry h args).aloof hw
        dsimp only
        generalize dispatch upcall w.registry h args w = o at haloof ⊢
        rcases o with ⟨_ | answer, w'⟩
        · exact haloof
        · exact (aside_hand answer).aloof haloof

end Proxy

/-! ## What arrives -/

/-- The text that the module reads when it calls a callback: the answer, up to its first NUL
character. Nothing arrives if the module cannot call the host, if no callback has the handle, if the
callback breaks off or has no answer, or if there is no buffer for it. -/
def World.arriving (upcall : Upcall) (h : Handle) (args : String) (w : World) : Option String :=
  if w.connected then
    match w.registry.get? h with
    | none => none
    | some id =>
      match Callback.run upcall id (w.callbacks[id]?.getD default).action args w with
      | (.ok (some answer), w) =>
        if (w.buffers.put (Utf8.encode answer)).1.isSome then some (Utf8.beforeNul answer)
        else none
      | _ => none
  else none

/-- What arrives does not depend on the objects of the module. -/
theorem World.arriving_withEngine {w : World} (hw : w.Aloof) (e : Engine) (upcall : Upcall)
    (h : Handle) (args : String) :
    (w.withEngine e).arriving upcall h args = w.arriving upcall h args := by
  have hregistry : (w.withEngine e).registry = w.registry := rfl
  have hconnected : (w.withEngine e).connected = w.connected := rfl
  have hcallbacks : (w.withEngine e).callbacks = w.callbacks := rfl
  unfold arriving
  rw [hregistry, hconnected, hcallbacks]
  cases w.registry.get? h with
  | none => rfl
  | some id =>
      have hrun := (Callback.aside (hw id) upcall id args).blind hw e
      dsimp only
      rw [hrun]
      rcases Callback.run upcall id (w.callbacks[id]?.getD default).action args w with
        ⟨message | _ | answer, w'⟩
      · rfl
      · rfl
      · rfl

namespace Outgoing

variable {α : Type} {upcall : Upcall} {h : Handle} {args : String} {w : World}

/-- A text that is handed over in a buffer is read up to its first NUL character. -/
theorem read_hand {text : String} {w w' : World} {id? : Option BufferId}
    (h : Proxy.hand text w = (id?, w')) :
    (w.buffers.put (Utf8.encode text)).1 = id? ∧
      ∀ id, id? = some id → Utf8.decode (w'.buffers.take id).1 = .ok (Utf8.beforeNul text) := by
  unfold Proxy.hand at h
  dsimp only at h
  rcases hput : w.buffers.put (Utf8.encode text) with ⟨_ | id, buffers⟩
  · rw [hput] at h
    cases h
    exact ⟨rfl, fun _ h => absurd h (by simp)⟩
  · rw [hput] at h
    cases h
    refine ⟨rfl, fun id' h => ?_⟩
    cases h
    dsimp only
    rw [Buffers.take_put hput, Utf8.untilNul_encode_eq, Utf8.decode_encode]

/-- **Asking a callback brings the text that arrives,** or nothing. -/
theorem answer_ask (hargs : '\x00' ∉ args.toList) :
    (ask (Proxy.serve upcall) h args w).1.toOption.join = w.arriving upcall h args := by
  unfold ask World.arriving
  cases hconnected : w.connected with
  | false => rfl
  | true =>
      have hplain : ¬ args.toList.contains '\x00' = true := by simpa using hargs
      rw [if_neg (by simp), if_neg hplain, if_pos rfl]
      unfold Proxy.serve
      rw [Option.elim_some, BufferError.readText_encode hargs]
      unfold Proxy.dispatch
      dsimp only
      cases w.registry.get? h with
      | none => rfl
      | some id =>
          dsimp only
          rcases Callback.run upcall id (w.callbacks[id]?.getD default).action args w with
            ⟨message | _ | answer, w'⟩
          · rfl
          · rfl
          · dsimp only
            rcases hhand : Proxy.hand answer w' with ⟨_ | id', w''⟩
            · rw [(read_hand hhand).1]
              rfl
            · obtain ⟨hput, hread⟩ := read_hand hhand
              dsimp only
              rw [hput, hread id' rfl]
              rfl

/-- **A query comes to what arrives, decoded.** -/
theorem toOption_query (c : Codec α) (hargs : '\x00' ∉ args.toList) :
    (query (Proxy.serve upcall) c h args w).1.toOption =
      (w.arriving upcall h args).bind fun text => (c.decode text).toOption := by
  have hask := @answer_ask upcall h args w hargs
  unfold query invoke
  rcases ha : ask (Proxy.serve upcall) h args w with ⟨e | _ | text, w'⟩
  · rw [ha] at hask
    rw [← hask]
    rfl
  · rw [ha] at hask
    rw [← hask]
    rfl
  · rw [ha] at hask
    rw [← hask]
    show ((c.decode text).mapError _).toOption = (c.decode text).toOption
    cases c.decode text with
    | error e => rfl
    | ok a => rfl

end Outgoing

end EvmBridge
