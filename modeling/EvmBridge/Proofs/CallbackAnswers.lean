import EvmBridge.Proofs.AloofCallbacks

/-!
# What a callback answers

Between a callback and the module a text lies in a buffer, and a buffer is read up to its first zero
byte. On the way in this does no harm, because arguments with a NUL character are refused. On the
way back nobody looks: an answer that holds one is cut there, and what is left of it is taken for
the answer (`Outgoing.invoke_conveyed`). All other answers arrive as they are.
-/

namespace EvmBridge

/-- A callback is called with these arguments and gives this answer, for which there is a buffer. -/
structure World.Replies (w : World) (upcall : Upcall) (h : Handle) (args answer : String) :
    Prop where
  connected : w.connected
  /-- Arguments with a NUL character are not handed over at all. -/
  plain : '\x00' ∉ args.toList
  called : ∃ id w', w.registry.get? h = some id ∧
    Callback.run upcall id (w.callbacks[id]?.getD default).action args w = (.ok (some answer), w') ∧
    (w'.buffers.put (Utf8.encode answer)).1.isSome

namespace World

variable {w : World} {upcall : Upcall} {h : Handle} {args answer text : String}

/-- What a callback says arrives, up to its first NUL character. -/
theorem Replies.arriving (hreply : w.Replies upcall h args answer) :
    w.arriving upcall h args = some (Utf8.beforeNul answer) := by
  obtain ⟨id, w', hid, hrun, hput⟩ := hreply.called
  unfold World.arriving
  rw [if_pos hreply.connected, hid]
  dsimp only
  rw [hrun]
  dsimp only
  rw [if_pos hput]

/-- Nothing arrives that no callback said. -/
theorem reply_of_arriving (hargs : '\x00' ∉ args.toList)
    (harrives : w.arriving upcall h args = some text) :
    ∃ answer, w.Replies upcall h args answer ∧ text = Utf8.beforeNul answer := by
  unfold World.arriving at harrives
  split at harrives
  · rename_i hconnected
    split at harrives
    · exact absurd harrives (by simp)
    · rename_i id hid
      split at harrives
      · rename_i answer w' hrun
        split at harrives
        · rename_i hput
          cases harrives
          exact ⟨answer, ⟨hconnected, hargs, id, w', hid, hrun, hput⟩, rfl⟩
        · exact absurd harrives (by simp)
      · exact absurd harrives (by simp)
  · exact absurd harrives (by simp)

end World

namespace Outgoing

variable {w : World} {upcall : Upcall} {h : Handle} {args answer : String}
  {r : Option String}

/-- A call that must answer brings what arrives, and fails if that is nothing. -/
theorem toOption_invoke (hargs : '\x00' ∉ args.toList) :
    (invoke (Proxy.serve upcall) h args true w).1.toOption =
      (w.arriving upcall h args).map some := by
  have hask := @answer_ask upcall h args w hargs
  unfold invoke
  rcases ha : ask (Proxy.serve upcall) h args w with ⟨e | _ | text, w'⟩
  · rw [← hask, ha]
    rfl
  · rw [← hask, ha]
    rfl
  · rw [← hask, ha]
    rfl

/-- Arguments with a NUL character reach no callback. -/
theorem invoke_nul (expectResult : Bool) (hargs : '\x00' ∈ args.toList) :
    ∃ e, invoke upcall h args expectResult w = (.error e, w) := by
  unfold invoke ask
  cases w.connected with
  | false => exact ⟨_, rfl⟩
  | true =>
      have hcut : args.toList.contains '\x00' = true := by simpa using hargs
      rw [if_neg (by simp), if_pos hcut]
      exact ⟨_, rfl⟩

theorem invoke_of_reply (hreply : w.Replies upcall h args answer) :
    (invoke (Proxy.serve upcall) h args true w).1 = .ok (some (Utf8.beforeNul answer)) := by
  have hbrings := @toOption_invoke w upcall h args hreply.plain
  rw [hreply.arriving] at hbrings
  rcases hr : (invoke (Proxy.serve upcall) h args true w).1 with e | r
  · rw [hr] at hbrings
    exact absurd hbrings (by simp [Except.toOption])
  · rw [hr] at hbrings
    exact congrArg Except.ok (Option.some.inj hbrings)

theorem reply_of_invoke (hr : (invoke (Proxy.serve upcall) h args true w).1 = .ok r) :
    ∃ answer, w.Replies upcall h args answer ∧ r = some (Utf8.beforeNul answer) := by
  by_cases hargs : '\x00' ∈ args.toList
  · obtain ⟨e, he⟩ := @invoke_nul w (Proxy.serve upcall) h args true hargs
    rw [he] at hr
    exact absurd hr (by simp)
  · have hbrings := @toOption_invoke w upcall h args hargs
    rw [hr] at hbrings
    obtain ⟨text, harrives, rfl⟩ := Option.map_eq_some_iff.mp hbrings.symm
    obtain ⟨answer, hreply, rfl⟩ := World.reply_of_arriving hargs harrives
    exact ⟨answer, hreply, rfl⟩

/-- **A query brings what a callback answers**, and of what the callback left only the buffers
change. -/
theorem query_of_run {α : Type} {c : Codec α} {a : α} {id : CallbackId} {w' : World}
    (hconnected : w.connected) (hargs : '\x00' ∉ args.toList) (hid : w.registry.get? h = some id)
    (hrun : Callback.run upcall id (w.action id) args w = (.ok (some answer), w'))
    (hput : (w'.buffers.put (Utf8.encode answer)).1.isSome) (hanswer : '\x00' ∉ answer.toList)
    (hdecode : c.decode answer = .ok a) :
    ∃ buffers, query (Proxy.serve upcall) c h args w = (.ok a, { w' with buffers }) := by
  have hplain : ¬ args.toList.contains '\x00' = true := by simpa using hargs
  have hserve : Proxy.serve upcall h (some (Utf8.encode args)) w = Proxy.hand answer w' := by
    unfold World.action at hrun
    unfold Proxy.serve Proxy.dispatch
    rw [Option.elim_some, BufferError.readText_encode hargs]
    dsimp only
    rw [hid]
    dsimp only
    rw [hrun]
  obtain ⟨id', hid'⟩ := Option.isSome_iff_exists.mp hput
  rcases hhand : Proxy.hand answer w' with ⟨id?, w''⟩
  obtain ⟨hsome, hread⟩ := read_hand hhand
  obtain rfl := hsome.symm.trans hid'
  obtain ⟨buffers, rfl⟩ : ∃ buffers, w'' = { w' with buffers } := by
    unfold Proxy.hand at hhand
    dsimp only at hhand
    split at hhand <;> cases hhand
    exact ⟨_, rfl⟩
  have hask : ask (Proxy.serve upcall) h args w =
      (.ok (some answer), { w' with buffers := (buffers.take id').2 }) := by
    unfold ask
    rw [if_neg (by simpa using hconnected), if_neg hplain, hserve, hhand]
    dsimp only
    rw [hread id' rfl, Utf8.beforeNul_eq hanswer]
  have hinvoke : invoke (Proxy.serve upcall) h args true w =
      (.ok (some answer), { w' with buffers := (buffers.take id').2 }) := by
    unfold invoke
    rw [hask]
    rfl
  refine ⟨(buffers.take id').2, ?_⟩
  unfold query
  rw [hinvoke]
  dsimp only
  rw [hdecode]
  rfl

/-- What a call that must answer comes to. -/
structure Conveyed (upcall : Upcall) (h : Handle) (args : String) (w : World)
    (r : Except CallbackError (Option String)) : Prop where
  /-- What is brought was said by the callback, to exactly these arguments. Only what stands behind
  a NUL character may be missing. -/
  said : ∀ a, r = .ok a →
    ∃ answer, w.Replies upcall h args answer ∧ a = some (Utf8.beforeNul answer)
  /-- An answer without NUL characters is brought as it is. -/
  unaltered : ∀ answer, w.Replies upcall h args answer → '\x00' ∉ answer.toList →
    r = .ok (some answer)
  /-- Any other answer is cut, and the call does not fail. -/
  cut : ∀ answer, w.Replies upcall h args answer → '\x00' ∈ answer.toList →
    ∃ text, r = .ok (some text) ∧ text ≠ answer

theorem beforeNul_ne {s : String} (h : '\x00' ∈ s.toList) : Utf8.beforeNul s ≠ s := by
  intro he
  rw [← he, Utf8.beforeNul, String.toList_ofList] at h
  have hbefore := List.all_eq_true.mp List.all_takeWhile _ h
  exact absurd hbefore (by decide)

/-- **An answer without NUL characters crosses the boundary unaltered.** Take any callback, which
may call the module as it likes, any arguments and any world. If the call brings a text, the
callback was given exactly these arguments and gave this text as its answer, or one that goes on
behind a NUL character. If it does not, it reports an error. -/
theorem invoke_conveyed (upcall : Upcall) (h : Handle) (args : String) (w : World) :
    Conveyed upcall h args w (invoke (Proxy.serve upcall) h args true w).1 where
  said _ hr := reply_of_invoke hr
  unaltered answer hreply hplain := by rw [invoke_of_reply hreply, Utf8.beforeNul_eq hplain]
  cut answer hreply hnul := ⟨_, invoke_of_reply hreply, beforeNul_ne hnul⟩

/-- A host with one callback, which always gives the same answer. -/
def parrot (answer : String) : World where
  connected := true
  registry := ⟨.ofList [(1, 0)]⟩
  callbacks := [{ label := 0, action := .plain fun _ => .answer (some answer) }]

/-- It says the same whatever it is asked, and whatever the module has opened. -/
theorem replies_parrot {args answer : String} (e : Engine) (hargs : '\x00' ∉ args.toList)
    (hshort : (({} : Buffers).put (Utf8.encode answer)).1.isSome) :
    ((parrot answer).withEngine e).Replies (Proxy.nested 0) 1 args answer :=
  ⟨rfl, hargs, 0, _, rfl, rfl, hshort⟩

/-- A text comes back, and it is the one that was said. -/
theorem invoke_conveyed_pong :
    (parrot "pong").Replies (Proxy.nested 0) 1 "ping" "pong" ∧
      (invoke (Proxy.nested 1) 1 "ping" true (parrot "pong")).1 = .ok (some "pong") := by
  have hreply : (parrot "pong").Replies (Proxy.nested 0) 1 "ping" "pong" :=
    replies_parrot {} (by decide) (by decide +kernel)
  exact ⟨hreply, (invoke_conveyed (Proxy.nested 0) 1 "ping" _).unaltered "pong" hreply (by decide)⟩

/-- **An answer arrives cut.** The callback says five characters, and the module takes two of them
for its answer. -/
theorem invoke_cuts :
    (parrot "po\x00ng").Replies (Proxy.nested 0) 1 "ping" "po\x00ng" ∧
      (invoke (Proxy.nested 1) 1 "ping" true (parrot "po\x00ng")).1 = .ok (some "po") := by
  have hreply : (parrot "po\x00ng").Replies (Proxy.nested 0) 1 "ping" "po\x00ng" :=
    replies_parrot {} (by decide) (by decide +kernel)
  have hcut : Utf8.beforeNul "po\x00ng" = "po" := by decide +kernel
  refine ⟨hreply, ?_⟩
  rw [← hcut]
  exact invoke_of_reply hreply

end Outgoing

end EvmBridge
