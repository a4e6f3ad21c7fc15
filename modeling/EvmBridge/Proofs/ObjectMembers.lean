import EvmBridge.Json.Basic
import Mathlib.Data.List.Induction

/-!
# What objects say

An object that is built of members says under a name what the last of these members says
(`Json.member?_object_append`). If no name occurs twice, it says all its members do
(`Json.member?_object_eq_some_iff`).
-/

namespace EvmBridge.Json

/-- What an object says under a name. -/
def member? (name : String) : Json → Option Json
  | .obj members => OrdMap.lookup name members
  | _ => none

@[simp] theorem member?_object_nil (name : String) : (object []).member? name = none := rfl

/-- The last member counts. -/
theorem member?_object_append (ms : List (String × Json)) (k : String) (v : Json) (name : String) :
    (object (ms ++ [(k, v)])).member? name =
      if name = k then some v else (object ms).member? name := by
  have hlast : OrdMap.ofList (ms ++ [(k, v)]) = (OrdMap.ofList ms).insert k v := by
    rw [OrdMap.ofList, List.foldl_append]
    rfl
  show (OrdMap.ofList (ms ++ [(k, v)])).get? name = _
  rw [hlast]
  exact OrdMap.get?_insert _ _ _ _

theorem member?_object_eq_some_iff {ms : List (String × Json)} (h : (ms.map Prod.fst).Nodup)
    {name : String} {v : Json} : (object ms).member? name = some v ↔ (name, v) ∈ ms := by
  induction ms using List.reverseRecOn with
  | nil => simp
  | append_singleton ms e ih =>
      obtain ⟨k, u⟩ := e
      rw [List.map_append, List.nodup_append] at h
      obtain ⟨hnodup, _, hnew⟩ := h
      have hk : ∀ u', (k, u') ∉ ms := fun u' hmem =>
        hnew k (List.mem_map.mpr ⟨_, hmem, rfl⟩) k (List.mem_singleton.mpr rfl) rfl
      rw [member?_object_append, List.mem_append, List.mem_singleton, Prod.mk.injEq]
      by_cases hname : name = k
      · subst hname
        rw [if_pos rfl, Option.some.injEq]
        exact ⟨fun hv => .inr ⟨rfl, hv.symm⟩, fun hmem => (hmem.resolve_left (hk v)).2.symm⟩
      · rw [if_neg hname, ih hnodup]
        exact ⟨.inl, fun hmem => hmem.resolve_right fun heq => hname heq.1⟩

end EvmBridge.Json
