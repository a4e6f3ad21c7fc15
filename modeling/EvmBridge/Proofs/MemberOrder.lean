import EvmBridge.Proofs.RecordReading
import EvmBridge.Wire.Context
import Mathlib.Logic.Relation

/-!
# The order of members does not matter

Two documents are `Reordered` if they differ by the order of the members of their objects, at any
depth. A codec that is `Regular` reads the same value from both. One lemma for each way to build a
codec shows that all records of regular fields are regular, if they refuse what they do not know.
(Where members are skipped, or of two members of one key the later counts, order does matter.)

That a codec is regular also says how deep it goes. So it makes no difference whether a value
stands in a record or alone (`Codec.Regular.steady`), as long as the whole is not nested deeper than
a text may be.
-/

namespace EvmBridge

namespace Doc

/-- Some object in the document has its members in another order. -/
inductive Reorder : Doc → Doc → Prop where
  | here {ms ms' : List (Doc × Doc)} (closed : Bool) (h : ms.Perm ms') :
      Reorder (.obj ms closed) (.obj ms' closed)
  | member (before after : List (Doc × Doc)) (k : Doc) {d d' : Doc} (closed : Bool)
      (h : Reorder d d') :
      Reorder (.obj (before ++ (k, d) :: after) closed) (.obj (before ++ (k, d') :: after) closed)
  | item (before after : List Doc) {d d' : Doc} (closed : Bool) (h : Reorder d d') :
      Reorder (.arr (before ++ d :: after) closed) (.arr (before ++ d' :: after) closed)

/-- The documents differ by the order of the members of their objects. -/
def Reordered : Doc → Doc → Prop := Relation.ReflTransGen Reorder

theorem Reorder.symm {d d' : Doc} (h : d.Reorder d') : d'.Reorder d := by
  induction h with
  | here closed h => exact .here closed h.symm
  | member before after k closed _ ih => exact .member before after k closed ih
  | item before after closed _ ih => exact .item before after closed ih

end Doc

/-! ## Lists that differ in one place -/

section

variable {α β : Type} {R : α → α → Prop} {P : α → β → Prop}

theorem forall₂_replace (hrefl : ∀ a, R a a) (before after : List α) {a a' : α} (h : R a a') :
    List.Forall₂ R (before ++ a :: after) (before ++ a' :: after) := by
  induction before with
  | nil => exact .cons h (List.forall₂_same.mpr fun b _ => hrefl b)
  | cons b before ih => exact .cons (hrefl b) ih

theorem forall₂_of_replace {before after : List α} {a a' : α} {l : List β}
    (h : List.Forall₂ P (before ++ a :: after) l) (ha : ∀ b, P a b → P a' b) :
    List.Forall₂ P (before ++ a' :: after) l := by
  induction before generalizing l with
  | nil =>
      cases h with
      | cons hb hrest => exact .cons (ha _ hb) hrest
  | cons c before ih =>
      cases h with
      | cons hc hrest => exact .cons hc (ih hrest)

end

namespace Fields

variable {ρ : Type} {get get' : Reading Doc} {fs : Fields ρ} {R : Doc → Doc → Prop}

/-- Values that are read alike make the same record. -/
theorem Takes.imp {ms ms' : List (Doc × Doc)} {r : ρ} (h : fs.Takes get ms r)
    (hget : fs.All fun _ c _ _ => ∀ d d' a, R d d' → get c d = .ok a → get' c d' = .ok a)
    (hmem : ∀ k d, (k, d) ∈ ms → ∃ d', R d d' ∧ (k, d') ∈ ms')
    (hmem' : ∀ k d', (k, d') ∈ ms' → ∃ d, (k, d) ∈ ms) : fs.Takes get' ms' r := by
  induction fs with
  | done => trivial
  | field name c default? hidden rest ih =>
      refine ⟨?_, ih h.2 hget.2⟩
      rcases h.1 with ⟨d, hd, hvalue⟩ | ⟨habsent, hdefault⟩
      · obtain ⟨d', hR, hd'⟩ := hmem _ d hd
        exact .inl ⟨d', hd', hget.1 d d' _ hR hvalue⟩
      · refine .inr ⟨fun d' hd' => ?_, hdefault⟩
        obtain ⟨d, hd⟩ := hmem' _ d' hd'
        exact habsent d hd

theorem Lists.imp {items items' : List Doc} {r : ρ} (h : fs.Lists get items r)
    (hget : fs.All fun _ c _ _ => ∀ d d' a, R d d' → get c d = .ok a → get' c d' = .ok a)
    (hitems : List.Forall₂ R items items') : fs.Lists get' items' r := by
  induction fs generalizing items items' with
  | done =>
      cases h
      cases hitems
      rfl
  | field name c default? hidden rest ih =>
      cases hitems with
      | nil => exact ⟨h.1, ih h.2 hget.2 .nil⟩
      | cons hd hitems => exact ⟨hget.1 _ _ _ hd h.1, ih h.2 hget.2 hitems⟩

end Fields

namespace Codec

variable {α β : Type} {n : Nat}

/-- A codec that nests at most this many levels deep and is indifferent to the order of members. -/
structure Regular (c : Codec α) (levels : Nat) : Prop where
  /-- A reader that goes deeper reads the same. -/
  steady : ∀ {depth d a}, levels ≤ depth → (c.read depth d = .ok a ↔ c.read levels d = .ok a)
  /-- What breaks off is no value. -/
  whole : ∀ depth a, c.read depth .broken ≠ .ok a
  /-- Objects may have their members in any order. -/
  reorders : ∀ {depth d d' a}, d.Reorder d' → c.read depth d = .ok a → c.read depth d' = .ok a

/-! ## Simple values -/

/-- A codec of values that are neither arrays nor objects. -/
theorem regular_of_scalars {c : Codec α} (hdepth : ∀ depth d, c.read depth d = c.read 0 d)
    (hbroken : ∀ a, c.read 0 .broken ≠ .ok a)
    (harr : ∀ items closed a, c.read 0 (.arr items closed) ≠ .ok a)
    (hobj : ∀ ms closed a, c.read 0 (.obj ms closed) ≠ .ok a) : c.Regular n where
  steady _ := by rw [hdepth, hdepth n]
  whole depth a := hdepth depth .broken ▸ hbroken a
  reorders hd h := by
    rw [hdepth] at h
    cases hd with
    | here => exact absurd h (hobj _ _ _)
    | member => exact absurd h (hobj _ _ _)
    | item => exact absurd h (harr _ _ _)

@[simp] theorem regular_bool : bool.Regular n :=
  regular_of_scalars (fun _ _ => rfl) nofun nofun nofun

@[simp] theorem regular_text : text.Regular n :=
  regular_of_scalars (fun _ _ => rfl) nofun nofun nofun

theorem regular_integer {name : String} {low high : Int} {ofInt : Int → α} {toInt : α → Int} :
    (integer name low high ofInt toInt).Regular n :=
  regular_of_scalars (fun _ _ => rfl) nofun nofun nofun

@[simp] theorem regular_int32 : int32.Regular n := regular_integer

@[simp] theorem regular_word32 : word32.Regular n := regular_integer

@[simp] theorem regular_word64 : word64.Regular n := regular_integer

namespace Regular

theorem refine {c : Codec β} (hc : c.Regular n) {get : β → Except HexFault α} {put : α → β} :
    (c.refine get put).Regular n where
  steady hd := by
    refine bind_eq_ok_iff.trans (Iff.trans ?_ bind_eq_ok_iff.symm)
    simp only [hc.steady hd]
  whole depth a h := by
    obtain ⟨b, hb, -⟩ := bind_eq_ok_iff.mp h
    exact hc.whole depth b hb
  reorders hd h := by
    obtain ⟨b, hb, ha⟩ := bind_eq_ok_iff.mp h
    exact bind_eq_ok_iff.mpr ⟨b, hc.reorders hd hb, ha⟩

end Regular

theorem read_optional (c : Codec α) {depth : Nat} {d : Doc} (h : d ≠ .null) :
    c.optional.read depth d = some <$> c.read depth d := by
  cases d <;> first | rfl | exact absurd rfl h

/-- Null is no object, so it has no other order. -/
@[simp] theorem Regular.optional {c : Codec α} (hc : c.Regular n) : c.optional.Regular n where
  steady {depth d a} hd := by
    by_cases hnull : d = .null
    · subst hnull
      exact Iff.rfl
    · rw [read_optional c hnull, read_optional c hnull, map_eq_ok_iff, map_eq_ok_iff]
      simp only [hc.steady hd]
  whole depth a h := by
    have h : some <$> c.read depth .broken = .ok a := h
    obtain ⟨b, hb, -⟩ := map_eq_ok_iff.mp h
    exact hc.whole depth b hb
  reorders {depth d d' a} hd h := by
    have hnull : d ≠ .null := by rintro rfl; cases hd
    have hnull' : d' ≠ .null := by rintro rfl; cases hd
    rw [read_optional c hnull] at h
    rw [read_optional c hnull']
    obtain ⟨b, hb, ha⟩ := map_eq_ok_iff.mp h
    exact map_eq_ok_iff.mpr ⟨b, hc.reorders hd hb, ha⟩

@[simp] theorem regular_fixed (m : Nat) : (fixed m).Regular n := regular_text.refine

@[simp] theorem regular_address : address.Regular n := regular_fixed 20

@[simp] theorem regular_hash : hash.Regular n := regular_fixed 32

@[simp] theorem regular_quantity : quantity.Regular n := regular_text.refine

@[simp] theorem regular_quantityWord : quantityWord.Regular n := regular_text.refine

@[simp] theorem regular_bytes : bytes.Regular n := regular_text.optional.refine

/-! ## Arrays -/

theorem mapM_eq_ok_iff {ε γ δ : Type} {f : γ → Except ε δ} {l : List γ} {l' : List δ} :
    l.mapM f = .ok l' ↔ List.Forall₂ (fun a b => f a = .ok b) l l' := by
  induction l generalizing l' with
  | nil => exact ⟨fun h => by cases h; exact .nil, fun h => by cases h; rfl⟩
  | cons a l ih =>
      rw [List.mapM_cons, bind_eq_ok_iff]
      constructor
      · rintro ⟨b, hb, h⟩
        obtain ⟨bs, hbs, heq⟩ := bind_eq_ok_iff.mp h
        cases heq
        exact .cons hb (ih.mp hbs)
      · intro h
        cases h with
        | cons hb hbs => exact ⟨_, hb, bind_eq_ok_iff.mpr ⟨_, ih.mpr hbs, rfl⟩⟩

theorem read_list {c : Codec α} {depth : Nat} {items : List Doc} {closed : Bool} {as : List α} :
    c.list.read (depth + 1) (.arr items closed) = .ok as ↔
      closed = true ∧ List.Forall₂ (fun d a => c.read depth d = .ok a) items as := by
  refine bind_eq_ok_iff.trans ?_
  simp only [mapM_eq_ok_iff]
  cases closed with
  | false => exact ⟨nofun, nofun⟩
  | true => exact ⟨fun ⟨_, h, heq⟩ => by cases heq; exact ⟨rfl, h⟩, fun h => ⟨as, h.2, rfl⟩⟩

@[simp] theorem Regular.list {c : Codec α} (hc : c.Regular n) : c.list.Regular (n + 1) where
  steady {depth d a} hd := by
    obtain ⟨depth, rfl⟩ : ∃ m, depth = m + 1 := ⟨depth - 1, by omega⟩
    cases d with
    | arr items closed =>
        have hd : n ≤ depth := by omega
        rw [read_list, read_list]
        simp only [hc.steady hd]
    | _ => exact Iff.rfl
  whole depth a h := by cases depth <;> cases h
  reorders {depth d d' a} hd h := by
    cases hd with
    | here => cases depth <;> cases h
    | member => cases depth <;> cases h
    | item before after closed hd =>
        cases depth with
        | zero => cases h
        | succ depth =>
            obtain ⟨hclosed, h⟩ := read_list.mp h
            refine read_list.mpr ⟨hclosed, ?_⟩
            exact forall₂_of_replace h fun _ hread => hc.reorders hd hread

/-! ## Records -/

section

variable {ρ : Type} {name : String} {fs : Fields ρ} {make : ρ → α} {parts : α → ρ}
  {depth depth' : Nat} {R : Doc → Doc → Prop} {closed : Bool} {a : α}

/-- Objects with the same names and with values that are read alike make the same record. -/
theorem read_record_obj_imp (hnames : fs.names.Nodup) {ms ms' : List (Doc × Doc)}
    (h : (record name .refused fs make parts).read (depth + 1) (.obj ms closed) = .ok a)
    (hget : fs.All fun _ c _ _ => ∀ d d' a, R d d' → c.read depth d = .ok a →
      c.read depth' d' = .ok a)
    (hkeys : (ms.map Prod.fst).Perm (ms'.map Prod.fst))
    (hmem : ∀ k d, (k, d) ∈ ms → ∃ d', R d d' ∧ (k, d') ∈ ms') :
    (record name .refused fs make parts).read (depth' + 1) (.obj ms' closed) = .ok a := by
  obtain ⟨hclosed, hadmits, r, htakes, hmake⟩ := (read_record_obj hnames).mp h
  have hkey : ∀ {k d'}, (k, d') ∈ ms' → k ∈ ms.map Prod.fst := fun hd' =>
    hkeys.mem_iff.mpr (List.mem_map.mpr ⟨_, hd', rfl⟩)
  have htakes' : fs.Takes (reading depth') ms' r := by
    refine htakes.imp hget hmem fun k d' hd' => ?_
    obtain ⟨⟨_, d⟩, hd, rfl⟩ := List.mem_map.mp (hkey hd')
    exact ⟨d, hd⟩
  refine (read_record_obj hnames).mpr ⟨hclosed, htakes'.admits (hkeys.nodup hadmits.distinct) ?_,
    r, htakes', hmake⟩
  rintro ⟨k, d'⟩ hd'
  obtain ⟨⟨_, d⟩, hd, rfl⟩ := List.mem_map.mp (hkey hd')
  have hdeclared := hadmits.declared _ hd
  exact hdeclared

/-- Arrays of values that are read alike make the same record. -/
theorem read_record_arr_imp (hwhole : fs.All fun _ c _ _ => ∀ depth a, c.read depth .broken ≠ .ok a)
    {items items' : List Doc}
    (h : (record name .refused fs make parts).read (depth + 1) (.arr items closed) = .ok a)
    (hget : fs.All fun _ c _ _ => ∀ d d' a, R d d' → c.read depth d = .ok a →
      c.read depth' d' = .ok a)
    (hitems : List.Forall₂ R items items') :
    (record name .refused fs make parts).read (depth' + 1) (.arr items' closed) = .ok a := by
  have hwhole' (depth : Nat) : fs.All fun _ c _ _ => ∀ a, c.read depth .broken ≠ .ok a :=
    hwhole.imp fun _ _ _ _ _ h => h depth
  obtain ⟨hclosed, r, hlists, hmake⟩ := (read_record_arr (hwhole' depth)).mp h
  exact (read_record_arr (hwhole' depth')).mpr ⟨hclosed, r, hlists.imp hget hitems, hmake⟩

/-- **A record is regular if its fields are.** -/
theorem Regular.record (hfs : fs.All fun _ c _ _ => c.Regular n) (hnames : fs.names.Nodup) :
    (Codec.record name .refused fs make parts).Regular (n + 1) := by
  have hwhole : fs.All fun _ c _ _ => ∀ depth a, c.read depth .broken ≠ .ok a :=
    hfs.imp fun _ _ _ _ _ hc => hc.whole
  -- each field is read alike at all depths that it needs, and whatever the order of members
  have hsteady {depth depth' : Nat} (hd : n ≤ depth) (hd' : n ≤ depth') :
      fs.All fun _ c _ _ => ∀ d d' a, d = d' → c.read depth d = .ok a → c.read depth' d' = .ok a :=
    hfs.imp fun _ c _ _ _ hc d d' a heq h => heq ▸ (hc.steady hd').mpr ((hc.steady hd).mp h)
  have hreorders (depth : Nat) : fs.All fun _ c _ _ => ∀ d d' a, Relation.ReflGen Doc.Reorder d d' →
      c.read depth d = .ok a → c.read depth d' = .ok a :=
    hfs.imp fun _ c _ _ _ hc d d' a hd h => by
      cases hd with
      | refl => exact h
      | single hd => exact hc.reorders hd h
  constructor
  case steady =>
    intro depth d a hd
    obtain ⟨depth, rfl⟩ : ∃ m, depth = m + 1 := ⟨depth - 1, by omega⟩
    have hd : n ≤ depth := by omega
    cases d with
    | obj ms closed =>
        have hmem : ∀ k d, (k, d) ∈ ms → ∃ d', d = d' ∧ (k, d') ∈ ms := fun _ d hd => ⟨d, rfl, hd⟩
        exact ⟨fun h => read_record_obj_imp hnames h (hsteady hd (Nat.le_refl n)) (.refl _) hmem,
          fun h => read_record_obj_imp hnames h (hsteady (Nat.le_refl n) hd) (.refl _) hmem⟩
    | arr items closed =>
        have hitems : List.Forall₂ Eq items items := List.forall₂_same.mpr fun _ _ => rfl
        exact ⟨fun h => read_record_arr_imp hwhole h (hsteady hd (Nat.le_refl n)) hitems,
          fun h => read_record_arr_imp hwhole h (hsteady (Nat.le_refl n) hd) hitems⟩
    | _ => exact Iff.rfl
  case whole =>
    intro depth a h
    cases depth <;> cases h
  case reorders =>
    intro depth d d' a hd h
    obtain ⟨depth, rfl, -⟩ := read_record_eq_ok h
    cases hd with
    | here closed hperm =>
        exact read_record_obj_imp hnames h (hreorders depth) (hperm.map _)
          fun _ d hd => ⟨d, .refl, hperm.mem_iff.mp hd⟩
    | @member before after k d d' closed hd =>
        refine read_record_obj_imp hnames h (hreorders depth) (by simp) fun k' e he => ?_
        rcases List.mem_append.mp he with he | he
        · exact ⟨e, .refl, List.mem_append_left _ he⟩
        · rcases List.mem_cons.mp he with heq | he
          · cases heq
            exact ⟨d', .single hd, by simp⟩
          · exact ⟨e, .refl, List.mem_append_right _ (List.mem_cons_of_mem _ he)⟩
    | item before after closed hd =>
        exact read_record_arr_imp hwhole h (hreorders depth)
          (forall₂_replace (fun _ => .refl) before after (.single hd))

end

end Codec

/-! ## Kinds of call frames -/

namespace OpCode

/-- A kind that is written as an object has one member. -/
theorem readMember_eq_ok {ms : List (Doc × Doc)} {closed : Bool} {c : OpCode}
    (h : readMember ms closed = .ok c) : ∃ k, ms = [(k, .null)] := by
  unfold readMember at h
  split at h
  · rename_i name v rest
    obtain ⟨_, -, h⟩ := bind_eq_ok_iff.mp h
    obtain ⟨_, hnull, h⟩ := bind_eq_ok_iff.mp h
    have hrest : rest = [] := by
      split at h
      · rename_i hend
        simpa using (Bool.and_eq_true_iff.mp hend).1
      · cases h
    subst hrest
    cases v with
    | null => exact ⟨_, rfl⟩
    | _ => cases hnull
  · cases h

/-- So there is no other order. -/
@[simp] theorem regular {n : Nat} : codec.Regular (n + 1) where
  steady {depth d a} hd := by
    obtain ⟨depth, rfl⟩ : ∃ m, depth = m + 1 := ⟨depth - 1, by omega⟩
    cases d with
    | str s => cases s <;> exact Iff.rfl
    | _ => exact Iff.rfl
  whole depth a h := by cases depth <;> cases h
  reorders {depth d d' a} hd h := by
    cases hd with
    | item => cases depth <;> cases h
    | here closed hperm =>
        cases depth with
        | zero => cases h
        | succ depth =>
            obtain ⟨k, rfl⟩ := readMember_eq_ok h
            rw [List.singleton_perm.mp hperm] at h
            exact h
    | member before after k closed hd =>
        cases depth with
        | zero => cases h
        | succ depth =>
            obtain ⟨k', heq⟩ := readMember_eq_ok h
            -- the value would be null, which has no members
            have hmem : (k, _) ∈ [(k', Doc.null)] := heq ▸ List.mem_append_right before
              List.mem_cons_self
            cases List.mem_singleton.mp hmem
            cases hd

end OpCode

end EvmBridge
