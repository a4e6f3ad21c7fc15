import EvmBridge.Proofs.RoundTrip
import Mathlib.Data.List.Nodup

/-!
# What a record is read from

A record that refuses what it does not know is read member by member, and the reader stops at the
first fault. Which documents it takes can be said without the order in which it goes: the names are
distinct and known, no field without a default is missing, and each value is one of its field
(`Fields.Admits`). The record that comes out has in each field what its member says, or the default
(`Fields.Takes`). `Codec.read_record_obj` is this for objects, `Codec.read_record_arr` the same for
arrays, whose items are taken in declared order (`Fields.Lists`).

The reader fills one slot for each field. `Fields.Fills` says what it has put there after some
members, field by field, so that one more member concerns one field only (`Fields.fills_cons`).
-/

namespace EvmBridge

/-! ## Reading in two steps -/

section

variable {ε α β : Type}

theorem bind_eq_ok_iff {o : Except ε α} {f : α → Except ε β} {b : β} :
    (o >>= f) = .ok b ↔ ∃ a, o = .ok a ∧ f a = .ok b := by
  cases o with
  | error e => exact ⟨nofun, fun ⟨_, h, _⟩ => nomatch h⟩
  | ok a => exact ⟨fun h => ⟨a, rfl, h⟩, fun ⟨_, h, hb⟩ => by cases h; exact hb⟩

theorem map_eq_ok_iff {o : Except ε α} {f : α → β} {b : β} :
    (f <$> o) = .ok b ↔ ∃ a, o = .ok a ∧ f a = b := by
  cases o with
  | error e => exact ⟨nofun, fun ⟨_, h, _⟩ => nomatch h⟩
  | ok a => exact ⟨fun h => ⟨a, rfl, Except.ok.inj h⟩, fun ⟨_, h, hb⟩ => by cases h; rw [← hb]; rfl⟩

end

/-- A text is read if its document is, and nothing follows. -/
theorem Codec.decode_eq_ok_iff {α : Type} {c : Codec α} {s : String} {a : α} :
    c.decode s = .ok a ↔
      c.read Doc.maxDepth (Doc.parse s).doc = .ok a ∧ (Doc.parse s).ended = true := by
  refine bind_eq_ok_iff.trans ?_
  cases (Doc.parse s).ended with
  | true => exact ⟨fun ⟨_, h, heq⟩ => by cases heq; exact ⟨h, rfl⟩, fun h => ⟨a, h.1, rfl⟩⟩
  | false => exact ⟨nofun, nofun⟩

/-- How the value of a field is read from a document of at most this many nested levels. -/
def Codec.reading (depth : Nat) : Fields.Reading Doc := fun c d => c.read depth d

namespace Fields

variable {ρ α : Type} {get : Reading Doc} {ms : List (Doc × Doc)}

/-! ## The rule -/

/-- Each field satisfies `P`. It is told the name, the codec and the default of the field, and
where its value stands in the record. -/
def All {ρ : Type} : (fs : Fields ρ) →
    (P : {α : Type} → String → Codec α → Option α → (ρ → α) → Prop) → Prop
  | .done, _ => True
  | .field name c default? _ rest, P =>
    P name c default? Prod.fst ∧
      rest.All fun name c default? value => P name c default? (value ∘ Prod.snd)

section

variable {ρ α : Type} {name : String} {c : Codec α} {a : α} {hidden : α → Bool} {rest : Fields ρ}
  {P : {α : Type} → String → Codec α → Option α → (Unit → α) → Prop}
  {Q : {β : Type} → String → Codec β → Option β → (α × ρ → β) → Prop}

@[simp] theorem all_done : All .done P := trivial

@[simp] theorem all_required : (Fields.required name c rest).All Q ↔ Q name c none Prod.fst ∧
    rest.All fun name c default? value => Q name c default? (value ∘ Prod.snd) := Iff.rfl

@[simp] theorem all_defaulted :
    (Fields.defaulted name c a rest).All Q ↔ Q name c (some a) Prod.fst ∧
      rest.All fun name c default? value => Q name c default? (value ∘ Prod.snd) := Iff.rfl

end

/-- The members of an object that a record is read from. -/
structure Admits (get : Reading Doc) (fs : Fields ρ) (ms : List (Doc × Doc)) : Prop where
  /-- No name occurs twice. -/
  distinct : (ms.map Prod.fst).Nodup
  /-- Each name is that of a field. -/
  declared : ∀ m ∈ ms, ∃ name ∈ fs.names, m.1 = .str (some name)
  /-- Fields without a default are present. -/
  complete : fs.All fun name _ default? _ => default? = none → ∃ d, (.str (some name), d) ∈ ms
  /-- Each value is one of its field. -/
  typed : fs.All fun name c _ _ => ∀ d, (.str (some name), d) ∈ ms → ∃ a, get c d = .ok a

/-- Each field of the record has the value of its member, or its default if it has none. -/
def Takes (get : Reading Doc) (fs : Fields ρ) (ms : List (Doc × Doc)) (r : ρ) : Prop :=
  fs.All fun name c default? value =>
    (∃ d, (.str (some name), d) ∈ ms ∧ get c d = .ok (value r)) ∨
    (∀ d, (.str (some name), d) ∉ ms) ∧ default? = some (value r)

/-- The fields of the record have the values of the items in declared order. Behind the last item
they have their defaults. -/
def Lists (get : Reading Doc) {ρ : Type} : (fs : Fields ρ) → List Doc → ρ → Prop
  | .done, items, _ => items = []
  | .field _ c _ _ rest, d :: items, (a, r) => get c d = .ok a ∧ rest.Lists get items r
  | .field _ _ default? _ rest, [], (a, r) => default? = some a ∧ rest.Lists get [] r

theorem All.imp {fs : Fields ρ}
    {P Q : {α : Type} → String → Codec α → Option α → (ρ → α) → Prop} (h : fs.All P)
    (hPQ : ∀ {α : Type} (name : String) (c : Codec α) (default? : Option α) (value : ρ → α),
      name ∈ fs.names → P name c default? value → Q name c default? value) : fs.All Q := by
  induction fs with
  | done => trivial
  | field name c default? hidden rest ih =>
      exact ⟨hPQ name c default? _ List.mem_cons_self h.1,
        ih h.2 fun name c default? _ hname => hPQ name c default? _ (List.mem_cons_of_mem _ hname)⟩

/-! ## Slots -/

/-- What some members do to the slot of one field: nothing if none has its name; otherwise the slot
was free, and holds now what such a member says. -/
def Fill (get : Reading Doc) (ms : List (Doc × Doc)) (name : String) (c : Codec α)
    (slot slot' : Option α) : Prop :=
  (∀ d, (.str (some name), d) ∉ ms) ∧ slot' = slot ∨
  slot = none ∧ ∃ d a, (.str (some name), d) ∈ ms ∧ get c d = .ok a ∧ slot' = some a

/-- What some members do to all slots. -/
def Fills (get : Reading Doc) (ms : List (Doc × Doc)) {ρ : Type} :
    (fs : Fields ρ) → fs.Slots → fs.Slots → Prop
  | .done, _, _ => True
  | .field (α := α) name c _ _ rest, slots, slots' =>
    let (slot, others) : Option α × rest.Slots := slots
    let (slot', others') : Option α × rest.Slots := slots'
    Fill get ms name c slot slot' ∧ rest.Fills get ms others others'

section

variable {name name' : String} {d : Doc} {c : Codec α} {slot slot' : Option α}

theorem fill_of_absent (h : ∀ d, (.str (some name), d) ∉ ms) :
    Fill get ms name c slot slot' ↔ slot' = slot := by
  refine ⟨?_, fun hsame => .inl ⟨h, hsame⟩⟩
  rintro (⟨-, hsame⟩ | ⟨-, d, a, hmem, -⟩)
  · exact hsame
  · exact absurd hmem (h d)

/-- A member of another name makes no difference. -/
theorem fill_cons_of_ne (h : name' ≠ name) :
    Fill get ((.str (some name'), d) :: ms) name c slot slot' ↔ Fill get ms name c slot slot' := by
  have hmem : ∀ d', (Doc.str (some name), d') ∈ (Doc.str (some name'), d) :: ms ↔
      (Doc.str (some name), d') ∈ ms := fun d' => by simp [Ne.symm h]
  simp only [Fill, hmem]

/-- A member of this name takes the slot, if it is the only one. -/
theorem fill_cons_self (h : ∀ d, (.str (some name), d) ∉ ms) :
    Fill get ((.str (some name), d) :: ms) name c slot slot' ↔
      slot = none ∧ ∃ a, get c d = .ok a ∧ slot' = some a := by
  constructor
  · rintro (⟨habsent, -⟩ | ⟨hfree, d', a, hmem, hget, htaken⟩)
    · exact absurd List.mem_cons_self (habsent d)
    · rcases List.mem_cons.mp hmem with heq | hmem
      · cases heq
        exact ⟨hfree, a, hget, htaken⟩
      · exact absurd hmem (h d')
  · rintro ⟨hfree, a, hget, htaken⟩
    exact .inr ⟨hfree, d, a, List.mem_cons_self, hget, htaken⟩

/-- A slot that is taken is taken once. -/
theorem Fill.absent_of_taken {a : α} (h : Fill get ms name c (some a) slot') :
    ∀ d, (.str (some name), d) ∉ ms := by
  rcases h with ⟨habsent, -⟩ | ⟨hfree, -⟩
  · exact habsent
  · cases hfree

/-- One member after the other. -/
theorem fill_cons (h : name' = name → ∀ d, (.str (some name), d) ∉ ms) :
    (∃ slot₁, Fill get [(.str (some name'), d)] name c slot slot₁ ∧
      Fill get ms name c slot₁ slot') ↔
    Fill get ((.str (some name'), d) :: ms) name c slot slot' := by
  have hnil : ∀ d, (Doc.str (some name), d) ∉ ([] : List (Doc × Doc)) := fun _ => List.not_mem_nil
  by_cases hname : name' = name
  · subst hname
    simp only [fill_cons_self hnil, fill_cons_self (h rfl), fill_of_absent (h rfl)]
    exact ⟨fun ⟨_, ⟨hfree, a, hget, htaken⟩, hsame⟩ => ⟨hfree, a, hget, hsame.trans htaken⟩,
      fun ⟨hfree, a, hget, htaken⟩ => ⟨_, ⟨hfree, a, hget, rfl⟩, htaken⟩⟩
  · simp only [fill_cons_of_ne hname, fill_of_absent hnil, exists_eq_left]

end

theorem fills_of_absent {fs : Fields ρ} {slots slots' : fs.Slots}
    (h : ∀ name ∈ fs.names, ∀ d, (.str (some name), d) ∉ ms) :
    fs.Fills get ms slots slots' ↔ slots' = slots := by
  induction fs with
  | done => exact ⟨fun _ => rfl, fun _ => trivial⟩
  | field name c default? hidden rest ih =>
      have hrest := fun name hname => h name (List.mem_cons_of_mem _ hname)
      show Fill get ms name c slots.1 slots'.1 ∧ rest.Fills get ms slots.2 slots'.2 ↔ _
      rw [fill_of_absent (h name List.mem_cons_self), ih hrest]
      exact Prod.ext_iff.symm

/-- One member after the other. -/
theorem fills_cons {fs : Fields ρ} {name : String} {d : Doc} {slots slots' : fs.Slots}
    (h : ∀ d, (.str (some name), d) ∉ ms) :
    (∃ slots₁, fs.Fills get [(.str (some name), d)] slots slots₁ ∧
      fs.Fills get ms slots₁ slots') ↔
    fs.Fills get ((.str (some name), d) :: ms) slots slots' := by
  induction fs with
  | done => exact ⟨fun _ => trivial, fun _ => ⟨(), trivial, trivial⟩⟩
  | field name' c default? hidden rest ih =>
      show (∃ slots₁ : Option _ × rest.Slots,
        (Fill get [_] name' c slots.1 slots₁.1 ∧ rest.Fills get [_] slots.2 slots₁.2) ∧
          Fill get ms name' c slots₁.1 slots'.1 ∧ rest.Fills get ms slots₁.2 slots'.2) ↔
        Fill get (_ :: ms) name' c slots.1 slots'.1 ∧ rest.Fills get (_ :: ms) slots.2 slots'.2
      rw [← ih, ← fill_cons fun hname => hname ▸ h]
      constructor
      · rintro ⟨⟨slot₁, others₁⟩, ⟨hslot, hothers⟩, hslot', hothers'⟩
        exact ⟨⟨slot₁, hslot, hslot'⟩, others₁, hothers, hothers'⟩
      · rintro ⟨⟨slot₁, hslot, hslot'⟩, others₁, hothers, hothers'⟩
        exact ⟨⟨slot₁, others₁⟩, ⟨hslot, hothers⟩, hslot', hothers'⟩

/-- After a member was read no further one may have its name. -/
theorem Fills.absent {fs : Fields ρ} {name : String} {d : Doc} {slots slots₁ slots' : fs.Slots}
    (hname : name ∈ fs.names) (h : fs.Fills get [(.str (some name), d)] slots slots₁)
    (h' : fs.Fills get ms slots₁ slots') : ∀ d, (.str (some name), d) ∉ ms := by
  induction fs with
  | done => exact absurd hname List.not_mem_nil
  | field name' c default? hidden rest ih =>
      obtain ⟨hslot, hothers⟩ := h
      obtain ⟨hslot', hothers'⟩ := h'
      by_cases heq : name = name'
      · subst heq
        obtain ⟨-, a, -, htaken⟩ := (fill_cons_self fun _ => List.not_mem_nil).mp hslot
        rw [htaken] at hslot'
        exact hslot'.absent_of_taken
      · exact ih ((List.mem_cons.mp hname).resolve_left heq) hothers hothers'

/-- **One member is read** if it belongs to a field whose slot is free. -/
theorem readMember_eq_some_iff {fs : Fields ρ} (hnames : fs.names.Nodup) {name : String} {d : Doc}
    {slots slots' : fs.Slots} :
    fs.readMember get name d slots = .ok (some slots') ↔
      name ∈ fs.names ∧ fs.Fills get [(.str (some name), d)] slots slots' := by
  induction fs with
  | done =>
      have hread : Fields.done.readMember get name d slots = .ok none := rfl
      rw [hread]
      simp [names]
  | field name' c default? hidden rest ih =>
      obtain ⟨hname', hnames⟩ := List.nodup_cons.mp hnames
      have hnil : ∀ name d, (Doc.str (some name), d) ∉ ([] : List (Doc × Doc)) :=
        fun _ _ => List.not_mem_nil
      obtain ⟨slot, others⟩ := slots
      obtain ⟨slot', others'⟩ := slots'
      show _ ↔ _ ∧ Fill get [_] name' c slot slot' ∧ rest.Fills get [_] others others'
      by_cases hname : name = name'
      · subst hname
        -- no other field has the name
        have hother : ∀ name' ∈ rest.names, ∀ d', (Doc.str (some name'), d') ∉
            [(Doc.str (some name), d)] := by
          rintro name'' hmem d' hd'
          cases List.mem_singleton.mp hd'
          exact hname' hmem
        rw [fill_cons_self (hnil name), fills_of_absent hother]
        cases slot with
        | some a =>
            have hread : (Fields.field name c default? hidden rest).readMember get name d
                (some a, others) = .error (.duplicateField name) := if_pos rfl
            rw [hread]
            simp
        | none =>
            have hread : (Fields.field name c default? hidden rest).readMember get name d
                (none, others) = get c d >>= fun a => .ok (some (some a, others)) := if_pos rfl
            rw [hread]
            refine bind_eq_ok_iff.trans ?_
            constructor
            · rintro ⟨a, hget, htaken⟩
              cases htaken
              exact ⟨List.mem_cons_self, ⟨rfl, a, hget, rfl⟩, rfl⟩
            · rintro ⟨-, ⟨-, a, hget, rfl⟩, rfl⟩
              exact ⟨a, hget, rfl⟩
      · have hmem : name ∈ (Fields.field name' c default? hidden rest).names ↔ name ∈ rest.names :=
          List.mem_cons.trans (or_iff_right hname)
        rw [readMember_of_ne hname, fill_cons_of_ne hname, fill_of_absent (hnil name'), hmem]
        refine map_eq_ok_iff.trans ?_
        constructor
        · rintro ⟨_ | others₁, hread, htaken⟩
          · cases htaken
          · cases htaken
            obtain ⟨hmem, hfills⟩ := (ih hnames).mp hread
            exact ⟨hmem, rfl, hfills⟩
        · rintro ⟨hmem, rfl, hfills⟩
          exact ⟨some others', (ih hnames).mpr ⟨hmem, hfills⟩, rfl⟩

/-! ## The record that comes out -/

section

variable {name : String} {c : Codec α} {default? : Option α} {hidden : α → Bool} {rest : Fields ρ}

/-- A slot that is free stands for the default. -/
theorem build_field_eq_ok_iff {slot : Option α} {others : rest.Slots} {a : α} {r : ρ} :
    (Fields.field name c default? hidden rest).build (slot, others) = .ok (a, r) ↔
      (slot = some a ∨ slot = none ∧ default? = some a) ∧ rest.build others = .ok r := by
  have hvalue (b : α) : (rest.build others >>= fun r => .ok (b, r)) = .ok (a, r) ↔
      b = a ∧ rest.build others = .ok r := by
    rw [bind_eq_ok_iff]
    constructor
    · rintro ⟨r', hbuild, heq⟩
      cases heq
      exact ⟨rfl, hbuild⟩
    · rintro ⟨rfl, hbuild⟩
      exact ⟨r, hbuild, rfl⟩
  cases slot with
  | some b => exact (hvalue b).trans (by simp)
  | none =>
      cases default? with
      | some b => exact (hvalue b).trans (by simp)
      | none => exact ⟨nofun, fun h => by simp at h⟩

theorem takes_field_iff {r : α × ρ} :
    (Fields.field name c default? hidden rest).Takes get ms r ↔
      ((∃ d, (.str (some name), d) ∈ ms ∧ get c d = .ok r.1) ∨
        (∀ d, (.str (some name), d) ∉ ms) ∧ default? = some r.1) ∧ rest.Takes get ms r.2 :=
  Iff.rfl

end

/-- The record that is built of what the members did to the slots. -/
theorem takes_iff {fs : Fields ρ} {r : ρ} :
    fs.Takes get ms r ↔
      ∃ slots, fs.Fills get ms fs.noSlots slots ∧ fs.build slots = .ok r := by
  induction fs with
  | done => exact ⟨fun _ => ⟨(), trivial, rfl⟩, fun _ => trivial⟩
  | field name c default? hidden rest ih =>
      obtain ⟨a, r⟩ := r
      rw [takes_field_iff, ih]
      constructor
      · rintro ⟨hvalue, others, hothers, hbuild⟩
        rcases hvalue with ⟨d, hmem, hget⟩ | ⟨habsent, hdefault⟩
        · exact ⟨(some a, others), ⟨.inr ⟨rfl, d, a, hmem, hget, rfl⟩, hothers⟩,
            build_field_eq_ok_iff.mpr ⟨.inl rfl, hbuild⟩⟩
        · exact ⟨(none, others), ⟨.inl ⟨habsent, rfl⟩, hothers⟩,
            build_field_eq_ok_iff.mpr ⟨.inr ⟨rfl, hdefault⟩, hbuild⟩⟩
      · rintro ⟨⟨slot, others⟩, ⟨hslot, hothers⟩, hbuild⟩
        obtain ⟨hvalue, hbuild⟩ := build_field_eq_ok_iff.mp hbuild
        refine ⟨?_, others, hothers, hbuild⟩
        rcases hslot with ⟨habsent, hsame⟩ | ⟨-, d, b, hmem, hget, htaken⟩
        · rcases hvalue with hvalue | ⟨-, hdefault⟩
          · exact absurd (hsame.symm.trans hvalue) (by simp)
          · exact .inr ⟨habsent, hdefault⟩
        · rcases hvalue with hvalue | ⟨hfree, -⟩
          · obtain rfl : b = a := Option.some.inj (htaken.symm.trans hvalue)
            exact .inl ⟨d, hmem, hget⟩
          · exact absurd (htaken.symm.trans hfree) (by simp)

/-- What is admitted makes a record. -/
theorem Admits.takes {fs : Fields ρ} (h : fs.Admits get ms) : ∃ r, fs.Takes get ms r := by
  obtain ⟨-, -, hcomplete, htyped⟩ := h
  induction fs with
  | done => exact ⟨(), trivial⟩
  | field name c default? hidden rest ih =>
      obtain ⟨r, hr⟩ := ih hcomplete.2 htyped.2
      by_cases hmem : ∃ d, (.str (some name), d) ∈ ms
      · obtain ⟨d, hmem⟩ := hmem
        obtain ⟨a, hget⟩ := htyped.1 d hmem
        exact ⟨(a, r), .inl ⟨d, hmem, hget⟩, hr⟩
      · cases hdefault : default? with
        | none => exact absurd (hcomplete.1 hdefault) hmem
        | some a => exact ⟨(a, r), .inr ⟨not_exists.mp hmem, rfl⟩, hr⟩

/-- What makes a record is admitted, if each name is that of a field and none occurs twice. -/
theorem Takes.admits {fs : Fields ρ} {r : ρ} (h : fs.Takes get ms r)
    (hdistinct : (ms.map Prod.fst).Nodup)
    (hdeclared : ∀ m ∈ ms, ∃ name ∈ fs.names, m.1 = .str (some name)) : fs.Admits get ms where
  distinct := hdistinct
  declared := hdeclared
  complete := All.imp h fun name c default? value _ hvalue hnone => by
    rcases hvalue with ⟨d, hmem, -⟩ | ⟨-, hdefault⟩
    · exact ⟨d, hmem⟩
    · exact absurd (hnone.symm.trans hdefault) (by simp)
  typed := All.imp h fun name c default? value _ hvalue d hmem => by
    rcases hvalue with ⟨d', hmem', hget⟩ | ⟨habsent, -⟩
    · -- there is one member of this name only
      have hsame := List.inj_on_of_nodup_map hdistinct hmem' hmem rfl
      cases hsame
      exact ⟨_, hget⟩
    · exact absurd hmem (habsent d)

/-- Items that are taken in declared order. -/
theorem readItems_eq_ok_iff {fs : Fields ρ} {absent : Nat → Json.Fault} {index : Nat}
    {items : List Doc} {r : ρ} :
    fs.readItems get absent index items = .ok (r, []) ↔ fs.Lists get items r := by
  induction fs generalizing index items with
  | done => exact ⟨fun h => congrArg Prod.snd (Except.ok.inj h), fun h => by cases h; rfl⟩
  | field name c default? hidden rest ih =>
      obtain ⟨a, r⟩ := r
      -- one field after the other
      have hrest (b : _) (items : List Doc) :
          (rest.readItems get absent (index + 1) items >>= fun e => .ok ((b, e.1), e.2)) =
            .ok ((a, r), []) ↔ b = a ∧ rest.Lists get items r := by
        rw [bind_eq_ok_iff, ← @ih (index + 1) items r]
        constructor
        · rintro ⟨⟨r', items'⟩, hread, heq⟩
          cases heq
          exact ⟨rfl, hread⟩
        · rintro ⟨rfl, hread⟩
          exact ⟨_, hread, rfl⟩
      cases items with
      | nil =>
          cases default? with
          | none => exact ⟨nofun, fun h => nomatch h.1⟩
          | some b => exact (hrest b []).trans (and_congr_left' Option.some_inj.symm)
      | cons d items =>
          show (get c d >>= fun b => _) = _ ↔ get c d = .ok a ∧ rest.Lists get items r
          rw [bind_eq_ok_iff]
          constructor
          · rintro ⟨b, hget, hread⟩
            obtain ⟨rfl, hlists⟩ := (hrest b items).mp hread
            exact ⟨hget, hlists⟩
          · rintro ⟨hget, hlists⟩
            exact ⟨a, hget, (hrest a items).mpr ⟨rfl, hlists⟩⟩

/-- A broken item is the value of no field. -/
theorem not_lists_broken {fs : Fields ρ} {items : List Doc} {r : ρ}
    (h : fs.All fun _ c _ _ => ∀ a, get c .broken ≠ .ok a) :
    ¬ fs.Lists get (items ++ [.broken]) r := by
  induction fs generalizing items with
  | done => exact List.append_ne_nil_of_right_ne_nil _ (List.cons_ne_nil _ _)
  | field name c default? hidden rest ih =>
      cases items with
      | nil => exact fun hlists => h.1 _ hlists.1
      | cons d items => exact fun hlists => ih h.2 hlists.2

end Fields

namespace Codec

variable {α ρ : Type} {name : String} {fs : Fields ρ} {make : ρ → α} {parts : α → ρ} {depth : Nat}

/-- **What the reader of an object needs.** Each name is that of a field, none occurs twice, and
the slots hold what the members say. -/
theorem readMembers_eq_ok_iff (hnames : fs.names.Nodup) {slots slots' : fs.Slots}
    {ms : List (Doc × Doc)} :
    readMembers fs .refused depth slots ms = .ok slots' ↔
      (ms.map Prod.fst).Nodup ∧ (∀ m ∈ ms, ∃ name ∈ fs.names, m.1 = .str (some name)) ∧
        fs.Fills (reading depth) ms slots slots' := by
  induction ms generalizing slots with
  | nil =>
      rw [Fields.fills_of_absent fun _ _ _ => List.not_mem_nil]
      exact ⟨fun h => ⟨List.nodup_nil, fun _ hm => absurd hm List.not_mem_nil,
        (Except.ok.inj h).symm⟩, fun h => congrArg Except.ok h.2.2.symm⟩
  | cons m ms ih =>
      obtain ⟨k, d⟩ := m
      -- the first member is read, then all others
      have hfirst : readMembers fs .refused depth slots ((k, d) :: ms) = .ok slots' ↔
          ∃ name ∈ fs.names, k = .str (some name) ∧ ∃ slots₁,
            fs.Fills (reading depth) [(.str (some name), d)] slots slots₁ ∧
            readMembers fs .refused depth slots₁ ms = .ok slots' := by
        by_cases hk : ∃ name, k = .str (some name)
        · obtain ⟨name, rfl⟩ := hk
          refine bind_eq_ok_iff.trans ⟨?_, ?_⟩
          · rintro ⟨_ | slots₁, hread, hrest⟩
            · cases hrest
            · obtain ⟨hname, hfills⟩ := (Fields.readMember_eq_some_iff hnames).mp hread
              exact ⟨name, hname, rfl, slots₁, hfills, hrest⟩
          · rintro ⟨name', hname, heq, slots₁, hfills, hrest⟩
            cases heq
            exact ⟨_, (Fields.readMember_eq_some_iff hnames).mpr ⟨hname, hfills⟩, hrest⟩
        · have hrefused :
              readMembers fs .refused depth slots ((k, d) :: ms) = .error .malformed := by
            cases k with
            | str s =>
                cases s with
                | none => rfl
                | some name => exact absurd ⟨name, rfl⟩ hk
            | _ => rfl
          rw [hrefused]
          exact ⟨nofun, fun ⟨name, _, heq, _⟩ => absurd ⟨name, heq⟩ hk⟩
      rw [hfirst, List.map_cons, List.nodup_cons, List.forall_mem_cons]
      simp only [ih]
      constructor
      · rintro ⟨name, hname, rfl, slots₁, hfills, hdistinct, hdeclared, hfills'⟩
        have habsent := hfills.absent hname hfills'
        refine ⟨⟨fun hmem => ?_, hdistinct⟩, ⟨⟨name, hname, rfl⟩, hdeclared⟩,
          (Fields.fills_cons habsent).mp ⟨slots₁, hfills, hfills'⟩⟩
        obtain ⟨⟨_, d'⟩, hmem, rfl⟩ := List.mem_map.mp hmem
        exact habsent d' hmem
      · rintro ⟨⟨hnew, hdistinct⟩, ⟨⟨name, hname, rfl⟩, hdeclared⟩, hfills⟩
        have habsent : ∀ d, (.str (some name), d) ∉ ms := fun d hmem =>
          hnew (List.mem_map.mpr ⟨_, hmem, rfl⟩)
        obtain ⟨slots₁, hfills, hfills'⟩ := (Fields.fills_cons habsent).mpr hfills
        exact ⟨name, hname, rfl, slots₁, hfills, hdistinct, hdeclared, hfills'⟩

/-- **A record is read from an object** that its fields admit. -/
theorem read_record_obj (hnames : fs.names.Nodup) {ms : List (Doc × Doc)} {closed : Bool} {a : α} :
    (record name .refused fs make parts).read (depth + 1) (.obj ms closed) = .ok a ↔
      closed = true ∧ fs.Admits (reading depth) ms ∧
        ∃ r, fs.Takes (reading depth) ms r ∧ make r = a := by
  refine bind_eq_ok_iff.trans ?_
  simp only [readMembers_eq_ok_iff hnames]
  cases closed with
  | false => exact ⟨nofun, nofun⟩
  | true =>
      constructor
      · rintro ⟨slots, ⟨hdistinct, hdeclared, hfills⟩, hmade⟩
        have hmade : make <$> fs.build slots = .ok a := hmade
        obtain ⟨r, hbuild, hmake⟩ := map_eq_ok_iff.mp hmade
        have htakes := Fields.takes_iff.mpr ⟨slots, hfills, hbuild⟩
        exact ⟨rfl, htakes.admits hdistinct hdeclared, r, htakes, hmake⟩
      · rintro ⟨-, hadmits, r, htakes, hmake⟩
        obtain ⟨slots, hfills, hbuild⟩ := Fields.takes_iff.mp htakes
        exact ⟨slots, ⟨hadmits.distinct, hadmits.declared, hfills⟩,
          map_eq_ok_iff.mpr ⟨r, hbuild, hmake⟩⟩

/-- **A record is read from an array** that lists the values of its fields, as long as no field has
a value that breaks off. -/
theorem read_record_arr
    (hwhole : fs.All fun _ c _ _ => ∀ a, c.read depth .broken ≠ .ok a)
    {items : List Doc} {closed : Bool} {a : α} :
    (record name .refused fs make parts).read (depth + 1) (.arr items closed) = .ok a ↔
      closed = true ∧ ∃ r, fs.Lists (reading depth) items r ∧ make r = a := by
  refine map_eq_ok_iff.trans ?_
  -- all items are used up
  have harray {items : List Doc} {r : ρ} (absent : Nat → Json.Fault) :
      (fs.readItems (reading depth) absent 0 items >>= fun e =>
        if e.2.isEmpty then .ok e.1 else .error .malformed) = .ok r ↔
      fs.Lists (reading depth) items r := by
    rw [bind_eq_ok_iff, ← Fields.readItems_eq_ok_iff]
    constructor
    · rintro ⟨⟨r', rest⟩, hread, hend⟩
      cases rest with
      | nil =>
          cases hend
          exact hread
      | cons d rest => cases hend
    · exact fun hread => ⟨_, hread, rfl⟩
  cases closed with
  | true =>
      exact ⟨fun ⟨r, hread, hmake⟩ => ⟨rfl, r, (harray _).mp hread, hmake⟩,
        fun ⟨_, r, hlists, hmake⟩ => ⟨r, (harray _).mpr hlists, hmake⟩⟩
  | false =>
      exact ⟨fun ⟨r, hread, _⟩ => absurd ((harray _).mp hread) (Fields.not_lists_broken hwhole),
        nofun⟩

/-- A record is read from nothing else. -/
theorem read_record_eq_ok {d : Doc} {a : α} {unknown : Unknown}
    (h : (record name unknown fs make parts).read depth d = .ok a) :
    ∃ depth', depth = depth' + 1 ∧
      ((∃ ms closed, d = .obj ms closed) ∨ ∃ items closed, d = .arr items closed) := by
  cases d with
  | obj ms closed =>
      cases depth with
      | zero => cases h
      | succ depth => exact ⟨depth, rfl, .inl ⟨ms, closed, rfl⟩⟩
  | arr items closed =>
      cases depth with
      | zero => cases h
      | succ depth => exact ⟨depth, rfl, .inr ⟨items, closed, rfl⟩⟩
  | _ => cases h

end Codec

end EvmBridge
