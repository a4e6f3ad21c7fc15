import EvmBridge.Proofs.MemberOrder
import EvmBridge.Proofs.PayloadRoundTrip

/-!
# Arguments are read strictly

The arguments of methods, invocations and contexts are records of regular fields, and they refuse
what they do not know. So one rule says what they are read from (`Codec.Strict`), and it is the same
for a text and for a record inside another (`Codec.strict_record`). `Payload.strict_records` goes
through the types. All that is used of a type is that its fields have different names and are
regular.
-/

namespace EvmBridge

/-- How a value is read that stands alone. -/
abbrev Codec.alone : Fields.Reading Doc := Codec.reading Doc.maxDepth

namespace Codec

variable {α ρ : Type}

/-- Indifferent to the order of members, wherever they stand. -/
theorem Regular.read_reordered {c : Codec α} {n depth : Nat} (hc : c.Regular n) {d d' : Doc}
    (hd : d.Reordered d') (a : α) : c.read depth d = .ok a ↔ c.read depth d' = .ok a := by
  induction hd with
  | refl => exact Iff.rfl
  | tail _ hstep ih => exact ih.trans ⟨hc.reorders hstep, hc.reorders hstep.symm⟩

/-- A record is read strictly. Its value has the parts `parts`, one for each field. -/
structure Strict (c : Codec α) (fs : Fields ρ) (parts : α → ρ) : Prop where
  /-- The text of an object is read if the members are admitted: their names are distinct and all
  declared, no field without a default is missing, and each value alone is one of its field. -/
  object : ∀ s ms, Doc.parse s = ⟨.obj ms true, true⟩ →
    ((∃ a, c.decode s = .ok a) ↔ fs.Admits alone ms)
  /-- What is read has in each field what the member says, or the default if there is none. -/
  value : ∀ s ms a, Doc.parse s = ⟨.obj ms true, true⟩ →
    (c.decode s = .ok a ↔ fs.Admits alone ms ∧ fs.Takes alone ms (parts a))
  /-- As a value of another record it is read by the same rule, or from an array that lists the
  fields in declared order. -/
  nested : ∀ d a, c.read Doc.maxDepth d = .ok a ↔
    (∃ ms, d = .obj ms true ∧ fs.Admits alone ms ∧ fs.Takes alone ms (parts a)) ∨
    ∃ items, d = .arr items true ∧ fs.Lists alone items (parts a)
  /-- The order of the members of any object in the text does not matter. -/
  order : ∀ s s', (Doc.parse s).doc.Reordered (Doc.parse s').doc →
    (Doc.parse s).ended = (Doc.parse s').ended → ∀ a, c.decode s = .ok a ↔ c.decode s' = .ok a

/-- **A record of regular fields is read strictly,** if it refuses what it does not know. -/
theorem strict_record {name : String} {fs : Fields ρ} {make : ρ → α} {parts : α → ρ}
    (hnames : fs.names.Nodup) (hfs : fs.All fun _ c _ _ => c.Regular 126)
    (hmake : ∀ a, make (parts a) = a) (hparts : ∀ r, parts (make r) = r) :
    (record name .refused fs make parts).Strict fs parts := by
  have hregular : (record name .refused fs make parts).Regular Doc.maxDepth := .record hfs hnames
  have hwhole : fs.All fun _ c _ _ => ∀ a, c.read Doc.maxDepth .broken ≠ .ok a :=
    hfs.imp fun _ _ _ _ _ hc => hc.whole Doc.maxDepth
  have hvalue {r : ρ} {a : α} : make r = a ↔ r = parts a :=
    ⟨fun h => h ▸ (hparts r).symm, fun h => h ▸ hmake a⟩
  -- one level more makes no difference, and leaves a full text to each field
  have hdeeper (d : Doc) (a : α) :
      (record name .refused fs make parts).read Doc.maxDepth d = .ok a ↔
        (record name .refused fs make parts).read (Doc.maxDepth + 1) d = .ok a :=
    (hregular.steady (Nat.le_succ _)).symm
  have hobj (ms : List (Doc × Doc)) (closed : Bool) (a : α) :
      (record name .refused fs make parts).read Doc.maxDepth (.obj ms closed) = .ok a ↔
        closed = true ∧ fs.Admits alone ms ∧ fs.Takes alone ms (parts a) := by
    rw [hdeeper, read_record_obj hnames]
    simp only [hvalue, exists_eq_right]
  have harr (items : List Doc) (closed : Bool) (a : α) :
      (record name .refused fs make parts).read Doc.maxDepth (.arr items closed) = .ok a ↔
        closed = true ∧ fs.Lists alone items (parts a) := by
    rw [hdeeper, read_record_arr hwhole]
    simp only [hvalue, exists_eq_right]
  have hdecode {s : String} {ms : List (Doc × Doc)} (hs : Doc.parse s = ⟨.obj ms true, true⟩)
      (a : α) : (record name .refused fs make parts).decode s = .ok a ↔
        fs.Admits alone ms ∧ fs.Takes alone ms (parts a) := by
    rw [decode_eq_ok_iff, hs, hobj]
    simp
  constructor
  case object =>
    intro s ms hs
    refine ⟨fun ⟨a, ha⟩ => ((hdecode hs a).mp ha).1, fun hadmits => ?_⟩
    obtain ⟨r, hr⟩ := hadmits.takes
    exact ⟨make r, (hdecode hs _).mpr ⟨hadmits, (hparts r).symm ▸ hr⟩⟩
  case value => exact fun s ms a hs => hdecode hs a
  case nested =>
    intro d a
    constructor
    · intro h
      obtain ⟨_, -, ⟨ms, closed, rfl⟩ | ⟨items, closed, rfl⟩⟩ := read_record_eq_ok h
      · obtain ⟨rfl, hread⟩ := (hobj ms closed a).mp h
        exact .inl ⟨ms, rfl, hread⟩
      · obtain ⟨rfl, hread⟩ := (harr items closed a).mp h
        exact .inr ⟨items, rfl, hread⟩
    · rintro (⟨ms, rfl, hread⟩ | ⟨items, rfl, hread⟩)
      · exact (hobj ms true a).mpr ⟨rfl, hread⟩
      · exact (harr items true a).mpr ⟨rfl, hread⟩
  case order =>
    intro s s' hdocs hends a
    rw [decode_eq_ok_iff, decode_eq_ok_iff, hregular.read_reordered hdocs, hends]

end Codec

/-! ## Records of records -/

@[simp] theorem ForkRules.regular {n : Nat} : codec.Regular (n + 1) :=
  .record (by simp) (by decide)

@[simp] theorem Invocation.regular {n : Nat} : codec.Regular (n + 1) :=
  .record (by simp) (by decide)

@[simp] theorem EvmContext.regular {n : Nat} : codec.Regular (n + 2) :=
  .record (by simp) (by decide)

/-! ## All types -/

namespace Payload

/-- The types that are read strictly: the arguments of methods, invocations and contexts. -/
def strict : List String :=
  ["DatabaseParams", "LevelDbParams", "StateParams", "HandleParams", "AccountParams",
    "BalanceParams", "NonceParams", "CodeParams", "StorageParams", "SetStorageParams",
    "SnapshotParams", "DumpParams", "ProofParams", "AccessParams", "SlotParams", "EvmParams",
    "TracerParams", "TracerTxStartParams", "TracerTxEndParams", "TracerStartParams",
    "TracerEndParams", "TracerEnterParams", "TracerExitParams", "CallbackInvokeParams",
    "Invocation", "ExternalInvocation", "ForkRules", "EvmContext"]

/-- **Arguments are read strictly,** whatever the order of the members. -/
theorem strict_records {name : String} {p : Payload} (h : record? name = some p)
    (hname : name ∈ strict) :
    ∃ (ρ : Type) (fs : Fields ρ) (make : ρ → p.Carrier) (parts : p.Carrier → ρ),
      p.codec = .record name .refused fs make parts ∧ fs.names.Nodup ∧
        p.codec.Strict fs parts := by
  have hrecord {α ρ : Type} {fs : Fields ρ} {make : ρ → α} {parts : α → ρ}
      (hnames : fs.names.Nodup) (hfs : fs.All fun _ c _ _ => c.Regular 126)
      (hmake : ∀ a, make (parts a) = a) (hparts : ∀ r, parts (make r) = r) :
      ∃ (ρ : Type) (fs' : Fields ρ) (make' : ρ → α) (parts' : α → ρ),
        Codec.record name .refused fs make parts = .record name .refused fs' make' parts' ∧
          fs'.names.Nodup ∧ (Codec.record name .refused fs make parts).Strict fs' parts' :=
    ⟨ρ, fs, make, parts, rfl, hnames, Codec.strict_record hnames hfs hmake hparts⟩
  unfold record? at h
  split at h <;> cases h
  all_goals first
    | exact absurd hname (by decide)
    | exact hrecord (by decide) (by simp) (fun _ => rfl) fun _ => rfl

/-- Two members may be written in another order, but neither of them twice. -/
theorem strict_records_snapshot :
    let handle : String × Json := ("handle", .int 1)
    let revision : String × Json := ("revisionId", .int 0)
    let decode := fun ms => SnapshotParams.codec.decode (Json.obj ms).render
    (record? "SnapshotParams" = some ⟨SnapshotParams.codec⟩ ∧ "SnapshotParams" ∈ strict) ∧
      decode [revision, handle] = .ok { handle := 1, revisionId := 0 } ∧
      ∀ a, decode [handle, revision, handle] ≠ .ok a := by
  intro handle revision decode
  obtain ⟨ρ, fs, make, parts, -, -, hstrict⟩ :=
    @strict_records "SnapshotParams" ⟨SnapshotParams.codec⟩ rfl (by decide)
  have hplain : ∀ ms ⊆ [handle, revision], (Json.obj ms).Plain := fun ms hms =>
    .obj fun e he => by
      rcases List.mem_cons.mp (hms he) with rfl | he
      · exact .int (by decide) (by decide)
      · obtain rfl := List.mem_singleton.mp he
        exact .int (by decide) (by decide)
  have hparse (ms : List (String × Json)) (hms : ms ⊆ [handle, revision]) :
      Doc.parse (Json.obj ms).render = ⟨.obj (Doc.ofMembers ms) true, true⟩ :=
    Doc.parse_render (hplain ms hms)
  have hdeclared := hparse [handle, revision] (by simp)
  have hswapped := hparse [revision, handle] (by simp)
  refine ⟨⟨rfl, by decide⟩, ?_, fun a h => ?_⟩
  · have hwritten : decode [handle, revision] = .ok { handle := 1, revisionId := 0 } :=
      (SnapshotParams.roundTrips (n := 126)).decode_encode { handle := 1, revisionId := 0 }
    refine (hstrict.order _ _ ?_ ?_ _).mp hwritten
    · rw [hdeclared, hswapped]
      exact .single (.here true (.swap _ _ _))
    · rw [hdeclared, hswapped]
  · have hadmits := (hstrict.object _ _ (hparse _ (by simp))).mp ⟨a, h⟩
    exact absurd hadmits.distinct (by simp [Doc.ofMembers, handle, revision])

end Payload

end EvmBridge
