import EvmBridge.Proofs.Commits
import EvmBridge.Proofs.Directories
import EvmBridge.Proofs.PayloadRoundTrip

/-!
# The files of committed states

A store on disk writes each committed state to a file of its own, and the name of the file tells the
root again (`Store.rootOfName_fileName`). `Store.Keeps` says what stands in the directory after some
states were committed: a file for each of their roots, and no other file that is named after a root.
A commit goes on with it (`Keeps.write`), and so does whatever spares those files (`Keeps.spares`).

A store that is opened on such a directory reads all of them and nothing else (`Keeps.openAt`).
-/

namespace EvmBridge

/-- A byte string is written with digits. -/
theorem Hex.mem_digits {bs : Bytes} {c : Char} (h : c ∈ digits bs) :
    ∃ d < 16, c = Nat.digitChar d := by
  induction bs with
  | nil => cases h
  | cons b bs ih =>
      have hb := b.toNat_lt
      rcases List.mem_cons.mp h with rfl | h
      · exact ⟨b.toNat / 16, by omega, rfl⟩
      · rcases List.mem_cons.mp h with rfl | h
        · exact ⟨b.toNat % 16, by omega, rfl⟩
        · exact ih h

theorem Hex.slash_not_mem_encode (bs : Bytes) : '/' ∉ (encode bs).toList := by
  have hdigit : ∀ d < 16, '/' ≠ Nat.digitChar d := by decide
  rw [encode, String.toList_ofList]
  simp only [List.mem_cons, not_or]
  refine ⟨by decide, by decide, fun h => ?_⟩
  obtain ⟨d, hd, hslash⟩ := mem_digits h
  exact hdigit d hd hslash

/-- The part before the extension may hold points, but must not be empty. -/
theorem Files.splitName_json {stem : String} (h : stem ≠ "") :
    splitName (stem ++ ".json") = (stem, some "json") := by
  have hne : stem.toList ≠ [] := fun hnil => h (String.toList_eq_nil_iff.mp hnil)
  have hcs : (stem ++ ".json").toList = stem.toList ++ ['.', 'j', 's', 'o', 'n'] := by simp
  have hext : ((stem ++ ".json").toList.reverse.takeWhile (· ≠ '.')).reverse =
      ['j', 's', 'o', 'n'] := by
    rw [hcs]
    simp
  have hstem : (stem ++ ".json").toList.take
      ((stem ++ ".json").toList.length - ['j', 's', 'o', 'n'].length - 1) = stem.toList := by
    rw [hcs]
    simp
  unfold splitName
  simp only [hext, hstem]
  simp [hne]

namespace Store

/-! ## Names -/

/-- The name of the file of a root. -/
def fileName (root : Hash) : String := root.toHex ++ ".json"

theorem isName_fileName (root : Hash) : Path.IsName (fileName root) := by
  have hlist : (fileName root).toList = root.toHex.toList ++ ".json".toList := by simp [fileName]
  have hlong : 5 ≤ (fileName root).toList.length := by
    rw [hlist, List.length_append]
    exact Nat.le_add_left 5 _
  have hne : ∀ {name : String}, name.toList.length < 5 → fileName root ≠ name := by
    rintro name hshort rfl
    omega
  refine ⟨hne (by decide), fun hslash => ?_, hne (by decide), hne (by decide)⟩
  rw [hlist, List.mem_append] at hslash
  exact hslash.elim (Hex.slash_not_mem_encode _) (by decide)

theorem rootOfName_fileName (root : Hash) : rootOfName (fileName root) = some root := by
  have hne : root.toHex ≠ "" := by
    intro h
    have hlist := congrArg String.toList h
    simp [FixedBytes.toHex, Hex.encode] at hlist
  rw [rootOfName, fileName, Files.splitName_json hne]
  simp [FixedBytes.parse_toHex, Except.toOption]

theorem fileName_inj {root root' : Hash} (h : fileName root = fileName root') : root = root' := by
  have hroots := congrArg rootOfName h
  rw [rootOfName_fileName, rootOfName_fileName] at hroots
  exact Option.some.inj hroots

/-! ## What stands in the directory -/

variable {path : String} {files files' : Files} {l : Location} {root : Hash} {A : Accounts}
  {Cs : List (Hash × Accounts)}

/-- The directory at this place holds a file for each root under which a state was committed. No
other file in it is named after a root. -/
structure Keeps (files : Files) (path : String) (l : Location) (Cs : List (Hash × Accounts)) :
    Prop where
  found : files.resolve path = .ok (l, some .directory)
  /-- What is kept for a root is a state that was committed under it. -/
  kept : ∀ c ∈ Cs, ∃ A, (c.1, A) ∈ Cs ∧ Files.Fits path (fileName c.1) ∧
    files.entry? (l ++ [fileName c.1]) = some (.file (Accounts.codec.encode A))
  told : ∀ name root, rootOfName name = some root → files.entry? (l ++ [name]) ≠ none →
    name = fileName root ∧ ∃ A, (root, A) ∈ Cs

/-- If it is there, the directory stays where it is, and the files in it that are named after roots
stay as they are. -/
def Spares (path : String) (files files' : Files) : Prop :=
  ∀ l, files.resolve path = .ok (l, some .directory) →
    files'.resolve path = .ok (l, some .directory) ∧
    ∀ name, (rootOfName name).isSome → files'.entry? (l ++ [name]) = files.entry? (l ++ [name])

theorem Spares.refl (path : String) (files : Files) : Spares path files files :=
  fun _ h => ⟨h, fun _ _ => rfl⟩

theorem Keeps.spares (h : Keeps files path l Cs) (hspares : Spares path files files') :
    Keeps files' path l Cs := by
  obtain ⟨hfound, hsame⟩ := hspares l h.found
  refine ⟨hfound, fun c hc => ?_, fun name root hname hentry => ?_⟩
  · obtain ⟨A, hA, hfits, hfile⟩ := h.kept c hc
    refine ⟨A, hA, hfits, ?_⟩
    rw [hsame _ (by rw [rootOfName_fileName]; rfl), hfile]
  · rw [hsame name (by rw [hname]; rfl)] at hentry
    exact h.told name root hname hentry

/-- **A commit adds its file.** -/
theorem Keeps.write (h : Keeps files path l Cs)
    (hwrite : files.write (fileOf path root) (Accounts.codec.encode A) = .ok files') :
    Keeps files' path l (Cs ++ [(root, A)]) := by
  obtain ⟨hfits, hfile, rfl⟩ := Files.of_write_join (isName_fileName root) h.found hwrite
  have hentry : ∀ name, Files.entry? (files.put (l ++ [fileName root])
      (.file (Accounts.codec.encode A))) (l ++ [name]) =
      if name = fileName root then some (.file (Accounts.codec.encode A))
      else files.entry? (l ++ [name]) := fun name => by
    rw [Files.found_put]
    simp
  refine ⟨Files.resolve_put hfile h.found, fun c hc => ?_, fun name root' hname hsome => ?_⟩
  · by_cases hroot : c.1 = root
    · -- the new file takes the place of an earlier one
      refine ⟨A, ?_, ?_, ?_⟩
      · rw [hroot]
        simp
      · rw [hroot]
        exact hfits
      · rw [hroot, hentry, if_pos rfl]
    · have hold : c ∈ Cs := by
        rcases List.mem_append.mp hc with hc | hc
        · exact hc
        · exact absurd (congrArg Prod.fst (List.mem_singleton.mp hc)) hroot
      obtain ⟨B, hB, hfits', hkept⟩ := h.kept c hold
      refine ⟨B, List.mem_append_left _ hB, hfits', ?_⟩
      rw [hentry, if_neg fun heq => hroot (fileName_inj heq), hkept]
  · rw [hentry] at hsome
    split at hsome
    · rename_i heq
      rw [heq, rootOfName_fileName] at hname
      cases hname
      exact ⟨heq, A, by simp⟩
    · obtain ⟨heq, B, hB⟩ := h.told name root' hname hsome
      exact ⟨heq, B, List.mem_append_left _ hB⟩

/-- A state that is taken on disk is written. -/
theorem write_of_store {s s' : Store} (hpath : s.path = some path)
    (h : s.store files root A = .ok (s', files')) :
    files.write (fileOf path root) (Accounts.codec.encode A) = .ok files' := by
  unfold store at h
  rw [hpath] at h
  dsimp only at h
  split at h
  · rename_i hwrite
    cases h
    exact hwrite
  · cases h

theorem files_of_store {s s' : Store} (hpath : s.path = none)
    (h : s.store files root A = .ok (s', files')) : files' = files := by
  unfold store at h
  rw [hpath] at h
  cases h
  rfl

/-! ## Opening a store on it -/

/-- A store can only be opened where there is a directory in the end. -/
theorem list_of_openAt {preimages : Bool} {s : Store}
    (h : openAt files path preimages = (.ok s, files')) :
    ∃ names, files'.list path = .ok names := by
  unfold openAt at h
  split at h
  · cases h
  · rename_i made _
    obtain ⟨hstore, rfl⟩ := Prod.mk.inj h
    cases hlist : made.list path with
    | error e =>
        rw [hlist] at hstore
        cases hstore
    | ok names => exact ⟨names, rfl⟩

/-- All files that are named after roots are read. The induction is on the names; what was read
before is kept, unless a file of that root follows. -/
theorem readRoots_eq {names : List String}
    (hread : ∀ name ∈ names, ∀ root, rootOfName name = some root →
      name = fileName root ∧ ∃ A, files.read (fileOf path root) = .ok (Accounts.codec.encode A))
    (roots : OrdMap Hash Accounts) :
    ∃ roots', readRoots files path roots names = .ok roots' ∧
      ∀ root, (fileName root ∉ names → roots'.get? root = roots.get? root) ∧
        (fileName root ∈ names → ∀ A,
          files.read (fileOf path root) = .ok (Accounts.codec.encode A) →
          roots'.get? root = some A) := by
  induction names generalizing roots with
  | nil => exact ⟨roots, rfl, fun root => ⟨fun _ => rfl, fun h => absurd h (by simp)⟩⟩
  | cons name names ih =>
      have ih := ih fun n hn => hread n (List.mem_cons_of_mem _ hn)
      cases hname : rootOfName name with
      | none =>
          obtain ⟨roots', hroots', hget⟩ := ih roots
          refine ⟨roots', by rw [readRoots, hname]; exact hroots', fun root => ?_⟩
          have hne : fileName root ≠ name := by
            rintro rfl
            rw [rootOfName_fileName] at hname
            cases hname
          simpa [hne] using hget root
      | some r =>
          obtain ⟨rfl, B, hB⟩ := hread name List.mem_cons_self r hname
          obtain ⟨roots', hroots', hget⟩ := ih (roots.insert r B)
          refine ⟨roots', ?_, fun root => ⟨fun hnot => ?_, fun hmem A hA => ?_⟩⟩
          · have htext : (files.read (Files.join path (fileName r))).mapError EngineError.io =
                .ok (Accounts.codec.encode B) := congrArg (Except.mapError _) hB
            have hstate : (Accounts.codec.decode (Accounts.codec.encode B)).mapError
                (fun e => EngineError.codec (.json e)) = .ok B :=
              congrArg (Except.mapError _) (Accounts.roundTrips.decode_encode B)
            rw [readRoots, hname]
            simp only [htext, hstate, bind, Except.bind]
            exact hroots'
          · rw [List.mem_cons, not_or] at hnot
            rw [(hget root).1 hnot.2, OrdMap.get?_insert, if_neg]
            rintro rfl
            exact hnot.1 rfl
          · by_cases hlater : fileName root ∈ names
            · exact (hget root).2 hlater A hA
            · obtain rfl := fileName_inj ((List.mem_cons.mp hmem).resolve_right hlater)
              rw [(hget root).1 hlater, OrdMap.get?_insert, if_pos rfl]
              -- what was written determines what was read
              have hsame := congrArg Accounts.codec.decode (Except.ok.inj (hA.symm.trans hB))
              rw [Accounts.roundTrips.decode_encode, Accounts.roundTrips.decode_encode] at hsame
              exact congrArg some (Except.ok.inj hsame).symm

/-- A store holds what was committed: for each root one of the states, and no other root. -/
structure Holds (s : Store) (Cs : List (Hash × Accounts)) : Prop where
  found : ∀ root A, (root, A) ∈ Cs → ∃ B, s.roots.get? root = some B
  committed : ∀ root A, s.roots.get? root = some A → (root, A) ∈ Cs

theorem Holds.isSome_iff {s : Store} (hs : s.Holds Cs) :
    (s.roots.get? root).isSome ↔ ∃ A, (root, A) ∈ Cs := by
  rw [Option.isSome_iff_exists]
  exact ⟨fun ⟨A, hA⟩ => ⟨A, hs.committed root A hA⟩, fun ⟨A, hA⟩ => hs.found root A hA⟩

/-- **A store that is opened holds what is kept.** -/
theorem Keeps.openAt (h : Keeps files path l Cs) (preimages : Bool) :
    ∃ s, openAt files path preimages = (.ok s, files) ∧ s.path = some path ∧ s.Holds Cs := by
  obtain ⟨names, hlist, hmem⟩ := Files.list_eq h.found
  have hfile : ∀ {root A}, (root, A) ∈ Cs → fileName root ∈ names ∧ ∃ B, (root, B) ∈ Cs ∧
      files.read (fileOf path root) = .ok (Accounts.codec.encode B) := fun {root A} hA => by
    obtain ⟨B, hB, hfits, hentry⟩ := h.kept _ hA
    exact ⟨(hmem _).mpr (by simp [hentry]), B, hB,
      Files.read_join (isName_fileName root) h.found hfits hentry⟩
  have hreadable : ∀ name ∈ names, ∀ root, rootOfName name = some root →
      name = fileName root ∧
        ∃ A, files.read (fileOf path root) = .ok (Accounts.codec.encode A) := by
    intro name hname root hroot
    obtain ⟨heq, A, hA⟩ := h.told name root hroot ((hmem name).mp hname)
    obtain ⟨_, B, _, hB⟩ := hfile hA
    exact ⟨heq, B, hB⟩
  obtain ⟨roots, hroots, hget⟩ := readRoots_eq hreadable ∅
  have hfound : ∀ {root A}, (root, A) ∈ Cs → ∃ B, (root, B) ∈ Cs ∧ roots.get? root = some B :=
    fun {root A} hA => by
      obtain ⟨hlisted, B, hB, hread⟩ := hfile hA
      exact ⟨B, hB, (hget root).2 hlisted B hread⟩
  have hopen : Store.openAt files path preimages =
      (.ok { roots, path := some path, preimages }, files) := by
    have hnames : (files.list path).mapError EngineError.io = .ok names :=
      congrArg (Except.mapError _) hlist
    rw [Store.openAt, Files.makeDirectories_eq h.found]
    simp only [hnames, bind, Except.bind, hroots]
  refine ⟨_, hopen, rfl, fun root A hA => ?_, fun root A hA => ?_⟩
  · obtain ⟨B, _, hB⟩ := hfound hA
    exact ⟨B, hB⟩
  · by_cases hlisted : fileName root ∈ names
    · obtain ⟨_, B, hB⟩ := h.told _ root (rootOfName_fileName root) ((hmem _).mp hlisted)
      obtain ⟨B', hB', hget'⟩ := hfound hB
      rw [hA] at hget'
      cases hget'
      exact hB'
    · rw [(hget root).1 hlisted] at hA
      exact absurd hA (by simp)

end Store

end EvmBridge
