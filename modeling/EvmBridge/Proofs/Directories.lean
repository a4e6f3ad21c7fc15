import EvmBridge.Files

/-!
# Files in a directory

A path that leads to a directory leads to each file in it, joined with the name of the file. So all
that an operation does there is told by the entries below the directory:

* `Files.read_join`: what stands there is read;
* `Files.of_write_join`: what is written stands there, and nothing else changes;
* `Files.list_eq`: what is listed are the names of what stands there;
* `Files.makeDirectories_eq`: a directory that is there is not made again.
-/

namespace EvmBridge

namespace Path

/-! ## Joining paths -/

theorem pieces_ne_nil (cs : List Char) : pieces cs ≠ [] := by
  cases cs with
  | nil => simp [pieces]
  | cons c cs =>
      unfold pieces
      rw [List.foldr_cons]
      split <;> simp

theorem pieces_cons {c : Char} (hc : c ≠ '/') {cs p : List Char} {ps : List (List Char)}
    (h : pieces cs = p :: ps) : pieces (c :: cs) = (c :: p) :: ps := by
  unfold pieces at h ⊢
  rw [List.foldr_cons, h]
  split
  · rename_i heq
    exact absurd rfl hc
  · rename_i heq
    cases heq
    rfl
  · rename_i heq
    cases heq

theorem pieces_slash (cs : List Char) : pieces ('/' :: cs) = [] :: pieces cs := rfl

theorem pieces_append (cs ds : List Char) :
    pieces (cs ++ '/' :: ds) = pieces cs ++ pieces ds := by
  induction cs with
  | nil => rfl
  | cons c cs ih =>
      by_cases hc : c = '/'
      · subst hc
        rw [List.cons_append, pieces_slash, pieces_slash, ih, List.cons_append]
      · obtain ⟨p, ps, hps⟩ := List.exists_cons_of_ne_nil (pieces_ne_nil cs)
        rw [hps, List.cons_append] at ih
        rw [List.cons_append, pieces_cons hc ih, pieces_cons hc hps, List.cons_append]

theorem pieces_of_not_mem {cs : List Char} (h : '/' ∉ cs) : pieces cs = [cs] := by
  induction cs with
  | nil => rfl
  | cons c cs ih =>
      rw [List.mem_cons, not_or] at h
      exact pieces_cons (Ne.symm h.1) (ih h.2)

theorem exists_of_endsWith_slash {s : String} (h : s.endsWith "/" = true) :
    ∃ cs, s.toList = cs ++ ['/'] := by
  unfold String.endsWith at h
  rw [String.Slice.endsWith_string_iff, String.copy_toSlice] at h
  obtain ⟨cs, hcs⟩ := h
  exact ⟨cs, hcs.symm⟩

/-- A name of a file. -/
structure IsName (name : String) : Prop where
  ne_empty : name ≠ ""
  no_slash : '/' ∉ name.toList
  /-- One point stays where it is. -/
  ne_here : name ≠ "."
  /-- Two points go back. -/
  ne_back : name ≠ ".."

variable {path name : String} {p q : Path}

theorem eq_of_ofText (h : ofText path = .ok p) :
    p = { names := ((pieces path.toList).filter (!·.isEmpty)).map String.ofList
          slash := path.endsWith "/" } := by
  unfold ofText at h
  split at h
  · cases h
  · split at h
    · cases h
    · split at h
      · cases h
      · cases h
        rfl

theorem ne_empty_of_ofText (h : ofText path = .ok p) : path ≠ "" := by
  rintro rfl
  cases h

/-- A path that is joined with a name has this name behind the others. -/
theorem eq_of_ofText_join (hname : IsName name) (hp : ofText path = .ok p)
    (hq : ofText (Files.join path name) = .ok q) : q = { names := p.names ++ [name] } := by
  have hlast : pieces name.toList = [name.toList] := pieces_of_not_mem hname.no_slash
  have hne : name.toList ≠ [] := fun h => hname.ne_empty (String.toList_eq_nil_iff.mp h)
  -- with or without a slash at its end, the path goes on with the name
  have hjoin : ∃ cs, (Files.join path name).toList = cs ++ '/' :: name.toList ∧
      (pieces cs).filter (!·.isEmpty) = (pieces path.toList).filter (!·.isEmpty) := by
    by_cases hslash : path.endsWith "/" = true
    · obtain ⟨cs, hcs⟩ := exists_of_endsWith_slash hslash
      refine ⟨cs, ?_, ?_⟩
      · simp [Files.join, hslash, hcs]
      · rw [hcs, pieces_append]
        simp [pieces]
    · refine ⟨path.toList, ?_, rfl⟩
      simp [Files.join, hslash, ne_empty_of_ofText hp]
  obtain ⟨cs, hcs, hpieces⟩ := hjoin
  have hends : (Files.join path name).endsWith "/" = false := by
    refine Bool.eq_false_iff.mpr fun hslash => ?_
    obtain ⟨ds, hds⟩ := exists_of_endsWith_slash hslash
    obtain ⟨front, last, hlast⟩ := List.eq_nil_or_concat name.toList |>.resolve_left hne
    have hend := hcs.symm.trans hds
    rw [hlast, List.concat_eq_append, ← List.cons_append, ← List.append_assoc] at hend
    have hslash : [last] = ['/'] := (List.append_inj' hend rfl).2
    refine hname.no_slash ?_
    rw [hlast, List.concat_eq_append, hslash]
    simp
  rw [eq_of_ofText hq, eq_of_ofText hp, hcs, pieces_append, hlast, List.filter_append, hpieces,
    hends]
  simp [hname.ne_empty]

end Path

namespace Files

variable {fs fs' : Files} {path name text : String} {l here : Location}

/-! ## Walking to a directory -/

theorem enter_append (fs : Files) (here : Location) (xs ys : List String) :
    fs.enter here (xs ++ ys) = fs.enter here xs >>= (fs.enter · ys) := by
  induction xs generalizing here with
  | nil => rfl
  | cons x xs ih =>
      rw [List.cons_append, enter, enter]
      cases hx : fs.lookup here x with
      | error e => rfl
      | ok found =>
          obtain ⟨there, entry⟩ := found
          rcases entry with _ | _ | _
          · rfl
          · exact ih there
          · rfl

theorem enter_singleton_iff : fs.enter here [name] = .ok l ↔
    fs.lookup here name = .ok (l, some .directory) := by
  rw [enter]
  rcases fs.lookup here name with e | ⟨there, _ | _ | _⟩
  · simp [bind, Except.bind]
  · simp [bind, Except.bind]
  · simp [bind, Except.bind, enter]
  · simp [bind, Except.bind]

/-- A path leads to a directory if all its names do. -/
theorem reach_iff {p : Path} : fs.reach p = .ok (l, some .directory) ↔
    fs.enter [] p.names = .ok l := by
  unfold reach
  rcases List.eq_nil_or_concat p.names with hnil | ⟨names, last, hlast⟩
  · rw [hnil]
    simp [enter]
  · rw [hlast, List.concat_eq_append, List.getLast?_concat, List.dropLast_concat, enter_append]
    cases fs.enter [] names with
    | error e => simp [bind, Except.bind]
    | ok here => exact enter_singleton_iff.symm

theorem resolve_iff : fs.resolve path = .ok (l, some .directory) ↔
    ∃ p, Path.ofText path = .ok p ∧ fs.enter [] p.names = .ok l := by
  unfold resolve
  cases hp : Path.ofText path with
  | error e => simp [bind, Except.bind]
  | ok p =>
      simp only [bind, Except.bind, Except.ok.injEq, exists_eq_left']
      rw [← reach_iff]
      rcases fs.reach p with e | ⟨there, _ | _ | _⟩
      · simp
      · simp
      · simp
      · dsimp only
        split <;> simp

theorem lookup_mono {there : Location}
    (hdirs : ∀ l, fs.entry? l = some .directory → fs'.entry? l = some .directory)
    (h : fs.lookup here name = .ok (there, some .directory)) :
    fs'.lookup here name = .ok (there, some .directory) := by
  unfold lookup at h ⊢
  by_cases hhere : name = "."
  · rwa [if_pos hhere] at h ⊢
  rw [if_neg hhere] at h ⊢
  by_cases hback : name = ".."
  · rwa [if_pos hback] at h ⊢
  rw [if_neg hback] at h ⊢
  by_cases hlong : maxNameSize < name.utf8ByteSize
  · rw [if_pos hlong] at h
    cases h
  · rw [if_neg hlong] at h ⊢
    simp only [Except.ok.injEq, Prod.mk.injEq] at h ⊢
    exact ⟨h.1, hdirs _ h.2⟩

/-- Where all directories are still there, a walk goes the same way. -/
theorem enter_mono {names : List String}
    (hdirs : ∀ l, fs.entry? l = some .directory → fs'.entry? l = some .directory)
    (h : fs.enter here names = .ok l) : fs'.enter here names = .ok l := by
  induction names generalizing here with
  | nil => exact h
  | cons name names ih =>
      rw [← List.singleton_append, enter_append] at h ⊢
      cases hx : fs.enter here [name] with
      | error e =>
          rw [hx] at h
          cases h
      | ok there =>
          rw [hx] at h
          rw [enter_singleton_iff.mpr (lookup_mono hdirs (enter_singleton_iff.mp hx))]
          exact ih h

theorem resolve_mono (hdirs : ∀ l, fs.entry? l = some .directory → fs'.entry? l = some .directory)
    (h : fs.resolve path = .ok (l, some .directory)) :
    fs'.resolve path = .ok (l, some .directory) := by
  obtain ⟨p, hp, henter⟩ := resolve_iff.mp h
  exact resolve_iff.mpr ⟨p, hp, enter_mono hdirs henter⟩

/-- A directory that is there is not made again. -/
theorem makeDirectories_eq (h : fs.resolve path = .ok (l, some .directory)) :
    fs.makeDirectories path = (.ok (), fs) := by
  obtain ⟨p, hp, henter⟩ := resolve_iff.mp h
  have hmade : fs.makeDirectory p = .ok fs := by
    rw [makeDirectory, reach_iff.mpr henter]
    rfl
  have hne : path.isEmpty = false := by simpa using Path.ne_empty_of_ofText hp
  rw [makeDirectories, hne, hp]
  dsimp only
  rw [makeWay, hmade]
  simp

/-! ## Files -/

/-- A path can be joined with a name, without getting too long. -/
structure Fits (path name : String) : Prop where
  path : ∃ q, Path.ofText (join path name) = .ok q
  name : name.utf8ByteSize ≤ maxNameSize

theorem lookup_of_isName (hname : Path.IsName name) (hsize : name.utf8ByteSize ≤ maxNameSize) :
    fs.lookup here name = .ok (here ++ [name], fs.entry? (here ++ [name])) := by
  rw [lookup, if_neg hname.ne_here, if_neg hname.ne_back, if_neg (Nat.not_lt.mpr hsize)]

section

variable (hname : Path.IsName name) (hdir : fs.resolve path = .ok (l, some .directory))
include hname hdir

/-- **What stands in a directory is read there.** -/
theorem read_join (hfits : Fits path name) (hfile : fs.entry? (l ++ [name]) = some (.file text)) :
    fs.read (join path name) = .ok text := by
  obtain ⟨p, hp, henter⟩ := resolve_iff.mp hdir
  obtain ⟨q, hq⟩ := hfits.path
  cases Path.eq_of_ofText_join hname hp hq
  rw [read, resolve, hq]
  simp [reach, henter, bind, Except.bind, lookup_of_isName hname hfits.name, hfile]

/-- **What is written to a directory stands there.** -/
theorem of_write_join (h : fs.write (join path name) text = .ok fs') :
    Fits path name ∧ fs.entry? (l ++ [name]) ≠ some .directory ∧
      fs' = fs.put (l ++ [name]) (.file text) := by
  obtain ⟨p, hp, henter⟩ := resolve_iff.mp hdir
  cases hq : Path.ofText (join path name) with
  | error e =>
      rw [write, hq] at h
      cases h
  | ok q =>
      cases Path.eq_of_ofText_join hname hp hq
      by_cases hsize : name.utf8ByteSize ≤ maxNameSize
      · rw [write, hq] at h
        simp only [bind, Except.bind, List.dropLast_concat, henter, List.getLast?_concat,
          lookup_of_isName hname hsize] at h
        rcases hentry : fs.entry? (l ++ [name]) with _ | _ | _
        all_goals
          rw [hentry] at h
          cases h
        all_goals exact ⟨⟨⟨_, hq⟩, hsize⟩, by simp, rfl⟩
      · rw [write, hq] at h
        simp [bind, Except.bind, henter, lookup, hname.ne_here, hname.ne_back,
          Nat.lt_of_not_le hsize] at h

end

theorem found_put (fs : Files) (l : Location) (name : String) (e : Entry) (l' : Location) :
    Files.entry? (fs.put (l ++ [name]) e) l' =
      if l' = l ++ [name] then some e else fs.entry? l' := by
  unfold entry? put
  by_cases hl : l' = l ++ [name]
  · subst hl
    simp [OrdMap.get?_insert]
  · simp [OrdMap.get?_insert, hl]

/-- Writing a file leaves all directories. -/
theorem resolve_put (hfile : fs.entry? (l ++ [name]) ≠ some .directory)
    (h : fs.resolve path = .ok (here, some .directory)) :
    (fs.put (l ++ [name]) (.file text)).resolve path = .ok (here, some .directory) := by
  refine resolve_mono (fun l' hl' => ?_) h
  rw [found_put, if_neg, hl']
  rintro rfl
  exact hfile hl'

theorem nameIn_iff : nameIn l here = some name ↔ here = l ++ [name] := by
  unfold nameIn
  rcases List.eq_nil_or_concat here with rfl | ⟨front, last, rfl⟩
  · simp
  · simp only [List.concat_eq_append, List.getLast?_concat, List.dropLast_concat]
    by_cases hf : front = l
    · simp [hf]
    · simp [hf]

/-- **What is listed in a directory are the names of what stands there.** -/
theorem list_eq (h : fs.resolve path = .ok (l, some .directory)) :
    ∃ names, fs.list path = .ok names ∧
      ∀ name, name ∈ names ↔ fs.entry? (l ++ [name]) ≠ none := by
  refine ⟨fs.entries.keys.filterMap (nameIn l), by rw [list, h]; rfl, fun name => ?_⟩
  have hne : l ++ [name] ≠ [] := by simp
  simp only [List.mem_filterMap, nameIn_iff, exists_eq_right, OrdMap.mem_keys_iff, entry?,
    List.isEmpty_iff, hne, if_false, Option.isSome_iff_ne_none]

theorem resolve_of_list {names : List String} (h : fs.list path = .ok names) :
    ∃ l, fs.resolve path = .ok (l, some .directory) := by
  unfold list at h
  rcases hfound : fs.resolve path with e | ⟨l, _ | _ | _⟩ <;> rw [hfound] at h
  · cases h
  · cases h
  · exact ⟨l, rfl⟩
  · cases h

end Files

end EvmBridge
