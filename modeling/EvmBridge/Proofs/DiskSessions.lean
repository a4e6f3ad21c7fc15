import EvmBridge.Proofs.CommittedStates
import EvmBridge.Proofs.StateFiles

/-!
# Stores on disk survive

A store on disk is opened, states are committed to it, and it is closed, again and again, perhaps by
one process after the other. `Service.Sessions` follows such a history of one directory, and lists
what was committed with the roots that were answered. All that counts is what happens to the files,
so it does not matter which views and handles there are, nor whether a process is still the same.

At every moment the directory keeps what was committed (`Sessions.keeps`). So a store that is opened
again shows all of it (`Sessions.reopened`). Whatever requests are made in between, and whatever
callbacks ask for while they are served, they go on with the history (`Sessions.serves`).
-/

namespace EvmBridge

variable {path : String} {w w' : World} {Cs : List (Hash × Accounts)}

theorem World.files_passed (text : String) (w : World) :
    (settle (EntryPoint.answer text w)).files = w.files := by
  unfold EntryPoint.answer
  rcases w.buffers.put (Utf8.encode text) with ⟨_ | id, buffers⟩ <;> rfl

theorem Store.loadFrom_missing {s : Store} {root : Hash} (hroot : root ≠ .zero)
    (hget : s.roots.get? root = none) : s.loadFrom root = .error (.missingRoot root) := by
  have hz : ¬ root.isZero = true := by simpa [FixedBytes.isZero] using hroot
  rw [loadFrom, if_neg hz, load, hget]

namespace Service

/-- A store is opened once its directory is made, and what it holds is read. -/
theorem openDisk_eq (p : LevelDbParams) (w : World) :
    openDisk p w =
      match Store.openAt w.files p.path p.preimages with
      | (.ok s, files) => (.ok (w.engine.stores.add s).1, { w with
          files, engine := { w.engine with stores := (w.engine.stores.add s).2 } })
      | (.error e, files) => (.error (.error e), { w with files }) := by
  have hasked : openDisk p w = (do
      addStore (← Act.ofExcept (Store.openAt w.files p.path p.preimages).1) : Act Handle)
      { w with files := (Store.openAt w.files p.path p.preimages).2 } := rfl
  rw [hasked]
  rcases Store.openAt w.files p.path p.preimages with ⟨e | s, files⟩
  · exact Act.bind_error (Act.ofExcept_error rfl)
  · exact Act.bind_ok (Act.ofExcept_ok rfl)

section

variable {database : Handle} {i : Nat} {root : Hash} {A : Accounts}
  (hfind : w.engine.stores.find database = .ok i) (hs : (w.store i).Holds Cs)
include hfind hs

/-- A root that was committed can be opened. What is shown was committed under it, or it is the zero
root, which stands for the empty state. -/
theorem openView_committed (hA : (root, A) ∈ Cs) :
    ∃ h w' u, openView { databaseHandle := database, root } w = (.ok h, w') ∧ w'.Shows h u ∧
      (u.accounts = A ∨ (∃ B, (root, B) ∈ Cs ∧ B ≠ A) ∨ root = .zero ∧ A ≠ ∅) := by
  by_cases hz : root = .zero
  · subst hz
    obtain ⟨h, w', hopen, hshows⟩ :=
      openView_eq (p := { databaseHandle := database, root := .zero }) hfind (Store.loadFrom_zero _)
    refine ⟨h, w', _, hopen, hshows, ?_⟩
    by_cases hempty : A = ∅
    · exact .inl hempty.symm
    · exact .inr (.inr ⟨rfl, hempty⟩)
  · obtain ⟨B, hB⟩ := hs.found root A hA
    obtain ⟨h, w', hopen, hshows⟩ := openView_eq (p := { databaseHandle := database, root }) hfind
      (Store.loadFrom_of_ne_zero hz hB)
    refine ⟨h, w', _, hopen, hshows, ?_⟩
    by_cases hsame : B = A
    · exact .inl hsame
    · exact .inr (.inl ⟨B, hs.committed root B hB, hsame⟩)

/-- Any other root is refused. -/
theorem openView_missing (hroot : root ≠ .zero) (hnone : ∀ A, (root, A) ∉ Cs) :
    openView { databaseHandle := database, root } w = (.error (.error (.missingRoot root)), w) := by
  have hget : (w.store i).roots.get? root = none :=
    Option.eq_none_iff_forall_ne_some.mpr fun A hA => hnone A (hs.committed root A hA)
  have hfound : findStore database w = (.ok i, w) := Act.ofExcept_ok hfind
  have hworld : (get : Act World) w = (.ok w, w) := rfl
  unfold openView
  rw [Act.bind_ok hfound, Act.bind_ok hworld]
  exact Act.bind_error (Act.ofExcept_error (Store.loadFrom_missing hroot hget))

end

/-- A history of the stores on one directory, with the states that were committed to them and their
roots. -/
inductive Sessions (path : String) : List (Hash × Accounts) → World → Prop where
  /-- The first session begins. No file is named after a root. -/
  | first {p : LevelDbParams} {h : Handle} {w w' : World} (hp : p.path = path)
      (hopen : openDisk p w = (.ok h, w'))
      (hnew : ∀ names, w'.files.list path = .ok names → ∀ name ∈ names,
        Store.rootOfName name = none) : Sessions path [] w'
  /-- A state is committed through any view of a store on this directory. -/
  | committed {Cs : List (Hash × Accounts)} {w w' : World} {p : HandleParams} {j : Nat}
      {root : Hash} (h : Sessions path Cs w) (hfind : w.engine.views.find p.handle = .ok j)
      (hstore : (w.store (w.view j).store).path = some path)
      (hcommit : commit p w = (.ok root, w')) :
      Sessions path (Cs ++ [(root, (w.view j).finalize.accounts)]) w'
  /-- Anything else happens, to views, handles, or the process itself. Other files come and go, but
  none that is named after a root. -/
  | other {Cs : List (Hash × Accounts)} {w w' : World} (h : Sessions path Cs w)
      (hspares : Store.Spares path w.files w'.files) : Sessions path Cs w'

namespace Sessions

theorem of_files (h : Sessions path Cs w) (hfiles : w'.files = w.files) : Sessions path Cs w' :=
  h.other (hfiles ▸ .refl path w.files)

/-- **The directory keeps what was committed.** -/
theorem keeps (h : Sessions path Cs w) : ∃ l, Store.Keeps w.files path l Cs := by
  induction h with
  | @first p _ w w' hp hopen hnew =>
      subst hp
      rw [openDisk_eq] at hopen
      rcases hat : Store.openAt w.files p.path p.preimages with ⟨e | s, files⟩ <;>
        rw [hat] at hopen <;> cases hopen
      obtain ⟨names, hnames⟩ := Store.list_of_openAt hat
      obtain ⟨l, hfound⟩ := Files.resolve_of_list hnames
      obtain ⟨names', hnames', hmem⟩ := Files.list_eq hfound
      refine ⟨l, hfound, fun c hc => absurd hc (by simp), fun name root hname hentry => ?_⟩
      -- what stands there would have been listed
      rw [hnew names' hnames' name ((hmem name).mpr hentry)] at hname
      cases hname
  | committed _ hfind hstore hcommit ih =>
      obtain ⟨l, hkeeps⟩ := ih
      obtain ⟨store, files, hs, rfl, rfl⟩ := commit_ok hfind hcommit
      exact ⟨l, hkeeps.write (Store.write_of_store hstore hs)⟩
  | other _ hspares ih =>
      obtain ⟨l, hkeeps⟩ := ih
      exact ⟨l, hkeeps.spares hspares⟩

/-- A store that is opened again changes no file. -/
theorem openAt_eq (h : Sessions path Cs w) (preimages : Bool) :
    ∃ s, Store.openAt w.files path preimages = (.ok s, w.files) ∧ s.path = some path ∧
      s.Holds Cs := by
  obtain ⟨l, hkeeps⟩ := h.keeps
  exact hkeeps.openAt preimages

end Sessions

end Service

/-! ## Requests go on with a history -/

/-- Stores are opened on this directory only, and no dump is written in place of a file that is
named after a root. -/
def Request.KeepsTo (path : String) : Request → Prop
  | .openDisk p => p.path = path
  | .dump p => ∀ files text files', files.write p.dumpFile text = .ok files' →
      Store.Spares path files files'
  | _ => True

/-- Every store is in memory or on this directory. -/
def World.StoresIn (path : String) (w : World) : Prop :=
  ∀ i, (w.store i).path = none ∨ (w.store i).path = some path

theorem World.StoresIn.of_stores (h : w.StoresIn path)
    (hstores : w'.engine.stores = w.engine.stores) : w'.StoresIn path := by
  intro i
  rw [World.store, hstores]
  exact h i

theorem World.StoresIn.add (h : w.StoresIn path) {s : Store}
    (hs : s.path = none ∨ s.path = some path)
    (hstores : w'.engine.stores = (w.engine.stores.add s).2) : w'.StoresIn path := by
  intro i
  rw [World.store, hstores, Pool.get_add]
  split
  · exact hs
  · exact h i

/-- A history has gone on, and it will, whatever callbacks ask for. -/
structure Service.Continues (path : String) (Cs : List (Hash × Accounts)) (w : World) : Prop where
  sessions : ∃ Ds, Sessions path (Cs ++ Ds) w
  stores : w.StoresIn path
  makes : w.Makes (Request.KeepsTo path)

namespace Service

namespace Continues

variable {upcall : Upcall}

theorem same (h : Continues path Cs w) (hfiles : w'.files = w.files)
    (hstores : w'.engine.stores = w.engine.stores) (haction : w'.action = w.action) :
    Continues path Cs w' := by
  obtain ⟨Ds, hsessions⟩ := h.sessions
  refine ⟨⟨Ds, hsessions.of_files hfiles⟩, h.stores.of_stores hstores, fun id => ?_⟩
  rw [haction]
  exact h.makes id

theorem openAt_eq (h : Continues path Cs w) (preimages : Bool) :
    ∃ s, Store.openAt w.files path preimages = (.ok s, w.files) ∧ s.path = some path := by
  obtain ⟨Ds, hsessions⟩ := h.sessions
  obtain ⟨s, hopen, hpath, _⟩ := hsessions.openAt_eq preimages
  exact ⟨s, hopen, hpath⟩

theorem prepared (h : Continues path Cs w) {p : LevelDbParams}
    (hp : Request.KeepsTo path (.openDisk p)) :
    { w with files := (Store.openAt w.files p.path p.preimages).2 } = w := by
  obtain ⟨s, hopen, _⟩ := h.openAt_eq p.preimages
  cases hp
  rw [hopen]

theorem opens {r : Request} {c : Category} (hr : r.KeepsTo path) (hc : r.opens = some c)
    (h : Continues path Cs w) : Always (Continues path Cs) (run upcall r w) := by
  have hadd : ∀ {s : Store} {w' : World}, s.path = none ∨ s.path = some path →
      w'.engine.stores = (w.engine.stores.add s).2 → w'.files = w.files → w'.action = w.action →
      Continues path Cs w' := by
    intro s w' hs hstores hfiles haction
    obtain ⟨Ds, hsessions⟩ := h.sessions
    refine ⟨⟨Ds, hsessions.of_files hfiles⟩, h.stores.add hs hstores, fun id => ?_⟩
    rw [haction]
    exact h.makes id
  cases r with
  | openMemory => exact always_map (hadd (s := .memory) (.inl rfl) rfl rfl rfl)
  | openDisk p =>
      obtain ⟨s, hopen, hpath⟩ := h.openAt_eq p.preimages
      cases hr
      refine always_map ?_
      rw [openDisk_eq, hopen]
      exact hadd (.inr hpath) rfl rfl rfl
  | openView p =>
      exact always_map (always_ofExcept h fun _ _ => always_ofExcept h fun _ _ =>
        h.same rfl rfl rfl)
  | createTracer options =>
      exact always_map (always_ofExcept h fun _ _ => h.same rfl rfl rfl)
  | _ => exact absurd hc (by simp [Request.opens])

theorem closes {r : Request} {x : Category × Handle} (hx : r.closes = some x)
    (h : Continues path Cs w) : Always (Continues path Cs) (run upcall r w) := by
  cases r with
  | closeStore p =>
      refine always_map (always_ofExcept h fun stores hc => ?_)
      obtain ⟨Ds, hsessions⟩ := h.sessions
      refine ⟨⟨Ds, hsessions.of_files rfl⟩, fun i => ?_, h.makes⟩
      -- the object of the store stays
      have hget : ({ w with engine := { w.engine with stores } } : World).store i = w.store i := by
        simp only [World.store, Pool.get, Pool.objects_close hc]
      rw [hget]
      exact h.stores i
  | closeView p => exact always_map (always_ofExcept h fun _ _ => h.same rfl rfl rfl)
  | removeTracer p => exact always_map (always_ofExcept h fun _ _ => h.same rfl rfl rfl)
  | _ => exact absurd hx (by simp [Request.closes])

theorem committed {p : HandleParams} {i : Nat} {store : Store} {files : Files}
    (h : Continues path Cs w) (hfind : w.engine.views.find p.handle = .ok i)
    (hs : (w.store (w.view i).store).store w.files (w.view i).finalize.accounts.root
      (w.view i).finalize.accounts = .ok (store, files)) :
    Continues path Cs
      ({ w.setView i (w.view i).finalize with files }.setStore (w.view i).store store) := by
  obtain ⟨Ds, hsessions⟩ := h.sessions
  refine ⟨?_, fun k => ?_, h.makes⟩
  · rcases h.stores (w.view i).store with hmemory | hdisk
    · exact ⟨Ds, hsessions.of_files (Store.files_of_store hmemory hs)⟩
    · have hcommit := commit_eq hfind
      rw [hs] at hcommit
      have hlonger := hsessions.committed hfind hdisk hcommit
      rw [List.append_assoc] at hlonger
      exact ⟨_, hlonger⟩
  · simp only [World.store, World.setStore]
    rw [Pool.get_set]
    split
    · rw [Store.eq_of_store hs]
      exact h.stores _
    · exact h.stores k

/-- **Requests go on with a history**, if callbacks do. -/
theorem serves (hhost : ∀ (h : Handle) (args : Option Bytes) {w : World}, Continues path Cs w →
      Continues path Cs (settle (upcall h args w))) :
    Serves upcall (Request.KeepsTo path) (Continues path Cs) where
  elsewhere h engine files _ haction := h.same files (by rw [engine]) haction
  prepared hr h := by rwa [h.prepared hr]
  dumped {p text files w} hr h hwrite := by
    obtain ⟨Ds, hsessions⟩ := h.sessions
    exact ⟨⟨Ds, hsessions.other (hr _ _ _ hwrite)⟩, h.stores, h.makes⟩
  passed text w h :=
    h.same (World.files_passed text w) (by rw [World.engine_passed]) (World.action_passed text w)
  starved _ _ h := h.same rfl rfl rfl
  opened hr hc h hrun := (h.opens hr hc).ok hrun
  closed _ hx h hrun := (h.closes hx).ok hrun
  called _ _ _ _ _ h := h.same rfl rfl rfl
  committed _ hfind h hs := h.committed hfind hs
  traced _ _ _ h := h.same rfl rfl rfl
  applied {p x w} _ hx _ h := by
    subst hx
    exact Executor.apply_keeps (fun _ _ _ h => h.same rfl rfl rfl)
      (fun _ _ _ h => h.same rfl rfl rfl) hhost _ h
  host h args _ hw := hhost h args hw

end Continues

namespace Sessions

/-- **A request goes on with the history**, and so does whatever its callbacks ask for. -/
theorem run (h : Sessions path Cs w) (hstores : w.StoresIn path)
    (hmakes : w.Makes (Request.KeepsTo path)) {r : Request} (hr : r.KeepsTo path) (depth : Nat) :
    ∃ Ds, Sessions path (Cs ++ Ds) (Service.run (Proxy.nested depth) r w).2 := by
  have hstart : Continues path Cs w := ⟨⟨[], by rwa [List.append_nil]⟩, hstores, hmakes⟩
  have hserves : Serves (Proxy.nested depth) (Request.KeepsTo path) (Continues path Cs) :=
    Proxy.serves_nested (·.makes) Continues.serves depth
  exact (run_serves hserves hr hstart).world.sessions

/-- **Stores on disk survive.** Take any history of the stores on one directory, with the states
that were committed to them and the roots that were answered. A store can be opened again. It holds
a state for each of these roots and for no other. Each of them can be opened, and shows the accounts
that were committed under it, unless other ones were committed under the same root as well, or some
accounts under the zero root. Any other root is refused.

And the history goes on with any request, if all stores are in memory or on this directory and
neither the request nor a callback opens one elsewhere or dumps over a file of a state. -/
theorem reopened (h : Sessions path Cs w) :
    (∀ preimages, ∃ database w' i, openDisk { path, preimages } w = (.ok database, w') ∧
      Sessions path Cs w' ∧ w'.engine.stores.find database = .ok i ∧
      (∀ root, ((w'.store i).roots.get? root).isSome ↔ ∃ A, (root, A) ∈ Cs) ∧
      (∀ root A, (root, A) ∈ Cs → ∃ h w'' u,
        openView { databaseHandle := database, root } w' = (.ok h, w'') ∧ w''.Shows h u ∧
        (u.accounts = A ∨ (∃ B, (root, B) ∈ Cs ∧ B ≠ A) ∨ root = .zero ∧ A ≠ ∅)) ∧
      ∀ root, root ≠ .zero → (∀ A, (root, A) ∉ Cs) →
        openView { databaseHandle := database, root } w' =
          (.error (.error (.missingRoot root)), w')) ∧
    ∀ depth r, w.StoresIn path → w.Makes (Request.KeepsTo path) → r.KeepsTo path →
      ∃ Ds, Sessions path (Cs ++ Ds) (Service.run (Proxy.nested depth) r w).2 := by
  refine ⟨fun preimages => ?_, fun depth r hstores hmakes hr => h.run hstores hmakes hr depth⟩
  obtain ⟨s, hat, _, hs⟩ := h.openAt_eq preimages
  let w' : World := { w with engine := { w.engine with stores := (w.engine.stores.add s).2 } }
  have hopen : openDisk { path, preimages } w = (.ok (w.engine.stores.add s).1, w') := by
    rw [openDisk_eq, hat]
  have hfind : w'.engine.stores.find (w.engine.stores.add s).1 =
      .ok w.engine.stores.objects.length := Pool.find_add _ _
  have hstore : w'.store w.engine.stores.objects.length = s := by
    rw [World.store, Pool.get_add, if_pos rfl]
  rw [← hstore] at hs
  exact ⟨_, w', _, hopen, h.of_files rfl, hfind, fun _ => hs.isSome_iff,
    fun _ _ hA => openView_committed hfind hs hA,
    fun _ hroot hnone => openView_missing hfind hs hroot hnone⟩

/-- A view commits a balance of five. Another process finds it, and the history goes on when it
closes the store. -/
theorem reopened_balance :
    let after := fun (rs : List Request) (w : World) =>
      rs.foldl (fun w r => (Service.run (Proxy.nested 1) r w).2) w
    let w := after [.openView { databaseHandle := 1, root := .zero },
      .setBalance { handle := 1, address := .zero, amount := 5 }]
      (openDisk { path := "d", preimages := true } {}).2
    ∃ root w₁, commit { handle := 1 } w = (.ok root, w₁) ∧
      ∃ database w₂ h w₃ u,
        openDisk { path := "d", preimages := true } { files := w₁.files } = (.ok database, w₂) ∧
        openView { databaseHandle := database, root } w₂ = (.ok h, w₃) ∧ w₃.Shows h u ∧
        u.balance .zero = 5 ∧ ∃ Cs, Sessions "d" Cs (Service.run (Proxy.nested 1)
          (.closeStore { databaseHandle := 1 }) { files := w₁.files }).2 := by
  intro after w
  have hopened : (openDisk { path := "d", preimages := true } {}).1 = .ok 1 := by decide +kernel
  have hlist : (openDisk { path := "d", preimages := true } {}).2.files.list "d" = .ok [] := by
    decide +kernel
  have hfirst : Sessions "d" [] (openDisk { path := "d", preimages := true } {}).2 := by
    refine .first rfl (Prod.ext hopened rfl) fun names hnames name hname => ?_
    rw [hlist] at hnames
    cases hnames
    cases hname
  have hbefore : Sessions "d" [] w := by
    refine hfirst.of_files (congrArg Files.mk ?_)
    decide +kernel
  have hfind : w.engine.views.find 1 = .ok 0 := by decide +kernel
  have hstore : (w.store (w.view 0).store).path = some "d" := by decide +kernel
  have hbalance : (w.view 0).finalize.balance .zero = 5 := by decide +kernel
  have hok : (commit { handle := 1 } w).1.toOption.any (· ≠ .zero) = true := by decide +kernel
  rcases hcommit : commit { handle := 1 } w with ⟨f | root, w₁⟩
  · rw [hcommit] at hok
    cases hok
  have hnonzero : root ≠ .zero := by
    rw [hcommit] at hok
    exact of_decide_eq_true hok
  have hsessions : Sessions "d" [(root, (w.view 0).finalize.accounts)] { files := w₁.files } :=
    (hbefore.committed hfind hstore hcommit).of_files rfl
  obtain ⟨hreopen, hgo⟩ := Sessions.reopened hsessions
  obtain ⟨database, w₂, i, hopen, _, _, _, hcommitted, _⟩ := hreopen true
  obtain ⟨h, w₃, u, hview, hshows, hu⟩ := hcommitted root _ (List.mem_singleton_self _)
  have hempty : World.StoresIn "d" { files := w₁.files } := fun i => by
    rw [World.store, Pool.get_of_le (Nat.zero_le _)]
    exact .inl rfl
  obtain ⟨Ds, hnext⟩ :=
    hgo 1 (.closeStore { databaseHandle := 1 }) hempty (fun _ => trivial) trivial
  refine ⟨root, w₁, rfl, database, w₂, h, w₃, u, hopen, hview, hshows, ?_, _, hnext⟩
  rcases hu with hsame | ⟨B, hB, hne⟩ | ⟨hz, _⟩
  · rw [← hbalance]
    exact (View.answersLike_of_accounts hsame).balance .zero
  · exact absurd (congrArg Prod.snd (List.mem_singleton.mp hB)) hne
  · exact absurd hz hnonzero

end Sessions

end Service

end EvmBridge
