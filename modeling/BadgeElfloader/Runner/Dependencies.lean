import BadgeElfloader.Runner.Handover
import BadgeElfloader.Transition.Worklist

/-!
The libraries that `startFD` loads.

The loop at `load_my_lib` starts over after every library. Seen as runs of
`LoopStep` it does the items of a worklist, and `Launch.Computes` says what it
has computed when it ends.
-/

namespace BadgeElfloader.Runner

open Riscv (Word)
open Abi Loader Transition

variable {Elf Elf' : Type}

def Host.names (host : Host Elf) : List String := host.registered.map Prod.fst

/-- A library that the loop at `load_my_lib` loads. -/
inductive LoopStep (host : Host Elf) : LibLoop Elf → String → LibLoop Elf → Prop
  | load {l : LibLoop Elf} {lib : String} {fd : FilePtr} {prog : Linkage Elf} {s : Store Elf} :
      l.nextLib host = some lib → loadLibrary host l.prog lib l.store = (fd, prog, s) → fd ≠ .null →
      LoopStep host l lib
        ⟨insert lib l.libs, if fd = .minusOne then l.fds else l.fds ++ [fd], prog, s⟩

/-- The loop ends after a run, with nothing left to load or with a library that
is marked as met and does not load. -/
theorem loadMyLib_run (host : Host Elf) (fuel : ℕ) (l l' : LibLoop Elf) (ok : Bool)
    (h : loadMyLib host fuel l = some (ok, l')) :
    ∃ names m, Run (LoopStep host) l names m ∧
      (ok = true ∧ l' = m ∧ m.nextLib host = none ∨
        ok = false ∧ ∃ lib prog s, m.nextLib host = some lib ∧
          loadLibrary host m.prog lib m.store = (.null, prog, s) ∧
          l' = { m with libs := insert lib m.libs, prog := prog, store := s }) := by
  induction fuel generalizing l with
  | zero => cases h
  | succ fuel ih =>
      rw [loadMyLib] at h
      cases hnext : l.nextLib host with
      | none =>
          rw [hnext] at h
          cases h
          exact ⟨[], _, .nil _, .inl ⟨rfl, rfl, hnext⟩⟩
      | some lib =>
          obtain ⟨⟨fd, prog, s⟩, hload⟩ : ∃ res, loadLibrary host l.prog lib l.store = res :=
            ⟨_, rfl⟩
          simp only [hnext, hload] at h
          split at h
          · rename_i hnull
            cases h
            subst hnull
            exact ⟨[], l, .nil l, .inr ⟨rfl, lib, prog, s, hnext, hload, rfl⟩⟩
          · rename_i hnull
            obtain ⟨names, m, hrun, hend⟩ := ih _ h
            exact ⟨lib :: names, m, .cons (.load hnext hload hnull) hrun, hend⟩

theorem loadLibraryAbs_cases (host : Host Elf) (filename : String) (prog : Linkage Elf)
    (lib : Registered) (s : Store Elf) :
    (∃ symbols s', loadLibraryAbs host filename prog lib s =
      (.null, { prog with symbols := symbols }, s')) ∨
    ∃ n file prog' s', loadLibraryAbs host filename prog lib s = (.file n, prog', s') ∧
      prog'.files = prog.files ++ [file] ∧ prog'.filenames = prog.filenames ++ [filename] := by
  simp only [loadLibraryAbs, Host.openFile]
  by_cases hok : (if lib.isBuffer then host.fmemopen s.nextFile lib.buf lib.bufLen
    else host.fopen s.nextFile lib.path) = true
  · simp only [hok, if_true]
    obtain ⟨symbols, r', freed, hload⟩ | ⟨-, symbols, load, r', rfl, hload⟩ :=
      prog.loadLibrary_cases host.elf (host.allocators (.file s.nextFile)) s.registry filename
        (.file s.nextFile)
    · left
      exact ⟨symbols, _, by simp [hload]; rfl⟩
    · right
      exact ⟨s.nextFile, load.file, _, _, by simp [hload]; exact ⟨rfl, rfl⟩, rfl, rfl⟩
  · left
    simp only [hok]
    exact ⟨prog.symbols, s, rfl⟩

/-- A library that is not built in: it does not load, or it is registered and
adds a file of its name. -/
theorem loadLibrary_cases (host : Host Elf) (prog : Linkage Elf) {name : String} (s : Store Elf)
    (hname : name ∉ builtinLibs) :
    (∃ prog' s', loadLibrary host prog name s = (.null, prog', s') ∧ prog'.files = prog.files ∧
      prog'.filenames = prog.filenames) ∨
    name ∈ host.names ∧ ∃ n file prog' s', loadLibrary host prog name s = (.file n, prog', s') ∧
      prog'.files = prog.files ++ [file] ∧ prog'.filenames = prog.filenames ++ [name] := by
  have hplain : ¬ (name = "libc.so" ∨ name = "libbadge.so") := by
    rintro (rfl | rfl) <;> exact hname (by decide)
  rw [loadLibrary, if_neg hplain]
  cases hfind : host.registered.find? fun pair => pair.1 == name with
  | none => exact .inl ⟨prog, s, rfl, rfl, rfl⟩
  | some pair =>
      obtain rfl : pair.1 = name := by simpa using List.find?_some hfind
      have hmem : pair.1 ∈ host.names := List.mem_map_of_mem (List.mem_of_find?_eq_some hfind)
      obtain ⟨symbols, s', hload⟩ | ⟨n, file, prog', s', hload, hfiles, hfilenames⟩ :=
        loadLibraryAbs_cases host pair.1 prog pair.2 s
      · exact .inl ⟨_, s', hload, rfl, rfl⟩
      · exact .inr ⟨hmem, n, file, prog', s', hload, hfiles, hfilenames⟩

/-! ### A launch -/

/-- A call of `startFD` that has loaded its executable. -/
structure Launch (Elf : Type) where
  host : Host Elf
  registry : Registry
  filename : String
  fd : FilePtr
  exe : Load Elf
  prog : Linkage Elf
  mapped : Registry
  freed : List Word
  loads : (Linkage.new registry.newContext.1).loadExecutable host.elf (host.allocators fd)
    (Store.start registry fd : Store Elf).registry filename fd = (some exe, prog, mapped, freed)

namespace Launch

/-- The variables of the loop at `load_my_lib`, before it. -/
def start (x : Launch Elf) : LibLoop Elf where
  libs := x.prog.filenames.toFinset ∪ builtinLibs
  fds := [x.fd]
  prog := x.prog
  store := { Store.start x.registry x.fd with registry := x.mapped }

def roots (x : Launch Elf) : List String := x.host.elf.getDynLibs x.exe.file

/-- The requirements that are met from the start. -/
def Met (x : Launch Elf) (lib : String) : Prop := lib = x.filename ∨ lib ∈ builtinLibs

/-- What a library needs, where `needs` is about libraries that are registered. -/
def library (x : Launch Elf) (needs : String → Option (List String)) (lib : String) :
    Option (List String) :=
  if lib ∈ x.host.names then needs lib else none

def Needed (x : Launch Elf) (needs : String → Option (List String)) : String → Prop :=
  Transition.Needed x.Met x.roots (x.library needs)

end Launch

/-- What the library needs that the loop loads next, if it loads. -/
def LibLoop.gets (l : LibLoop Elf) (host : Host Elf) (lib : String) : Option (List String) :=
  match loadLibrary host l.prog lib l.store with
  | (.null, _, _) => none
  | (_, prog, _) => prog.files.getLast?.map host.elf.getDynLibs

/-- Whether a registered library loads, and what it then needs, depends on its
name only. -/
def Launch.LoadsAs (x : Launch Elf) (needs : String → Option (List String)) : Prop :=
  ∀ names l lib, Run (LoopStep x.host) x.start names l → l.nextLib x.host = some lib →
    lib ∈ x.host.names → l.gets x.host lib = needs lib

/-- The loop after the libraries `done`. -/
structure Launch.LoopInv (x : Launch Elf) (needs : String → Option (List String))
    (done : List String) (l : LibLoop Elf) : Prop where
  underway : Underway x.Met x.roots (x.library needs) done
  filenames : l.prog.filenames = x.filename :: done
  libs : l.libs = x.start.libs ∪ done.toFinset
  listed : l.prog.files.flatMap x.host.elf.getDynLibs = frontier x.roots (x.library needs) done

section launch

variable {x : Launch Elf} {needs : String → Option (List String)} {done : List String}
  {l l' : LibLoop Elf} {lib : String}

theorem Launch.exe_first (x : Launch Elf) :
    x.prog.files = [x.exe.file] ∧ x.prog.filenames = [x.filename] := by
  have hloads := x.loads
  unfold Linkage.loadExecutable at hloads
  split at hloads
  · cases hloads
  · obtain ⟨symbols, r', freed, hload⟩ | ⟨-, symbols, load, r', hname, hload⟩ :=
      (Linkage.new x.registry.newContext.1).loadLibrary_cases x.host.elf (x.host.allocators x.fd)
        (Store.start x.registry x.fd : Store Elf).registry x.filename x.fd
    · rw [hload] at hloads
      cases hloads
    · rw [hload] at hloads
      obtain ⟨hexe, hprog, -⟩ : some load = some x.exe ∧ _ = x.prog ∧ _ := by
        simpa only [Prod.mk.injEq] using hloads
      rw [← hprog, ← Option.some.inj hexe]
      simp [Linkage.new, hname]

theorem Launch.mem_start_libs (x : Launch Elf) : lib ∈ x.start.libs ↔ x.Met lib := by
  simp [Launch.start, Launch.Met, x.exe_first.2]

theorem Launch.library_isSome :
    (x.library needs lib).isSome ↔ lib ∈ x.host.names ∧ needs lib ≠ none := by
  unfold library
  split <;> simp_all [Option.isSome_iff_ne_none]

theorem Launch.LoopInv.start (x : Launch Elf) (needs : String → Option (List String)) :
    x.LoopInv needs [] x.start where
  underway := .nil
  filenames := x.exe_first.2
  libs := by simp
  listed := by simp [Launch.start, x.exe_first.1, Transition.frontier, Launch.roots]

theorem Launch.LoopInv.mem_libs (h : x.LoopInv needs done l) :
    lib ∈ l.libs ↔ x.Met lib ∨ lib ∈ done := by
  rw [h.libs, Finset.mem_union, x.mem_start_libs, List.mem_toFinset]

/-- The loop takes the next library from the worklist. -/
theorem Launch.LoopInv.next (h : x.LoopInv needs done l) (hnext : l.nextLib x.host = some lib) :
    lib ∈ frontier x.roots (x.library needs) done ∧ ¬ x.Met lib ∧ lib ∉ done := by
  have hnew : lib ∉ l.libs := by simpa using List.find?_some hnext
  have hmem := List.mem_of_find?_eq_some hnext
  rw [h.listed] at hmem
  rw [h.mem_libs, not_or] at hnew
  exact ⟨hmem, hnew⟩

theorem Launch.LoopInv.step (h : x.LoopInv needs done l) (hstep : LoopStep x.host l lib l')
    (hgets : lib ∈ x.host.names → l.gets x.host lib = needs lib) :
    x.LoopInv needs (done ++ [lib]) l' := by
  cases hstep with
  | @load fd prog s hnext hload hnull =>
      obtain ⟨hmem, hmet, hnew⟩ := h.next hnext
      have hbuiltin : lib ∉ builtinLibs := fun hlib => hmet (.inr hlib)
      obtain ⟨prog', s', hload', -⟩ | ⟨hname, n, file, prog', s', hload', hfiles, hfilenames⟩ :=
        loadLibrary_cases x.host l.prog l.store hbuiltin
      · rw [hload] at hload'
        cases hload'
        exact absurd rfl hnull
      · rw [hload] at hload'
        cases hload'
        have hneeds : x.library needs lib = some (x.host.elf.getDynLibs file) := by
          rw [library, if_pos hname, ← hgets hname]
          simp [LibLoop.gets, hload, hfiles]
        refine ⟨h.underway.snoc hmem hmet hnew (by rw [hneeds]; rfl), ?_, ?_, ?_⟩
        · simp [hfilenames, h.filenames]
        · rw [List.toFinset_append, ← Finset.union_assoc, ← h.libs]
          simp
        · simp only [hfiles, List.flatMap_append, List.flatMap_singleton, frontier_snoc, hneeds,
            h.listed, Option.getD_some]

theorem Launch.LoadsAs.run (hloads : x.LoadsAs needs)
    (hrun : Run (LoopStep x.host) x.start done l) :
    x.LoopInv needs done l := by
  have hinv := hrun.history
    (P := fun done l => Run (LoopStep x.host) x.start done l ∧ x.LoopInv needs done l)
    (fun done l lib l' ⟨hrun, h⟩ hstep => ⟨hrun.snoc hstep, h.step hstep fun hname => by
      cases hstep with
      | load hnext => exact hloads done l lib hrun hnext hname⟩)
    ⟨.nil _, .start x needs⟩
  exact hinv.2

end launch

/-! ### What the loop computes -/

/-- The loop has ended in `l` after it has tried to load `tries`: `ok` says
whether it completed, and `loaded` are the libraries that it has loaded. -/
structure Launch.Computes (x : Launch Elf) (needs : String → Option (List String)) (ok : Bool)
    (loaded tries : List String) (l : LibLoop Elf) : Prop where
  filenames : l.prog.filenames = x.filename :: loaded
  marked : l.libs = x.start.libs ∪ tries.toFinset
  order : if ok then tries = loaded else ∃ lib, tries = loaded ++ [lib]
  once : tries.Nodup
  loads_le : (tries.filter (· ∈ x.host.names)).length ≤ x.host.names.toFinset.card
  needed : ∀ lib ∈ tries, x.Needed needs lib
  closure : ok = true → ∀ lib, lib ∈ loaded ↔ x.Needed needs lib
  met : ok = true → ∀ file ∈ l.prog.files, ∀ lib ∈ x.host.elf.getDynLibs file,
    lib ∈ builtinLibs ∨ lib = x.filename ∨ lib ∈ loaded
  fails : ok = false ↔ ∃ lib, x.Needed needs lib ∧ (lib ∉ x.host.names ∨ needs lib = none)

/-- `y` is `x` but for the order in which files list what they need. -/
structure Launch.Reorders (x : Launch Elf) (needs : String → Option (List String))
    (y : Launch Elf') (needs' : String → Option (List String)) : Prop where
  filename : y.filename = x.filename
  names : ∀ lib, lib ∈ y.host.names ↔ lib ∈ x.host.names
  roots : ∀ lib, lib ∈ y.roots ↔ lib ∈ x.roots
  needs : ∀ lib ∈ x.host.names, SameNeeds (needs' lib) (needs lib)

section computes

variable {x : Launch Elf} {needs : String → Option (List String)} {done : List String}
  {l : LibLoop Elf} {lib : String}

theorem Launch.filter_names_le (x : Launch Elf) {tries : List String} (h : tries.Nodup) :
    (tries.filter (· ∈ x.host.names)).length ≤ x.host.names.toFinset.card := by
  rw [← List.toFinset_card_of_nodup (h.filter _)]
  refine Finset.card_le_card fun lib hlib => ?_
  simpa using (List.mem_filter.mp (List.mem_toFinset.mp hlib)).2

/-- The loop has found nothing more to load. -/
theorem Launch.LoopInv.completed (h : x.LoopInv needs done l) (hnext : l.nextLib x.host = none) :
    x.Computes needs true done done l := by
  have hmet : ∀ lib ∈ l.prog.files.flatMap x.host.elf.getDynLibs, x.Met lib ∨ lib ∈ done := by
    intro lib hlib
    rw [← h.mem_libs]
    simpa using List.find?_eq_none.mp hnext lib hlib
  have hclosure : ∀ lib, lib ∈ done ↔ x.Needed needs lib := fun lib =>
    (h.underway.complete (h.listed ▸ hmet)).symm
  refine ⟨h.filenames, h.libs, rfl, h.underway.nodup, x.filter_names_le h.underway.nodup,
    h.underway.needed, fun _ => hclosure, fun _ file hfile lib hlib => ?_, ?_⟩
  · obtain (hexe | hbuiltin) | hdone := hmet lib (List.mem_flatMap.mpr ⟨file, hfile, hlib⟩)
    · exact .inr (.inl hexe)
    · exact .inl hbuiltin
    · exact .inr (.inr hdone)
  · refine ⟨nofun, fun ⟨lib, hneeded, hbad⟩ => ?_⟩
    obtain ⟨hname, hloads⟩ := library_isSome.mp (h.underway.had lib ((hclosure lib).mpr hneeded))
    exact absurd hbad (not_or.mpr ⟨not_not.mpr hname, hloads⟩)

/-- The next library does not load. -/
theorem Launch.LoopInv.failed (h : x.LoopInv needs done l) (hnext : l.nextLib x.host = some lib)
    {prog : Linkage Elf} {s : Store Elf}
    (hload : loadLibrary x.host l.prog lib l.store = (.null, prog, s))
    (hgets : lib ∈ x.host.names → l.gets x.host lib = needs lib) :
    x.Computes needs false done (done ++ [lib])
      { l with libs := insert lib l.libs, prog := prog, store := s } := by
  obtain ⟨hmem, hmet, hnew⟩ := h.next hnext
  have hneeded : x.Needed needs lib := h.underway.needed_of_frontier hmem hmet
  have hnodup : (done ++ [lib]).Nodup :=
    List.nodup_append_comm.mp (List.nodup_cons.mpr ⟨hnew, h.underway.nodup⟩)
  have hfilenames : prog.filenames = l.prog.filenames := by
    obtain ⟨prog', s', hload', -, hfilenames⟩ | ⟨-, n, file, prog', s', hload', -⟩ :=
      loadLibrary_cases x.host l.prog l.store fun hlib => hmet (.inr hlib)
    · rw [hload] at hload'
      cases hload'
      exact hfilenames
    · rw [hload] at hload'
      cases hload'
  refine ⟨by simp [hfilenames, h.filenames], ?_, ⟨lib, rfl⟩, hnodup, x.filter_names_le hnodup, ?_,
    nofun, nofun, fun _ => ⟨lib, hneeded, ?_⟩, fun _ => rfl⟩
  · rw [List.toFinset_append, ← Finset.union_assoc, ← h.libs]
    simp
  · intro a ha
    obtain hold | hlast := List.mem_append.mp ha
    · exact h.underway.needed a hold
    · rwa [List.mem_singleton.mp hlast]
  · by_cases hname : lib ∈ x.host.names
    · right
      rw [← hgets hname]
      simp [LibLoop.gets, hload]
    · exact .inl hname

theorem Launch.LoadsAs.computes (hloads : x.LoadsAs needs) :
    ∃ ok loaded tries l, loadMyLib x.host (x.host.registered.length + 1) x.start = some (ok, l) ∧
      x.Computes needs ok loaded tries l := by
  have hloading := Loading.loadExecutable x.host x.registry x.filename x.fd x.loads
  obtain ⟨ok, l, hloop, -⟩ := hloading.loadMyLib x.host _ x.start Finset.subset_union_right
    (x.host.registered_card_lt _)
  obtain ⟨done, m, hrun, ⟨rfl, rfl, hnext⟩ | ⟨rfl, lib, prog, s, hnext, hload, rfl⟩⟩ :=
    loadMyLib_run x.host _ x.start l ok hloop
  · exact ⟨true, done, done, l, hloop, (hloads.run hrun).completed hnext⟩
  · exact ⟨false, done, done ++ [lib], _, hloop,
      (hloads.run hrun).failed hnext hload (hloads done m lib hrun hnext)⟩

/-- After the loop `startFD` links what is loaded, or it fails. -/
theorem Launch.startFD_eq (x : Launch Elf) (cb : Callback) {ok : Bool}
    (hloop : loadMyLib x.host (x.host.registered.length + 1) x.start = some (ok, l)) :
    startFD x.host x.registry x.filename x.fd cb =
      if ok then linkAndStart x.host x.registry.nextPID cb l
      else some (.failed ((l.store.deleteContext x.registry.nextPID).closeAll l.fds)) := by
  have hloads := x.loads
  rw [Registry.newContext_pid] at hloads
  rw [Launch.start] at hloop
  simp only [startFD, Registry.newContext_pid, hloads, hloop, Option.bind_eq_bind, Option.bind_some]
  rfl

end computes

section reorder

variable {x : Launch Elf} {y : Launch Elf'} {needs needs' : String → Option (List String)}

theorem Launch.Reorders.needed_iff (h : x.Reorders needs y needs') (lib : String) :
    y.Needed needs' lib ↔ x.Needed needs lib := by
  have hmet : y.Met = x.Met := by
    funext lib
    rw [Met, Met, h.filename]
  rw [Launch.Needed, Launch.Needed, hmet]
  refine needed_reorder h.roots fun lib => ?_
  by_cases hname : lib ∈ x.host.names
  · rw [library, library, if_pos hname, if_pos ((h.names lib).mpr hname)]
    exact h.needs lib hname
  · rw [library, library, if_neg hname, if_neg (mt (h.names lib).mp hname)]
    trivial

theorem Launch.Reorders.bad_iff (h : x.Reorders needs y needs') (lib : String) :
    (lib ∉ y.host.names ∨ needs' lib = none) ↔ (lib ∉ x.host.names ∨ needs lib = none) := by
  by_cases hname : lib ∈ x.host.names
  · have hsome := (h.needs lib hname).isSome_eq
    have hname' := (h.names lib).mpr hname
    simp only [hname, hname', not_true_eq_false, false_or]
    rw [← Option.not_isSome_iff_eq_none, ← Option.not_isSome_iff_eq_none, hsome]
  · have hname' := mt (h.names lib).mp hname
    simp only [hname, hname', not_false_eq_true, true_or]

theorem Launch.Computes.reorder (h : x.Reorders needs y needs') {ok ok' : Bool}
    {loaded loaded' tries tries' : List String} {l : LibLoop Elf} {l' : LibLoop Elf'}
    (hx : x.Computes needs ok loaded tries l) (hy : y.Computes needs' ok' loaded' tries' l') :
    ok' = ok ∧ (ok = true → ∀ lib, lib ∈ l'.prog.filenames ↔ lib ∈ l.prog.filenames) := by
  have hfails : ok' = false ↔ ok = false := by
    rw [hx.fails, hy.fails]
    exact exists_congr fun lib => and_congr (h.needed_iff lib) (h.bad_iff lib)
  obtain rfl : ok' = ok := by
    cases ok' <;> cases ok <;> simp_all
  refine ⟨rfl, fun hok lib => ?_⟩
  rw [hx.filenames, hy.filenames, List.mem_cons, List.mem_cons, h.filename, hx.closure hok,
    hy.closure hok, h.needed_iff]

end reorder

/-- The loop loads the libraries that are needed, each once, whatever the order
in which they are listed. -/
theorem loads_needed (x : Launch Elf) (needs : String → Option (List String))
    (hloads : x.LoadsAs needs) :
    ∃ ok loaded tries l,
      loadMyLib x.host (x.host.registered.length + 1) x.start = some (ok, l) ∧
      x.Computes needs ok loaded tries l ∧
      (∀ cb, startFD x.host x.registry x.filename x.fd cb =
        if ok then linkAndStart x.host x.registry.nextPID cb l
        else some (.failed ((l.store.deleteContext x.registry.nextPID).closeAll l.fds))) ∧
      ∀ (y : Launch Elf') needs', y.LoadsAs needs' → x.Reorders needs y needs' →
        ∃ l', loadMyLib y.host (y.host.registered.length + 1) y.start = some (ok, l') ∧
          (ok = true → ∀ lib, lib ∈ l'.prog.filenames ↔ lib ∈ l.prog.filenames) := by
  obtain ⟨ok, loaded, tries, l, hloop, hx⟩ := hloads.computes
  refine ⟨ok, loaded, tries, l, hloop, hx, fun cb => x.startFD_eq cb hloop,
    fun y needs' hloads' hreorder => ?_⟩
  obtain ⟨ok', loaded', tries', l', hloop', hy⟩ := hloads'.computes
  obtain ⟨rfl, hsame⟩ := hx.reorder hreorder hy
  exact ⟨l', hloop', hsame⟩

/-! ### A sample -/

/-- The loop after one more round. -/
def LibLoop.round (host : Host Elf) (l : LibLoop Elf) : LibLoop Elf :=
  match l.nextLib host with
  | none => l
  | some lib =>
      let (fd, prog, s) := loadLibrary host l.prog lib l.store
      ⟨insert lib l.libs, if fd = .minusOne then l.fds else l.fds ++ [fd], prog, s⟩

/-- A loop that is done after `n` rounds is seen through by looking at these. -/
theorem Launch.loadsAs_of_rounds (x : Launch Elf) {needs : String → Option (List String)} (n : ℕ)
    (hdone : ((LibLoop.round x.host)^[n] x.start).nextLib x.host = none)
    (hgets : ∀ k < n, ∀ lib ∈ ((LibLoop.round x.host)^[k] x.start).nextLib x.host,
      ((LibLoop.round x.host)^[k] x.start).gets x.host lib = needs lib) : x.LoadsAs needs := by
  have hstay : ∀ k, ((LibLoop.round x.host)^[n + k] x.start).nextLib x.host = none := by
    intro k
    induction k with
    | zero => exact hdone
    | succ k ih =>
        rw [Nat.add_succ, Function.iterate_succ_apply', LibLoop.round, ih]
        exact ih
  intro names l lib hrun hnext _
  obtain rfl : l = (LibLoop.round x.host)^[names.length] x.start := by
    refine hrun.history (P := fun names l => l = (LibLoop.round x.host)^[names.length] x.start)
      (fun names l lib l' hl hstep => ?_) rfl
    cases hstep with
    | load hnext hload _ =>
        rw [List.length_append, List.length_singleton, Function.iterate_succ_apply', ← hl,
          LibLoop.round, hnext]
        simp only [hload]
  obtain hlt | hge := lt_or_ge names.length n
  · exact hgets _ hlt lib hnext
  · obtain ⟨k, hk⟩ := Nat.exists_eq_add_of_le hge
    rw [hk, hstay k] at hnext
    cases hnext

/-- Three libraries; the file `n` is the one with the name `opened[n]`. -/
def Host.chain (opened : List String) (lists : String → List String) : Host String where
  elf :=
    { readDyn fd := match fd with | .file n => opened[n]? | _ => none
      load _ := .alloc 0 64 4 fun mem => .done (some ⟨mem, mem⟩)
      exportSymbols _ _ symbols := (true, symbols)
      relocate _ _ _ _ := true
      getDynLibs := lists }
  allocators fd _ len _ _ := match fd with
    | .file n => ⟨0x3fc90000 + BitVec.ofNat 32 (0x1000 * n), len⟩
    | _ => ⟨0, 0⟩
  fopen _ _ := true
  fmemopen _ _ _ := true
  registered :=
    [("libbar.so", ⟨false, "/lib/libbar.so", 0, 0⟩), ("libbaz.so", ⟨false, "/lib/libbaz.so", 0, 0⟩),
      ("libfoo.so", ⟨false, "/lib/libfoo.so", 0, 0⟩)]
  cache _ := none
  xTaskCreate := true

/-- The executable needs `libfoo.so` and `libbar.so`, and only `libfoo.so` needs
`libbaz.so`. -/
def chainNeeds (lib : String) : List String :=
  if lib = "a.out" then ["libc.so", "libfoo.so", "libbar.so"]
  else if lib = "libfoo.so" then ["libm.so", "libbaz.so"]
  else ["libm.so"]

/-- Every list the other way round. -/
def chainNeeds' (lib : String) : List String := (chainNeeds lib).reverse

/-- `startFD` with such an executable. -/
def Launch.sample : Launch String where
  host := .chain ["a.out", "libfoo.so", "libbar.so", "libbaz.so"] chainNeeds
  registry := .initial
  filename := "a.out"
  fd := .file 0
  exe := ⟨"a.out", "a.out", ⟨0x3fc90000, 0x3fc90000⟩⟩
  prog := _
  mapped := _
  freed := _
  loads := rfl

def Launch.sample' : Launch String where
  host := .chain ["a.out", "libbar.so", "libfoo.so", "libbaz.so"] chainNeeds'
  registry := .initial
  filename := "a.out"
  fd := .file 0
  exe := ⟨"a.out", "a.out", ⟨0x3fc90000, 0x3fc90000⟩⟩
  prog := _
  mapped := _
  freed := _
  loads := rfl

theorem Launch.sample_loadsAs : sample.LoadsAs fun lib => some (chainNeeds lib) :=
  sample.loadsAs_of_rounds 3 (by decide +kernel) (by decide +kernel)

theorem Launch.sample'_loadsAs : sample'.LoadsAs fun lib => some (chainNeeds' lib) :=
  sample'.loadsAs_of_rounds 3 (by decide +kernel) (by decide +kernel)

theorem Launch.sample_reorders : sample.Reorders (fun lib => some (chainNeeds lib)) sample'
    fun lib => some (chainNeeds' lib) where
  filename := rfl
  names _ := .rfl
  roots lib := by
    show lib ∈ (chainNeeds "a.out").reverse ↔ lib ∈ chainNeeds "a.out"
    exact List.mem_reverse
  needs lib _ := fun _ => List.mem_reverse

/-- `libbaz.so` is loaded for `libfoo.so`; with all lists the other way round the
libraries are loaded in another order. -/
theorem loads_needed_sample : ∃ loaded tries l,
    loadMyLib Launch.sample.host 4 Launch.sample.start = some (true, l) ∧
      Launch.sample.Computes (fun lib => some (chainNeeds lib)) true loaded tries l ∧
      l.prog.filenames = ["a.out", "libfoo.so", "libbar.so", "libbaz.so"] ∧
      "libbaz.so" ∉ Launch.sample.roots ∧
      Launch.sample.Needed (fun lib => some (chainNeeds lib)) "libbaz.so" ∧
      ∃ l', loadMyLib Launch.sample'.host 4 Launch.sample'.start = some (true, l') ∧
        l'.prog.filenames = ["a.out", "libbar.so", "libfoo.so", "libbaz.so"] ∧
        ∀ lib, lib ∈ l'.prog.filenames ↔ lib ∈ l.prog.filenames := by
  obtain ⟨ok, loaded, tries, l, hloop, hx, -, hreorder⟩ :=
    @loads_needed String String Launch.sample _ Launch.sample_loadsAs
  obtain ⟨l', hloop', hsame⟩ := hreorder Launch.sample' _ Launch.sample'_loadsAs
    Launch.sample_reorders
  have hresult : (loadMyLib Launch.sample.host 4 Launch.sample.start).map
      (fun r => (r.1, r.2.prog.filenames)) =
        some (true, ["a.out", "libfoo.so", "libbar.so", "libbaz.so"]) := by
    decide +kernel
  have hresult' : (loadMyLib Launch.sample'.host 4 Launch.sample'.start).map
      (fun r => (r.1, r.2.prog.filenames)) =
        some (true, ["a.out", "libbar.so", "libfoo.so", "libbaz.so"]) := by
    decide +kernel
  rw [show Launch.sample.host.registered.length + 1 = 4 from rfl] at hloop
  rw [show Launch.sample'.host.registered.length + 1 = 4 from rfl] at hloop'
  rw [hloop, Option.map_some, Option.some.injEq, Prod.mk.injEq] at hresult
  rw [hloop', Option.map_some, Option.some.injEq, Prod.mk.injEq] at hresult'
  obtain ⟨rfl, hfilenames⟩ := hresult
  refine ⟨loaded, tries, l, hloop, hx, hfilenames, by decide, ?_, l', hloop', hresult'.2,
    hsame rfl⟩
  refine .step (.root (a := "libfoo.so") (by decide) (by unfold Launch.Met; decide)) rfl
    (by decide) (by unfold Launch.Met; decide)

end BadgeElfloader.Runner
