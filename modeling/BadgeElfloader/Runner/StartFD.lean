import BadgeElfloader.Loader.Linkage
import BadgeElfloader.Transition.Ownership
import Mathlib.Data.Finset.Card

/-!
`startFD`, from an open file to a task.

What may fail is decided by a `Host`: the ELF library, the allocator, the files
and the creation of the task. Each function returns the state it leaves, with a
log of the actions on files, on the context and on `Params`. The log of a call
that fails is legal and leaves nothing held.
-/

namespace BadgeElfloader.Runner

open Riscv (Word)
open Abi Loader Transition

/-- `FILE *`. Files are numbered in the order in which they are opened. -/
inductive FilePtr
  | null
  /-- `(FILE *) -1` -/
  | minusOne
  | file (n : ℕ)
  deriving DecidableEq

/-- `Callback`, which may be empty. -/
inductive Callback
  | empty
  | function
  deriving DecidableEq

/-- What is passed to the task. -/
structure Params (Elf : Type) where
  prog : Linkage Elf
  actx : Pid
  cb : Callback

/-- A registered dynamic library. -/
structure Registered where
  isBuffer : Bool
  path : String
  buf : Word
  bufLen : Word

/-- What `startFD` depends on. `fopen` and `fmemopen` say whether the file with
that number opens. The ELF library does not close the files it reads. -/
structure Host (Elf : Type) where
  elf : ElfLib FilePtr Elf
  allocators : FilePtr → ℕ → Allocator
  fopen : ℕ → String → Bool
  fmemopen : ℕ → Word → Word → Bool
  registered : List (String × Registered)
  /-- The symbols of the ABI. -/
  cache : SymMap
  xTaskCreate : Bool

inductive Resource
  | file (fd : FilePtr)
  | context (pid : Pid)
  | params
  deriving DecidableEq

structure Store (Elf : Type) where
  registry : Registry
  params : Option (Params Elf)
  nextFile : ℕ
  log : List (Action Resource)

variable {Elf : Type}

/-! ### The functions of `runner.cpp` -/

/-- What a pointer owns; a null pointer has nothing to delete. -/
def FilePtr.owns : FilePtr → List Resource
  | .null => []
  | fd => [.file fd]

@[simp] theorem FilePtr.owns_null : null.owns = [] := rfl

@[simp] theorem FilePtr.owns_file (n : ℕ) : (file n).owns = [.file (file n)] := rfl

/-- The deleters of `FILEPTR`. -/
def deleters (fds : List FilePtr) : List (Action Resource) :=
  (fds.flatMap FilePtr.owns).map .release

def Store.act (s : Store Elf) (a : Action Resource) : Store Elf := { s with log := s.log ++ [a] }

@[simp] theorem Store.act_log (s : Store Elf) (a : Action Resource) :
    (s.act a).log = s.log ++ [a] := rfl

@[simp] theorem Store.act_registry (s : Store Elf) (a : Action Resource) :
    (s.act a).registry = s.registry := rfl

@[simp] theorem Store.act_nextFile (s : Store Elf) (a : Action Resource) :
    (s.act a).nextFile = s.nextFile := rfl

def Store.closeAll (s : Store Elf) (fds : List FilePtr) : Store Elf :=
  { s with log := s.log ++ deleters fds }

def Store.deleteContext (s : Store Elf) (pid : Pid) : Store Elf :=
  { s with registry := (s.registry.deleteContext pid).2.1 }.act (.release (.context pid))

def Store.newParams (s : Store Elf) (params : Params Elf) : Store Elf :=
  { s with params := some params }.act (.acquire .params)

def Store.deleteParams (s : Store Elf) : Store Elf :=
  { s with params := none }.act (.release .params)

def Host.openFile (host : Host Elf) (s : Store Elf) (lib : Registered) : FilePtr × Store Elf :=
  let ok :=
    if lib.isBuffer then host.fmemopen s.nextFile lib.buf lib.bufLen
    else host.fopen s.nextFile lib.path
  if ok then
    (.file s.nextFile,
      { s with nextFile := s.nextFile + 1 }.act (.acquire (.file (.file s.nextFile))))
  else (.null, s)

/-- Try to load a dynamic library. -/
def loadLibraryAbs (host : Host Elf) (filename : String) (prog : Linkage Elf) (lib : Registered)
    (s : Store Elf) : FilePtr × Linkage Elf × Store Elf :=
  match host.openFile s lib with
  | (.null, s) => (.null, prog, s)
  | (fd, s) =>
      let s := s.act (.use (.context prog.pid))
      match prog.loadLibrary host.elf (host.allocators fd) s.registry filename fd with
      | (some _, prog, r, _) => (fd, prog, { s with registry := r })
      | (none, prog, r, _) => (.null, prog, { s with registry := r }.act (.release (.file fd)))

/-- Try to find and load a dynamic library. -/
def loadLibrary (host : Host Elf) (prog : Linkage Elf) (name : String) (s : Store Elf) :
    FilePtr × Linkage Elf × Store Elf :=
  if name = "libc.so" ∨ name = "libbadge.so" then (.minusOne, prog, s)
  else
    match host.registered.find? fun pair => pair.1 == name with
    | some pair => loadLibraryAbs host pair.1 prog pair.2 s
    | none => (.null, prog, s)

def builtinLibs : Finset String :=
  {"libc.so", "libbadge.so", "libm.so", "libimplicitops.so", "libdisplay.so"}

/-- The variables of the loop at `load_my_lib`. -/
structure LibLoop (Elf : Type) where
  libs : Finset String
  fds : List FilePtr
  prog : Linkage Elf
  store : Store Elf

/-- The first library that a loaded file needs and that is not in `libs`. -/
def LibLoop.nextLib (l : LibLoop Elf) (host : Host Elf) : Option String :=
  (l.prog.files.flatMap host.elf.getDynLibs).find? (· ∉ l.libs)

/-- The loop at `load_my_lib`, which restarts after every library, with a bound
on the number of restarts. -/
def loadMyLib (host : Host Elf) : ℕ → LibLoop Elf → Option (Bool × LibLoop Elf)
  | 0, _ => none
  | fuel + 1, l =>
      match l.nextLib host with
      | none => some (true, l)
      | some lib =>
          let (fd, prog, s) := loadLibrary host l.prog lib l.store
          let l := { l with libs := insert lib l.libs, prog := prog, store := s }
          if fd = .null then some (false, l)
          else loadMyLib host fuel { l with fds := if fd = .minusOne then l.fds else l.fds ++ [fd] }

/-- How far `startFD` gets: to `return false`, or to a task, with what it has
left to do itself. -/
inductive Outcome (Elf : Type)
  | failed (s : Store Elf)
  | created (s : Store Elf) (rest : List (Action Resource))

/-- Take a pre-loaded linkage and start it under a new thread. -/
def startPreloaded (host : Host Elf) (linkage : Linkage Elf) (ctx : Pid) (cb : Callback)
    (s : Store Elf) : Bool × Store Elf :=
  let s := (s.newParams ⟨linkage, ctx, cb⟩).act (.use .params)
  if !linkage.isProgReady then
    (false, ((s.act (.use (.context ctx))).deleteContext ctx).deleteParams)
  else if host.xTaskCreate then (true, s)
  else (false, ((s.act (.use (.context ctx))).deleteContext ctx).deleteParams)

/-- The number that the next file gets. -/
def FilePtr.next : FilePtr → ℕ
  | .file n => n + 1
  | _ => 0

/-- `startFD` from the linking on. The destructors of `fds` run last. -/
def linkAndStart (host : Host Elf) (pid : Pid) (cb : Callback) (l : LibLoop Elf) :
    Option (Outcome Elf) := do
  let prog := { l.prog with symbols := fun name => host.cache name <|> l.prog.symbols name }
  let (ok, prog, _) ← prog.link host.elf
  if ok then
    match startPreloaded host prog pid cb l.store with
    | (true, s) => return .created s (deleters l.fds)
    | (false, s) => return .failed (s.closeAll l.fds)
  else return .failed ((l.store.deleteContext pid).closeAll l.fds)

/-- The state of `startFD` before it loads. -/
def Store.start (r : Registry) (fd : FilePtr) : Store Elf :=
  let s : Store Elf := ⟨r.newContext.2, none, fd.next, fd.owns.map .acquire⟩
  (s.act (.acquire (.context r.newContext.1))).act (.use (.context r.newContext.1))

/-- Go from file descriptor straight to running a program. -/
def startFD (host : Host Elf) (r : Registry) (filename : String) (fd : FilePtr) (cb : Callback) :
    Option (Outcome Elf) :=
  let pid := r.newContext.1
  let s : Store Elf := .start r fd
  match (Linkage.new pid).loadExecutable host.elf (host.allocators fd) s.registry filename fd with
  | (none, _, r, _) => some (.failed (({ s with registry := r }.deleteContext pid).closeAll [fd]))
  | (some _, prog, r, _) => do
      -- Catalog of already loaded libraries.
      let libs := prog.filenames.toFinset ∪ builtinLibs
      let (ok, l) ← loadMyLib host (host.registered.length + 1)
        ⟨libs, [fd], prog, { s with registry := r }⟩
      if ok then linkAndStart host pid cb l
      else return .failed ((l.store.deleteContext pid).closeAll l.fds)

/-! ### Loading -/

/-- The state of `startFD` while it loads: the context is there, no `Params`
are, and the open files are those in `fds`. The file `first` was handed in. -/
structure Loading (r : Registry) (first : FilePtr) (fds : List FilePtr) (prog : Linkage Elf)
    (s : Store Elf) : Prop where
  unlinked : prog.Unlinked
  pid : prog.pid = r.nextPID
  registry : r.newContext.2.OnlyUses r.nextPID s.registry
  params : s.params = none
  owned : Owned s.log (insert (.context r.nextPID) (fds.flatMap FilePtr.owns).toFinset)
  nodup : (fds.flatMap FilePtr.owns).Nodup
  fresh : ∀ n, s.nextFile ≤ n → .acquire (.file (.file n)) ∉ s.log
  noParams : .acquire .params ∉ s.log
  handed : ∀ x ∈ first.owns, .acquire x ∈ s.log

section loading

variable {r : Registry} {first : FilePtr} {fds : List FilePtr} {prog : Linkage Elf} {s : Store Elf}

theorem context_notMem_owns (pid : Pid) (fds : List FilePtr) :
    .context pid ∉ fds.flatMap FilePtr.owns := by
  intro h
  obtain ⟨fd, -, hfd⟩ := List.mem_flatMap.mp h
  cases fd <;> simp [FilePtr.owns] at hfd

/-- A library that is loaded, or one that is not. -/
theorem Loading.loadLibrary (h : Loading r first fds prog s) (host : Host Elf) (fd : FilePtr)
    (filename : String) {load : Option (Load Elf)} {prog' : Linkage Elf} {r' : Registry}
    {freed : List Word}
    (hload : prog.loadLibrary host.elf (host.allocators fd) s.registry filename fd =
      (load, prog', r', freed)) :
    Loading r first fds prog' { s with registry := r' } := by
  obtain ⟨hunlinked, hpid⟩ :=
    h.unlinked.loadLibrary host.elf (host.allocators fd) s.registry filename fd
  have huses := prog.loadLibrary_onlyUses host.elf (host.allocators fd) s.registry filename fd
  rw [hload] at hunlinked hpid huses
  rw [h.pid] at hpid huses
  exact ⟨hunlinked, hpid, h.registry.trans huses, h.params, h.owned, h.nodup, h.fresh,
    h.noParams, h.handed⟩

theorem Loading.use (h : Loading r first fds prog s) :
    Loading r first fds prog (s.act (.use (.context r.nextPID))) where
  unlinked := h.unlinked
  pid := h.pid
  registry := h.registry
  params := h.params
  owned := h.owned.use (Finset.mem_insert_self _ _)
  nodup := h.nodup
  fresh n hn := by simpa using h.fresh n hn
  noParams := by simpa using h.noParams
  handed x hx := List.mem_append_left _ (h.handed x hx)

theorem Loading.openFile (h : Loading r first fds prog s) :
    Loading r first (fds ++ [.file s.nextFile]) prog
      ({ s with nextFile := s.nextFile + 1 }.act (.acquire (.file (.file s.nextFile)))) where
  unlinked := h.unlinked
  pid := h.pid
  registry := h.registry
  params := h.params
  owned := by
    have howned := h.owned.acquire (h.fresh s.nextFile le_rfl)
    rw [Finset.insert_comm] at howned
    simpa [Finset.union_comm] using howned
  nodup := by
    have hnot : .file (.file s.nextFile) ∉ fds.flatMap FilePtr.owns := fun hmem =>
      h.fresh s.nextFile le_rfl (h.owned.acquired (by simp [hmem]))
    rw [List.flatMap_append]
    exact List.nodup_append_comm.mp (List.nodup_cons.mpr ⟨hnot, h.nodup⟩)
  fresh n hn := by
    have hne : n ≠ s.nextFile := by
      simp only [Store.act_nextFile] at hn
      omega
    simpa [hne] using h.fresh n (by simp only [Store.act_nextFile] at hn; omega)
  noParams := by simpa using h.noParams
  handed x hx := List.mem_append_left _ (h.handed x hx)

/-- The file opened last is closed at once. -/
theorem Loading.fclose {n : ℕ} (h : Loading r first (fds ++ [.file n]) prog s) :
    Loading r first fds prog (s.act (.release (.file (.file n)))) where
  unlinked := h.unlinked
  pid := h.pid
  registry := h.registry
  params := h.params
  owned := by
    have hnodup := h.nodup
    rw [List.flatMap_append] at hnodup
    have hnot : .file (.file n) ∉ fds.flatMap FilePtr.owns := fun hmem =>
      (List.nodup_append.mp hnodup).2.2 _ hmem _ List.mem_cons_self rfl
    have hheld : (insert (Resource.context r.nextPID)
          ((fds ++ [FilePtr.file n]).flatMap FilePtr.owns).toFinset).erase (.file (.file n)) =
        insert (.context r.nextPID) (fds.flatMap FilePtr.owns).toFinset := by
      ext x
      by_cases hx : x = Resource.file (.file n)
      · subst hx
        simpa using hnot
      · simp [hx]
    have howned := h.owned.release (x := Resource.file (.file n)) (by simp)
    rwa [hheld] at howned
  nodup := by
    have hnodup := h.nodup
    rw [List.flatMap_append] at hnodup
    exact (List.nodup_append.mp hnodup).1
  fresh k hk := by simpa using h.fresh k hk
  noParams := by simpa using h.noParams
  handed x hx := List.mem_append_left _ (h.handed x hx)

/-- A load adds the file that it returns to those that are open. -/
def Loaded (r : Registry) (first : FilePtr) (fds : List FilePtr) (fd : FilePtr) (prog : Linkage Elf)
    (s : Store Elf) : Prop :=
  match fd with
  | .file n => Loading r first (fds ++ [.file n]) prog s
  | _ => Loading r first fds prog s

theorem Loading.loadLibraryAbs (h : Loading r first fds prog s) (host : Host Elf)
    (filename : String)
    (lib : Registered) {fd : FilePtr} {prog' : Linkage Elf} {s' : Store Elf}
    (hload : loadLibraryAbs host filename prog lib s = (fd, prog', s')) :
    fd ≠ .minusOne ∧ Loaded r first fds fd prog' s' := by
  simp only [Runner.loadLibraryAbs, Host.openFile] at hload
  by_cases hok : (if lib.isBuffer then host.fmemopen s.nextFile lib.buf lib.bufLen
    else host.fopen s.nextFile lib.path) = true
  · have hopen := h.openFile.use
    simp only [hok, if_true] at hload
    split at hload
    · rename_i hres
      cases hload
      rw [← h.pid] at hopen
      exact ⟨nofun, hopen.loadLibrary host _ _ hres⟩
    · rename_i hres
      cases hload
      rw [← h.pid] at hopen
      exact ⟨nofun, (hopen.loadLibrary host _ _ hres).fclose⟩
  · simp only [hok] at hload
    cases hload
    exact ⟨nofun, h⟩

theorem Loading.loadLibrary_named (h : Loading r first fds prog s) (host : Host Elf) (name : String)
    {fd : FilePtr} {prog' : Linkage Elf} {s' : Store Elf}
    (hload : Runner.loadLibrary host prog name s = (fd, prog', s')) :
    Loaded r first fds fd prog' s' ∧
      (fd ≠ .null → fd ≠ .minusOne → name ∈ host.registered.map Prod.fst) ∧
      (fd = .minusOne → name ∈ builtinLibs) := by
  unfold Runner.loadLibrary at hload
  split at hload
  · rename_i hname
    cases hload
    refine ⟨h, fun _ hne => absurd rfl hne, fun _ => ?_⟩
    rcases hname with rfl | rfl <;> decide
  · split at hload
    · rename_i pair hfind
      obtain ⟨hne, hloaded⟩ := h.loadLibraryAbs host _ _ hload
      have hname : pair.1 = name := by simpa using List.find?_some hfind
      exact ⟨hloaded, fun _ _ => hname ▸ List.mem_map_of_mem (List.mem_of_find?_eq_some hfind),
        fun heq => absurd heq hne⟩
    · cases hload
      exact ⟨h, fun hne => absurd rfl hne, nofun⟩

theorem Host.registered_card_lt (host : Host Elf) (libs : Finset String) :
    ((host.registered.map Prod.fst).toFinset \ libs).card < host.registered.length + 1 := by
  have hle := (Finset.card_le_card (Finset.sdiff_subset (t := libs))).trans
    (List.toFinset_card_le (host.registered.map Prod.fst))
  rw [List.length_map] at hle
  exact Nat.lt_succ_of_le hle

/-- The loop ends: every library that it loads is a registered name less. -/
theorem Loading.loadMyLib (host : Host Elf) (fuel : ℕ) (l : LibLoop Elf)
    (h : Loading r first l.fds l.prog l.store) (hlibs : builtinLibs ⊆ l.libs)
    (hfuel : ((host.registered.map Prod.fst).toFinset \ l.libs).card < fuel) :
    ∃ ok l', Runner.loadMyLib host fuel l = some (ok, l') ∧
      Loading r first l'.fds l'.prog l'.store := by
  induction fuel generalizing l with
  | zero => simp at hfuel
  | succ fuel ih =>
      rw [Runner.loadMyLib]
      cases hnext : l.nextLib host with
      | none => exact ⟨true, l, rfl, h⟩
      | some lib =>
          have hnew : lib ∉ l.libs := by simpa using List.find?_some hnext
          obtain ⟨⟨fd, prog, s⟩, hload⟩ :
              ∃ res, Runner.loadLibrary host l.prog lib l.store = res := ⟨_, rfl⟩
          obtain ⟨hloaded, hregistered, hbuiltin⟩ := h.loadLibrary_named host lib hload
          simp only [hload]
          cases fd with
          | null => exact ⟨false, _, rfl, hloaded⟩
          | minusOne => exact absurd (hlibs (hbuiltin rfl)) hnew
          | file n =>
              simp only [reduceCtorEq, if_false]
              refine ih _ hloaded (hlibs.trans (Finset.subset_insert _ _)) ?_
              have hmem : lib ∈ (host.registered.map Prod.fst).toFinset \ l.libs :=
                Finset.mem_sdiff.mpr ⟨List.mem_toFinset.mpr (hregistered nofun nofun), hnew⟩
              have hcard := Finset.card_erase_lt_of_mem hmem
              rw [← Finset.sdiff_insert] at hcard
              simp only
              omega

end loading

/-! ### Failing -/

/-- A call that returns false: the contexts are as before, nothing is held, and
every file that came in or was opened has been closed once. -/
structure Failed (r : Registry) (fd : FilePtr) (s : Store Elf) : Prop where
  registry : ∃ r', r.newContext.2.OnlyUses r.nextPID r' ∧
    s.registry = (r'.deleteContext r.nextPID).2.1
  contexts : s.registry.contextMap = r.contextMap
  params : s.params = none
  owned : Owned s.log ∅
  handed : ∀ x ∈ fd.owns, .acquire x ∈ s.log

section failed

variable {r : Registry} {first : FilePtr} {fds : List FilePtr} {prog : Linkage Elf} {s : Store Elf}

theorem Loading.abandon (h : Loading r first fds prog s) (hfree : r.contextMap r.nextPID = none) :
    Failed r first ((s.deleteContext r.nextPID).closeAll fds) where
  registry := ⟨_, h.registry, rfl⟩
  contexts := h.registry.deleteContext hfree
  params := h.params
  owned := by
    have hnot := context_notMem_owns r.nextPID fds
    have hdelete := h.owned.release (x := Resource.context r.nextPID) (Finset.mem_insert_self _ _)
    rw [Finset.erase_insert (by simpa using hnot)] at hdelete
    have hclose := hdelete.releaseAll _ h.nodup (by simp)
    rwa [Finset.sdiff_self] at hclose
  handed x hx := List.mem_append_left _ (List.mem_append_left _ (h.handed x hx))

end failed

/-! ### Handing over -/

/-- The state once there are `Params`: one new context and `Params` are held,
and the files in `fds` are to be closed. -/
structure Created (r : Registry) (first : FilePtr) (fds : List FilePtr) (cb : Callback)
    (s : Store Elf) : Prop where
  registry : r.newContext.2.OnlyUses r.nextPID s.registry
  params : ∃ prog, s.params = some ⟨prog, r.nextPID, cb⟩
  owned : Owned s.log
    (insert .params (insert (.context r.nextPID) (fds.flatMap FilePtr.owns).toFinset))
  nodup : (fds.flatMap FilePtr.owns).Nodup
  handed : ∀ x ∈ first.owns, .acquire x ∈ s.log

theorem params_notMem_owns (fds : List FilePtr) : .params ∉ fds.flatMap FilePtr.owns := by
  intro h
  obtain ⟨fd, -, hfd⟩ := List.mem_flatMap.mp h
  cases fd <;> simp [FilePtr.owns] at hfd

section created

variable {r : Registry} {first : FilePtr} {fds : List FilePtr} {prog : Linkage Elf}
  {cb : Callback} {s : Store Elf}

theorem Loading.newParams (h : Loading r first fds prog s) (linkage : Linkage Elf) (cb : Callback) :
    Created r first fds cb (s.newParams ⟨linkage, r.nextPID, cb⟩) where
  registry := h.registry
  params := ⟨linkage, rfl⟩
  owned := h.owned.acquire h.noParams
  nodup := h.nodup
  handed x hx := List.mem_append_left _ (h.handed x hx)

theorem Created.use (h : Created r first fds cb s) {x : Resource}
    (hx : x = .params ∨ x = .context r.nextPID) : Created r first fds cb (s.act (.use x)) where
  registry := h.registry
  params := h.params
  owned := h.owned.use (by rcases hx with rfl | rfl <;> simp)
  nodup := h.nodup
  handed y hy := List.mem_append_left _ (h.handed y hy)

/-- The two ways out of `startPreloaded` without a task. -/
theorem Created.abandon (h : Created r first fds cb s) (hfree : r.contextMap r.nextPID = none) :
    Failed r first ((s.deleteContext r.nextPID).deleteParams.closeAll fds) where
  registry := ⟨_, h.registry, rfl⟩
  contexts := h.registry.deleteContext hfree
  params := rfl
  owned := by
    have hcontext := context_notMem_owns r.nextPID fds
    have hparams := params_notMem_owns fds
    have hdelete := h.owned.release (x := Resource.context r.nextPID) (by simp)
    have hheld : (insert Resource.params (insert (.context r.nextPID)
          (fds.flatMap FilePtr.owns).toFinset)).erase (.context r.nextPID) =
        insert .params (fds.flatMap FilePtr.owns).toFinset := by
      rw [Finset.erase_insert_of_ne (by simp), Finset.erase_insert (by simpa using hcontext)]
    rw [hheld] at hdelete
    have hrelease := hdelete.release (x := Resource.params) (Finset.mem_insert_self _ _)
    rw [Finset.erase_insert (by simpa using hparams)] at hrelease
    have hclose := hrelease.releaseAll _ h.nodup (by simp)
    rwa [Finset.sdiff_self] at hclose
  handed x hx :=
    List.mem_append_left _ (List.mem_append_left _ (List.mem_append_left _ (h.handed x hx)))

theorem Loading.startPreloaded (h : Loading r first fds prog s)
    (hfree : r.contextMap r.nextPID = none) (host : Host Elf) (linkage : Linkage Elf)
    (cb : Callback) :
    (∃ s', startPreloaded host linkage r.nextPID cb s = (true, s') ∧ Created r first fds cb s') ∨
      ∃ s', startPreloaded host linkage r.nextPID cb s = (false, s') ∧
        Failed r first (s'.closeAll fds) := by
  have hnew := (h.newParams linkage cb).use (.inl rfl)
  have hfail := (hnew.use (.inr rfl)).abandon hfree
  unfold Runner.startPreloaded
  simp only
  split
  · exact .inr ⟨_, rfl, hfail⟩
  · split
    · exact .inl ⟨_, rfl, hnew⟩
    · exact .inr ⟨_, rfl, hfail⟩

/-- How a call of `startFD` ends: it fails and leaves nothing behind, or there is
a task. -/
def Outcome.Accounted (r : Registry) (fd : FilePtr) (cb : Callback) : Outcome Elf → Prop
  | .failed s => Failed r fd s
  | .created s rest => ∃ fds, rest = deleters fds ∧ Created r fd fds cb s

theorem FilePtr.owned (fd : FilePtr) : Owned (fd.owns.map .acquire) fd.owns.toFinset := by
  cases fd with
  | null => exact .nil
  | minusOne => exact Owned.nil.acquire (by simp)
  | file n => exact Owned.nil.acquire (by simp)

/-- The beginning of `startFD`. -/
theorem Loading.start (r : Registry) (fd : FilePtr) :
    Loading r fd [fd] (Linkage.new r.nextPID : Linkage Elf) (.start r fd) := by
  refine .use ⟨.new _, rfl, .refl _ _, rfl, ?_, ?_, ?_, ?_, ?_⟩
  · have howned := fd.owned.acquire (x := Resource.context r.nextPID)
      (by cases fd <;> simp [FilePtr.owns])
    simpa using howned
  · cases fd <;> simp [FilePtr.owns]
  · intro n hn
    cases fd with
    | file k =>
        simp only [Store.act_nextFile, FilePtr.next] at hn
        have hne : n ≠ k := by omega
        simpa using hne
    | _ => simp [FilePtr.owns]
  · cases fd <;> simp [FilePtr.owns]
  · exact fun x hx => List.mem_append_left _ (List.mem_map_of_mem hx)

theorem Loading.linkAndStart {l : LibLoop Elf} (h : Loading r first l.fds l.prog l.store)
    (hfree : r.contextMap r.nextPID = none) (host : Host Elf) (cb : Callback) :
    ∃ out, linkAndStart host r.nextPID cb l = some out ∧ out.Accounted r first cb := by
  unfold Runner.linkAndStart
  obtain ⟨ok, prog, log, hlink⟩ := (h.unlinked.symbols fun name =>
    host.cache name <|> l.prog.symbols name).link host.elf
  simp only [hlink, Option.bind_eq_bind, Option.bind_some]
  cases ok with
  | false => exact ⟨_, rfl, h.abandon hfree⟩
  | true =>
      obtain ⟨s, hstart, hs⟩ | ⟨s, hstart, hs⟩ := h.startPreloaded hfree host prog cb
      · exact ⟨.created s (deleters l.fds), by simp [hstart], _, rfl, hs⟩
      · exact ⟨.failed (s.closeAll l.fds), by simp [hstart], hs⟩

/-- The executable is loaded, or it is not. -/
theorem Loading.loadExecutable (host : Host Elf) (r : Registry) (filename : String) (fd : FilePtr)
    {load : Option (Load Elf)} {prog : Linkage Elf} {r' : Registry} {freed : List Word}
    (hload : (Linkage.new r.nextPID : Linkage Elf).loadExecutable host.elf (host.allocators fd)
      (Store.start r fd : Store Elf).registry filename fd = (load, prog, r', freed)) :
    Loading r fd [fd] prog { Store.start r fd with registry := r' } := by
  have hstart : Loading r fd [fd] (Linkage.new r.nextPID : Linkage Elf) (.start r fd) := .start r fd
  obtain ⟨hunlinked, hpid⟩ := hstart.unlinked.loadExecutable host.elf (host.allocators fd)
    (Store.start r fd : Store Elf).registry filename fd
  have huses := (Linkage.new r.nextPID : Linkage Elf).loadExecutable_onlyUses host.elf
    (host.allocators fd) (Store.start r fd : Store Elf).registry filename fd
  rw [hload] at hunlinked hpid huses
  exact ⟨hunlinked, hpid, huses, rfl, hstart.owned, hstart.nodup, hstart.fresh, hstart.noParams,
    hstart.handed⟩

theorem startFD_accounted (host : Host Elf) (r : Registry) (filename : String) (fd : FilePtr)
    (cb : Callback) (hfree : r.contextMap r.nextPID = none) :
    ∃ out, startFD host r filename fd cb = some out ∧ out.Accounted r fd cb := by
  unfold startFD
  simp only [Registry.newContext_pid]
  split
  all_goals
    rename_i prog r' _ hload
    have h := Loading.loadExecutable host r filename fd hload
  · exact ⟨_, rfl, h.abandon hfree⟩
  · obtain ⟨ok, l, hloop, hl⟩ := Loading.loadMyLib host (host.registered.length + 1)
      ⟨prog.filenames.toFinset ∪ builtinLibs, [fd], prog, _⟩ h Finset.subset_union_right
      (host.registered_card_lt _)
    rw [hloop, Option.bind_eq_bind, Option.bind_some]
    cases ok with
    | false => exact ⟨_, rfl, hl.abandon hfree⟩
    | true => exact hl.linkAndStart hfree host cb

end created

end BadgeElfloader.Runner
