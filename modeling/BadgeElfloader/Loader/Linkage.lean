import BadgeElfloader.Abi.Registry

/-!
`loader::Linkage`, the load-then-link state machine.

The ELF library is not part of the repository. It comes in as `ElfLib`, one
value for each call, so that nothing is assumed about it and two calls may
answer differently. `History` is a linkage with what its calls have done so
far, and `History.Sound` ties the three lists and the three flags together.
-/

namespace BadgeElfloader.Loader

open Riscv (Word)
open Abi

/-- `elf::Program`, as far as it is read here. -/
structure Program where
  entry : Word
  memoryCookie : Word
  deriving DecidableEq, Repr

/-- `elf::SymMap`. -/
abbrev SymMap := String → Option Word

/-- A run of `ELFFile::load`, which asks its callback for memory as often as it
likes and ends with a program or without one. -/
inductive LoadM
  | done (prog : Option Program)
  | alloc (vaddr len align : Word) (k : Word → LoadM)

/-- What the ELF library does in a call. `Elf` is `elf::ELFFile`. -/
structure ElfLib (File Elf : Type) where
  readDyn : File → Option Elf
  load : Elf → LoadM
  exportSymbols : Elf → Program → SymMap → Bool × SymMap
  /-- The first argument numbers the calls. -/
  relocate : ℕ → Elf → Program → SymMap → Bool
  getDynLibs : Elf → List String

variable {File Elf : Type}

/-- A program that was loaded, with the name and the file it came from. -/
structure Load (Elf : Type) where
  filename : String
  file : Elf
  program : Program

structure Linkage (Elf : Type) where
  symbols : SymMap
  filenames : List String
  loaded : List Program
  files : List Elf
  /-- Null if there is no executable. -/
  entryFunc : Word
  pid : Pid
  hasExecutable : Bool
  linkAttempted : Bool
  linkSuccessful : Bool

/-- `Linkage(const abi::Context &)`. -/
def Linkage.new (pid : Pid) : Linkage Elf where
  symbols _ := none
  filenames := []
  loaded := []
  files := []
  entryFunc := 0
  pid := pid
  hasExecutable := false
  linkAttempted := false
  linkSuccessful := false

def Linkage.isProgReady (l : Linkage Elf) : Bool := l.hasExecutable && l.linkSuccessful

/-- `load` with the callback of `loadLibrary`, which maps memory in the context
of the process. The allocator may answer differently each time. -/
def LoadM.run (allocators : ℕ → Allocator) (pid : Pid) :
    LoadM → ℕ → Registry → Option Program × Registry
  | .done prog, _, r => (prog, r)
  | .alloc _ len align k, i, r =>
      let actx := (r.getContext pid).getD Context.empty
      let mem := (actx.map (allocators i) len true true align).1
      (k mem).run allocators pid (i + 1) (r.apply pid (.map (allocators i) len true true align))

/-- Discard unused information. -/
def Linkage.garbageCollect (l : Linkage Elf) : Linkage Elf :=
  if l.linkAttempted then { l with files := [] } else l

/-- Load a library from a file. The source returns whether there is a load; the
last component lists the addresses that went to `free`. -/
def Linkage.loadLibrary (l : Linkage Elf) (lib : ElfLib File Elf) (allocators : ℕ → Allocator)
    (r : Registry) (filename : String) (fd : File) :
    Option (Load Elf) × Linkage Elf × Registry × List Word :=
  if l.linkAttempted then (none, l, r, [])
  else if (r.getContext l.pid).isNone then (none, l, r, [])
  else
    match lib.readDyn fd with
    | none => (none, l, r, [])
    | some elf =>
        match (lib.load elf).run allocators l.pid 0 r with
        | (none, r) => (none, l, r, [])
        | (some prog, r) =>
            let (ok, symbols) := lib.exportSymbols elf prog l.symbols
            if ok then
              (some ⟨filename, elf, prog⟩,
                { l with
                  symbols := symbols
                  loaded := l.loaded ++ [prog]
                  files := l.files ++ [elf]
                  filenames := l.filenames ++ [filename] },
                r, [])
            else (none, { l with symbols := symbols }, r, [prog.memoryCookie])

/-- Load the executable from a file. -/
def Linkage.loadExecutable (l : Linkage Elf) (lib : ElfLib File Elf) (allocators : ℕ → Allocator)
    (r : Registry) (filename : String) (fd : File) :
    Option (Load Elf) × Linkage Elf × Registry × List Word :=
  if l.linkAttempted || l.hasExecutable then (none, l, r, [])
  else
    match l.loadLibrary lib allocators r filename fd with
    | (some load, l, r, freed) =>
        (some load,
          { l with
            hasExecutable := true
            entryFunc := (l.loaded.getLast?.map Program.entry).getD 0 },
          r, freed)
    | (none, l, r, freed) => (none, l, r, freed)

/-- A call of `elf::relocate` and its result. -/
structure Relocation (Elf : Type) where
  file : Elf
  program : Program
  ok : Bool

/-- The loop of `link` over `loaded`, from index `i` on. There is no result
where `files` has no such index. -/
def Linkage.relocateAll (l : Linkage Elf) (lib : ElfLib File Elf) :
    List Program → ℕ → Option (Bool × List (Relocation Elf))
  | [], _ => some (true, [])
  | prog :: progs, i => do
      let file ← l.files[i]?
      if lib.relocate i file prog l.symbols then
        let (ok, log) ← l.relocateAll lib progs (i + 1)
        some (ok, ⟨file, prog, true⟩ :: log)
      else some (false, [⟨file, prog, false⟩])

/-- Perform final dynamic linking before code execution can begin. -/
def Linkage.link (l : Linkage Elf) (lib : ElfLib File Elf) :
    Option (Bool × Linkage Elf × List (Relocation Elf)) :=
  if l.linkAttempted then some (l.linkSuccessful, l, [])
  else do
    let l := { l with linkAttempted := true }
    let (ok, log) ← l.relocateAll lib l.loaded 0
    some (ok, if ok then { l with linkSuccessful := true } else l, log)

/-! ### Histories -/

inductive LinkOp (File Elf : Type)
  | loadLibrary (lib : ElfLib File Elf) (allocators : ℕ → Allocator) (r : Registry)
      (filename : String) (fd : File)
  | loadExecutable (lib : ElfLib File Elf) (allocators : ℕ → Allocator) (r : Registry)
      (filename : String) (fd : File)
  | link (lib : ElfLib File Elf)
  | garbageCollect

def LinkOp.isLoad : LinkOp File Elf → Bool
  | loadLibrary .. | loadExecutable .. => true
  | _ => false

def LinkOp.isExecutable : LinkOp File Elf → Bool
  | loadExecutable .. => true
  | _ => false

def LinkOp.isLink : LinkOp File Elf → Bool
  | link _ => true
  | _ => false

/-- The library that a `link` relocates with. -/
def LinkOp.linker : LinkOp File Elf → Option (ElfLib File Elf)
  | link lib => some lib
  | _ => none

/-- The steps of a load of `fd` that succeed: its file is read, loaded into the
context of the process `pid`, and its symbols are added to `symbols`. -/
structure LoadSteps (pid : Pid) (symbols : SymMap) (lib : ElfLib File Elf)
    (allocators : ℕ → Allocator) (r : Registry) (filename : String) (fd : File)
    (row : Load Elf) (symbols' : SymMap) : Prop where
  name : row.filename = filename
  context : (r.getContext pid).isSome
  readDyn : lib.readDyn fd = some row.file
  load : ((lib.load row.file).run allocators pid 0 r).1 = some row.program
  exportSymbols : lib.exportSymbols row.file row.program symbols = (true, symbols')

/-- The call makes the row `load`. -/
def LinkOp.Makes (pid : Pid) (symbols : SymMap) (load : Load Elf) (symbols' : SymMap) :
    LinkOp File Elf → Prop
  | loadLibrary lib allocators r filename fd | loadExecutable lib allocators r filename fd =>
      LoadSteps pid symbols lib allocators r filename fd load symbols'
  | _ => False

/-- A linkage with its calls and what they returned, the rows that the loads
made, and the relocations. -/
structure History (File Elf : Type) where
  linkage : Linkage Elf
  calls : List (LinkOp File Elf × Bool)
  loads : List (Load Elf)
  relocations : List (Relocation Elf)

def History.fresh (pid : Pid) : History File Elf := ⟨Linkage.new pid, [], [], []⟩

/-- The loads that returned true. -/
def History.succeeded (h : History File Elf) : List (LinkOp File Elf) :=
  (h.calls.filter fun call => call.1.isLoad && call.2).map Prod.fst

/-- How many calls of `loadExecutable` returned true. -/
def History.executables (h : History File Elf) : ℕ := h.succeeded.countP LinkOp.isExecutable

/-- The library and the result of the first `link`. -/
def History.firstLink (h : History File Elf) : Option (ElfLib File Elf × Bool) :=
  h.calls.findSome? fun call => call.1.linker.map fun lib => (lib, call.2)

/-- The history after a call. -/
def History.record (h : History File Elf) (op : LinkOp File Elf) (res : Bool) (l : Linkage Elf)
    (loads : List (Load Elf)) (log : List (Relocation Elf)) : History File Elf where
  linkage := l
  calls := h.calls ++ [(op, res)]
  loads := h.loads ++ loads
  relocations := h.relocations ++ log

/-- A call, with what it returns. -/
def History.exec (h : History File Elf) (op : LinkOp File Elf) :
    Option (Bool × History File Elf) :=
  match op with
  | .loadLibrary lib allocators r filename fd =>
      let (load, l, _, _) := h.linkage.loadLibrary lib allocators r filename fd
      some (load.isSome, h.record op load.isSome l load.toList [])
  | .loadExecutable lib allocators r filename fd =>
      let (load, l, _, _) := h.linkage.loadExecutable lib allocators r filename fd
      some (load.isSome, h.record op load.isSome l load.toList [])
  | .link lib => do
      let (ok, l, log) ← h.linkage.link lib
      some (ok, h.record op ok l [] log)
  | .garbageCollect => some (true, h.record op true h.linkage.garbageCollect [] [])

/-- The relocations of a `link` call that returned `ok`: in load order, up to
the first failure. `relocate` takes the number of the pair. -/
structure LinkLog (relocate : ℕ → Elf → Program → SymMap → Bool) (symbols : SymMap)
    (loads : List (Load Elf)) (log : List (Relocation Elf)) (ok : Bool) : Prop where
  order : (log.map fun r => (r.file, r.program)) <+: loads.map fun l => (l.file, l.program)
  results : ∀ i r, log[i]? = some r → r.ok = relocate i r.file r.program symbols
  success : ok = true → log.length = loads.length ∧ ∀ r ∈ log, r.ok = true
  failure : ok = false → ∃ init last, log = init ++ [last] ∧ (∀ r ∈ init, r.ok = true) ∧
    last.ok = false

/-- The lists of the linkage are the columns of the list of loads, row by row
made by the calls that returned true, and its flags say what has happened. -/
structure History.Sound (h : History File Elf) : Prop where
  loaded : h.linkage.loaded = h.loads.map Load.program
  filenames : h.linkage.filenames = h.loads.map Load.filename
  files : h.linkage.linkAttempted = false → h.linkage.files = h.loads.map Load.file
  made : List.Forall₂ (fun op load => ∃ symbols symbols',
    op.Makes h.linkage.pid symbols load symbols') h.succeeded h.loads
  attempted : h.linkage.linkAttempted = h.firstLink.isSome
  successful : h.linkage.linkSuccessful = true ↔ ∃ lib, h.firstLink = some (lib, true)
  hasExecutable : h.linkage.hasExecutable = true ↔ 0 < h.executables
  executables_le : h.executables ≤ 1
  entry : ∀ (i : ℕ) (op : LinkOp File Elf), h.succeeded[i]? = some op → op.isExecutable →
    ∃ load, h.loads[i]? = some load ∧ h.linkage.entryFunc = load.program.entry
  unlinked : h.firstLink = none → h.relocations = []
  linked : ∀ lib ok, h.firstLink = some (lib, ok) →
    LinkLog lib.relocate h.linkage.symbols h.loads h.relocations ok

/-- A call before the first `link`: a load returns true exactly if all its steps
succeed, an executable only if there is none yet, and then it adds its row. -/
structure BeforeLink (h : History File Elf) (op : LinkOp File Elf) (res : Bool)
    (h' : History File Elf) : Prop where
  load : op.isLoad → (res = true ↔ (op.isExecutable → h.executables = 0) ∧
    ∃ load symbols, op.Makes h.linkage.pid h.linkage.symbols load symbols)
  row : ∀ load symbols, op.Makes h.linkage.pid h.linkage.symbols load symbols → res = true →
    h'.loads = h.loads ++ [load] ∧ h'.linkage.symbols = symbols
  kept : (op.isLoad → res = false) → h'.loads = h.loads

/-- A call after the first `link`, which returned `ok`: loads fail, and links
return `ok` again. -/
structure AfterLink (ok : Bool) (h : History File Elf) (op : LinkOp File Elf) (res : Bool)
    (h' : History File Elf) : Prop where
  firstLink : h'.firstLink = h.firstLink
  symbols : h'.linkage.symbols = h.linkage.symbols
  loaded : h'.linkage.loaded = h.linkage.loaded
  filenames : h'.linkage.filenames = h.linkage.filenames
  relocations : h'.relocations = h.relocations
  load : op.isLoad → res = false
  link : op.isLink → res = ok

section record

variable (h : History File Elf) (op : LinkOp File Elf) (res : Bool) (l : Linkage Elf)
  (loads : List (Load Elf)) (log : List (Relocation Elf))

@[simp] theorem History.record_linkage : (h.record op res l loads log).linkage = l := rfl

@[simp] theorem History.record_loads : (h.record op res l loads log).loads = h.loads ++ loads := rfl

@[simp] theorem History.record_relocations :
    (h.record op res l loads log).relocations = h.relocations ++ log := rfl

@[simp] theorem History.record_succeeded :
    (h.record op res l loads log).succeeded =
      h.succeeded ++ if op.isLoad && res then [op] else [] := by
  rw [History.succeeded, History.record, List.filter_append, List.map_append]
  cases hload : op.isLoad && res <;> simp [History.succeeded, hload]

@[simp] theorem History.record_firstLink :
    (h.record op res l loads log).firstLink =
      h.firstLink.or (op.linker.map fun lib => (lib, res)) := by
  simp [History.firstLink, History.record, List.findSome?_append]

variable {h op res l loads log}

/-- A call that is no load that succeeds. -/
theorem History.record_succeeded_of_not (hload : (op.isLoad && res) = false) :
    (h.record op res l loads log).succeeded = h.succeeded := by
  rw [record_succeeded, hload]
  exact List.append_nil _

theorem History.record_succeeded_of_load (hop : op.isLoad) :
    (h.record op true l loads log).succeeded = h.succeeded ++ [op] := by
  rw [record_succeeded, hop]
  rfl

theorem History.record_executables_of_not (hload : (op.isLoad && res) = false) :
    (h.record op res l loads log).executables = h.executables := by
  rw [executables, record_succeeded_of_not hload, executables]

theorem History.record_executables_of_load (hop : op.isLoad) :
    (h.record op true l loads log).executables =
      h.executables + if op.isExecutable then 1 else 0 := by
  rw [executables, record_succeeded_of_load hop, List.countP_append,
    List.countP_singleton, executables]

end record

theorem History.fresh_sound (pid : Pid) : (fresh pid : History File Elf).Sound := by
  constructor <;> simp [fresh, Linkage.new, History.succeeded, History.executables,
    History.firstLink]

/-! ### The operations -/

variable {l : Linkage Elf}

theorem Linkage.loadLibrary_linked (hlinked : l.linkAttempted = true) (lib : ElfLib File Elf)
    (allocators : ℕ → Allocator) (r : Registry) (filename : String) (fd : File) :
    l.loadLibrary lib allocators r filename fd = (none, l, r, []) := by
  rw [Linkage.loadLibrary, if_pos hlinked]

/-- Before linking, a load whose steps succeed adds a row, and any other changes
nothing but the symbols. -/
theorem Linkage.loadLibrary_unlinked (hlinked : l.linkAttempted = false) (lib : ElfLib File Elf)
    (allocators : ℕ → Allocator) (r : Registry) (filename : String) (fd : File) :
    (∃ symbols r' freed, (∀ load symbols',
        ¬ LoadSteps l.pid l.symbols lib allocators r filename fd load symbols') ∧
      l.loadLibrary lib allocators r filename fd =
        (none, { l with symbols := symbols }, r', freed)) ∨
    ∃ symbols load r', LoadSteps l.pid l.symbols lib allocators r filename fd load symbols ∧
      l.loadLibrary lib allocators r filename fd =
        (some load,
          { l with
            symbols := symbols
            loaded := l.loaded ++ [load.program]
            files := l.files ++ [load.file]
            filenames := l.filenames ++ [load.filename] },
          r', []) := by
  unfold Linkage.loadLibrary
  rw [if_neg (by simp [hlinked])]
  split
  · rename_i hcontext
    refine .inl ⟨_, _, _, fun load symbols hsteps => ?_, rfl⟩
    exact absurd hsteps.context (by simp [Option.isNone_iff_eq_none.mp hcontext])
  · rename_i hcontext
    split
    · rename_i hread
      refine .inl ⟨_, _, _, fun load symbols hsteps => ?_, rfl⟩
      cases hread.symm.trans hsteps.readDyn
    · rename_i elf hread
      split
      · rename_i r' hload
        refine .inl ⟨_, _, _, fun load symbols hsteps => ?_, rfl⟩
        obtain rfl := Option.some.inj (hread.symm.trans hsteps.readDyn)
        cases (congrArg Prod.fst hload).symm.trans hsteps.load
      · rename_i prog r' hload
        simp only
        split
        · rename_i hok
          refine .inr ⟨_, ⟨filename, elf, prog⟩, _, ⟨rfl, ?_, hread, ?_, ?_⟩, rfl⟩
          · simpa [Option.isSome_iff_ne_none] using hcontext
          · rw [hload]
          · exact Prod.ext hok rfl
        · rename_i hok
          refine .inl ⟨_, _, _, fun load symbols hsteps => ?_, rfl⟩
          obtain rfl := Option.some.inj (hread.symm.trans hsteps.readDyn)
          obtain rfl := Option.some.inj ((congrArg Prod.fst hload).symm.trans hsteps.load)
          exact hok (congrArg Prod.fst hsteps.exportSymbols)

/-- A load adds a row, or it changes nothing but the symbols. -/
theorem Linkage.loadLibrary_cases (l : Linkage Elf) (lib : ElfLib File Elf)
    (allocators : ℕ → Allocator) (r : Registry) (filename : String) (fd : File) :
    (∃ symbols r' freed, l.loadLibrary lib allocators r filename fd =
      (none, { l with symbols := symbols }, r', freed)) ∨
    l.linkAttempted = false ∧ ∃ symbols load r', load.filename = filename ∧
      l.loadLibrary lib allocators r filename fd =
        (some load,
          { l with
            symbols := symbols
            loaded := l.loaded ++ [load.program]
            files := l.files ++ [load.file]
            filenames := l.filenames ++ [load.filename] },
          r', []) := by
  by_cases hlinked : l.linkAttempted = true
  · exact .inl ⟨_, _, _, loadLibrary_linked hlinked lib allocators r filename fd⟩
  · have hunlinked := Bool.eq_false_iff.mpr hlinked
    obtain ⟨symbols, r', freed, -, hload⟩ | ⟨symbols, load, r', hsteps, hload⟩ :=
      loadLibrary_unlinked hunlinked lib allocators r filename fd
    · exact .inl ⟨symbols, r', freed, hload⟩
    · exact .inr ⟨hunlinked, symbols, load, r', hsteps.name, hload⟩

theorem LoadM.run_onlyUses (m : LoadM) (allocators : ℕ → Allocator) (pid : Pid) (i : ℕ)
    (r : Registry) : r.OnlyUses pid (m.run allocators pid i r).2 := by
  induction m generalizing i r with
  | done prog => exact .refl pid r
  | alloc vaddr len align k ih => exact (Registry.OnlyUses.apply r pid _).trans (ih _ _ _)

/-- Loading uses the context of the process and no other. -/
theorem Linkage.loadLibrary_onlyUses (l : Linkage Elf) (lib : ElfLib File Elf)
    (allocators : ℕ → Allocator) (r : Registry) (filename : String) (fd : File) :
    r.OnlyUses l.pid (l.loadLibrary lib allocators r filename fd).2.2.1 := by
  unfold Linkage.loadLibrary
  split
  · exact .refl _ _
  · split
    · exact .refl _ _
    · split
      · exact .refl _ _
      · rename_i elf _
        have hrun := (lib.load elf).run_onlyUses allocators l.pid 0 r
        split
        · rename_i hload
          rwa [hload] at hrun
        · rename_i hload
          rw [hload] at hrun
          simp only
          split <;> exact hrun

theorem Linkage.loadExecutable_onlyUses (l : Linkage Elf) (lib : ElfLib File Elf)
    (allocators : ℕ → Allocator) (r : Registry) (filename : String) (fd : File) :
    r.OnlyUses l.pid (l.loadExecutable lib allocators r filename fd).2.2.1 := by
  have hload := l.loadLibrary_onlyUses lib allocators r filename fd
  unfold Linkage.loadExecutable
  split
  · exact .refl _ _
  · split <;> rename_i heq <;> rwa [heq] at hload

/-- Relocating goes over the loads in order and never leaves `files`. -/
theorem Linkage.relocateAll_log (l : Linkage Elf) (lib : ElfLib File Elf)
    (pre loads : List (Load Elf)) (hfiles : l.files = (pre ++ loads).map Load.file) :
    ∃ ok log, l.relocateAll lib (loads.map Load.program) pre.length = some (ok, log) ∧
      LinkLog (fun i => lib.relocate (pre.length + i)) l.symbols loads log ok := by
  induction loads generalizing pre with
  | nil => exact ⟨true, [], rfl, ⟨List.prefix_rfl, nofun, fun _ => ⟨rfl, nofun⟩, nofun⟩⟩
  | cons load loads ih =>
      have hfile : l.files[pre.length]? = some load.file := by simp [hfiles]
      simp only [List.map_cons, Linkage.relocateAll, hfile, Option.bind_eq_bind, Option.bind_some]
      split
      · rename_i hok
        obtain ⟨ok, log, hrun, hlog⟩ := ih (pre ++ [load]) (by simpa using hfiles)
        rw [List.length_append, List.length_singleton] at hrun
        refine ⟨ok, _, by rw [hrun]; rfl, ?_, fun i r hr => ?_, fun h => ?_, fun h => ?_⟩
        · simpa using hlog.order
        · cases i with
          | zero =>
              obtain rfl := Option.some.inj hr
              exact hok.symm
          | succ i =>
              have hres := hlog.results i r hr
              rwa [List.length_append, List.length_singleton, Nat.add_assoc,
                Nat.add_comm 1 i] at hres
        · obtain ⟨hlen, hall⟩ := hlog.success h
          exact ⟨by simp [hlen], by simpa using hall⟩
        · obtain ⟨init, last, rfl, hinit, hlast⟩ := hlog.failure h
          exact ⟨⟨load.file, load.program, true⟩ :: init, last, rfl, by simpa using hinit, hlast⟩
      · rename_i hok
        refine ⟨false, _, rfl, ?_, fun i r hr => ?_, nofun, fun _ => ⟨[], _, rfl, nofun, rfl⟩⟩
        · simp
        · cases i with
          | zero =>
              obtain rfl := Option.some.inj hr
              exact (Bool.eq_false_iff.mpr hok).symm
          | succ i => cases hr

theorem LoadSteps.unique {pid : Pid} {symbols s₁ s₂ : SymMap} {lib : ElfLib File Elf}
    {allocators : ℕ → Allocator} {r : Registry} {filename : String} {fd : File}
    {load₁ load₂ : Load Elf}
    (h₁ : LoadSteps pid symbols lib allocators r filename fd load₁ s₁)
    (h₂ : LoadSteps pid symbols lib allocators r filename fd load₂ s₂) :
    load₁ = load₂ ∧ s₁ = s₂ := by
  obtain ⟨rfl, -, hfile₁, hprog₁, hsym₁⟩ := h₁
  obtain ⟨hname, -, hfile₂, hprog₂, hsym₂⟩ := h₂
  obtain ⟨name₁, file₁, prog₁⟩ := load₁
  obtain ⟨name₂, file₂, prog₂⟩ := load₂
  obtain rfl := Option.some.inj (hfile₁.symm.trans hfile₂)
  obtain rfl := Option.some.inj (hprog₁.symm.trans hprog₂)
  obtain rfl : name₂ = name₁ := hname
  exact ⟨rfl, congrArg Prod.snd (hsym₁.symm.trans hsym₂)⟩

theorem LinkOp.Makes.isLoad {pid : Pid} {symbols symbols' : SymMap} {load : Load Elf}
    {op : LinkOp File Elf} (h : op.Makes pid symbols load symbols') : op.isLoad := by
  cases op with
  | loadLibrary => rfl
  | loadExecutable => rfl
  | link => exact h.elim
  | garbageCollect => exact h.elim

theorem LinkOp.Makes.unique {pid : Pid} {symbols s₁ s₂ : SymMap} {load₁ load₂ : Load Elf}
    {op : LinkOp File Elf} (h₁ : op.Makes pid symbols load₁ s₁)
    (h₂ : op.Makes pid symbols load₂ s₂) : load₁ = load₂ ∧ s₁ = s₂ := by
  cases op with
  | loadLibrary => exact LoadSteps.unique h₁ h₂
  | loadExecutable => exact LoadSteps.unique h₁ h₂
  | link => exact h₁.elim
  | garbageCollect => exact h₁.elim

/-- What a call does to a sound history. -/
structure History.Step (h : History File Elf) (op : LinkOp File Elf) (res : Bool)
    (h' : History File Elf) : Prop where
  sound : h'.Sound
  calls : h'.calls = h.calls ++ [(op, res)]
  pid : h'.linkage.pid = h.linkage.pid
  before : h.firstLink = none → BeforeLink h op res h'
  after : ∀ lib ok, h.firstLink = some (lib, ok) → AfterLink ok h op res h'

section sound

variable {h h' : History File Elf} {op : LinkOp File Elf} {res : Bool}

theorem History.Sound.firstLink_none (hs : h.Sound) (hl : h.linkage.linkAttempted = false) :
    h.firstLink = none := by
  have hattempted := hs.attempted
  rw [hl] at hattempted
  simpa using hattempted.symm

/-- A call that makes no row and is not the first `link`. Only the symbols can
change before linking, and only the files after it. -/
theorem History.Sound.quiet (hs : h.Sound) (hload : (op.isLoad && res) = false)
    (hlink : h.firstLink.isSome ∨ op.linker = none) (symbols : SymMap) (files : List Elf)
    (hsymbols : h.linkage.linkAttempted = true → symbols = h.linkage.symbols)
    (hfiles : h.linkage.linkAttempted = false → files = h.linkage.files) :
    (h.record op res { h.linkage with symbols := symbols, files := files } [] []).Sound ∧
      (h.record op res { h.linkage with symbols := symbols, files := files } [] []).firstLink =
        h.firstLink := by
  have hfirst :
      (h.record op res { h.linkage with symbols := symbols, files := files } [] []).firstLink =
        h.firstLink := by
    rw [History.record_firstLink]
    obtain hsome | hnone := hlink
    · obtain ⟨first, hfirst⟩ := Option.isSome_iff_exists.mp hsome
      rw [hfirst, Option.some_or]
    · rw [hnone, Option.map_none, Option.or_none]
  refine ⟨⟨?_, ?_, fun hl => ?_, ?_, ?_, ?_, ?_, ?_, ?_, ?_, ?_⟩, hfirst⟩
  · simpa using hs.loaded
  · simpa using hs.filenames
  · simpa [hfiles hl] using hs.files hl
  · rw [History.record_succeeded_of_not hload]
    simpa using hs.made
  · rw [hfirst]
    exact hs.attempted
  · rw [hfirst]
    exact hs.successful
  · rw [History.record_executables_of_not hload]
    exact hs.hasExecutable
  · rw [History.record_executables_of_not hload]
    exact hs.executables_le
  · rw [History.record_succeeded_of_not hload]
    simpa using hs.entry
  · rw [hfirst]
    simpa using hs.unlinked
  · rw [hfirst]
    intro lib ok hok
    have hattempted : h.linkage.linkAttempted = true := by rw [hs.attempted, hok]; rfl
    simpa [hsymbols hattempted] using hs.linked lib ok hok

/-- Such a call as a step. `hrefuse`: a load among them lacks a step, or there is
an executable already. -/
theorem History.Sound.quiet_step (hs : h.Sound) (hload : (op.isLoad && res) = false)
    (hlink : h.firstLink.isSome ∨ op.linker = none) (symbols : SymMap) (files : List Elf)
    (hsymbols : h.linkage.linkAttempted = true → symbols = h.linkage.symbols)
    (hfiles : h.linkage.linkAttempted = false → files = h.linkage.files)
    (hrefuse : h.firstLink = none → op.isLoad → (op.isExecutable → h.executables = 0) →
      ∀ load symbols', ¬ op.Makes h.linkage.pid h.linkage.symbols load symbols')
    (hagain : ∀ lib ok, h.firstLink = some (lib, ok) → op.isLink → res = ok) :
    h.Step op res
      (h.record op res { h.linkage with symbols := symbols, files := files } [] []) := by
  obtain ⟨hsound, hfirst⟩ := hs.quiet hload hlink symbols files hsymbols hfiles
  have hfails : op.isLoad → res = false := by
    intro hop
    rwa [hop, Bool.true_and] at hload
  refine ⟨hsound, rfl, rfl, fun hnone => ⟨fun hop => ?_, fun load s hmakes hres => ?_, fun _ => ?_⟩,
    fun lib ok hok => ⟨hfirst, ?_, rfl, rfl, ?_, hfails, hagain lib ok hok⟩⟩
  · refine ⟨fun hres => ?_, fun ⟨hexe, load, s, hmakes⟩ => ?_⟩
    · rw [hfails hop] at hres
      cases hres
    · exact absurd hmakes (hrefuse hnone hop hexe load s)
  · rw [hfails hmakes.isLoad] at hres
    cases hres
  · exact List.append_nil h.loads
  · exact hsymbols (by rw [hs.attempted, hok]; rfl)
  · exact List.append_nil h.relocations

theorem History.Sound.executables_zero (hs : h.Sound)
    (hnone : h.linkage.hasExecutable = false) : h.executables = 0 := by
  have hflag := hs.hasExecutable
  rw [hnone] at hflag
  exact Nat.eq_zero_of_not_pos fun hpos => Bool.false_ne_true (hflag.mpr hpos)

/-- The linkage after a load that made the row `load`. -/
def Linkage.withRow (l : Linkage Elf) (load : Load Elf) (symbols : SymMap) (isExecutable : Bool) :
    Linkage Elf :=
  { l with
    symbols := symbols
    loaded := l.loaded ++ [load.program]
    files := l.files ++ [load.file]
    filenames := l.filenames ++ [load.filename]
    hasExecutable := l.hasExecutable || isExecutable
    entryFunc := if isExecutable then load.program.entry else l.entryFunc }

/-- A row more in each list, by a call that may also set the executable. -/
theorem History.Sound.load (hs : h.Sound) (hl : h.linkage.linkAttempted = false)
    (hop : op.isLoad) {symbols : SymMap} {load : Load Elf}
    (hmakes : op.Makes h.linkage.pid h.linkage.symbols load symbols)
    (hnone : op.isExecutable → h.linkage.hasExecutable = false) :
    (h.record op true (h.linkage.withRow load symbols op.isExecutable) [load] []).Sound := by
  have hfirst := hs.firstLink_none hl
  have hlinker : op.linker = none := by
    cases op with
    | link => cases hop
    | loadLibrary | loadExecutable | garbageCollect => rfl
  have hlen := hs.made.length_eq
  refine ⟨?_, ?_, fun _ => ?_, ?_, ?_, ?_, ?_, ?_, fun i op' hi hexe => ?_, fun _ => ?_, ?_⟩
  · simp [Linkage.withRow, hs.loaded]
  · simp [Linkage.withRow, hs.filenames]
  · simp [Linkage.withRow, hs.files hl]
  · rw [History.record_succeeded_of_load hop]
    exact List.rel_append hs.made (.cons ⟨_, _, hmakes⟩ .nil)
  · simp [Linkage.withRow, hfirst, hlinker, hl]
  · have hsuccess := hs.successful
    rw [hfirst] at hsuccess
    simpa [Linkage.withRow, hfirst, hlinker] using hsuccess
  · have hold := hs.hasExecutable
    rw [History.record_executables_of_load hop]
    cases hexe : op.isExecutable with
    | true => simp [Linkage.withRow]
    | false => simpa [Linkage.withRow] using hold
  · rw [History.record_executables_of_load hop]
    split
    · rename_i hexe
      rw [hs.executables_zero (hnone hexe)]
    · exact hs.executables_le
  · rw [History.record_succeeded_of_load hop] at hi
    obtain hlt | rfl | hgt := lt_trichotomy i h.succeeded.length
    · rw [List.getElem?_append_left hlt] at hi
      -- there was an executable before, so this call loads none
      have hold : ¬ op.isExecutable := fun hnew =>
        List.countP_eq_zero.mp (hs.executables_zero (hnone hnew)) op' (List.mem_of_getElem? hi) hexe
      obtain ⟨old, hget, hentry⟩ := hs.entry i op' hi hexe
      refine ⟨old, ?_, (if_neg hold).trans hentry⟩
      rw [History.record_loads, List.getElem?_append_left (hlen ▸ hlt), hget]
    · rw [List.getElem?_concat_length] at hi
      obtain rfl := Option.some.inj hi
      refine ⟨load, ?_, if_pos hexe⟩
      rw [History.record_loads, hlen, List.getElem?_concat_length]
    · rw [List.getElem?_eq_none (by rw [List.length_append, List.length_singleton]; omega)] at hi
      cases hi
  · simpa using hs.unlinked hfirst
  · simp [hfirst, hlinker]

/-- Such a call as a step. -/
theorem History.Sound.load_step (hs : h.Sound) (hl : h.linkage.linkAttempted = false)
    (hop : op.isLoad) {symbols : SymMap} {load : Load Elf}
    (hmakes : op.Makes h.linkage.pid h.linkage.symbols load symbols)
    (hnone : op.isExecutable → h.linkage.hasExecutable = false) :
    h.Step op true
      (h.record op true (h.linkage.withRow load symbols op.isExecutable) [load] []) where
  sound := hs.load hl hop hmakes hnone
  calls := rfl
  pid := rfl
  before _ := by
    refine ⟨fun _ => ⟨fun _ => ?_, fun _ => rfl⟩, fun load' s' hmakes' _ => ?_, fun hfails => ?_⟩
    · exact ⟨fun hexe => hs.executables_zero (hnone hexe), load, symbols, hmakes⟩
    · obtain ⟨rfl, rfl⟩ := hmakes.unique hmakes'
      exact ⟨rfl, rfl⟩
    · cases hfails hop
  after lib ok hok := by
    rw [hs.firstLink_none hl] at hok
    cases hok

/-- The first `link` walks the loads; every later one answers as it did. -/
theorem History.Sound.link (hs : h.Sound) (lib : ElfLib File Elf) :
    ∃ res h', h.exec (.link lib) = some (res, h') ∧ h.Step (.link lib) res h' := by
  cases hfirst : h.firstLink with
  | some first =>
      have hattempted : h.linkage.linkAttempted = true := by rw [hs.attempted, hfirst]; rfl
      have hok : h.linkage.linkSuccessful = first.2 := by
        have hsuccess := hs.successful
        rw [hfirst] at hsuccess
        refine Bool.eq_iff_iff.mpr (hsuccess.trans ⟨fun ⟨_, heq⟩ => ?_, fun htrue => ?_⟩)
        · rw [Option.some.inj heq]
        · exact ⟨first.1, by rw [← htrue]⟩
      have hlink : h.linkage.link lib = some (first.2, h.linkage, []) := by
        rw [Linkage.link, if_pos hattempted, hok]
      refine ⟨first.2, h.record (.link lib) first.2 h.linkage [] [],
        by rw [History.exec, hlink]; rfl,
        hs.quiet_step rfl (.inl (by rw [hfirst]; rfl)) h.linkage.symbols h.linkage.files
          (fun _ => rfl) (fun _ => rfl) nofun fun lib' ok hok' _ => ?_⟩
      rw [hfirst] at hok'
      rw [Option.some.inj hok']
  | none =>
      have hattempted : h.linkage.linkAttempted = false := by rw [hs.attempted, hfirst]; rfl
      obtain ⟨ok, log, hrun, hlog⟩ :=
        ({ h.linkage with linkAttempted := true } : Linkage Elf).relocateAll_log lib [] h.loads
          (hs.files hattempted)
      rw [← hs.loaded] at hrun
      simp only [List.length_nil, Nat.zero_add] at hlog
      have hsuccess : h.linkage.linkSuccessful = false := by
        by_contra hne
        simp [hs.successful, hfirst] at hne
      refine ⟨ok, h.record (.link lib) ok
        { h.linkage with linkAttempted := true, linkSuccessful := ok } [] log, ?_, ?_⟩
      · simp only [History.exec, Linkage.link, hattempted]
        cases ok <;> simp_all
      · refine ⟨⟨?_, ?_, nofun, ?_, ?_, ?_, ?_, ?_, ?_, ?_, ?_⟩, rfl, rfl,
          fun _ => ⟨nofun, fun _ _ hmakes => hmakes.elim, fun _ => List.append_nil _⟩, ?_⟩
        · simpa using hs.loaded
        · simpa using hs.filenames
        · rw [History.record_succeeded_of_not rfl]
          simpa using hs.made
        · simp [hfirst, LinkOp.linker]
        · simp [hfirst, LinkOp.linker]
        · rw [History.record_executables_of_not rfl]
          exact hs.hasExecutable
        · rw [History.record_executables_of_not rfl]
          exact hs.executables_le
        · rw [History.record_succeeded_of_not rfl]
          simpa using hs.entry
        · simp [LinkOp.linker]
        · intro lib' ok' hok
          simp only [History.record_firstLink, hfirst, LinkOp.linker, Option.map_some,
            Option.none_or, Option.some.injEq, Prod.mk.injEq] at hok
          obtain ⟨rfl, rfl⟩ := hok
          simpa [hs.unlinked hfirst] using hlog
        · intro lib' ok' hok
          rw [hfirst] at hok
          cases hok

theorem History.Sound.loadLibrary (hs : h.Sound) (lib : ElfLib File Elf)
    (allocators : ℕ → Allocator) (r : Registry) (filename : String) (fd : File) :
    ∃ res h', h.exec (.loadLibrary lib allocators r filename fd) = some (res, h') ∧
      h.Step (.loadLibrary lib allocators r filename fd) res h' := by
  cases hlinked : h.linkage.linkAttempted with
  | true =>
      have hfirst : h.firstLink.isSome := by rw [← hs.attempted, hlinked]
      refine ⟨false, _, ?_, hs.quiet_step rfl (.inl hfirst) h.linkage.symbols h.linkage.files
        (fun _ => rfl) (fun _ => rfl) ?_ nofun⟩
      · rw [History.exec, Linkage.loadLibrary_linked hlinked]
        rfl
      · intro hnone
        rw [hnone] at hfirst
        cases hfirst
  | false =>
      obtain ⟨symbols, r', freed, hfails, hload⟩ | ⟨symbols, load, r', hsteps, hload⟩ :=
        Linkage.loadLibrary_unlinked hlinked lib allocators r filename fd
      · refine ⟨false, _, ?_, hs.quiet_step rfl (.inr rfl) symbols h.linkage.files ?_ (fun _ => rfl)
          (fun _ _ _ => hfails) nofun⟩
        · rw [History.exec, hload]
          rfl
        · intro htrue
          rw [hlinked] at htrue
          cases htrue
      · have hmakes : LinkOp.Makes h.linkage.pid h.linkage.symbols load symbols
            (.loadLibrary lib allocators r filename fd) := hsteps
        refine ⟨true, _, ?_, hs.load_step hlinked rfl hmakes nofun⟩
        simp [History.exec, hload, Linkage.withRow, LinkOp.isExecutable]

theorem History.Sound.loadExecutable (hs : h.Sound) (lib : ElfLib File Elf)
    (allocators : ℕ → Allocator) (r : Registry) (filename : String) (fd : File) :
    ∃ res h', h.exec (.loadExecutable lib allocators r filename fd) = some (res, h') ∧
      h.Step (.loadExecutable lib allocators r filename fd) res h' := by
  by_cases hrefuse : h.linkage.linkAttempted || h.linkage.hasExecutable
  · refine ⟨false, _, ?_, hs.quiet_step rfl (.inr rfl) h.linkage.symbols h.linkage.files
      (fun _ => rfl) (fun _ => rfl) ?_ nofun⟩
    · rw [History.exec, Linkage.loadExecutable, if_pos hrefuse]
      rfl
    · intro hnone _ hzero
      have hattempted := hs.attempted
      have hexecutable := hs.hasExecutable
      rw [hnone] at hattempted
      rw [hzero rfl] at hexecutable
      simp [hattempted, hexecutable] at hrefuse
  · obtain ⟨hlinked, hnone⟩ : h.linkage.linkAttempted = false ∧
        h.linkage.hasExecutable = false := by simpa using hrefuse
    obtain ⟨symbols, r', freed, hfails, hload⟩ | ⟨symbols, load, r', hsteps, hload⟩ :=
      Linkage.loadLibrary_unlinked hlinked lib allocators r filename fd
    · refine ⟨false, _, ?_, hs.quiet_step rfl (.inr rfl) symbols h.linkage.files ?_ (fun _ => rfl)
        (fun _ _ _ => hfails) nofun⟩
      · rw [History.exec, Linkage.loadExecutable, if_neg hrefuse, hload]
        rfl
      · intro htrue
        rw [hlinked] at htrue
        cases htrue
    · have hmakes : LinkOp.Makes h.linkage.pid h.linkage.symbols load symbols
          (.loadExecutable lib allocators r filename fd) := hsteps
      refine ⟨true, _, ?_, hs.load_step hlinked rfl hmakes fun _ => hnone⟩
      simp [History.exec, Linkage.loadExecutable, hrefuse, hload, Linkage.withRow,
        LinkOp.isExecutable]

theorem History.Sound.garbageCollect (hs : h.Sound) :
    ∃ res h', h.exec .garbageCollect = some (res, h') ∧ h.Step .garbageCollect res h' := by
  refine ⟨true, _, rfl, ?_⟩
  by_cases hattempted : h.linkage.linkAttempted = true
  · rw [Linkage.garbageCollect, if_pos hattempted]
    exact hs.quiet_step rfl (.inr rfl) h.linkage.symbols [] (fun _ => rfl)
      (fun hl => absurd (hattempted.symm.trans hl) nofun) nofun nofun
  · rw [Linkage.garbageCollect, if_neg hattempted]
    exact hs.quiet_step rfl (.inr rfl) h.linkage.symbols h.linkage.files (fun _ => rfl)
      (fun _ => rfl) nofun nofun

theorem History.Sound.exec (hs : h.Sound) (op : LinkOp File Elf) :
    ∃ res h', h.exec op = some (res, h') ∧ h.Step op res h' := by
  cases op with
  | loadLibrary lib allocators r filename fd => exact hs.loadLibrary lib allocators r filename fd
  | loadExecutable lib allocators r filename fd =>
      exact hs.loadExecutable lib allocators r filename fd
  | link lib => exact hs.link lib
  | garbageCollect => exact hs.garbageCollect

end sound

/-- The calls `ops`, one after the other. -/
def History.execAll (h : History File Elf) (ops : List (LinkOp File Elf)) :
    Option (History File Elf) :=
  ops.foldlM (fun h op => (h.exec op).map Prod.snd) h

theorem History.Sound.execAll {h : History File Elf} (hs : h.Sound) (ops : List (LinkOp File Elf)) :
    ∃ h', h.execAll ops = some h' ∧ h'.Sound ∧ h'.linkage.pid = h.linkage.pid ∧
      h'.calls.map Prod.fst = h.calls.map Prod.fst ++ ops := by
  induction ops generalizing h with
  | nil => exact ⟨h, rfl, hs, rfl, (List.append_nil _).symm⟩
  | cons op ops ih =>
      obtain ⟨res, h₁, hexec, hstep⟩ := hs.exec op
      obtain ⟨h', hrun, hs', hpid, hcalls⟩ := ih hstep.sound
      refine ⟨h', ?_, hs', hpid.trans hstep.pid, ?_⟩
      · simp only [History.execAll, List.foldlM_cons, hexec]
        exact hrun
      · rw [hcalls, hstep.calls, List.map_append, List.append_assoc]
        rfl

/-- The `link` call returned true exactly if every pair was relocated. -/
theorem LinkLog.ok_iff {relocate : ℕ → Elf → Program → SymMap → Bool} {symbols : SymMap}
    {loads : List (Load Elf)} {log : List (Relocation Elf)} {ok : Bool}
    (h : LinkLog relocate symbols loads log ok) :
    ok = true ↔ (log = loads.map fun load => ⟨load.file, load.program, true⟩) ∧
      ∀ i load, loads[i]? = some load → relocate i load.file load.program symbols = true := by
  refine ⟨fun hok => ?_, fun ⟨hlog, _⟩ => ?_⟩
  · obtain ⟨hlen, hall⟩ := h.success hok
    have hpairs := h.order.eq_of_length (by simp [hlen])
    have htrue : log = (log.map fun r => (r.file, r.program)).map fun p => ⟨p.1, p.2, true⟩ := by
      rw [List.map_map]
      conv_lhs => rw [← List.map_id log]
      refine List.map_congr_left fun r hr => ?_
      rw [Function.comp_apply, ← hall r hr]
      rfl
    have hlog : log = loads.map fun load => ⟨load.file, load.program, true⟩ := by
      rw [htrue, hpairs, List.map_map]
      rfl
    refine ⟨hlog, fun i load hload => ?_⟩
    have hrow : log[i]? = some ⟨load.file, load.program, true⟩ := by
      rw [hlog, List.getElem?_map, hload, Option.map_some]
    exact (h.results i _ hrow).symm
  · cases hok : ok with
    | true => rfl
    | false =>
        obtain ⟨init, last, rfl, -, hlast⟩ := h.failure hok
        have hmem : last ∈
            loads.map fun load => (⟨load.file, load.program, true⟩ : Relocation Elf) :=
          hlog ▸ List.mem_append_right _ (List.mem_singleton_self _)
        obtain ⟨load, -, rfl⟩ := List.mem_map.mp hmem
        cases hlast

theorem History.Sound.isProgReady_iff {h : History File Elf} (hs : h.Sound) :
    h.linkage.isProgReady ↔ h.executables = 1 ∧ ∃ lib ok, h.firstLink = some (lib, ok) ∧
      (h.relocations = h.loads.map fun load => ⟨load.file, load.program, true⟩) ∧
      ∀ i load, h.loads[i]? = some load →
        lib.relocate i load.file load.program h.linkage.symbols = true := by
  have hone : h.linkage.hasExecutable = true ↔ h.executables = 1 := by
    rw [hs.hasExecutable]
    have hle := hs.executables_le
    omega
  rw [Linkage.isProgReady, Bool.and_eq_true, hone, hs.successful]
  refine and_congr_right fun _ => ⟨fun ⟨lib, hfirst⟩ => ?_, fun ⟨lib, ok, hfirst, hall⟩ => ?_⟩
  · exact ⟨lib, true, hfirst, (hs.linked lib true hfirst).ok_iff.mp rfl⟩
  · obtain rfl := (hs.linked lib ok hfirst).ok_iff.mpr hall
    exact ⟨lib, hfirst⟩

/-- Loading and linking in any order. -/
theorem linkage_sound (pid : Pid) (ops : List (LinkOp File Elf)) :
    ∃ h : History File Elf, (History.fresh pid).execAll ops = some h ∧
      h.calls.map Prod.fst = ops ∧ h.linkage.pid = pid ∧ h.Sound ∧
      (h.firstLink = none → h.linkage.files.length = h.linkage.loaded.length ∧
        h.linkage.filenames.length = h.linkage.loaded.length) ∧
      (h.firstLink = none → ∀ op : LinkOp File Elf, ∃ res h',
        h.exec op = some (res, h') ∧ BeforeLink h op res h') ∧
      (∀ lib ok, h.firstLink = some (lib, ok) → ∀ op : LinkOp File Elf, ∃ res h',
        h.exec op = some (res, h') ∧ AfterLink ok h op res h') ∧
      (h.linkage.isProgReady ↔ h.executables = 1 ∧ ∃ lib ok, h.firstLink = some (lib, ok) ∧
        (h.relocations = h.loads.map fun load => ⟨load.file, load.program, true⟩) ∧
        ∀ i load, h.loads[i]? = some load →
          lib.relocate i load.file load.program h.linkage.symbols = true) := by
  obtain ⟨h, hrun, hs, hpid, hcalls⟩ := (History.fresh_sound pid).execAll ops
  refine ⟨h, hrun, hcalls, hpid, hs, fun hfirst => ?_, fun hfirst op => ?_,
    fun lib ok hok op => ?_, hs.isProgReady_iff⟩
  · have hfiles := hs.files (by rw [hs.attempted, hfirst]; rfl)
    exact ⟨by simp [hfiles, hs.loaded], by simp [hs.filenames, hs.loaded]⟩
  · obtain ⟨res, h', hexec, hstep⟩ := hs.exec op
    exact ⟨res, h', hexec, hstep.before hfirst⟩
  · obtain ⟨res, h', hexec, hstep⟩ := hs.exec op
    exact ⟨res, h', hexec, hstep.after lib ok hok⟩

/-- Files are numbers, and there is no file 9. Each takes 64 bytes, is entered
where it is loaded, and cannot be relocated as pair `n`. -/
def elfSample (n : ℕ) : ElfLib ℕ ℕ where
  readDyn fd := if fd = 9 then none else some fd
  load _ := .alloc 0x10000 64 4 fun mem => .done (if mem = 0 then none else some ⟨mem, mem⟩)
  exportSymbols _ prog symbols :=
    (true, fun name => if name = "main" then some prog.entry else symbols name)
  relocate i _ _ symbols := i != n && (symbols "main").isSome
  getDynLibs _ := []

/-- A load of the file `fd` to `mem`. -/
def loadSample (n : ℕ) (name : String) (fd : ℕ) (mem : Word) : LinkOp ℕ ℕ :=
  .loadLibrary (elfSample n) (fun _ len _ _ => ⟨mem, len⟩) Registry.initial.newContext.2 name fd

/-- A library, the executable and a library, a second executable, a file that
is missing and one without memory; then `link`, and a load and a `link` after it. -/
def linkSample (n : ℕ) : List (LinkOp ℕ ℕ) :=
  [loadSample n "libfoo.so" 1 0x3ffb0000,
    .loadExecutable (elfSample n) (fun _ len _ _ => ⟨0x3ffb1000, len⟩)
      Registry.initial.newContext.2 "main" 2,
    .garbageCollect,
    loadSample n "libbar.so" 3 0x3ffb2000,
    .loadExecutable (elfSample n) (fun _ len _ _ => ⟨0x3ffb3000, len⟩)
      Registry.initial.newContext.2 "other" 4,
    loadSample n "missing.so" 9 0x3ffb3000,
    loadSample n "large.so" 5 0,
    .link (elfSample n),
    .garbageCollect,
    loadSample n "late.so" 6 0x3ffb3000,
    .link (elfSample 0)]

/-- With all pairs relocated the program is ready, entered in its second file;
where pair 1 fails, pair 2 is left out. -/
theorem linkage_sound_sample :
    (∃ h, (History.fresh 1).execAll (linkSample 7) = some h ∧ h.linkage.isProgReady ∧
      h.linkage.entryFunc = 0x3ffb1000 ∧
      h.linkage.filenames = ["libfoo.so", "main", "libbar.so"] ∧
      h.calls.map Prod.snd =
        [true, true, true, true, false, false, false, true, true, false, true]) ∧
    ∃ h, (History.fresh 1).execAll (linkSample 1) = some h ∧ ¬ h.linkage.isProgReady ∧
      h.relocations.map Relocation.ok = [true, false] ∧
      h.calls.map Prod.snd =
        [true, true, true, true, false, false, false, false, true, false, false] := by
  obtain ⟨h, hrun, -, -, -, -, -, -, hready⟩ := linkage_sound 1 (linkSample 7)
  obtain ⟨h', hrun', -, -, -, -, -, -, hready'⟩ := linkage_sound 1 (linkSample 1)
  obtain rfl := Option.some.inj hrun
  obtain rfl := Option.some.inj hrun'
  refine ⟨⟨_, rfl, hready.mpr ⟨rfl, elfSample 7, true, rfl, rfl, fun i load hload => ?_⟩,
    rfl, rfl, rfl⟩, _, rfl, fun hr => ?_, rfl, rfl⟩
  · have hi : i < 3 := (List.getElem?_eq_some_iff.mp hload).1
    have hne : (i != 7) = true := by
      rw [bne_iff_ne]
      omega
    show (i != 7 && true) = true
    rw [hne, Bool.and_true]
  · obtain ⟨-, lib, ok, -, hlog, -⟩ := hready'.mp hr
    cases congrArg List.length hlog

/-! ### Before linking -/

/-- The state of a linkage that has only seen loads: its lists are the columns
of one list of rows. -/
def Linkage.Unlinked (l : Linkage Elf) : Prop :=
  l.linkAttempted = false ∧ ∃ loads : List (Load Elf),
    l.loaded = loads.map Load.program ∧ l.files = loads.map Load.file

section unlinked

theorem Linkage.Unlinked.new (pid : Pid) : (Linkage.new pid : Linkage Elf).Unlinked :=
  ⟨rfl, [], rfl, rfl⟩

theorem Linkage.Unlinked.symbols (h : l.Unlinked) (symbols : SymMap) :
    ({ l with symbols := symbols } : Linkage Elf).Unlinked := h

theorem Linkage.Unlinked.loadLibrary (h : l.Unlinked) (lib : ElfLib File Elf)
    (allocators : ℕ → Allocator) (r : Registry) (filename : String) (fd : File) :
    (l.loadLibrary lib allocators r filename fd).2.1.Unlinked ∧
      (l.loadLibrary lib allocators r filename fd).2.1.pid = l.pid := by
  obtain ⟨hattempted, loads, hloaded, hfiles⟩ := h
  obtain ⟨symbols, r', freed, hload⟩ | ⟨-, symbols, load, r', -, hload⟩ :=
    l.loadLibrary_cases lib allocators r filename fd <;> rw [hload]
  · exact ⟨⟨hattempted, loads, hloaded, hfiles⟩, rfl⟩
  · exact ⟨⟨hattempted, loads ++ [load], by simp [hloaded], by simp [hfiles]⟩, rfl⟩

theorem Linkage.Unlinked.loadExecutable (h : l.Unlinked) (lib : ElfLib File Elf)
    (allocators : ℕ → Allocator) (r : Registry) (filename : String) (fd : File) :
    (l.loadExecutable lib allocators r filename fd).2.1.Unlinked ∧
      (l.loadExecutable lib allocators r filename fd).2.1.pid = l.pid := by
  have hload := h.loadLibrary lib allocators r filename fd
  unfold Linkage.loadExecutable
  split
  · exact ⟨h, rfl⟩
  · split <;> rename_i heq <;> rwa [heq] at hload

/-- Linking does not fail for lack of a file. -/
theorem Linkage.Unlinked.link (h : l.Unlinked) (lib : ElfLib File Elf) :
    ∃ ok l' log, l.link lib = some (ok, l', log) := by
  obtain ⟨hattempted, loads, hloaded, hfiles⟩ := h
  obtain ⟨ok, log, hrun, -⟩ :=
    ({ l with linkAttempted := true } : Linkage Elf).relocateAll_log lib [] loads hfiles
  rw [← hloaded] at hrun
  have hlink : l.link lib = some (ok,
      if ok then { l with linkAttempted := true, linkSuccessful := true }
      else { l with linkAttempted := true }, log) := by
    rw [Linkage.link, if_neg (by simp [hattempted])]
    exact congrArg (Option.bind · _) hrun
  exact ⟨ok, _, log, hlink⟩

end unlinked

end BadgeElfloader.Loader
