import BadgeElfloader.Runner.Dependencies

/-!
The libraries that are registered, and the search path.

Registrations outlive the calls that make them, and `startFD` looks libraries up
among them. `Stands` says what is registered in terms of the calls that were
made, without the map.
-/

namespace BadgeElfloader.Runner

open Riscv (Word)
open Abi Loader Transition

/-- The explicitly registered dynamic libraries, and the dynamic library search
path. -/
structure Libraries where
  registered : Std.TreeMap String Registered
  searchPath : List String

inductive LibraryOp
  | registerBuf (filename : String) (buf bufLen : Word)
  | registerFile (filename fullpath : String)
  | unregister (filename : String)
  | addSearchDir (path : String)
  | removeSearchDir (path : String)
  deriving DecidableEq

namespace LibraryOp

/-- The name that a call is about. -/
def name : LibraryOp → Option String
  | registerBuf filename _ _ | registerFile filename _ | unregister filename => some filename
  | _ => none

/-- What a call registers. -/
def registers : LibraryOp → Option Registered
  | registerBuf _ buf bufLen => some ⟨true, "", buf, bufLen⟩
  | registerFile _ fullpath => some ⟨false, fullpath, 0, 0⟩
  | _ => none

end LibraryOp

namespace Libraries

def initial : Libraries := ⟨∅, []⟩

/-- Register a dynamic library from a buffer. -/
def registerBuf (s : Libraries) (filename : String) (buf bufLen : Word) : Libraries :=
  { s with registered := s.registered.insert filename ⟨true, "", buf, bufLen⟩ }

/-- Register a dynamic library from a path. -/
def registerFile (s : Libraries) (filename fullpath : String) : Libraries :=
  { s with registered := s.registered.insert filename ⟨false, fullpath, 0, 0⟩ }

/-- Unregister a dynamic library. -/
def unregister (s : Libraries) (filename : String) : Libraries :=
  if filename ∈ s.registered then { s with registered := s.registered.erase filename } else s

/-- Add a dynamic library search directory. -/
def addSearchDir (s : Libraries) (path : String) : Libraries :=
  if path ∈ s.searchPath then s else { s with searchPath := s.searchPath ++ [path] }

/-- Remove a dynamic library search directory. -/
def removeSearchDir (s : Libraries) (path : String) : Libraries :=
  if path ∈ s.searchPath then { s with searchPath := s.searchPath.erase path } else s

def exec (s : Libraries) : LibraryOp → Libraries
  | .registerBuf filename buf bufLen => s.registerBuf filename buf bufLen
  | .registerFile filename fullpath => s.registerFile filename fullpath
  | .unregister filename => s.unregister filename
  | .addSearchDir path => s.addSearchDir path
  | .removeSearchDir path => s.removeSearchDir path

/-- The libraries after the calls `ops`. -/
def run (ops : List LibraryOp) : Libraries := ops.foldl exec initial

/-- The last call about the name has registered `lib`. -/
def Stands (ops : List LibraryOp) (filename : String) (lib : Registered) : Prop :=
  ∃ before op behind, ops = before ++ op :: behind ∧ op.name = some filename ∧
    op.registers = some lib ∧ ∀ op' ∈ behind, op'.name ≠ some filename

/-- The last call about the directory has added it. -/
def InPath (ops : List LibraryOp) (dir : String) : Prop :=
  ∃ before behind, ops = before ++ .addSearchDir dir :: behind ∧ .removeSearchDir dir ∉ behind

/-- The directory has been in the path since a time when the other was not. -/
def Earlier (ops : List LibraryOp) (dir dir' : String) : Prop :=
  ∃ before behind, ops = before ++ behind ∧ dir ∈ (run before).searchPath ∧
    dir' ∉ (run before).searchPath ∧ .removeSearchDir dir ∉ behind

end Libraries

/-- What `startFD` depends on, with the libraries that are registered. -/
def Host.withLibraries {Elf : Type} (host : Host Elf) (s : Libraries) : Host Elf :=
  { host with registered := s.registered.toList }

/-! ### The registrations -/

namespace Libraries

section stands

variable {ops ops' : List LibraryOp} {op : LibraryOp} {filename dir dir' : String}
  {lib : Registered}

theorem run_snoc (ops : List LibraryOp) (op : LibraryOp) : run (ops ++ [op]) = (run ops).exec op :=
  List.foldl_append

theorem stands_snoc : Stands (ops ++ [op]) filename lib ↔
    if op.name = some filename then op.registers = some lib else Stands ops filename lib := by
  constructor
  · rintro ⟨before, op', behind, heq, hname, hlib, hlater⟩
    obtain rfl | ⟨behind, last, rfl⟩ := behind.eq_nil_or_concat'
    · obtain ⟨rfl, hop⟩ := List.append_inj' heq rfl
      obtain rfl := (List.cons.inj hop).1
      rw [if_pos hname]
      exact hlib
    · rw [← List.cons_append, ← List.append_assoc] at heq
      obtain ⟨rfl, hop⟩ := List.append_inj' heq rfl
      obtain rfl := (List.cons.inj hop).1
      rw [if_neg (hlater op (by simp))]
      exact ⟨before, op', behind, rfl, hname, hlib, fun o ho =>
        hlater o (List.mem_append_left _ ho)⟩
  · intro h
    split at h
    · rename_i hname
      exact ⟨ops, op, [], rfl, hname, h, nofun⟩
    · rename_i hname
      obtain ⟨before, op', behind, rfl, hname', hlib, hlater⟩ := h
      refine ⟨before, op', behind ++ [op], by simp, hname', hlib, fun o ho => ?_⟩
      obtain hold | hnew := List.mem_append.mp ho
      · exact hlater o hold
      · rwa [List.mem_singleton.mp hnew]

/-- What a call makes of the registrations. -/
theorem exec_registered (s : Libraries) (op : LibraryOp) (filename : String) :
    (s.exec op).registered[filename]? =
      if op.name = some filename then op.registers else s.registered[filename]? := by
  cases op with
  | registerBuf name buf bufLen | registerFile name fullpath =>
      simp only [exec, registerBuf, registerFile, Std.TreeMap.getElem?_insert, LibraryOp.name,
        LibraryOp.registers, Option.some.injEq, Std.LawfulEqCmp.compare_eq_iff_eq]
  | unregister name =>
      simp only [exec, unregister, LibraryOp.name, LibraryOp.registers, Option.some.injEq]
      split
      · rw [Std.TreeMap.getElem?_erase]
        simp only [Std.LawfulEqCmp.compare_eq_iff_eq]
      · rename_i hmem
        split
        · rename_i hname
          rw [← hname]
          exact Std.TreeMap.getElem?_eq_none hmem
        · rfl
  | addSearchDir path | removeSearchDir path =>
      simp only [exec, addSearchDir, removeSearchDir, LibraryOp.name]
      split <;> simp

theorem registered_iff (ops : List LibraryOp) (filename : String) (lib : Registered) :
    (run ops).registered[filename]? = some lib ↔ Stands ops filename lib := by
  induction ops using List.reverseRecOn with
  | nil =>
      constructor
      · intro h
        simp [run, initial] at h
      · rintro ⟨before, op, behind, heq, -⟩
        simp at heq
  | append_singleton ops op ih =>
      rw [run_snoc, exec_registered, stands_snoc]
      split
      · rfl
      · exact ih

/-- The same registrations, in the same order. -/
theorem registered_toList_congr
    (h : ∀ filename lib, Stands ops' filename lib ↔ Stands ops filename lib) :
    (run ops').registered.toList = (run ops).registered.toList := by
  refine (Std.TreeMap.Equiv.of_forall_constGet?_eq fun filename => ?_).toList_eq
  refine Option.ext fun lib => ?_
  rw [registered_iff, registered_iff, h]

/-! ### The search path -/

theorem exec_searchPath (s : Libraries) (op : LibraryOp) :
    (s.exec op).searchPath =
      match op with
      | .addSearchDir dir => if dir ∈ s.searchPath then s.searchPath else s.searchPath ++ [dir]
      | .removeSearchDir dir => s.searchPath.erase dir
      | _ => s.searchPath := by
  cases op with
  | removeSearchDir path =>
      simp only [exec, removeSearchDir]
      split
      · rfl
      · rename_i hmem
        exact (List.erase_of_not_mem hmem).symm
  | addSearchDir path =>
      simp only [exec, addSearchDir]
      split <;> rfl
  | unregister name =>
      simp only [exec, unregister]
      split <;> rfl
  | _ => rfl

theorem searchPath_nodup (ops : List LibraryOp) : (run ops).searchPath.Nodup := by
  induction ops using List.reverseRecOn with
  | nil => exact List.nodup_nil
  | append_singleton ops op ih =>
      rw [run_snoc, exec_searchPath]
      split
      · split
        · exact ih
        · rename_i hnew
          exact List.nodup_append_comm.mp (List.nodup_cons.mpr ⟨hnew, ih⟩)
      · exact ih.erase _
      · exact ih

theorem inPath_snoc : InPath (ops ++ [op]) dir ↔
    op = .addSearchDir dir ∨ InPath ops dir ∧ op ≠ .removeSearchDir dir := by
  constructor
  · rintro ⟨before, behind, heq, hkept⟩
    obtain rfl | ⟨behind, last, rfl⟩ := behind.eq_nil_or_concat'
    · obtain ⟨rfl, hop⟩ := List.append_inj' heq rfl
      exact .inl (List.cons.inj hop).1
    · rw [← List.cons_append, ← List.append_assoc] at heq
      obtain ⟨rfl, hop⟩ := List.append_inj' heq rfl
      obtain rfl := (List.cons.inj hop).1
      simp only [List.mem_append, List.mem_singleton, not_or] at hkept
      exact .inr ⟨⟨before, behind, rfl, hkept.1⟩, Ne.symm hkept.2⟩
  · rintro (rfl | ⟨⟨before, behind, rfl, hkept⟩, hop⟩)
    · exact ⟨ops, [], rfl, nofun⟩
    · exact ⟨before, behind ++ [op], by simp, by simpa using ⟨hkept, Ne.symm hop⟩⟩

theorem mem_searchPath_iff (ops : List LibraryOp) (dir : String) :
    dir ∈ (run ops).searchPath ↔ InPath ops dir := by
  induction ops using List.reverseRecOn with
  | nil =>
      constructor
      · intro h
        cases h
      · rintro ⟨before, behind, heq, -⟩
        simp at heq
  | append_singleton ops op ih =>
      rw [run_snoc, exec_searchPath, inPath_snoc, ← ih]
      cases op with
      | addSearchDir path =>
          by_cases hpath : path ∈ (run ops).searchPath
          · simp only [hpath, if_true, LibraryOp.addSearchDir.injEq, ne_eq, reduceCtorEq,
              not_false_eq_true, and_true]
            exact ⟨.inr, fun h => h.elim (fun heq => heq ▸ hpath) id⟩
          · simp only [hpath, if_false, List.mem_append, List.mem_singleton,
              LibraryOp.addSearchDir.injEq, ne_eq, reduceCtorEq, not_false_eq_true, and_true]
            exact ⟨fun h => h.elim .inr fun heq => .inl heq.symm,
              fun h => h.elim (fun heq => .inr heq.symm) .inl⟩
      | removeSearchDir path =>
          rw [(searchPath_nodup ops).mem_erase_iff]
          simp only [reduceCtorEq, false_or, ne_eq, LibraryOp.removeSearchDir.injEq]
          exact ⟨fun ⟨hne, hmem⟩ => ⟨hmem, fun heq => hne heq.symm⟩,
            fun ⟨hmem, hne⟩ => ⟨fun heq => hne heq.symm, hmem⟩⟩
      | _ => simp

theorem Earlier.snoc (h : Earlier ops dir dir') (hop : op ≠ .removeSearchDir dir) :
    Earlier (ops ++ [op]) dir dir' := by
  obtain ⟨before, behind, rfl, hmem, hnew, hkept⟩ := h
  exact ⟨before, behind ++ [op], by simp, hmem, hnew, by simpa using ⟨hkept, Ne.symm hop⟩⟩

/-- The directories are in the order in which they were added. -/
theorem searchPath_ordered (ops : List LibraryOp) :
    (run ops).searchPath.Pairwise (Earlier ops) := by
  induction ops using List.reverseRecOn with
  | nil => exact List.Pairwise.nil
  | append_singleton ops op ih =>
      rw [run_snoc, exec_searchPath]
      cases op with
      | addSearchDir path =>
          have hold : (run ops).searchPath.Pairwise (Earlier (ops ++ [.addSearchDir path])) :=
            ih.imp fun h => h.snoc nofun
          dsimp only
          split
          · exact hold
          · rename_i hnew
            rw [List.pairwise_append]
            refine ⟨hold, List.pairwise_singleton _ _, fun dir hdir dir' hdir' => ?_⟩
            obtain rfl := List.mem_singleton.mp hdir'
            exact ⟨ops, [.addSearchDir dir'], rfl, hdir, hnew, by simp⟩
      | removeSearchDir path =>
          refine (ih.sublist List.erase_sublist).imp_of_mem fun {dir dir'} hdir _ h => h.snoc ?_
          intro heq
          obtain rfl := LibraryOp.removeSearchDir.inj heq
          exact ((searchPath_nodup ops).mem_erase_iff.mp hdir).1 rfl
      | _ => exact ih.imp fun h => h.snoc nofun

theorem find?_registered (ops : List LibraryOp) (filename : String) :
    ((run ops).registered.toList.find? fun pair => pair.1 == filename) =
      (run ops).registered[filename]?.map fun lib => (filename, lib) := by
  have heq : (fun pair : String × Registered => pair.1 == filename) =
      fun pair => compare pair.1 filename == .eq := by
    funext pair
    rw [Bool.eq_iff_iff, beq_iff_eq, beq_iff_eq, Std.LawfulEqCmp.compare_eq_iff_eq]
  rw [heq]
  cases hlib : (run ops).registered[filename]? with
  | none =>
      rw [Option.map_none, Std.TreeMap.find?_toList_eq_none_iff_not_mem,
        Std.TreeMap.mem_iff_isSome_getElem?, hlib]
      nofun
  | some lib =>
      have hmem : filename ∈ (run ops).registered := by
        rw [Std.TreeMap.mem_iff_isSome_getElem?, hlib]
        rfl
      exact Std.TreeMap.find?_toList_eq_some_iff_getKey?_eq_some_and_getElem?_eq_some.mpr
        ⟨Std.TreeMap.getKey?_eq_some hmem, hlib⟩

end stands

end Libraries

/-! ### Launches -/

section launch

variable {Elf : Type} {host : Host Elf} {ops ops' : List LibraryOp} {x : Launch Elf}
  {names : List String} {l : LibLoop Elf} {lib : String} {reg : Registered}

open Libraries

theorem mem_names_iff (hx : x.host = host.withLibraries (run ops)) :
    lib ∈ x.host.names ↔ ∃ reg, Stands ops lib reg := by
  rw [hx, Host.names, Host.withLibraries, Std.TreeMap.map_fst_toList_eq_keys,
    Std.TreeMap.mem_keys, Std.TreeMap.mem_iff_isSome_getElem?, Option.isSome_iff_exists]
  exact exists_congr fun reg => registered_iff ops lib reg

/-- What stands is what is loaded. -/
theorem loadLibrary_stands (hx : x.host = host.withLibraries (run ops)) (hreg : Stands ops lib reg)
    (hlib : lib ∉ builtinLibs) (prog : Linkage Elf) (s : Store Elf) :
    loadLibrary x.host prog lib s = loadLibraryAbs x.host lib prog reg s := by
  have hplain : ¬ (lib = "libc.so" ∨ lib = "libbadge.so") := by
    rintro (rfl | rfl) <;> exact hlib (by decide)
  have hfind : (x.host.registered.find? fun pair => pair.1 == lib) = some (lib, reg) := by
    rw [hx, Host.withLibraries, find?_registered, (registered_iff ops lib reg).mpr hreg]
    rfl
  rw [loadLibrary, if_neg hplain, hfind]

/-- The loop asks for no library that is built in. -/
theorem next_not_builtin (hrun : Run (LoopStep x.host) x.start names l)
    (hnext : l.nextLib x.host = some lib) : lib ∉ builtinLibs := by
  have hlibs : builtinLibs ⊆ l.libs := by
    refine hrun.invariant (P := fun l => builtinLibs ⊆ l.libs) (fun l lib l' h hstep => ?_)
      Finset.subset_union_right
    cases hstep with
    | load _ _ _ => exact h.trans (Finset.subset_insert _ _)
  have hnew : lib ∉ l.libs := by simpa using List.find?_some hnext
  exact fun hmem => hnew (hlibs hmem)

end launch

/-- What `startFD` loads depends on the last call about each name and on nothing
else: the loop completes if all that is needed stands and loads, every library
is opened as it was registered last, and calls that leave the same libraries make
no difference. The search path has the directories once each and in order. -/
theorem registrations_decide {Elf : Type} (host : Host Elf) (ops : List LibraryOp) (x : Launch Elf)
    (hx : x.host = host.withLibraries (Libraries.run ops)) (needs : String → Option (List String))
    (hloads : x.LoadsAs needs) :
    (∃ ok l, loadMyLib x.host (x.host.registered.length + 1) x.start = some (ok, l) ∧
      (ok = true ↔ ∀ lib, x.Needed needs lib →
        (∃ reg, Libraries.Stands ops lib reg) ∧ needs lib ≠ none)) ∧
      (∀ names l lib reg, Run (LoopStep x.host) x.start names l → l.nextLib x.host = some lib →
        Libraries.Stands ops lib reg →
          loadLibrary x.host l.prog lib l.store = loadLibraryAbs x.host lib l.prog reg l.store) ∧
      (∀ ops', (∀ lib reg, Libraries.Stands ops' lib reg ↔ Libraries.Stands ops lib reg) →
        ∀ cb, startFD (host.withLibraries (Libraries.run ops')) x.registry x.filename x.fd cb =
          startFD x.host x.registry x.filename x.fd cb) ∧
      (Libraries.run ops).searchPath.Nodup ∧
      (∀ dir, dir ∈ (Libraries.run ops).searchPath ↔ Libraries.InPath ops dir) ∧
      (Libraries.run ops).searchPath.Pairwise (Libraries.Earlier ops) := by
  refine ⟨?_, fun names l lib reg hrun hnext hreg =>
    loadLibrary_stands hx hreg (next_not_builtin hrun hnext) _ _, fun ops' hsame cb => ?_,
    Libraries.searchPath_nodup ops, Libraries.mem_searchPath_iff ops,
    Libraries.searchPath_ordered ops⟩
  · obtain ⟨ok, loaded, tries, l, hloop, hcomputes⟩ := hloads.computes
    refine ⟨ok, l, hloop, ?_⟩
    rw [← Bool.not_eq_false, hcomputes.fails, not_exists]
    refine forall_congr' fun lib => ?_
    rw [not_and, not_or, not_not, mem_names_iff hx]
  · rw [hx, Host.withLibraries, Host.withLibraries, Libraries.registered_toList_congr hsame]

/-- Three libraries, of which one is registered again, for another file. -/
def sampleLibraries : List LibraryOp :=
  [.registerFile "libfoo.so" "/old/libfoo.so", .addSearchDir "/lib",
    .registerFile "libbar.so" "/lib/libbar.so", .registerFile "libfoo.so" "/lib/libfoo.so",
    .registerFile "libbaz.so" "/lib/libbaz.so"]

/-- The second file is the one that is opened. -/
theorem registrations_decide_sample :
    loadLibrary Launch.sample.host Launch.sample.start.prog "libfoo.so" Launch.sample.start.store =
      loadLibraryAbs Launch.sample.host "libfoo.so" Launch.sample.start.prog
        ⟨false, "/lib/libfoo.so", 0, 0⟩ Launch.sample.start.store := by
  have h := registrations_decide Launch.sample.host sampleLibraries Launch.sample rfl _
    Launch.sample_loadsAs
  refine h.2.1 [] _ "libfoo.so" _ (.nil _) (by decide)
    ⟨[.registerFile "libfoo.so" "/old/libfoo.so", .addSearchDir "/lib",
        .registerFile "libbar.so" "/lib/libbar.so"],
      .registerFile "libfoo.so" "/lib/libfoo.so",
      [.registerFile "libbaz.so" "/lib/libbaz.so"], rfl, rfl, rfl, by decide⟩

end BadgeElfloader.Runner
