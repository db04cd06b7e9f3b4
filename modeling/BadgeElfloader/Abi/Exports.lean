import BadgeElfloader.Kernel.AbiWrapper
import BadgeElfloader.Loader.Linkage
import BadgeElfloader.Riscv.Copy
import BadgeElfloader.Transition.Numbering

/-!
The ABI table of the kernel build, and the wrappers that programs link against.

Both are made by `initCache` out of one map of native functions: entry `i` of
the map becomes entry `i` of the table, and its address is replaced by that of a
copy of `abiCallTemplate` with `i` behind it.
-/

namespace BadgeElfloader.Abi

open Riscv (Word nth memcpy memcpy_concat memcpy_nth memcpy_of_ne Apart)
open Kernel (abiCallTemplateEnd)
open Loader (SymMap)
open Transition

/-- The native functions in the order of the map, the words of the template, and
what `malloc` answers for one wrapper after the other: null, or a block that is
apart from all others. -/
structure Exports where
  natives : List (String × Word)
  template : List Word
  malloc : ℕ → Word
  nodup : (natives.map Prod.fst).Nodup
  size : natives.length < 2 ^ 32
  templateSize : template.length = 6
  apart : ∀ i j, i ≠ j → malloc i ≠ 0 → malloc j ≠ 0 → Apart (malloc i) 7 (malloc j) 7

structure ExportState where
  mem : Word → Word
  mallocs : ℕ
  cache : List (String × Word)
  abiTable : List Word

def ExportState.initial (mem : Word → Word) : ExportState := ⟨mem, 0, [], []⟩

section exports

variable (e : Exports)

/-! ### The functions of `abi.cpp` -/

/-- Generates an ABI call wrapper function. -/
def writeABIWrapper (abiIndex : ℕ) (s : ExportState) : Word × ExportState :=
  let mem := e.malloc s.mallocs
  let s := { s with mallocs := s.mallocs + 1 }
  if mem = 0 then (0, s)
  else
    -- Copy in the generic.
    let words := memcpy s.mem mem e.template
    -- Copy in the INDEX WORD.
    let indexPtr := nth mem e.template.length
    (mem, { s with mem := Function.update words indexPtr (BitVec.ofNat 32 abiIndex) })

/-- The loop of `initCache`, which replaces the addresses in the map. -/
def wrapEntries : List (String × Word) → ExportState → ExportState
  | [], s => s
  | (name, fptr) :: entries, s =>
      let res := writeABIWrapper e s.abiTable.length s
      wrapEntries entries
        { res.2 with
          cache := res.2.cache ++ [(name, res.1)]
          abiTable := res.2.abiTable ++ [fptr] }

/-- It is called while the cache is empty. -/
def initCache (s : ExportState) : ExportState := wrapEntries e e.natives s

def ExportState.ready (s : ExportState) : ExportState :=
  if s.cache.length = 0 then initCache e s else s

/-- Get the ABI TABLE. -/
def getAbiTable (s : ExportState) : List Word × ExportState := ((s.ready e).abiTable, s.ready e)

/-- Get the size of the ABI TABLE. -/
def getAbiTableSize (s : ExportState) : ℕ × ExportState :=
  ((s.ready e).abiTable.length, s.ready e)

/-- Exports ABI symbols into `map`. -/
def exportSymbols (map : SymMap) (s : ExportState) : SymMap × ExportState :=
  (fun name => (s.ready e).cache.lookup name <|> map name, s.ready e)

inductive ExportCall
  | exportSymbols (map : SymMap)
  | getAbiTable
  | getAbiTableSize

def ExportCall.exports : ExportCall → Bool
  | exportSymbols _ => true
  | _ => false

def ExportState.exec (s : ExportState) : ExportCall → ExportState
  | .exportSymbols map => (Abi.exportSymbols e map s).2
  | .getAbiTable => (Abi.getAbiTable e s).2
  | .getAbiTableSize => (Abi.getAbiTableSize e s).2

/-! ### What `initCache` makes -/

/-- The words of wrapper `i`. -/
def Exports.wrapper (i : ℕ) : List Word := e.template ++ [BitVec.ofNat 32 i]

/-- The state behind the entries `done`. -/
structure Wrapped (done : List (String × Word)) (s : ExportState) : Prop where
  mallocs : s.mallocs = done.length
  cache : s.cache = done.mapIdx fun i entry => (entry.1, e.malloc i)
  abiTable : s.abiTable = done.map Prod.snd
  wrappers : ∀ i < done.length, e.malloc i ≠ 0 → ∀ k (hk : k < (e.wrapper i).length),
    s.mem (nth (e.malloc i) k) = (e.wrapper i)[k]

end exports

section wrapped

variable {e : Exports} {done rest : List (String × Word)} {s : ExportState}

theorem Exports.wrapper_length (e : Exports) (i : ℕ) : (e.wrapper i).length = 7 := by
  rw [wrapper, List.length_append, e.templateSize]
  rfl

theorem Wrapped.initial (e : Exports) (mem : Word → Word) : Wrapped e [] (.initial mem) :=
  ⟨rfl, rfl, rfl, nofun⟩

theorem writeABIWrapper_eq (e : Exports) (abiIndex : ℕ) (s : ExportState) :
    writeABIWrapper e abiIndex s = (e.malloc s.mallocs,
      { s with
        mem := if e.malloc s.mallocs = 0 then s.mem
          else memcpy s.mem (e.malloc s.mallocs) (e.wrapper abiIndex)
        mallocs := s.mallocs + 1 }) := by
  unfold writeABIWrapper
  dsimp only
  split
  · rename_i hnull
    rw [hnull]
  · rw [Exports.wrapper, memcpy_concat]

/-- One more entry. A wrapper is written in a block of its own, so those before
it stay as they are. -/
theorem Wrapped.step (h : Wrapped e done s) (name : String) (fptr : Word) :
    let res := writeABIWrapper e s.abiTable.length s
    Wrapped e (done ++ [(name, fptr)])
      { res.2 with
        cache := res.2.cache ++ [(name, res.1)]
        abiTable := res.2.abiTable ++ [fptr] } := by
  intro res
  have hindex : s.abiTable.length = done.length := by rw [h.abiTable, List.length_map]
  simp only [res, writeABIWrapper_eq, hindex, h.mallocs]
  refine ⟨by simp, ?_, ?_, fun i hi hne k hk => ?_⟩
  · rw [h.cache, List.mapIdx_concat]
  · rw [h.abiTable, List.map_append]
    rfl
  · have hk7 : k < 7 := e.wrapper_length i ▸ hk
    rw [List.length_append, List.length_singleton] at hi
    dsimp only
    by_cases hlast : i = done.length
    · subst hlast
      rw [if_neg hne, memcpy_nth _ _ _ (by rw [e.wrapper_length]; decide) k hk]
    · have hold := h.wrappers i (by omega) hne k hk
      split
      · exact hold
      · rename_i hnew
        rw [memcpy_of_ne, hold]
        intro k' hk'
        rw [e.wrapper_length] at hk'
        exact (e.apart _ _ (Ne.symm hlast) hnew hne).nth_ne hk' hk7

theorem Wrapped.entries (h : Wrapped e done s) :
    Wrapped e (done ++ rest) (wrapEntries e rest s) := by
  induction rest generalizing done s with
  | nil => simpa [wrapEntries] using h
  | cons entry rest ih =>
      have hrest := ih (h.step entry.1 entry.2)
      rw [List.append_assoc] at hrest
      exact hrest

/-- The invariant of the calls: the first of them makes the cache. -/
def Settled (e : Exports) (s : ExportState) : Prop := Wrapped e e.natives (s.ready e)

theorem Settled.initial (e : Exports) (mem : Word → Word) : Settled e (.initial mem) :=
  (Wrapped.initial e mem).entries

/-- The cache is made once. -/
theorem Wrapped.ready (h : Wrapped e e.natives s) : s.ready e = s := by
  unfold ExportState.ready
  split
  · rename_i hempty
    rw [h.cache, List.length_mapIdx, List.length_eq_zero_iff] at hempty
    rw [initCache, hempty, wrapEntries]
  · rfl

theorem lookup_of_mem {entries : List (String × Word)} (h : (entries.map Prod.fst).Nodup)
    {name : String} {w : Word} (hmem : (name, w) ∈ entries) : entries.lookup name = some w := by
  induction entries with
  | nil => cases hmem
  | cons entry entries ih =>
      obtain ⟨hnot, hnodup⟩ := List.nodup_cons.mp h
      obtain rfl | hmem := List.mem_cons.mp hmem
      · simp
      · have hne : name ≠ entry.1 := fun heq => hnot (heq ▸ List.mem_map_of_mem hmem)
        rw [List.lookup_cons, beq_false_of_ne hne]
        exact ih hnodup hmem

theorem Wrapped.names (h : Wrapped e e.natives s) :
    s.cache.map Prod.fst = e.natives.map Prod.fst := by
  rw [h.cache]
  exact List.ext_getElem (by simp) (by simp)

/-- The address under which entry `i` is published. -/
theorem Wrapped.lookup (h : Wrapped e e.natives s) {i : ℕ} (hi : i < e.natives.length) :
    s.cache.lookup e.natives[i].1 = some (e.malloc i) := by
  refine lookup_of_mem ?_ ?_
  · rw [h.names]
    exact e.nodup
  · rw [h.cache, List.mem_mapIdx]
    exact ⟨i, hi, rfl⟩

theorem Wrapped.lookup_none (h : Wrapped e e.natives s) {name : String}
    (hname : name ∉ e.natives.map Prod.fst) : s.cache.lookup name = none := by
  rw [List.lookup_eq_none_iff]
  intro entry hentry
  have hmem := List.mem_map_of_mem (f := Prod.fst) hentry
  rw [h.names] at hmem
  have hne : name ≠ entry.1 := fun heq => hname (heq ▸ hmem)
  simpa using hne

/-- What is published under the name of an entry is its wrapper. -/
theorem Wrapped.lookup_inv (h : Wrapped e e.natives s) (map : SymMap) {name : String}
    {native w : Word} (hmem : (name, native) ∈ e.natives)
    (hw : (s.cache.lookup name <|> map name) = some w) :
    ∃ (i : ℕ) (hi : i < e.natives.length), e.natives[i] = (name, native) ∧ w = e.malloc i := by
  obtain ⟨i, hi, heq⟩ := List.mem_iff_getElem.mp hmem
  have hlookup := h.lookup hi
  rw [heq] at hlookup
  rw [hlookup] at hw
  exact ⟨i, hi, heq, (Option.some.inj hw).symm⟩

theorem Wrapped.code (h : Wrapped e e.natives s) {i : ℕ} (hi : i < e.natives.length)
    (hmalloc : e.malloc i ≠ 0) {k : ℕ} (hk : k < e.template.length) :
    s.mem (nth (e.malloc i) k) = e.template[k] := by
  have hword := h.wrappers i hi hmalloc k (by simp [Exports.wrapper]; omega)
  simp only [Exports.wrapper] at hword
  rwa [List.getElem_append_left hk] at hword

theorem Wrapped.index (h : Wrapped e e.natives s) {i : ℕ} (hi : i < e.natives.length)
    (hmalloc : e.malloc i ≠ 0) : (s.mem (e.malloc i + abiCallTemplateEnd)).toNat = i := by
  have hword := h.wrappers i hi hmalloc 6 (by rw [e.wrapper_length]; decide)
  simp only [Exports.wrapper] at hword
  rw [List.getElem_append_right e.templateSize.le] at hword
  have hindex : s.mem (e.malloc i + abiCallTemplateEnd) = BitVec.ofNat 32 i := by
    simpa [nth, e.templateSize, abiCallTemplateEnd] using hword
  rw [hindex, BitVec.toNat_ofNat, Nat.mod_eq_of_lt (hi.trans e.size)]

end wrapped

/-! ### Table and wrappers -/

/-- What `exportSymbols` has put in `out`, starting from `map`. -/
structure Published (e : Exports) (map out : SymMap) (t : ExportState) : Prop where
  all : ∀ name ∈ e.natives.map Prod.fst, (out name).isSome
  wrapper : ∀ name native w, (name, native) ∈ e.natives → out name = some w → w ≠ 0 ∧
    (∀ k (hk : k < e.template.length), t.mem (nth w k) = e.template[k]) ∧
    (t.mem (w + abiCallTemplateEnd)).toNat < (getAbiTableSize e t).1 ∧
    (getAbiTable e t).1[(t.mem (w + abiCallTemplateEnd)).toNat]? = some native
  distinct : ∀ n ∈ e.natives.map Prod.fst, ∀ m ∈ e.natives.map Prod.fst, n ≠ m → ∀ w v,
    out n = some w → out m = some v →
    t.mem (w + abiCallTemplateEnd) ≠ t.mem (v + abiCallTemplateEnd)
  others : ∀ name, name ∉ e.natives.map Prod.fst → out name = map name

/-- What a call does: what it publishes is right, and it changes no answer. -/
structure Agrees (e : Exports) (s : ExportState) (call : ExportCall) : Prop where
  published : ∀ map, call = .exportSymbols map →
    Published e map (exportSymbols e map s).1 (exportSymbols e map s).2
  table : (getAbiTable e (s.exec e call)).1 = (getAbiTable e s).1
  size : (getAbiTableSize e (s.exec e call)).1 = (getAbiTableSize e s).1
  addresses : ∀ map, (exportSymbols e map (s.exec e call)).1 = (exportSymbols e map s).1

section agrees

variable {e : Exports} {s : ExportState}

theorem exec_eq_ready (e : Exports) (s : ExportState) (call : ExportCall) :
    s.exec e call = s.ready e := by
  cases call <;> rfl

theorem Settled.exec {call : ExportCall} (hs : Settled e s) : Settled e (s.exec e call) := by
  unfold Settled
  rw [exec_eq_ready, Wrapped.ready hs]
  exact hs

theorem Wrapped.published (h : Wrapped e e.natives s)
    (hmalloc : ∀ i < e.natives.length, e.malloc i ≠ 0)
    (map : SymMap) : Published e map (fun name => s.cache.lookup name <|> map name) s where
  all name hname := by
    obtain ⟨entry, hmem, rfl⟩ := List.mem_map.mp hname
    obtain ⟨i, hi, rfl⟩ := List.mem_iff_getElem.mp hmem
    rw [h.lookup hi]
    rfl
  wrapper name native w hmem hw := by
    obtain ⟨i, hi, heq, rfl⟩ := h.lookup_inv map hmem hw
    rw [h.index hi (hmalloc i hi)]
    refine ⟨hmalloc i hi, fun k hk => h.code hi (hmalloc i hi) hk, ?_, ?_⟩
    · rw [getAbiTableSize, h.ready, h.abiTable, List.length_map]
      exact hi
    · rw [getAbiTable, h.ready, h.abiTable, List.getElem?_map, List.getElem?_eq_getElem hi, heq]
      rfl
  distinct n hn m hm hne w v hw hv := by
    obtain ⟨⟨_, fn⟩, hfn, rfl⟩ := List.mem_map.mp hn
    obtain ⟨⟨_, fm⟩, hfm, rfl⟩ := List.mem_map.mp hm
    obtain ⟨i, hi, hni, rfl⟩ := h.lookup_inv map hfn hw
    obtain ⟨j, hj, hmj, rfl⟩ := h.lookup_inv map hfm hv
    intro heq
    have hij := congrArg BitVec.toNat heq
    rw [h.index hi (hmalloc i hi), h.index hj (hmalloc j hj)] at hij
    subst hij
    exact hne (congrArg Prod.fst (hni.symm.trans hmj))
  others name hname := by
    rw [h.lookup_none hname]
    rfl

/-- A call agrees unless it publishes a wrapper that could not be allocated. -/
theorem agrees_iff (hs : Settled e s) (call : ExportCall) :
    Agrees e s call ↔ (call.exports → ∀ i < e.natives.length, e.malloc i ≠ 0) := by
  constructor
  · intro hagrees hexports i hi
    cases call with
    | exportSymbols map =>
        have hlookup : (exportSymbols e map s).1 e.natives[i].1 = some (e.malloc i) := by
          simp only [exportSymbols]
          rw [Wrapped.lookup hs hi]
          rfl
        exact ((hagrees.published map rfl).wrapper _ _ _ (List.getElem_mem hi) hlookup).1
    | getAbiTable => cases hexports
    | getAbiTableSize => cases hexports
  · intro hmalloc
    have hsame : (s.exec e call).ready e = s.ready e := by rw [exec_eq_ready, Wrapped.ready hs]
    refine ⟨fun map hcall => ?_, ?_, ?_, fun map => ?_⟩
    · subst hcall
      exact Wrapped.published hs (hmalloc rfl) map
    · rw [getAbiTable, hsame, getAbiTable]
    · rw [getAbiTableSize, hsame, getAbiTableSize]
    · rw [exportSymbols, hsame, exportSymbols]

/-- Table and wrappers agree in every call, if no symbols are exported or every
wrapper can be allocated. -/
theorem exports_agree_iff (e : Exports) (mem : Word → Word) (calls : List ExportCall) :
    EachCall (ExportState.exec e) (Agrees e) (.initial mem) calls ↔
      (∀ call ∈ calls, call.exports = false) ∨ ∀ i < e.natives.length, e.malloc i ≠ 0 := by
  rw [eachCall_iff_forall (fun s call (hs : Settled e s) => agrees_iff hs call)
    (fun s call => Settled.exec) (Settled.initial e mem) calls]
  constructor
  · intro h
    by_cases hexports : ∃ call ∈ calls, call.exports
    · obtain ⟨call, hmem, hcall⟩ := hexports
      exact .inr (h call hmem hcall)
    · exact .inl fun call hmem => by simpa using fun hcall => hexports ⟨call, hmem, hcall⟩
  · rintro (hnone | hmalloc) call hmem hcall
    · rw [hnone call hmem] at hcall
      cases hcall
    · exact hmalloc

/-- One function, and no memory for its wrapper. -/
def Exports.sample : Exports where
  natives := [("puts", 0x42001000)]
  template := List.replicate 6 0x13
  malloc _ := 0
  nodup := by decide
  size := by decide
  templateSize := rfl
  apart := fun _ _ _ hne => absurd rfl hne

/-- `puts` is exported as address 0. -/
theorem exports_null : ¬ EachCall (ExportState.exec .sample) (Agrees .sample)
    (.initial fun _ => 0) [.exportSymbols fun _ => none] := by
  intro h
  have hnull : (exportSymbols Exports.sample (fun _ => none) (.initial fun _ => 0)).1 "puts" =
      some 0 := by
    decide
  exact ((h.1.published _ rfl).wrapper "puts" 0x42001000 0 (by decide) hnull).1 rfl

end agrees

end BadgeElfloader.Abi
