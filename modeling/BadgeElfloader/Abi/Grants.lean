import BadgeElfloader.Abi.Ranges

/-!
Contexts that were made by calls, and what they handed out.

A `Grant` is a live mapping together with the request behind it. What a request
asked for is where a program image may be, and what it was promised is what the
context records. If the request fits, both are inside of its block, and so they
are apart from every block that the allocator gives later.
-/

namespace BadgeElfloader.Abi

open Riscv (Word)

/-- A request that was granted. -/
structure Grant extends Mapping where
  minLength : Word
  minAlign : Word

/-- The range that `map` records for the request. -/
def Grant.promise (g : Grant) : MemRange :=
  ⟨g.base, roundedLength g.minLength (alignment g.minAlign)⟩

/-- How far behind its address a request reaches. -/
def Grant.extent (g : Grant) : ℕ := max g.minLength.toNat g.promise.length.toNat

/-- No address is in both ranges. -/
def MemRange.Disjoint (r r' : MemRange) : Prop :=
  ∀ a : ℕ, ¬ (r.base.toNat ≤ a ∧ a < r.base.toNat + r.length.toNat ∧
    r'.base.toNat ≤ a ∧ a < r'.base.toNat + r'.length.toNat)

/-- The allocator keeps its promises, and keeps off the blocks that are in use. -/
def Honours (allocator : Allocator) (inUse : List MemRange) : Prop :=
  Conforming allocator ∧ ∀ length allowWrite allowExec,
    (allocator length allowWrite allowExec).base = 0 ∨
      ∀ b ∈ inUse, (allocator length allowWrite allowExec).Disjoint b

/-- The `n` bytes at `a` and the `m` bytes at `b` have a byte in common. -/
def Overlaps (a : Word) (n : ℕ) (b : Word) (m : ℕ) : Prop :=
  ∃ i < n, ∃ j < m, a + BitVec.ofNat 32 i = b + BitVec.ofNat 32 j

/-- A context that was made by calls of `map` and `unmap`, and the requests that
have been granted and not been unmapped. -/
inductive Granted : Context → List Grant → Prop
  | empty (pid : BitVec 32) : Granted ⟨[], [], pid⟩ []
  | map {c c' : Context} {gs : List Grant} {allocator : Allocator} {minLength minAlign base : Word}
      {allowWrite allowExec : Bool} {block : MemRange} :
      Granted c gs → Honours allocator c.actual →
      c.map allocator minLength allowWrite allowExec minAlign = (base, c', some block) →
      Granted c' (gs ++ [⟨⟨base, block⟩, minLength, minAlign⟩])
  | unmap {c c' : Context} {gs : List Grant} {base : Word} {freed : Option MemRange} :
      Granted c gs → c.unmap base = some (true, c', freed) →
      Granted c' (gs.eraseP fun g => base == g.base)

/-- A granted request and its block. -/
structure Grant.Sound (g : Grant) : Prop where
  bounded : g.block.base.toNat + g.block.length.toNat ≤ 2 ^ 32
  inside : Fits g.minLength g.minAlign → g.block.Covers g.base.toNat g.extent

/-- The context has a row for every request. -/
structure Books (c : Context) (gs : List Grant) : Prop where
  exact : (⟨c, c.actual, [], gs.map Grant.toMapping⟩ : Lifetime).Exact
  promises : c.mapped.map MemMapped.promise = gs.map Grant.promise
  sound : ∀ g ∈ gs, g.Sound

section overlaps

variable {a b : Word} {n m m' : ℕ} {r r' : MemRange}

theorem overlaps_max : Overlaps a n b (max m m') ↔ Overlaps a n b m ∨ Overlaps a n b m' := by
  constructor
  · rintro ⟨i, hi, j, hj, heq⟩
    rcases lt_max_iff.mp hj with hj | hj
    · exact .inl ⟨i, hi, j, hj, heq⟩
    · exact .inr ⟨i, hi, j, hj, heq⟩
  · rintro (⟨i, hi, j, hj, heq⟩ | ⟨i, hi, j, hj, heq⟩)
    · exact ⟨i, hi, j, lt_max_of_lt_left hj, heq⟩
    · exact ⟨i, hi, j, lt_max_of_lt_right hj, heq⟩

/-- Inside of a block no address wraps. -/
theorem MemRange.Covers.toNat_add (h : r.Covers a.toNat n)
    (hr : r.base.toNat + r.length.toNat ≤ 2 ^ 32) {i : ℕ} (hi : i < n) :
    (a + BitVec.ofNat 32 i).toNat = a.toNat + i := by
  obtain ⟨-, hend⟩ := h
  rw [BitVec.toNat_add, BitVec.toNat_ofNat, Nat.mod_eq_of_lt (show i < 2 ^ 32 by omega),
    Nat.mod_eq_of_lt (by omega)]

/-- What is inside of disjoint blocks does not overlap. -/
theorem not_overlaps (ha : r.Covers a.toNat n) (hr : r.base.toNat + r.length.toNat ≤ 2 ^ 32)
    (hb : r'.Covers b.toNat m) (hr' : r'.base.toNat + r'.length.toNat ≤ 2 ^ 32)
    (h : r.Disjoint r') : ¬ Overlaps a n b m := by
  rintro ⟨i, hi, j, hj, heq⟩
  have hsame := congrArg BitVec.toNat heq
  rw [ha.toNat_add hr hi, hb.toNat_add hr' hj] at hsame
  obtain ⟨hastart, haend⟩ := ha
  obtain ⟨hbstart, hbend⟩ := hb
  exact h (a.toNat + i) ⟨by omega, by omega, by omega, by omega⟩

end overlaps

section books

variable {c c' : Context} {gs : List Grant} {allocator : Allocator}
  {minLength minAlign base : Word} {allowWrite allowExec : Bool} {block : MemRange}

/-- A `map` that hands something out. -/
theorem Context.map_some
    (h : c.map allocator minLength allowWrite allowExec minAlign = (base, c', some block)) :
    ¬(minAlign &&& (minAlign - 1) ≠ 0 ∨ minLength = 0) ∧
      requestBlock allocator (roundedLength minLength (alignment minAlign))
        (alignment minAlign) allowWrite allowExec = block ∧
      block.base ≠ 0 ∧ base = alignedBase block (alignment minAlign) ∧
      c' = { c with
        actual := c.actual ++ [block]
        mapped := c.mapped ++
          [⟨⟨base, roundedLength minLength (alignment minAlign)⟩, c.actual.length⟩] } := by
  by_cases hrefused : minAlign &&& (minAlign - 1) ≠ 0 ∨ minLength = 0
  · rw [map_refused hrefused] at h
    cases h
  by_cases hnull : (requestBlock allocator (roundedLength minLength (alignment minAlign))
      (alignment minAlign) allowWrite allowExec).base = 0
  · rw [map_null hnull] at h
    cases h
  rw [map_granted hrefused rfl hnull] at h
  simp only [Prod.mk.injEq, Option.some.injEq] at h
  obtain ⟨rfl, rfl, rfl⟩ := h
  exact ⟨hrefused, rfl, hnull, rfl, rfl⟩

theorem Grant.sound_of_map (hconf : Conforming allocator)
    (h : c.map allocator minLength allowWrite allowExec minAlign = (base, c', some block)) :
    Grant.Sound ⟨⟨base, block⟩, minLength, minAlign⟩ := by
  obtain ⟨hrefused, hblock, hbase, rfl, -⟩ := Context.map_some h
  have hbounded : block.base.toNat + block.length.toNat ≤ 2 ^ 32 := by
    rw [requestBlock_eq] at hblock
    obtain hnull | hanswer := hblock ▸ hconf _ allowWrite allowExec
    · exact absurd hnull hbase
    · exact hanswer.2.1
  refine ⟨hbounded, fun hfits => ?_⟩
  obtain ⟨hlength, hrequest⟩ := (or_assoc.mpr hfits).resolve_left hrefused
  obtain ⟨haddr, hend⟩ := promise_inside hconf hlength hrequest (not_or.mp hrefused).2 hblock hbase
  have hle := le_roundUp block.base.toNat (requestAlign minAlign)
  have hmin := le_roundUp minLength.toNat (requestAlign minAlign)
  have hrounded : (roundedLength minLength (alignment minAlign)).toNat =
      roundUp minLength.toNat (requestAlign minAlign) := by
    rw [roundedLength_toNat minLength (alignment_toNat minAlign ▸ requestAlign_pos minAlign),
      alignment_toNat, Nat.mod_eq_of_lt hlength]
  have hextent : max minLength.toNat (roundedLength minLength (alignment minAlign)).toNat =
      (roundedLength minLength (alignment minAlign)).toNat := max_eq_right (hrounded ▸ hmin)
  unfold Grant.extent Grant.promise
  rw [hextent]
  exact ⟨haddr ▸ hle, haddr ▸ hend⟩

theorem Books.empty (pid : BitVec 32) : Books ⟨[], [], pid⟩ [] :=
  ⟨⟨rfl, rfl, .refl []⟩, rfl, nofun⟩

theorem Books.map (hb : Books c gs) (hconf : Conforming allocator)
    (h : c.map allocator minLength allowWrite allowExec minAlign = (base, c', some block)) :
    Books c' (gs ++ [⟨⟨base, block⟩, minLength, minAlign⟩]) := by
  have hsound := Grant.sound_of_map hconf h
  obtain ⟨-, -, -, -, rfl⟩ := Context.map_some h
  refine ⟨⟨?_, ?_, ?_⟩, ?_, ?_⟩
  · simpa using hb.exact.actual
  · simpa using hb.exact.mapped
  · simp
  · simpa [Grant.promise] using hb.promises
  · intro g hg
    rcases List.mem_append.mp hg with hg | hg
    · exact hb.sound g hg
    · rw [List.mem_singleton.mp hg]
      exact hsound

theorem Books.unmap (hb : Books c gs) {freed : Option MemRange}
    (h : c.unmap base = some (true, c', freed)) :
    Books c' (gs.eraseP fun g => base == g.base) := by
  have hexact := hb.exact
  cases hi : (gs.map Grant.toMapping).findIdx? fun m => base == m.base with
  | none =>
      rw [hexact.unmap_none hi] at h
      cases h
  | some i =>
      obtain ⟨m, hm, -, hunmap⟩ := hexact.unmap_some hi
      rw [hunmap] at h
      simp only [Option.some.injEq, Prod.mk.injEq, true_and] at h
      obtain ⟨rfl, -⟩ := h
      have hrow := hexact.eraseIdx hm
      rw [List.findIdx?_map] at hi
      have herase : gs.eraseP (fun g => base == g.base) = gs.eraseIdx i := by
        rw [List.eraseP_eq_eraseIdx]
        simp only [Function.comp_def] at hi
        rw [hi]
      rw [herase]
      refine ⟨⟨?_, ?_, ?_⟩, ?_, fun g hg => hb.sound g (List.mem_of_mem_eraseIdx hg)⟩
      · rw [List.eraseIdx_map] at hrow
        exact hrow.actual
      · rw [List.eraseIdx_map] at hrow
        exact hrow.mapped
      · simp
      · rw [← List.eraseIdx_map, hb.promises, List.eraseIdx_map]

theorem Granted.books (h : Granted c gs) : Books c gs := by
  induction h with
  | empty pid => exact .empty pid
  | map _ hhonours hmap ih => exact ih.map hhonours.1 hmap
  | unmap _ hunmap ih => exact ih.unmap hunmap

/-- A range that overlaps neither mappings nor images keeps off all requests. -/
theorem Books.apart_iff (hb : Books c gs) (a : Word) (n : ℕ) :
    ((∀ m ∈ c.mapped, ¬ Overlaps a n m.promise.base m.promise.length.toNat) ∧
      ∀ g ∈ gs, ¬ Overlaps a n g.base g.minLength.toNat) ↔
      ∀ g ∈ gs, ¬ Overlaps a n g.base g.extent := by
  have hpromises : (∀ m ∈ c.mapped, ¬ Overlaps a n m.promise.base m.promise.length.toNat) ↔
      ∀ g ∈ gs, ¬ Overlaps a n g.promise.base g.promise.length.toNat := by
    have hlist := congrArg
      (fun l : List MemRange => ∀ r ∈ l, ¬ Overlaps a n r.base r.length.toNat) hb.promises
    simpa only [List.forall_mem_map] using Eq.to_iff hlist
  rw [hpromises]
  constructor
  · rintro ⟨hmap, himg⟩ g hg hover
    rcases overlaps_max.mp hover with h | h
    · exact himg g hg h
    · exact hmap g hg h
  · intro h
    exact ⟨fun g hg hover => h g hg (overlaps_max.mpr (.inr hover)),
      fun g hg hover => h g hg (overlaps_max.mpr (.inl hover))⟩

/-- A block that the allocator gives keeps off all requests that fit. -/
theorem Books.apart_of_fits (hb : Books c gs) {mem : MemRange}
    (hdisjoint : ∀ b ∈ c.actual, mem.Disjoint b)
    (hmem : mem.base.toNat + mem.length.toNat ≤ 2 ^ 32) {n : ℕ}
    (hcovers : mem.Covers mem.base.toNat n) {g : Grant} (hg : g ∈ gs)
    (hfits : Fits g.minLength g.minAlign) : ¬ Overlaps mem.base n g.base g.extent := by
  have hsound := hb.sound g hg
  have hblock : g.block ∈ c.actual := by
    rw [show c.actual = (gs.map Grant.toMapping).map Mapping.block from hb.exact.actual]
    exact List.mem_map_of_mem (List.mem_map_of_mem hg)
  exact not_overlaps hcovers hmem (hsound.inside hfits) hsound.bounded (hdisjoint _ hblock)

end books

end BadgeElfloader.Abi
