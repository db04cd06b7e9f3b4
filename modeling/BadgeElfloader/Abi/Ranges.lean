import BadgeElfloader.Abi.Context
import Mathlib.Algebra.Group.Nat.Defs

/-!
Where `Context::map` puts what it promises.

The request is rounded up to the alignment, enlarged by the alignment, and the
base is pushed up inside of the block, all in 32-bit arithmetic. `Fits` says
that none of this wraps, and that is just what it takes for the promise to be
inside of the block.
-/

namespace BadgeElfloader.Abi

open Riscv (Word)

/-! ### Rounding -/

/-- The next multiple of `a`. -/
def roundUp (n a : ℕ) : ℕ := if n % a ≠ 0 then n + (a - n % a) else n

section roundUp

variable {n a : ℕ}

theorem le_roundUp (n a : ℕ) : n ≤ roundUp n a := by
  unfold roundUp
  split <;> omega

theorem roundUp_lt (ha : 0 < a) : roundUp n a < n + a := by
  unfold roundUp
  split <;> omega

theorem dvd_roundUp (ha : 0 < a) : a ∣ roundUp n a := by
  have hlt := Nat.mod_lt n ha
  unfold roundUp
  split
  · have hsum : n + (a - n % a) = a * (n / a + 1) := by
      have hdiv := Nat.div_add_mod n a
      rw [Nat.mul_succ]
      omega
    exact ⟨_, hsum⟩
  · exact Nat.dvd_of_mod_eq_zero (by omega)

theorem add_le_of_dvd_of_lt {m n a : ℕ} (hm : a ∣ m) (hn : a ∣ n) (hlt : m < n) : m + a ≤ n := by
  have hle := Nat.le_of_dvd (Nat.sub_pos_of_lt hlt) (Nat.dvd_sub hn hm)
  omega

/-- Rounding up does not go past a multiple of the alignment. -/
theorem roundUp_le {N : ℕ} (ha : 0 < a) (hN : a ∣ N) (hn : n ≤ N) : roundUp n a ≤ N := by
  by_contra hgt
  have hadd := add_le_of_dvd_of_lt hN (dvd_roundUp (n := n) ha) (not_le.mp hgt)
  have hlt := roundUp_lt (n := n) ha
  omega

end roundUp

theorem umod_ne_zero_iff (x y : Word) : x % y ≠ 0 ↔ x.toNat % y.toNat ≠ 0 := by
  rw [← BitVec.toNat_umod, ne_eq, ne_eq, ← BitVec.toNat_inj]
  rfl

theorem roundedLength_toNat (minLength : Word) {align : Word} (halign : 0 < align.toNat) :
    (roundedLength minLength align).toNat = roundUp minLength.toNat align.toNat % 2 ^ 32 := by
  have hlt := Nat.mod_lt minLength.toNat halign
  have hle : minLength % align ≤ align := by
    rw [BitVec.le_def, BitVec.toNat_umod]
    exact hlt.le
  unfold roundedLength roundUp
  simp only [umod_ne_zero_iff]
  split
  · rw [BitVec.toNat_add, BitVec.toNat_sub_of_le hle, BitVec.toNat_umod]
  · rw [Nat.mod_eq_of_lt minLength.isLt]

/-- Pushing the base up wraps only if the aligned base is beyond the memory. -/
theorem alignedBase_toNat {mem : MemRange} {align : Word} (halign : wordSize < align)
    (hbase : roundUp mem.base.toNat align.toNat < 2 ^ 32) :
    (alignedBase mem align).toNat = roundUp mem.base.toNat align.toNat := by
  have hpos : wordSize.toNat < align.toNat := halign
  have hlt := Nat.mod_lt mem.base.toNat (Nat.zero_lt_of_lt hpos)
  rw [alignedBase, if_neg (by simpa using halign)]
  unfold roundUp at hbase ⊢
  simp only [umod_ne_zero_iff]
  split
  · rename_i hne
    rw [if_pos hne] at hbase
    rw [BitVec.toNat_sub, BitVec.toNat_add, BitVec.toNat_umod]
    omega
  · rfl

/-! ### The request -/

/-- The alignment of a request. -/
def requestAlign (minAlign : Word) : ℕ := max 4 minAlign.toNat

theorem alignment_toNat (minAlign : Word) : (alignment minAlign).toNat = requestAlign minAlign := by
  have hword : wordSize.toNat = 4 := rfl
  unfold alignment requestAlign
  split <;> rename_i h <;> rw [BitVec.le_def, hword] at h <;> omega

/-- An alignment that is accepted divides the size of the memory. -/
theorem requestAlign_dvd {minAlign : Word} (h : minAlign &&& (minAlign - 1) = 0) :
    requestAlign minAlign ∣ 2 ^ 32 := by
  unfold requestAlign
  rcases Nat.lt_or_ge 4 minAlign.toNat with hlt | hle
  · have hbits : minAlign.toNat &&& (minAlign.toNat - 1) = 0 := by
      have hnat := congrArg BitVec.toNat h
      rwa [BitVec.toNat_and,
        BitVec.toNat_sub_of_le (by rw [BitVec.le_def]; exact Nat.one_le_of_lt hlt)]
        at hnat
    obtain ⟨k, hk⟩ := (Nat.and_sub_one_eq_zero_iff_isPowerOfTwo (Nat.ne_zero_of_lt hlt)).mp hbits
    rw [Nat.max_eq_right hlt.le, hk]
    have hpow : 2 ^ k < 2 ^ 32 := hk ▸ minAlign.isLt
    exact Nat.pow_dvd_pow 2 ((Nat.pow_lt_pow_iff_right (by decide)).mp hpow).le
  · rw [Nat.max_eq_left hle]
    decide

/-- What an allocator promises: null, or a block that is as long as was asked
for, does not wrap, and has an aligned base. -/
def Conforming (allocator : Allocator) : Prop :=
  ∀ length allowWrite allowExec,
    let mem := allocator length allowWrite allowExec
    mem.base = 0 ∨ length.toNat ≤ mem.length.toNat ∧
      mem.base.toNat + mem.length.toNat ≤ 2 ^ 32 ∧ 4 ∣ mem.base.toNat

/-- The `length` bytes from `base` on are inside of the range. -/
def MemRange.Covers (r : MemRange) (base length : ℕ) : Prop :=
  r.base.toNat ≤ base ∧ base + length ≤ r.base.toNat + r.length.toNat

/-- A request is refused and nothing changes, or it is granted with an aligned
address, and the range asked for is inside of the block that the allocator has
answered with, which is recorded for it, and of the promise. -/
def Context.MapsInside (c : Context) (allocator : Allocator) (minLength : Word)
    (allowWrite allowExec : Bool) (minAlign : Word) : Prop :=
  let r := c.map allocator minLength allowWrite allowExec minAlign
  let got := mapBlock allocator minLength allowWrite allowExec minAlign
  (r.1 = 0 → got = none ∧ r.2.1.actual = c.actual ∧ r.2.1.mapped = c.mapped) ∧
    (r.1 ≠ 0 → requestAlign minAlign ∣ r.1.toNat ∧ ∃ block promise,
      got = some block ∧ r.2.2 = some block ∧
      block = requestBlock allocator (roundedLength minLength (alignment minAlign))
        (alignment minAlign) allowWrite allowExec ∧
      r.2.1.actual = c.actual ++ [block] ∧
      r.2.1.mapped = c.mapped ++ [⟨promise, c.actual.length⟩] ∧
      block.Covers r.1.toNat minLength.toNat ∧ promise.Covers r.1.toNat minLength.toNat)

/-- The request is refused, or neither the rounded length nor what is added for
the alignment is too much for 32 bits. -/
def Fits (minLength minAlign : Word) : Prop :=
  minAlign &&& (minAlign - 1) ≠ 0 ∨ minLength = 0 ∨
    roundUp minLength.toNat (requestAlign minAlign) < 2 ^ 32 ∧
      (4 < requestAlign minAlign →
        roundUp minLength.toNat (requestAlign minAlign) + requestAlign minAlign < 2 ^ 32)

section map

variable {c : Context} {allocator : Allocator} {minLength minAlign : Word}
  {allowWrite allowExec : Bool} {mem : MemRange}

theorem Context.map_refused (h : minAlign &&& (minAlign - 1) ≠ 0 ∨ minLength = 0) :
    c.map allocator minLength allowWrite allowExec minAlign = (0, c, none) := if_pos h

theorem Context.map_null
    (hmem : (requestBlock allocator (roundedLength minLength (alignment minAlign))
      (alignment minAlign) allowWrite allowExec).base = 0) :
    c.map allocator minLength allowWrite allowExec minAlign = (0, c, none) := by
  unfold Context.map
  split
  · rfl
  · exact if_pos hmem

theorem Context.map_granted (h : ¬(minAlign &&& (minAlign - 1) ≠ 0 ∨ minLength = 0))
    (hmem : requestBlock allocator (roundedLength minLength (alignment minAlign))
      (alignment minAlign) allowWrite allowExec = mem) (hbase : mem.base ≠ 0) :
    c.map allocator minLength allowWrite allowExec minAlign =
      (alignedBase mem (alignment minAlign),
        { c with
          actual := c.actual ++ [mem]
          mapped := c.mapped ++ [⟨⟨alignedBase mem (alignment minAlign),
            roundedLength minLength (alignment minAlign)⟩, c.actual.length⟩] },
        some mem) := by
  subst hmem
  rw [Context.map, if_neg h]
  exact if_neg hbase

theorem requestBlock_eq (allocator : Allocator) (length align : Word)
    (allowWrite allowExec : Bool) :
    requestBlock allocator length align allowWrite allowExec =
      allocator (if align ≤ wordSize then length else length + align) allowWrite allowExec := by
  unfold requestBlock
  split <;> rfl

theorem alignment_le_iff : alignment minAlign ≤ wordSize ↔ requestAlign minAlign = 4 := by
  have hword : wordSize.toNat = 4 := rfl
  rw [BitVec.le_def, hword, alignment_toNat, requestAlign]
  omega

theorem requestAlign_pos (minAlign : Word) : 0 < requestAlign minAlign :=
  lt_of_lt_of_le (by decide) (le_max_left 4 minAlign.toNat)

/-- If nothing wraps, the rounded length fits in the block behind the address
that is handed out. -/
theorem promise_inside (hconf : Conforming allocator)
    (hlength : roundUp minLength.toNat (requestAlign minAlign) < 2 ^ 32)
    (hrequest : 4 < requestAlign minAlign →
      roundUp minLength.toNat (requestAlign minAlign) + requestAlign minAlign < 2 ^ 32)
    (hpos : minLength ≠ 0)
    (hmem : requestBlock allocator (roundedLength minLength (alignment minAlign))
      (alignment minAlign) allowWrite allowExec = mem) (hbase : mem.base ≠ 0) :
    (alignedBase mem (alignment minAlign)).toNat = roundUp mem.base.toNat (requestAlign minAlign) ∧
      roundUp mem.base.toNat (requestAlign minAlign) +
          (roundedLength minLength (alignment minAlign)).toNat ≤
        mem.base.toNat + mem.length.toNat := by
  have halign := alignment_toNat minAlign
  have ha := requestAlign_pos minAlign
  have hrounded : (roundedLength minLength (alignment minAlign)).toNat =
      roundUp minLength.toNat (requestAlign minAlign) := by
    rw [roundedLength_toNat minLength (halign ▸ ha), halign, Nat.mod_eq_of_lt hlength]
  have hle := le_roundUp minLength.toNat (requestAlign minAlign)
  have hlt := roundUp_lt (n := mem.base.toNat) ha
  have hlen : 0 < minLength.toNat := Nat.pos_of_ne_zero fun h => hpos (BitVec.eq_of_toNat_eq h)
  rw [requestBlock_eq] at hmem
  obtain hnull | ⟨hlong, hwrap, h4⟩ := hmem ▸ hconf _ allowWrite allowExec
  · exact absurd hnull hbase
  by_cases hsmall : alignment minAlign ≤ wordSize
  · have h4' := alignment_le_iff.mp hsmall
    have hround : roundUp mem.base.toNat 4 = mem.base.toNat := if_neg (by omega)
    rw [if_pos hsmall] at hlong
    rw [alignedBase, if_pos hsmall, h4', hround]
    exact ⟨rfl, Nat.add_le_add_left hlong _⟩
  · have hbig : 4 < requestAlign minAlign := by
      have hne := mt alignment_le_iff.mpr hsmall
      have hge := le_max_left 4 minAlign.toNat
      unfold requestAlign at hne ⊢
      omega
    have hrequest := hrequest hbig
    rw [if_neg hsmall, BitVec.toNat_add, hrounded, halign, Nat.mod_eq_of_lt hrequest] at hlong
    rw [alignedBase_toNat (by simpa using hsmall) (by rw [halign]; omega), halign]
    exact ⟨rfl, by omega⟩

theorem Context.mapsInside_of_fits (hconf : Conforming allocator)
    (hfits : Fits minLength minAlign) :
    c.MapsInside allocator minLength allowWrite allowExec minAlign := by
  unfold MapsInside
  rw [← c.map_block]
  by_cases hrefused : minAlign &&& (minAlign - 1) ≠ 0 ∨ minLength = 0
  · rw [map_refused hrefused]
    exact ⟨fun _ => ⟨rfl, rfl, rfl⟩, fun h => absurd rfl h⟩
  obtain ⟨hlength, hrequest⟩ := (or_assoc.mpr hfits).resolve_left hrefused
  by_cases hnull : (requestBlock allocator (roundedLength minLength (alignment minAlign))
      (alignment minAlign) allowWrite allowExec).base = 0
  · rw [map_null hnull]
    exact ⟨fun _ => ⟨rfl, rfl, rfl⟩, fun h => absurd rfl h⟩
  obtain ⟨haddr, hend⟩ := promise_inside hconf hlength hrequest (not_or.mp hrefused).2 rfl hnull
  rw [map_granted hrefused rfl hnull]
  generalize requestBlock allocator (roundedLength minLength (alignment minAlign))
    (alignment minAlign) allowWrite allowExec = mem at *
  have hle := le_roundUp mem.base.toNat (requestAlign minAlign)
  have hmin := le_roundUp minLength.toNat (requestAlign minAlign)
  have hrounded : (roundedLength minLength (alignment minAlign)).toNat =
      roundUp minLength.toNat (requestAlign minAlign) := by
    rw [roundedLength_toNat minLength (alignment_toNat minAlign ▸ requestAlign_pos minAlign),
      alignment_toNat, Nat.mod_eq_of_lt hlength]
  refine ⟨fun hzero => ?_,
    fun _ => ⟨haddr ▸ dvd_roundUp (requestAlign_pos minAlign), mem, _, rfl, rfl, rfl, rfl, rfl,
    ⟨?_, ?_⟩, le_refl _, ?_⟩⟩
  · have hmem : mem.base.toNat ≠ 0 := fun h => hnull (BitVec.eq_of_toNat_eq h)
    have hzero := congrArg BitVec.toNat hzero
    rw [haddr] at hzero
    exact absurd hzero (by simp; omega)
  · rw [haddr]
    exact hle
  · rw [haddr]
    omega
  · simp only [hrounded]
    omega

/-- An allocator that gives exactly what it is asked for, near the bottom of the
memory. -/
def lowBlock : Allocator := fun length _ _ =>
  if length.toNat + 4 ≤ 2 ^ 32 then ⟨4, length⟩ else ⟨0, 0⟩

theorem lowBlock_conforming : Conforming lowBlock := by
  intro length _ _
  unfold lowBlock
  split
  · rename_i h
    refine .inr ⟨le_refl _, ?_, ⟨1, rfl⟩⟩
    have h4 : (4 : Word).toNat = 4 := rfl
    simp only [h4]
    omega
  · exact .inl rfl

/-- An alignment that is not the least one is at most half of the memory. -/
theorem requestAlign_le (hvalid : minAlign &&& (minAlign - 1) = 0) :
    requestAlign minAlign ≤ 2 ^ 31 := by
  have hlt : requestAlign minAlign < 2 ^ 32 := max_lt (by decide) minAlign.isLt
  have hadd := add_le_of_dvd_of_lt (Nat.dvd_refl _) (requestAlign_dvd hvalid) hlt
  omega

/-- The address handed out of a block at 4. -/
theorem alignedBase_low (hvalid : minAlign &&& (minAlign - 1) = 0)
    (hbig : 4 < requestAlign minAlign) (request : Word) :
    (alignedBase ⟨4, request⟩ (alignment minAlign)).toNat = requestAlign minAlign := by
  have halign := alignment_toNat minAlign
  have hhalf := requestAlign_le hvalid
  have h4 : (4 : Word).toNat = 4 := rfl
  have hround : roundUp 4 (requestAlign minAlign) = requestAlign minAlign := by
    rw [roundUp, Nat.mod_eq_of_lt hbig, if_pos (by decide)]
    omega
  have hword : wordSize < alignment minAlign := by
    rw [BitVec.lt_def, halign]
    exact hbig
  rw [alignedBase_toNat hword] <;> rw [h4, halign, hround]
  omega

/-- Where the rounded length, or what is asked for in all, does not fit, it is
just the size of the memory, and next to nothing is left of it. -/
theorem request_wraps (hvalid : minAlign &&& (minAlign - 1) = 0)
    (hwrap : roundUp minLength.toNat (requestAlign minAlign) < 2 ^ 32 →
      2 ^ 32 ≤ roundUp minLength.toNat (requestAlign minAlign) + requestAlign minAlign) :
    (roundedLength minLength (alignment minAlign) + alignment minAlign).toNat = 0 ∨
      (roundedLength minLength (alignment minAlign) + alignment minAlign).toNat =
          requestAlign minAlign ∧
        2 ^ 31 < minLength.toNat := by
  have halign := alignment_toNat minAlign
  have ha := requestAlign_pos minAlign
  have hdvd := requestAlign_dvd hvalid
  have hle := roundUp_le ha hdvd minLength.isLt.le
  have hlt := roundUp_lt (n := minLength.toNat) ha
  have hhalf := requestAlign_le hvalid
  rw [BitVec.toNat_add, roundedLength_toNat minLength (halign ▸ ha), halign]
  rcases Nat.lt_or_ge (roundUp minLength.toNat (requestAlign minAlign)) (2 ^ 32) with hfit | hover
  · have hsum := hwrap hfit
    have hadd := add_le_of_dvd_of_lt (dvd_roundUp ha) hdvd hfit
    left
    omega
  · right
    omega

/-- A request that wraps gets too small a block. -/
theorem wrapped_request (hvalid : minAlign &&& (minAlign - 1) = 0) (hpos : minLength ≠ 0)
    (hwrap : roundUp minLength.toNat (requestAlign minAlign) < 2 ^ 32 →
      4 < requestAlign minAlign ∧
        2 ^ 32 ≤ roundUp minLength.toNat (requestAlign minAlign) + requestAlign minAlign) :
    ∃ request : Word, requestBlock lowBlock (roundedLength minLength (alignment minAlign))
        (alignment minAlign) allowWrite allowExec = ⟨4, request⟩ ∧
      (alignedBase ⟨4, request⟩ (alignment minAlign)).toNat ≠ 0 ∧
      4 + request.toNat <
        (alignedBase ⟨4, request⟩ (alignment minAlign)).toNat + minLength.toNat := by
  have ha := requestAlign_pos minAlign
  have hlt := roundUp_lt (n := minLength.toNat) ha
  have hlen : 0 < minLength.toNat := Nat.pos_of_ne_zero fun h => hpos (BitVec.eq_of_toNat_eq h)
  have h4 : (4 : Word).toNat = 4 := rfl
  by_cases hsmall : alignment minAlign ≤ wordSize
  · have halign := alignment_toNat minAlign
    have ha4 := alignment_le_iff.mp hsmall
    have hrounded := roundedLength_toNat minLength (halign ▸ ha)
    rw [halign] at hrounded
    refine ⟨roundedLength minLength (alignment minAlign), ?_, ?_, ?_⟩
    · rw [requestBlock_eq, if_pos hsmall, lowBlock, if_pos]
      rw [hrounded]
      omega
    · rw [alignedBase, if_pos hsmall, h4]
      decide
    · rw [alignedBase, if_pos hsmall, h4, hrounded]
      omega
  · have hbig : 4 < requestAlign minAlign := by
      have hne := mt alignment_le_iff.mpr hsmall
      have hge := le_max_left 4 minAlign.toNat
      unfold requestAlign at hne ⊢
      omega
    have hhalf := requestAlign_le hvalid
    have hcases := request_wraps hvalid fun hfit => (hwrap hfit).2
    refine ⟨roundedLength minLength (alignment minAlign) + alignment minAlign, ?_, ?_, ?_⟩
    · rw [requestBlock_eq, if_neg hsmall, lowBlock, if_pos]
      omega
    · rw [alignedBase_low hvalid hbig]
      omega
    · rw [alignedBase_low hvalid hbig]
      omega

theorem Context.not_mapsInside (hfits : ¬ Fits minLength minAlign) :
    ¬ c.MapsInside lowBlock minLength allowWrite allowExec minAlign := by
  simp only [Fits, not_or, not_not, not_and] at hfits
  obtain ⟨hvalid, hpos, hwrap⟩ := hfits
  obtain ⟨request, hrequest, hbase, hsmall⟩ := wrapped_request hvalid hpos fun hfit => by
    have hadd := hwrap hfit
    omega
  have h4 : (4 : Word).toNat = 4 := rfl
  have hlow : (4 : Word) ≠ 0 := by decide
  have hmap := map_granted (c := c) (not_or.mpr ⟨not_not.mpr hvalid, hpos⟩) hrequest hlow
  intro hinside
  unfold MapsInside at hinside
  rw [hmap] at hinside
  obtain ⟨-, block, promise, -, hblock, -, -, -, ⟨-, hend⟩, -⟩ :=
    hinside.2 fun hzero => hbase (congrArg BitVec.toNat hzero)
  obtain rfl := Option.some.inj hblock
  simp only [h4] at hend
  omega

/-- `map` hands out memory that it owns, whatever the allocator, exactly if the
arithmetic of the request does not wrap. -/
theorem map_inside_iff (c : Context) (minLength : Word) (allowWrite allowExec : Bool)
    (minAlign : Word) :
    (∀ allocator, Conforming allocator →
        c.MapsInside allocator minLength allowWrite allowExec minAlign) ↔
      Fits minLength minAlign := by
  refine ⟨fun hinside => ?_, fun hfits allocator hconf => Context.mapsInside_of_fits hconf hfits⟩
  by_contra hfits
  exact Context.not_mapsInside hfits (hinside lowBlock lowBlock_conforming)

/-- All but one of the bytes of the memory: the request is for no bytes at all. -/
theorem map_wraps : Conforming lowBlock ∧
    ¬ Context.empty.MapsInside lowBlock 0xffffffff true false 4 := by
  refine ⟨lowBlock_conforming, Context.not_mapsInside ?_⟩
  unfold Fits
  decide

end map

end BadgeElfloader.Abi
