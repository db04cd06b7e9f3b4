import BadgeElfloader.Riscv.Machine
import BadgeElfloader.Transition.Numbering

/-!
The registry of displays, `display.cpp`.

An app registers a display with a function that draws, and gets a number for it
from a counter that wraps. Every other call looks the display up by its number.
-/

namespace BadgeElfloader.Abi

open Riscv (Word)
open Transition

/-- Simple struct with display update context. -/
structure Display where
  func : Word
  cookie : Word
  width : Int32
  height : Int32
  deriving DecidableEq, Repr

/-- A call of a write function. -/
structure WriteCall where
  func : Word
  buf : Word
  len : Word
  x : Int32
  y : Int32
  w : Int32
  h : Int32
  cookie : Word
  deriving DecidableEq, Repr

/-- Flush the whole display. -/
def Display.flush (d : Display) (buf len : Word) : WriteCall :=
  ⟨d.func, buf, len, 0, 0, d.width, d.height, d.cookie⟩

/-- Flush a part of the display. Without a call the result is `false`. -/
def Display.flushPart (d : Display) (buf len : Word) (x y w h : Int32) : Option WriteCall :=
  -- Bounds check.
  if x < 0 ∨ y < 0 ∨ x + w > d.width ∨ w > d.width ∨ w < 0 ∨ y + h > d.height ∨ h > d.height ∨ h < 0
  then none
  else some ⟨d.func, buf, len, x, y, w, h, d.cookie⟩

/-- The display contexts, and the last added display's ID. -/
structure Displays where
  displays : Std.TreeMap Int32 Display
  lastID : Int32

namespace Displays

def initial : Displays := ⟨∅, 0⟩

/-- Register a new display. The result is an ID on success, 0 on error. -/
def displayAdd (s : Displays) (func cookie : Word) (width height : Int32) : Int32 × Displays :=
  if func = 0 ∨ width ≤ 1 ∨ height ≤ 1 then (0, s)
  else
    let id := s.lastID + 1
    (id, ⟨s.displays.insert id ⟨func, cookie, width, height⟩, id⟩)

/-- Remove a display. -/
def displayRemove (s : Displays) (display : Int32) : Bool × Displays :=
  if display ∈ s.displays then (true, { s with displays := s.displays.erase display })
  else (false, s)

/-- Get the amount of connected displays. -/
def displayCount (s : Displays) : Int32 := .ofNat s.displays.size

/-- The loop of `display_get_ids` that goes through the displays, and how far it got. -/
def copyIds (len : ℕ) : List Int32 → ℕ → (ℕ → Int32) → ℕ × (ℕ → Int32)
  | [], i, out => (i, out)
  | id :: ids, i, out =>
      if i < len then copyIds len ids (i + 1) (Function.update out i id) else (i, out)

/-- The loop behind it, with `n` entries to go. -/
def clearIds : ℕ → ℕ → (ℕ → Int32) → ℕ → Int32
  | 0, _, out => out
  | n + 1, i, out => clearIds n (i + 1) (Function.update out i 0)

/-- Get the IDs of connected displays. Any ID zero means not present. -/
def displayGetIds (s : Displays) (out : ℕ → Int32) (len : ℕ) : ℕ → Int32 :=
  let copied := copyIds len s.displays.keys 0 out
  clearIds (len - copied.1) copied.1 copied.2

def displayWidth (s : Displays) (display : Int32) : Int32 :=
  s.displays[display]?.elim 0 Display.width

def displayHeight (s : Displays) (display : Int32) : Int32 :=
  s.displays[display]?.elim 0 Display.height

/-- Draw the full area of a display. -/
def displayWrite (s : Displays) (display : Int32) (buf len : Word) : Option WriteCall :=
  s.displays[display]?.map fun d => d.flush buf len

/-- Draw a part of the display. -/
def displayWritePartial (s : Displays) (display : Int32) (buf len : Word)
    (x y width height : Int32) : Option WriteCall :=
  s.displays[display]?.bind fun d => d.flushPart buf len x y width height

end Displays

/-! ### Drawing inside the display -/

/-- The rectangle is inside the display. -/
def Display.Inside (d : Display) (x y w h : Int32) : Prop :=
  0 ≤ x.toInt ∧ 0 ≤ y.toInt ∧ 0 ≤ w.toInt ∧ 0 ≤ h.toInt ∧
    x.toInt + w.toInt ≤ d.width.toInt ∧ y.toInt + h.toInt ≤ d.height.toInt

instance (d : Display) (x y w h : Int32) : Decidable (d.Inside x y w h) := by
  unfold Display.Inside
  infer_instance

/-- One end of the rectangle is beyond the range of `int`, and the other is not
seen to be outside either. -/
def Display.Overflows (d : Display) (x y w h : Int32) : Prop :=
  0 ≤ x.toInt ∧ 0 ≤ y.toInt ∧ 0 ≤ w.toInt ∧ 0 ≤ h.toInt ∧
    w.toInt ≤ d.width.toInt ∧ h.toInt ≤ d.height.toInt ∧
    (x.toInt + w.toInt ≤ d.width.toInt ∨ 2 ^ 31 ≤ x.toInt + w.toInt) ∧
    (y.toInt + h.toInt ≤ d.height.toInt ∨ 2 ^ 31 ≤ y.toInt + h.toInt) ∧
    (2 ^ 31 ≤ x.toInt + w.toInt ∨ 2 ^ 31 ≤ y.toInt + h.toInt)

/-- The write function is called for a registered display and a rectangle inside
of it, and for nothing else. -/
def Displays.DrawsInside (s : Displays) (display : Int32) (buf len : Word)
    (x y w h : Int32) : Prop :=
  s.displayWritePartial display buf len x y w h =
    s.displays[display]?.bind fun d =>
      if d.Inside x y w h then some ⟨d.func, buf, len, x, y, w, h, d.cookie⟩ else none

/-- What a bound on a sum that wraps lets through. -/
theorem int32_add_le_iff {x w bound : Int32} (hx : 0 ≤ x.toInt) (hw : 0 ≤ w.toInt)
    (hbound : 0 ≤ bound.toInt) :
    (x + w).toInt ≤ bound.toInt ↔
      x.toInt + w.toInt ≤ bound.toInt ∨ 2 ^ 31 ≤ x.toInt + w.toInt := by
  have hxlt := x.toInt_lt
  have hwlt := w.toInt_lt
  have hboundlt := bound.toInt_lt
  rw [Int32.toInt_add, Int.bmod_def]
  omega

/-- The bounds check lets through what is inside, and what overflows. -/
theorem Display.boundsCheck_iff (d : Display) (x y w h : Int32) :
    (x < 0 ∨ y < 0 ∨ x + w > d.width ∨ w > d.width ∨ w < 0 ∨ y + h > d.height ∨ h > d.height ∨
      h < 0) ↔ ¬ (d.Inside x y w h ∨ d.Overflows x y w h) := by
  have hsumx := @int32_add_le_iff x w d.width
  have hsumy := @int32_add_le_iff y h d.height
  have hwidth := d.width.toInt_lt
  have hheight := d.height.toInt_lt
  simp only [gt_iff_lt, Int32.lt_iff_toInt_lt, Int32.toInt_zero, Inside, Overflows]
  omega

theorem Display.not_overflows_of_inside {d : Display} {x y w h : Int32} (hin : d.Inside x y w h) :
    ¬ d.Overflows x y w h := by
  have hwidth := d.width.toInt_lt
  have hheight := d.height.toInt_lt
  unfold Inside at hin
  unfold Overflows
  omega

/-- Partial writes are inside the display exactly if no sum overflows on its way
through the bounds check. -/
theorem drawsInside_iff (s : Displays) (display : Int32) (buf len : Word) (x y w h : Int32) :
    s.DrawsInside display buf len x y w h ↔
      ∀ d, s.displays[display]? = some d → ¬ d.Overflows x y w h := by
  unfold Displays.DrawsInside Displays.displayWritePartial
  cases s.displays[display]? with
  | none => simp
  | some d =>
      simp only [Option.bind_some, Option.some.injEq, forall_eq', Display.flushPart]
      by_cases hcheck : d.Inside x y w h ∨ d.Overflows x y w h
      · rw [if_neg (mt (d.boundsCheck_iff x y w h).mp (not_not.mpr hcheck))]
        by_cases hin : d.Inside x y w h
        · simp [hin, Display.not_overflows_of_inside hin]
        · simp [hin, hcheck.resolve_left hin]
      · rw [if_pos ((d.boundsCheck_iff x y w h).mpr hcheck)]
        rw [not_or] at hcheck
        simp [hcheck.1, hcheck.2]

/-- The right edge of the rectangle is at 2³¹, and the driver of a display of
320 by 240 pixels is called for it. -/
theorem draws_outside : ∃ s : Displays,
    s = (Displays.initial.displayAdd 0x42001000 0 320 240).2 ∧
      ¬ s.DrawsInside 1 0x3fc90000 2 2147483647 0 1 1 := by
  refine ⟨_, rfl, ?_⟩
  unfold Displays.DrawsInside
  decide

/-! ### Fresh IDs -/

/-- A call that changes the registry. -/
inductive DisplayOp
  | add (func cookie : Word) (width height : Int32)
  | remove (display : Int32)

/-- An add with a function and a size. -/
def DisplayOp.valid : DisplayOp → Bool
  | add func _ width height => func ≠ 0 && 1 < width && 1 < height
  | remove _ => false

namespace Displays

def exec (s : Displays) : DisplayOp → Displays
  | .add func cookie width height => (s.displayAdd func cookie width height).2
  | .remove display => (s.displayRemove display).2

/-- A valid add returns an ID that is not 0 and not in use, and leaves all
displays registered; a call that fails changes nothing. -/
def FreshCall (s : Displays) : DisplayOp → Prop
  | .add func cookie width height =>
      let r := s.displayAdd func cookie width height
      ((DisplayOp.add func cookie width height).valid → r.1 ≠ 0 ∧ r.1 ∉ s.displays ∧
        ∀ (k : Int32) (d : Display), s.displays[k]? = some d → r.2.displays[k]? = some d) ∧
      (r.1 = 0 → r.2 = s)
  | .remove display => (s.displayRemove display).1 = false → (s.displayRemove display).2 = s

/-- The counter is at `n`, and all displays have numbers up to it. -/
structure Numbered (n : ℕ) (s : Displays) : Prop where
  lastID : s.lastID = Int32.ofNat n
  issued : ∀ k ∈ s.displays, Issued Int32.ofNat n k

theorem numbered_initial : Numbered 0 initial := ⟨rfl, fun k hk => by simp [initial] at hk⟩

theorem cyclic_int32 : Cyclic Int32.ofNat (2 ^ 32) := by
  intro i j
  rw [← Int32.toBitVec_inj, Int32.toBitVec_ofNat', Int32.toBitVec_ofNat']
  exact cyclic_bitVec 32 i j

theorem displayAdd_invalid {s : Displays} {func cookie : Word} {width height : Int32}
    (h : (DisplayOp.add func cookie width height).valid = false) :
    s.displayAdd func cookie width height = (0, s) := by
  rw [displayAdd, if_pos]
  simpa [DisplayOp.valid, imp_iff_not_or, ← Int32.not_lt, or_assoc] using h

theorem displayAdd_valid {s : Displays} {func cookie : Word} {width height : Int32}
    (h : (DisplayOp.add func cookie width height).valid) :
    s.displayAdd func cookie width height =
      (s.lastID + 1,
        ⟨s.displays.insert (s.lastID + 1) ⟨func, cookie, width, height⟩, s.lastID + 1⟩) := by
  rw [displayAdd, if_neg]
  simpa [DisplayOp.valid, and_assoc] using h

theorem Numbered.next {n : ℕ} {s : Displays} (h : Numbered n s) :
    s.lastID + 1 = Int32.ofNat (n + 1) := by
  rw [h.lastID, Int32.ofNat_add]
  rfl

theorem Numbered.remove {n : ℕ} {s : Displays} (h : Numbered n s) (display : Int32) :
    Numbered n (s.displayRemove display).2 := by
  unfold displayRemove
  split
  · exact ⟨h.lastID, fun k hk => h.issued k (Std.TreeMap.mem_of_mem_erase hk)⟩
  · exact h

/-- Before the counter comes round, an add draws a fresh ID. -/
theorem Numbered.add {n : ℕ} {s : Displays} (h : Numbered n s) (hn : n + 1 < 2 ^ 32)
    {func cookie : Word} {width height : Int32}
    (hvalid : (DisplayOp.add func cookie width height).valid) :
    s.FreshCall (.add func cookie width height) ∧
      Numbered (n + 1) (s.displayAdd func cookie width height).2 := by
  have hid : s.lastID + 1 ≠ 0 := h.next ▸ cyclic_int32.ne_zero hn
  have hnew : s.lastID + 1 ∉ s.displays := fun hmem =>
    cyclic_int32.not_issued hn (h.next ▸ h.issued _ hmem)
  rw [FreshCall, displayAdd_valid hvalid]
  refine ⟨⟨fun _ => ⟨hid, hnew, fun k d hk => ?_⟩, fun hzero => absurd hzero hid⟩, h.next,
    fun k hk => ?_⟩
  · have hne : s.lastID + 1 ≠ k := by
      rintro rfl
      exact hnew (Std.TreeMap.mem_iff_isSome_getElem?.mpr (by simp [hk]))
    simpa [Std.TreeMap.getElem?_insert, hne] using hk
  · rcases Std.TreeMap.mem_insert.mp hk with heq | hmem
    · rw [← Std.LawfulEqCmp.eq_of_compare heq, h.next]
      exact issued_succ _ n
    · exact (h.issued k hmem).mono n.le_succ

/-- All calls up to the one that brings the counter round are as they should be. -/
theorem Numbered.exec {n : ℕ} {s : Displays} {op : DisplayOp} (h : Numbered n s)
    (hn : op.valid → n + 1 < 2 ^ 32) :
    s.FreshCall op ∧ Numbered (n + if op.valid then 1 else 0) (s.exec op) := by
  cases op with
  | add func cookie width height =>
      cases hvalid : (DisplayOp.add func cookie width height).valid with
      | true => exact h.add (hn hvalid) hvalid
      | false =>
          rw [Displays.exec, FreshCall, displayAdd_invalid hvalid, hvalid]
          exact ⟨⟨nofun, fun _ => rfl⟩, h⟩
  | remove display =>
      refine ⟨fun hfail => ?_, h.remove display⟩
      unfold displayRemove at hfail ⊢
      split
      · rename_i hmem
        simp [hmem] at hfail
      · rfl

/-- The add that brings the counter round returns 0. -/
theorem Numbered.round {n : ℕ} {s : Displays} {op : DisplayOp} (h : Numbered n s)
    (hvalid : op.valid) (hn : n + 1 = 2 ^ 32) : ¬ s.FreshCall op := by
  cases op with
  | add func cookie width height =>
      intro hfresh
      rw [FreshCall, displayAdd_valid hvalid, h.next, hn, cyclic_int32.round] at hfresh
      exact (hfresh.1 hvalid).1 rfl
  | remove display => cases hvalid

/-- The IDs are fresh as long as fewer than 2³² displays are added. -/
theorem display_ids_fresh_iff (ops : List DisplayOp) :
    EachCall exec FreshCall initial ops ↔ ops.countP DisplayOp.valid < 2 ^ 32 :=
  forall_calls_iff (by decide) (fun _ _ _ h hn => h.exec hn) (fun _ _ _ h => h.round)
    numbered_initial ops

/-- An app that adds a display and removes it, `n` times. -/
def addAndRemove (n : ℕ) : List DisplayOp :=
  (List.range n).flatMap fun k => [.add 0x42001000 0 320 240, .remove (.ofNat (k + 1))]

theorem countP_addAndRemove (n : ℕ) : (addAndRemove n).countP DisplayOp.valid = n := by
  induction n with
  | zero => rfl
  | succ n ih =>
      rw [addAndRemove, List.range_succ, List.flatMap_append, List.countP_append, ← addAndRemove,
        ih]
      rfl

/-- In the end such an app is given the ID 0. -/
theorem display_id_zero : ¬ EachCall exec FreshCall initial (addAndRemove (2 ^ 32)) := by
  have hcount := countP_addAndRemove (2 ^ 32)
  generalize addAndRemove (2 ^ 32) = ops at hcount
  intro hall
  have hlt := (forall_calls_iff (by decide) (fun _ _ _ h hn => h.exec hn) (fun _ _ _ h => h.round)
    numbered_initial ops).mp hall
  exact hlt.ne hcount

end Displays

end BadgeElfloader.Abi
