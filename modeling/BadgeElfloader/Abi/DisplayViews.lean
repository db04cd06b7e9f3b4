import BadgeElfloader.Abi.Display
import Mathlib.Data.Finset.Card

/-!
What the calls of `display.cpp` show of the registry.

`Registered` says which displays there are in terms of the calls that were made,
without the map. Every view is compared with it.
-/

namespace BadgeElfloader.Abi

open Riscv (Word)
open Transition

/-- A display that is drawn in full is drawn inside its bounds. -/
theorem Display.flush_eq_flushPart (d : Display) (buf len : Word) (hwidth : 1 < d.width)
    (hheight : 1 < d.height) :
    d.flushPart buf len 0 0 d.width d.height = some (d.flush buf len) := by
  have hwide : 0 ≤ d.width := by
    have h := Int32.lt_iff_toInt_lt.mp hwidth
    exact Int32.le_iff_toInt_le.mpr (le_of_lt (lt_trans (by decide) h))
  have hhigh : 0 ≤ d.height := by
    have h := Int32.lt_iff_toInt_lt.mp hheight
    exact Int32.le_iff_toInt_le.mpr (le_of_lt (lt_trans (by decide) h))
  rw [Display.flushPart, if_neg]
  · rfl
  · simp [hwide, hhigh]

namespace Displays

/-- The registry after the calls `ops`. -/
def run (ops : List DisplayOp) : Displays := ops.foldl exec initial

/-- An add among the calls has returned `id`, and no remove behind it was for `id`. -/
def Registered (ops : List DisplayOp) (id width height : Int32) : Prop :=
  ∃ before func cookie behind,
    ops = before ++ .add func cookie width height :: behind ∧
      (DisplayOp.add func cookie width height).valid ∧
      ((run before).displayAdd func cookie width height).1 = id ∧ .remove id ∉ behind

/-! ### The IDs -/

section ids

variable {len n i : ℕ} {out : ℕ → Int32}

theorem copyIds_fst (ids : List Int32) (out : ℕ → Int32) (hi : i ≤ len) :
    (copyIds len ids i out).1 = i + min ids.length (len - i) := by
  induction ids generalizing i out with
  | nil => simp [copyIds]
  | cons id ids ih =>
      rw [copyIds]
      split
      · rw [ih _ (by omega), List.length_cons]
        omega
      · rw [List.length_cons]
        omega

theorem copyIds_snd (ids : List Int32) (out : ℕ → Int32) (hi : i ≤ len) (k : ℕ) :
    (copyIds len ids i out).2 k =
      if i ≤ k ∧ k < len then (ids[k - i]?).getD (out k) else out k := by
  induction ids generalizing i out with
  | nil => simp [copyIds]
  | cons id ids ih =>
      rw [copyIds]
      split
      · rw [ih _ (by omega)]
        by_cases hk : k = i
        · subst hk
          simp [*]
        · rw [Function.update_of_ne hk]
          by_cases hlt : i ≤ k
          · obtain ⟨j, rfl⟩ := Nat.exists_eq_add_of_lt (lt_of_le_of_ne hlt (Ne.symm hk))
            have hle : i + 1 ≤ i + j + 1 := by omega
            simp only [hlt, hle, true_and, show i + j + 1 - i = j + 1 by omega,
              show i + j + 1 - (i + 1) = j by omega, List.getElem?_cons_succ]
          · rw [if_neg (by omega), if_neg (by omega)]
      · rw [if_neg (by omega)]

theorem clearIds_apply (k : ℕ) :
    clearIds n i out k = if i ≤ k ∧ k < i + n then 0 else out k := by
  induction n generalizing i out with
  | zero => simp [clearIds]
  | succ n ih =>
      rw [clearIds, ih, Function.update_apply]
      by_cases hk : k = i
      · subst hk
        simp
      · simp only [if_neg hk]
        congr 1
        simp only [eq_iff_iff]
        omega

/-- The two loops write the keys and then 0, up to `len` and no further. -/
theorem displayGetIds_apply (s : Displays) (k : ℕ) :
    s.displayGetIds out len k =
      if k < len then (s.displays.keys[k]?).getD 0 else out k := by
  have hfst := copyIds_fst s.displays.keys out (Nat.zero_le len)
  have hsnd := copyIds_snd s.displays.keys out (Nat.zero_le len)
  rw [displayGetIds, clearIds_apply, hsnd, hfst]
  by_cases hk : k < len
  · by_cases hkeys : k < s.displays.keys.length
    · rw [if_neg (by omega), if_pos ⟨k.zero_le, hk⟩, if_pos hk, Nat.sub_zero,
        List.getElem?_eq_getElem hkeys]
      rfl
    · rw [if_pos (by omega), if_pos hk, List.getElem?_eq_none (by omega)]
      rfl
  · rw [if_neg (by omega), if_neg (by omega), if_neg hk]

end ids

/-! ### What is registered -/

section registered

variable {ops : List DisplayOp} {id width height : Int32}

theorem run_snoc (ops : List DisplayOp) (op : DisplayOp) : run (ops ++ [op]) = (run ops).exec op :=
  List.foldl_append

theorem registered_snoc {op : DisplayOp} : Registered (ops ++ [op]) id width height ↔
    (Registered ops id width height ∧ op ≠ .remove id) ∨
      ∃ func cookie, op = .add func cookie width height ∧ op.valid ∧
        ((run ops).displayAdd func cookie width height).1 = id := by
  constructor
  · rintro ⟨before, func, cookie, behind, heq, hvalid, hid, hkept⟩
    obtain rfl | ⟨behind, last, rfl⟩ := behind.eq_nil_or_concat'
    · obtain ⟨rfl, hop⟩ := List.append_inj' heq rfl
      obtain rfl := (List.cons.inj hop).1
      exact .inr ⟨func, cookie, rfl, hvalid, hid⟩
    · rw [← List.cons_append, ← List.append_assoc] at heq
      obtain ⟨rfl, hop⟩ := List.append_inj' heq rfl
      obtain rfl := (List.cons.inj hop).1
      simp only [List.mem_append, List.mem_singleton, not_or] at hkept
      exact .inl ⟨⟨before, func, cookie, behind, rfl, hvalid, hid, hkept.1⟩, Ne.symm hkept.2⟩
  · rintro (⟨⟨before, func, cookie, behind, rfl, hvalid, hid, hkept⟩, hne⟩ |
      ⟨func, cookie, rfl, hvalid, hid⟩)
    · refine ⟨before, func, cookie, behind ++ [op], by simp, hvalid, hid, ?_⟩
      simp only [List.mem_append, List.mem_singleton, not_or]
      exact ⟨hkept, Ne.symm hne⟩
    · exact ⟨ops, func, cookie, [], rfl, hvalid, hid, nofun⟩

theorem countP_snoc (ops : List DisplayOp) (op : DisplayOp) :
    (ops ++ [op]).countP DisplayOp.valid =
      ops.countP DisplayOp.valid + if op.valid then 1 else 0 := by
  rw [List.countP_append, List.countP_singleton]

theorem numbered_run (hcount : ops.countP DisplayOp.valid < 2 ^ 32) :
    Numbered (ops.countP DisplayOp.valid) (run ops) := by
  induction ops using List.reverseRecOn with
  | nil => exact numbered_initial
  | append_singleton ops op ih =>
      rw [countP_snoc] at hcount ⊢
      have hop : op.valid → ops.countP DisplayOp.valid + 1 < 2 ^ 32 := fun hvalid => by
        rwa [if_pos hvalid] at hcount
      rw [run_snoc]
      exact ((ih (by omega)).exec hop).2

theorem getElem?_displayRemove (s : Displays) (display id : Int32) :
    (s.displayRemove display).2.displays[id]? =
      if display = id then none else s.displays[id]? := by
  unfold displayRemove
  split
  · rw [Std.TreeMap.getElem?_erase]
    simp only [Std.LawfulEqCmp.compare_eq_iff_eq]
  · rename_i hmem
    split
    · rename_i heq
      subst heq
      exact Std.TreeMap.getElem?_eq_none hmem
    · rfl

/-- The map holds what is registered. -/
theorem registered_iff (hcount : ops.countP DisplayOp.valid < 2 ^ 32) :
    Registered ops id width height ↔
      ∃ d, (run ops).displays[id]? = some d ∧ d.width = width ∧ d.height = height := by
  induction ops using List.reverseRecOn with
  | nil =>
      refine iff_of_false ?_ ?_
      · rintro ⟨before, func, cookie, behind, heq, -⟩
        simp at heq
      · rintro ⟨d, hd, -⟩
        simp [run, initial] at hd
  | append_singleton ops op ih =>
      rw [countP_snoc] at hcount
      have hold := ih (by omega)
      have hnumbered := numbered_run (show ops.countP DisplayOp.valid < 2 ^ 32 by omega)
      rw [registered_snoc, run_snoc]
      cases op with
      | remove display =>
          rw [hold, Displays.exec, getElem?_displayRemove]
          by_cases heq : display = id
          · simp [heq]
          · simp [heq]
      | add func cookie width' height' =>
          cases hvalid : (DisplayOp.add func cookie width' height').valid with
          | false =>
              rw [Displays.exec, displayAdd_invalid hvalid, hold]
              simp
          | true =>
              have hn : ops.countP DisplayOp.valid + 1 < 2 ^ 32 := by
                rwa [if_pos hvalid] at hcount
              have hnew := ((hnumbered.add hn hvalid).1.1 hvalid).2.1
              rw [displayAdd_valid hvalid] at hnew
              rw [Displays.exec, displayAdd_valid hvalid, hold]
              simp only [Std.TreeMap.getElem?_insert, Std.LawfulEqCmp.compare_eq_iff_eq]
              by_cases heq : (run ops).lastID + 1 = id
              · subst heq
                have hnone : (run ops).displays[(run ops).lastID + 1]? = none :=
                  Std.TreeMap.getElem?_eq_none hnew
                constructor
                · rintro (⟨⟨d, hd, -⟩, -⟩ | ⟨func', cookie', hop, -, -⟩)
                  · rw [hnone] at hd
                    cases hd
                  · cases hop
                    exact ⟨_, if_pos rfl, rfl, rfl⟩
                · rintro ⟨d, hd, rfl, rfl⟩
                  rw [if_pos rfl] at hd
                  cases hd
                  refine .inr ⟨func, cookie, rfl, trivial, ?_⟩
                  rw [displayAdd_valid hvalid]
              · rw [if_neg heq]
                constructor
                · rintro (⟨h, -⟩ | ⟨func', cookie', hop, -, hid⟩)
                  · exact h
                  · cases hop
                    rw [displayAdd_valid hvalid] at hid
                    exact absurd hid heq
                · exact fun h => .inl ⟨h, by simp⟩

end registered

/-! ### The views -/

/-- All views of the registry show what is registered. -/
structure ViewsAgree (ops : List DisplayOp) : Prop where
  count : ∃ ids : Finset Int32, (∀ id, id ∈ ids ↔ ∃ width height, Registered ops id width height) ∧
    (run ops).displayCount.toInt = ids.card
  nonzero : ∀ id width height, Registered ops id width height → id ≠ 0
  outside : ∀ out len i, len ≤ i → (run ops).displayGetIds out len i = out i
  ascending : ∀ out len (i j : ℕ), i < j → j < len → (j : ℤ) < (run ops).displayCount.toInt →
    (run ops).displayGetIds out len i < (run ops).displayGetIds out len j
  listed : ∀ out len (i : ℕ), i < len → (i : ℤ) < (run ops).displayCount.toInt →
    ∃ width height, Registered ops ((run ops).displayGetIds out len i) width height
  smallest : ∀ out len id width height, Registered ops id width height →
    (∃ i < len, (run ops).displayGetIds out len i = id) ∨
      ∀ i < len, (run ops).displayGetIds out len i < id
  absent : ∀ out len (i : ℕ), i < len → (run ops).displayCount.toInt ≤ (i : ℤ) →
    (run ops).displayGetIds out len i = 0
  occurs : ∀ out (len : ℕ) id, id ≠ 0 → (run ops).displayCount.toInt ≤ (len : ℤ) →
    ((∃ i < len, (run ops).displayGetIds out len i = id) ↔
      (run ops).displayWidth id ≠ 0 ∧ (run ops).displayHeight id ≠ 0)
  sized : ∀ id, (run ops).displayWidth id ≠ 0 ∧ (run ops).displayHeight id ≠ 0 ↔
    ∃ width height, Registered ops id width height
  sizes : ∀ id width height, Registered ops id width height →
    (run ops).displayWidth id = width ∧ (run ops).displayHeight id = height
  writes : ∀ id width height buf len, Registered ops id width height →
    (run ops).displayWrite id buf len = (run ops).displayWritePartial id buf len 0 0
      ((run ops).displayWidth id) ((run ops).displayHeight id) ∧
      ((run ops).displayWrite id buf len).isSome
  silent : ∀ id buf len, (¬ ∃ width height, Registered ops id width height) →
    (run ops).displayWrite id buf len = none ∧
      ∀ x y w h, (run ops).displayWritePartial id buf len x y w h = none

section views

variable {ops : List DisplayOp} {id width height : Int32}

theorem keys_pairwise (s : Displays) : s.displays.keys.Pairwise (· < ·) :=
  s.displays.ordered_keys.imp fun h => Std.compare_eq_lt.mp h

theorem size_run_le (ops : List DisplayOp) :
    (run ops).displays.size ≤ ops.countP DisplayOp.valid := by
  induction ops using List.reverseRecOn with
  | nil => exact le_refl 0
  | append_singleton ops op ih =>
      rw [countP_snoc, run_snoc]
      cases op with
      | add func cookie width height =>
          cases hvalid : (DisplayOp.add func cookie width height).valid with
          | false =>
              rw [Displays.exec, displayAdd_invalid hvalid]
              exact ih
          | true =>
              rw [Displays.exec, displayAdd_valid hvalid]
              exact Std.TreeMap.size_insert_le.trans (Nat.succ_le_succ ih)
      | remove display =>
          refine le_trans ?_ ih
          rw [Displays.exec, displayRemove]
          split
          · exact Std.TreeMap.size_erase_le
          · exact le_refl _

theorem toInt_displayCount (hcount : ops.countP DisplayOp.valid < 2 ^ 31 - 1) :
    (run ops).displayCount.toInt = (run ops).displays.keys.length := by
  have hsize := size_run_le ops
  rw [displayCount, Int32.toInt_ofNat_of_lt (by omega), Std.TreeMap.length_keys]

/-- The size of a registered display is not 0, and neither is its ID. -/
theorem Registered.nonzero (h : Registered ops id width height)
    (hcount : ops.countP DisplayOp.valid < 2 ^ 31 - 1) : id ≠ 0 ∧ width ≠ 0 ∧ height ≠ 0 := by
  obtain ⟨d, hd, -⟩ := (registered_iff (by omega)).mp h
  have hmem : id ∈ (run ops).displays := Std.TreeMap.mem_iff_isSome_getElem?.mpr (by simp [hd])
  obtain ⟨k, hpos, hle, rfl⟩ := (numbered_run (by omega)).issued id hmem
  obtain ⟨before, func, cookie, behind, -, hvalid, -⟩ := h
  simp only [DisplayOp.valid, Bool.and_eq_true, decide_eq_true_eq] at hvalid
  refine ⟨?_, ?_, ?_⟩
  · obtain ⟨j, rfl⟩ := Nat.exists_eq_succ_of_ne_zero hpos.ne'
    exact cyclic_int32.ne_zero (by omega)
  · rintro rfl
    exact absurd hvalid.1.2 (by decide)
  · rintro rfl
    exact absurd hvalid.2 (by decide)

theorem displayGetIds_listed (s : Displays) (out : ℕ → Int32) {len i : ℕ} (hi : i < len)
    (hkeys : i < s.displays.keys.length) : s.displayGetIds out len i = s.displays.keys[i] := by
  rw [displayGetIds_apply, if_pos hi, List.getElem?_eq_getElem hkeys]
  rfl

theorem displayGetIds_absent (s : Displays) (out : ℕ → Int32) {len i : ℕ} (hi : i < len)
    (hkeys : s.displays.keys.length ≤ i) : s.displayGetIds out len i = 0 := by
  rw [displayGetIds_apply, if_pos hi, List.getElem?_eq_none hkeys]
  rfl

theorem mem_keys_iff (hcount : ops.countP DisplayOp.valid < 2 ^ 32) :
    id ∈ (run ops).displays.keys ↔ ∃ width height, Registered ops id width height := by
  rw [Std.TreeMap.mem_keys, Std.TreeMap.mem_iff_isSome_getElem?, Option.isSome_iff_exists]
  constructor
  · rintro ⟨d, hd⟩
    exact ⟨d.width, d.height, (registered_iff hcount).mpr ⟨d, hd, rfl, rfl⟩⟩
  · rintro ⟨width, height, h⟩
    obtain ⟨d, hd, -⟩ := (registered_iff hcount).mp h
    exact ⟨d, hd⟩

theorem Registered.sizes (h : Registered ops id width height)
    (hcount : ops.countP DisplayOp.valid < 2 ^ 32) :
    (run ops).displayWidth id = width ∧ (run ops).displayHeight id = height := by
  obtain ⟨d, hd, rfl, rfl⟩ := (registered_iff hcount).mp h
  simp [displayWidth, displayHeight, hd]

theorem getElem?_eq_none_of_not_registered (hcount : ops.countP DisplayOp.valid < 2 ^ 32)
    (h : ¬ ∃ width height, Registered ops id width height) : (run ops).displays[id]? = none := by
  rw [← mem_keys_iff hcount, Std.TreeMap.mem_keys] at h
  exact Std.TreeMap.getElem?_eq_none h

theorem sized_iff (hcount : ops.countP DisplayOp.valid < 2 ^ 31 - 1) :
    (run ops).displayWidth id ≠ 0 ∧ (run ops).displayHeight id ≠ 0 ↔
      ∃ width height, Registered ops id width height := by
  constructor
  · intro h
    by_contra hnot
    have hnone := getElem?_eq_none_of_not_registered (by omega) hnot
    exact h.1 (by rw [displayWidth, hnone]; rfl)
  · rintro ⟨width, height, h⟩
    obtain ⟨hwidth, hheight⟩ := h.sizes (by omega)
    rw [hwidth, hheight]
    exact (h.nonzero hcount).2

theorem Registered.writes (h : Registered ops id width height)
    (hcount : ops.countP DisplayOp.valid < 2 ^ 32) (buf len : Word) :
    (run ops).displayWrite id buf len = (run ops).displayWritePartial id buf len 0 0
      ((run ops).displayWidth id) ((run ops).displayHeight id) ∧
      ((run ops).displayWrite id buf len).isSome := by
  obtain ⟨d, hd, rfl, rfl⟩ := (registered_iff hcount).mp h
  obtain ⟨before, func, cookie, behind, -, hvalid, -⟩ := h
  simp only [DisplayOp.valid, Bool.and_eq_true, decide_eq_true_eq] at hvalid
  simp only [displayWrite, displayWritePartial, displayWidth, displayHeight, hd, Option.map_some,
    Option.bind_some, Option.elim_some, Option.isSome_some, and_true]
  exact (d.flush_eq_flushPart buf len hvalid.1.2 hvalid.2).symm

/-- As long as the counter stays positive, all views of the registry agree. -/
theorem display_views_agree (ops : List DisplayOp)
    (hcount : ops.countP DisplayOp.valid < 2 ^ 31 - 1) : ViewsAgree ops := by
  have hlt : ops.countP DisplayOp.valid < 2 ^ 32 := by omega
  have hnum := toInt_displayCount hcount
  have hsorted := keys_pairwise (run ops)
  constructor
  case count =>
    refine ⟨(run ops).displays.keys.toFinset, fun id => ?_, ?_⟩
    · rw [List.mem_toFinset, mem_keys_iff hlt]
    · rw [hnum, List.toFinset_card_of_nodup (run ops).displays.nodup_keys]
  case nonzero => exact fun id width height h => (h.nonzero hcount).1
  case outside =>
    intro out len i hi
    rw [displayGetIds_apply, if_neg (by omega)]
  case ascending =>
    intro out len i j hij hj hcountj
    rw [hnum, Int.ofNat_lt] at hcountj
    rw [displayGetIds_listed _ _ (hij.trans hj) (hij.trans hcountj),
      displayGetIds_listed _ _ hj hcountj]
    exact List.pairwise_iff_getElem.mp hsorted i j _ hcountj hij
  case listed =>
    intro out len i hi hcounti
    rw [hnum, Int.ofNat_lt] at hcounti
    rw [displayGetIds_listed _ _ hi hcounti]
    exact (mem_keys_iff hlt).mp (List.getElem_mem hcounti)
  case smallest =>
    intro out len id width height h
    obtain ⟨j, hj, rfl⟩ := List.mem_iff_getElem.mp ((mem_keys_iff hlt).mpr ⟨width, height, h⟩)
    by_cases hjlen : j < len
    · exact .inl ⟨j, hjlen, displayGetIds_listed _ _ hjlen hj⟩
    · refine .inr fun i hi => ?_
      have hij : i < j := by omega
      rw [displayGetIds_listed _ _ hi (hij.trans hj)]
      exact List.pairwise_iff_getElem.mp hsorted i j _ hj hij
  case absent =>
    intro out len i hi hcounti
    rw [hnum, Int.ofNat_le] at hcounti
    exact displayGetIds_absent _ _ hi hcounti
  case occurs =>
    intro out len id hid hlen
    rw [hnum, Int.ofNat_le] at hlen
    rw [sized_iff hcount, ← mem_keys_iff hlt]
    constructor
    · rintro ⟨i, hi, rfl⟩
      by_cases hkeys : i < (run ops).displays.keys.length
      · rw [displayGetIds_listed _ _ hi hkeys]
        exact List.getElem_mem hkeys
      · exact absurd (displayGetIds_absent _ _ hi (by omega)) hid
    · intro hmem
      obtain ⟨i, hi, rfl⟩ := List.mem_iff_getElem.mp hmem
      exact ⟨i, by omega, displayGetIds_listed _ _ (by omega) hi⟩
  case sized => exact fun id => sized_iff hcount
  case sizes => exact fun id width height h => h.sizes hlt
  case writes => exact fun id width height buf len h => h.writes hlt buf len
  case silent =>
    intro id buf len h
    have hnone := getElem?_eq_none_of_not_registered hlt h
    simp [displayWrite, displayWritePartial, hnone]

/-- Two displays, of which the first is removed. -/
theorem display_views_agree_two : ViewsAgree
    [.add 0x42001000 0 320 240, .add 0x42002000 0 128 64, .remove 1] :=
  display_views_agree _ (by decide)

end views

end Displays

end BadgeElfloader.Abi
