import BadgeElfloader.Riscv.Copy
import BadgeElfloader.Riscv.Jal

/-!
Instructions as words in memory.

A hart that runs the words of a block does what `Machine.execAt` says of the
block, as long as the block does not write to itself (`fetches_straight`). Where
the block is does not matter, except to the instructions that read the program
counter.
-/

namespace BadgeElfloader.Riscv

/-! ### Words -/

def Reg.number : Reg → BitVec 5
  | ra => 1 | sp => 2 | gp => 3 | tp => 4
  | t0 => 5 | t1 => 6 | t2 => 7
  | s0 => 8 | s1 => 9
  | a0 => 10 | a1 => 11 | a2 => 12 | a3 => 13
  | a4 => 14 | a5 => 15 | a6 => 16 | a7 => 17
  | s2 => 18 | s3 => 19 | s4 => 20 | s5 => 21 | s6 => 22
  | s7 => 23 | s8 => 24 | s9 => 25 | s10 => 26 | s11 => 27
  | t3 => 28 | t4 => 29 | t5 => 30 | t6 => 31

/-- The register with a number; `x0` is none of them. -/
def Reg.ofNumber (n : BitVec 5) : Option Reg :=
  [Reg.ra, .sp, .gp, .tp, .t0, .t1, .t2, .s0, .s1, .a0, .a1, .a2, .a3, .a4, .a5, .a6, .a7,
    .s2, .s3, .s4, .s5, .s6, .s7, .s8, .s9, .s10, .s11, .t3, .t4, .t5, .t6].find?
      fun r => r.number = n

def Csr.number : Csr → BitVec 12
  | mstatus => 0x300 | mscratch => 0x340 | mepc => 0x341 | mcause => 0x342

def Csr.ofNumber (n : BitVec 12) : Option Csr :=
  [Csr.mstatus, .mscratch, .mepc, .mcause].find? fun c => c.number = n

@[simp] theorem Reg.ofNumber_number (r : Reg) : Reg.ofNumber r.number = some r := by
  cases r <;> rfl

@[simp] theorem Csr.ofNumber_number (c : Csr) : Csr.ofNumber c.number = some c := by
  cases c <;> rfl

/-- An instruction that goes on to the next, or a jump that links nothing. -/
inductive Code
  | straight (i : Instr)
  | jr (rs : Reg)
  | j (offset : Word)

def iType (imm : BitVec 12) (rs₁ : BitVec 5) (funct3 : BitVec 3) (rd : BitVec 5)
    (opcode : BitVec 7) : Word :=
  imm ++ rs₁ ++ funct3 ++ rd ++ opcode

/-- The word of an instruction that has one of its own, for the instructions that
code in memory consists of. The immediate has to fit. -/
def encode : Code → Option Word
  | .straight (.lw rd off base) =>
      if (off.setWidth 12).signExtend 32 = off then
        some (iType (off.setWidth 12) base.number 2 rd.number 0x03)
      else none
  | .straight (.sw rs off base) =>
      if (off.setWidth 12).signExtend 32 = off then
        some (iType (off.extractLsb' 5 7 ++ rs.number) base.number 2 (off.extractLsb' 0 5) 0x23)
      else none
  | .straight (.auipc rd imm) =>
      if (imm.setWidth 20).setWidth 32 = imm then
        some (iType (imm.extractLsb' 8 12) (imm.extractLsb' 3 5) (imm.extractLsb' 0 3)
          rd.number 0x17)
      else none
  | .straight (.csrrw rd c rs) => some (iType c.number rs.number 1 rd.number 0x73)
  | .jr rs => some (iType 0 rs.number 0 0 0x67)
  | _ => none

/-- What the hart does with a word. -/
def decode (w : Word) : Option Code :=
  let imm := w.extractLsb' 20 12
  let rs₁ := w.extractLsb' 15 5
  let funct3 := w.extractLsb' 12 3
  let rd := w.extractLsb' 7 5
  let opcode := w.extractLsb' 0 7
  if opcode = 0x03 ∧ funct3 = 2 then do
    return .straight (.lw (← Reg.ofNumber rd) (imm.signExtend 32) (← Reg.ofNumber rs₁))
  else if opcode = 0x23 ∧ funct3 = 2 then do
    return .straight (.sw (← Reg.ofNumber (imm.extractLsb' 0 5))
      ((imm.extractLsb' 5 7 ++ rd).signExtend 32) (← Reg.ofNumber rs₁))
  else if opcode = 0x17 then do
    return .straight (.auipc (← Reg.ofNumber rd) ((imm ++ rs₁ ++ funct3).setWidth 32))
  else if opcode = 0x73 ∧ funct3 = 1 then do
    return .straight (.csrrw (← Reg.ofNumber rd) (← Csr.ofNumber imm) (← Reg.ofNumber rs₁))
  else if opcode = 0x67 ∧ funct3 = 0 ∧ imm = 0 ∧ rd = 0 then (Reg.ofNumber rs₁).map .jr
  else if opcode = 0x6f ∧ rd = 0 then some (.j (jalOffset w))
  else none

theorem extract_iType (imm : BitVec 12) (rs₁ : BitVec 5) (funct3 : BitVec 3) (rd : BitVec 5)
    (opcode : BitVec 7) :
    (iType imm rs₁ funct3 rd opcode).extractLsb' 20 12 = imm ∧
      (iType imm rs₁ funct3 rd opcode).extractLsb' 15 5 = rs₁ ∧
      (iType imm rs₁ funct3 rd opcode).extractLsb' 12 3 = funct3 ∧
      (iType imm rs₁ funct3 rd opcode).extractLsb' 7 5 = rd ∧
      (iType imm rs₁ funct3 rd opcode).extractLsb' 0 7 = opcode := by
  refine ⟨?_, ?_, ?_, ?_, ?_⟩
  all_goals
    ext i hi
    rw [BitVec.getElem_extractLsb']
    simp only [iType, BitVec.getLsbD_append]
    interval_cases i <;> simp

theorem store_imm (off : Word) :
    (off.extractLsb' 5 7 ++ off.extractLsb' 0 5 : BitVec 12) = off.setWidth 12 := by
  ext i hi
  simp only [BitVec.getElem_append, BitVec.getElem_extractLsb', BitVec.getElem_setWidth]
  interval_cases i <;> simp

theorem auipc_imm (imm : Word) :
    (imm.extractLsb' 8 12 ++ imm.extractLsb' 3 5 ++ imm.extractLsb' 0 3 : BitVec 20) =
      imm.setWidth 20 := by
  ext i hi
  simp only [BitVec.getElem_append, BitVec.getElem_extractLsb', BitVec.getElem_setWidth]
  interval_cases i <;> simp

theorem extract_append (v : BitVec 7) (n : BitVec 5) :
    (v ++ n : BitVec 12).extractLsb' 5 7 = v ∧ (v ++ n : BitVec 12).extractLsb' 0 5 = n := by
  constructor
  all_goals
    ext i hi
    rw [BitVec.getElem_extractLsb', BitVec.getLsbD_append]
    interval_cases i <;> simp

/-- The hart reads an instruction as it was written. -/
theorem decode_encode {c : Code} {w : Word} (h : encode c = some w) : decode w = some c := by
  cases c with
  | jr rs =>
      obtain rfl := Option.some.inj h
      obtain ⟨himm, hrs, hfunct, hrd, hop⟩ := extract_iType 0 rs.number 0 0 0x67
      simp only [decode, himm, hrs, hfunct, hrd, hop]
      simp
  | j offset => cases h
  | straight i =>
      cases i with
      | lw rd off base =>
          simp only [encode, Option.ite_none_right_eq_some] at h
          obtain ⟨hfits, heq⟩ := h
          obtain rfl := Option.some.inj heq
          obtain ⟨himm, hrs, hfunct, hrd, hop⟩ :=
            extract_iType (off.setWidth 12) base.number 2 rd.number 0x03
          simp only [decode, himm, hrs, hfunct, hrd, hop, hfits]
          simp
      | sw rs off base =>
          simp only [encode, Option.ite_none_right_eq_some] at h
          obtain ⟨hfits, heq⟩ := h
          obtain rfl := Option.some.inj heq
          obtain ⟨himm, hrs, hfunct, hrd, hop⟩ := extract_iType
            (off.extractLsb' 5 7 ++ rs.number) base.number 2 (off.extractLsb' 0 5) 0x23
          obtain ⟨hhigh, hlow⟩ := extract_append (off.extractLsb' 5 7) rs.number
          simp only [decode, himm, hrs, hfunct, hrd, hop, hhigh, hlow, store_imm, hfits]
          simp
      | auipc rd imm =>
          simp only [encode, Option.ite_none_right_eq_some] at h
          obtain ⟨hfits, heq⟩ := h
          obtain rfl := Option.some.inj heq
          obtain ⟨himm, hrs, hfunct, hrd, hop⟩ := extract_iType (imm.extractLsb' 8 12)
            (imm.extractLsb' 3 5) (imm.extractLsb' 0 3) rd.number 0x17
          simp only [decode, himm, hrs, hfunct, hrd, hop, auipc_imm, hfits]
          simp
      | csrrw rd c rs =>
          obtain rfl := Option.some.inj h
          obtain ⟨himm, hrs, hfunct, hrd, hop⟩ :=
            extract_iType c.number rs.number 1 rd.number 0x73
          simp only [decode, himm, hrs, hfunct, hrd, hop]
          simp
      | _ => cases h

def assemble (cs : List Code) : Option (List Word) := cs.mapM encode

theorem assemble_decode {cs : List Code} {ws : List Word} (h : assemble cs = some ws) :
    List.Forall₂ (fun w c => decode w = some c) ws cs := by
  induction cs generalizing ws with
  | nil =>
      obtain rfl := Option.some.inj h
      exact .nil
  | cons c cs ih =>
      simp only [assemble, List.mapM_cons, Option.bind_eq_bind, Option.bind_eq_some_iff] at h
      obtain ⟨w, hw, ws', hws, heq⟩ := h
      obtain rfl := Option.some.inj heq
      exact .cons (decode_encode hw) (ih hws)

theorem decode_jal {w offset : Word} (h : decodeJal w = some ⟨0, offset⟩) :
    decode w = some (.j offset) := by
  simp only [decodeJal, Option.ite_none_right_eq_some, Option.some.injEq, Jal.mk.injEq] at h
  obtain ⟨hop, hrd, rfl⟩ := h
  simp only [decode, hop, hrd]
  simp

/-! ### Running them -/

def Code.exec (s : Machine) : Code → Machine
  | straight i => { i.exec s with pc := s.pc + 4 }
  | jr rs => s.jump rs
  | j offset => { s with pc := s.pc + offset }

/-- One instruction, from memory. -/
def Machine.fetch (s : Machine) : Option Machine := (decode (s.mem s.pc)).map (Code.exec s)

def Machine.fetches : ℕ → Machine → Option Machine
  | 0, s => some s
  | n + 1, s => s.fetch.bind (fetches n)

/-- A block whose instructions take four bytes each. -/
def Machine.execWords (s : Machine) (is : List Instr) : Machine := s.execAt (is.map (4, ·))

/-- The block does not write to `words` when it is run from state `s`. -/
def Leaves (words : Set Word) : List Instr → Machine → Prop
  | [], _ => True
  | i :: is, s => (∀ a ∈ words, (i.exec s).mem a = s.mem a) ∧
      Leaves words is { i.exec s with pc := s.pc + 4 }

/-- The addresses of `n` words from `a` on. -/
def wordsAt (a : Word) (n : ℕ) : Set Word := {b | ∃ k < n, b = nth a k}

theorem toNat_nth {a : Word} {k : ℕ} (h : a.toNat + 4 * k < 2 ^ 32) :
    (nth a k).toNat = a.toNat + 4 * k := by
  rw [nth, BitVec.toNat_add, BitVec.toNat_ofNat]
  omega

/-- Memory holds the instructions `is` from `a` on. -/
def Holds (mem : Word → Word) (a : Word) (is : List Instr) : Prop :=
  ∀ k (hk : k < is.length), decode (mem (nth a k)) = some (.straight is[k])

theorem Machine.fetches_add (m n : ℕ) (s : Machine) :
    s.fetches (m + n) = (s.fetches m).bind (fetches n) := by
  induction m generalizing s with
  | zero => simp [fetches]
  | succ m ih =>
      rw [Nat.succ_add, fetches, fetches]
      cases s.fetch with
      | none => rfl
      | some t => exact ih t

theorem Machine.execWords_pc (is : List Instr) (s : Machine) :
    (s.execWords is).pc = nth s.pc is.length := by
  induction is generalizing s with
  | nil => exact (nth_zero s.pc).symm
  | cons i is ih =>
      rw [List.length_cons, nth_succ]
      exact ih { i.exec s with pc := s.pc + 4 }

@[simp] theorem Machine.execWords_append (is js : List Instr) (s : Machine) :
    s.execWords (is ++ js) = (s.execWords is).execWords js := by
  rw [execWords, List.map_append]
  exact List.foldl_append

/-- The instructions that do not read the program counter. -/
def placeless : Instr → Bool
  | .auipc .. => false
  | _ => true

theorem instr_setPc {i : Instr} (hi : placeless i) (s : Machine) (p : Word) :
    i.exec { s with pc := p } = { i.exec s with pc := p } := by
  cases i with
  | auipc rd imm => cases hi
  | csrw c rs | csrrw rd c rs | csrs c rs | csrc c rs => cases c <;> rfl
  | csrr rd c => cases c <;> rfl
  | _ => rfl

theorem Machine.exec_setPc {is : List Instr} (his : ∀ i ∈ is, placeless i) (s : Machine)
    (p : Word) : ({ s with pc := p } : Machine).exec is = { s.exec is with pc := p } := by
  induction is generalizing s with
  | nil => rfl
  | cons i is ih =>
      obtain ⟨hi, his⟩ := List.forall_mem_cons.mp his
      rw [exec_cons, exec_cons, instr_setPc hi, ih his]

/-- Where a block is does not matter, if none of its instructions asks for it. -/
theorem Machine.execWords_placeless {is : List Instr} (his : ∀ i ∈ is, placeless i)
    (s : Machine) : s.execWords is = { s.exec is with pc := nth s.pc is.length } := by
  induction is generalizing s with
  | nil =>
      rw [List.length_nil, nth_zero]
      rfl
  | cons i is ih =>
      obtain ⟨-, his'⟩ := List.forall_mem_cons.mp his
      rw [List.length_cons, nth_succ]
      refine (ih his' { i.exec s with pc := s.pc + 4 }).trans ?_
      rw [exec_setPc his']
      rfl

theorem Leaves.mono {words words' : Set Word} (hsub : words' ⊆ words) {is : List Instr}
    {s : Machine} (h : Leaves words is s) : Leaves words' is s := by
  induction is generalizing s with
  | nil => trivial
  | cons i is ih => exact ⟨fun a ha => h.1 a (hsub ha), ih h.2⟩

theorem Leaves.mem {words : Set Word} {is : List Instr} {s : Machine} (h : Leaves words is s)
    {a : Word} (ha : a ∈ words) : (s.execWords is).mem a = s.mem a := by
  induction is generalizing s with
  | nil => rfl
  | cons i is ih => exact (ih h.2).trans (h.1 a ha)

/-- Code that does not write to itself runs as a block, wherever it is. -/
theorem fetches_straight {is : List Instr} {s : Machine} (hcode : Holds s.mem s.pc is)
    (hleaves : Leaves (wordsAt s.pc is.length) is s) :
    s.fetches is.length = some (s.execWords is) := by
  induction is generalizing s with
  | nil => rfl
  | cons i is ih =>
      obtain ⟨hkept, hrest⟩ := hleaves
      have hfirst : s.fetch = some { i.exec s with pc := s.pc + 4 } := by
        have hi := hcode 0 (by simp)
        rw [nth_zero] at hi
        rw [Machine.fetch, hi]
        rfl
      have hsub : wordsAt (s.pc + 4) is.length ⊆ wordsAt s.pc (i :: is).length := by
        rintro a ⟨k, hk, rfl⟩
        exact ⟨k + 1, by simpa using hk, (nth_succ s.pc k).symm⟩
      rw [List.length_cons, Machine.fetches, hfirst, Option.bind_some]
      refine ih (fun k hk => ?_) (hrest.mono hsub)
      show decode ((i.exec s).mem (nth (s.pc + 4) k)) = _
      rw [hkept _ (hsub ⟨k, hk, rfl⟩), ← nth_succ]
      exact hcode (k + 1) (by simpa using hk)

end BadgeElfloader.Riscv
