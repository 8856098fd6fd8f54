import Mathlib.Data.Nat.Bitwise
import Mathlib.Tactic.IntervalCases
import Mathlib.Tactic.NormNum
import Mathlib.Tactic.Ring

/-!
# The address the PDP-11 kernel puts on the panel

The clock interrupt translates the interrupted pc by hand: a page address
register gives the base of the page in blocks of 64 bytes, the low bits of pc
give the displacement in it.  The masks of the translation are narrower than
the registers, so it is exact on part of the memory only.
-/

namespace VPanel.Kernel

/-- The words at `APR_BASE`. -/
abbrev AprRegs := ℕ → BitVec 16

def aprMask : BitVec 16 := 0o77777

def offsetMask : BitVec 16 := 0o7777

def processorMode (ps : BitVec 16) : ℕ := ((ps >>> 14) &&& 3).toNat

def segnum (pc : BitVec 16) : ℕ := ((pc >>> 13) &&& 7).toNat

def aprIndex (mode segnum : ℕ) : Option ℕ :=
  if mode = 0 then some segnum
  else if mode = 1 then some (8 + segnum)
  else if mode = 3 then some (8 + segnum)
  else none

def decodePhysAddr (aprRegs : AprRegs) (pc ps : BitVec 16) : BitVec 32 :=
  match aprIndex (processorMode ps) (segnum pc) with
  | none => 0
  | some i =>
      let segReg := aprRegs i &&& aprMask
      let segBase := segReg.setWidth 32
      let offset := pc &&& offsetMask
      ((segBase <<< 6) ||| offset.setWidth 32) &&& 0o7777777

/-! ## The translation of the memory management unit -/

/-- The base of the page plus the displacement in it, in 22 bits. -/
def translate (par pc : BitVec 16) : ℕ := (par.toNat * 64 + pc.toNat % 2 ^ 13) % 2 ^ 22

/-- The register of the page that the upper three bits of pc select: kernel mode has the first
eight, supervisor and user mode the next, and the mode between these is not used. -/
def pageRegister (pc ps : BitVec 16) : Option ℕ :=
  match ps.toNat / 2 ^ 14 with
  | 0 => some (pc.toNat / 2 ^ 13)
  | 2 => none
  | _ => some (8 + pc.toNat / 2 ^ 13)

def TranslatesExactly (aprRegs : AprRegs) (pc ps : BitVec 16) : Prop :=
  (decodePhysAddr aprRegs pc ps).toNat =
    match pageRegister pc ps with
    | none => 0
    | some i => translate (aprRegs i) pc

/-- The page and the displacement on which the narrow masks lose nothing. -/
def MasksKeep (par pc : BitVec 16) : Prop :=
  par.toNat < 2 ^ 15 ∧ pc.toNat % 2 ^ 13 < 2 ^ 12 ∧ par.toNat * 64 &&& pc.toNat % 2 ^ 12 = 0

theorem segnum_eq (pc : BitVec 16) : segnum pc = pc.toNat / 2 ^ 13 := by
  have hlt := pc.isLt
  have hmask : (pc.toNat / 2 ^ 13) &&& (2 ^ 3 - 1) = pc.toNat / 2 ^ 13 % 2 ^ 3 :=
    Nat.and_two_pow_sub_one_eq_mod _ 3
  rw [segnum, BitVec.toNat_and, BitVec.toNat_ushiftRight, Nat.shiftRight_eq_div_pow]
  exact hmask.trans (Nat.mod_eq_of_lt (by omega))

theorem processorMode_eq (ps : BitVec 16) : processorMode ps = ps.toNat / 2 ^ 14 := by
  have hlt := ps.isLt
  have hmask : (ps.toNat / 2 ^ 14) &&& (2 ^ 2 - 1) = ps.toNat / 2 ^ 14 % 2 ^ 2 :=
    Nat.and_two_pow_sub_one_eq_mod _ 2
  rw [processorMode, BitVec.toNat_and, BitVec.toNat_ushiftRight, Nat.shiftRight_eq_div_pow]
  exact hmask.trans (Nat.mod_eq_of_lt (by omega))

theorem aprIndex_eq (pc ps : BitVec 16) :
    aprIndex (processorMode ps) (segnum pc) = pageRegister pc ps := by
  have hlt : ps.toNat / 2 ^ 14 < 4 := by
    have hps := ps.isLt
    omega
  rw [processorMode_eq, segnum_eq, pageRegister]
  generalize ps.toNat / 2 ^ 14 = mode at hlt
  interval_cases mode <;> rfl

theorem or_add_and (a b : ℕ) : (a ||| b) + (a &&& b) = a + b := by
  induction a using Nat.strong_induction_on generalizing b with
  | _ a ih =>
      by_cases ha : a = 0
      · rw [ha, Nat.zero_or, Nat.zero_and, Nat.add_zero, Nat.zero_add]
      · have hhalf := ih (a / 2) (by omega) (b / 2)
        have hor : (a ||| b) / 2 = a / 2 ||| b / 2 := Nat.or_div_two
        have hand : (a &&& b) / 2 = a / 2 &&& b / 2 := Nat.and_div_two
        have hor₀ : (a ||| b) % 2 = 1 ↔ a % 2 = 1 ∨ b % 2 = 1 := Nat.or_mod_two_eq_one
        have hand₀ : (a &&& b) % 2 = 1 ↔ a % 2 = 1 ∧ b % 2 = 1 := Nat.and_mod_two_eq_one
        omega

theorem toNat_and_aprMask (par : BitVec 16) : (par &&& aprMask).toNat = par.toNat % 2 ^ 15 := by
  rw [BitVec.toNat_and]
  exact Nat.and_two_pow_sub_one_eq_mod par.toNat 15

theorem toNat_and_offsetMask (pc : BitVec 16) :
    (pc &&& offsetMask).toNat = pc.toNat % 2 ^ 12 := by
  rw [BitVec.toNat_and]
  exact Nat.and_two_pow_sub_one_eq_mod pc.toNat 12

theorem toNat_decode (par pc : BitVec 16) :
    (((par &&& aprMask).setWidth 32 <<< 6 ||| (pc &&& offsetMask).setWidth 32) &&&
      (0o7777777 : BitVec 32)).toNat = par.toNat % 2 ^ 15 * 64 ||| pc.toNat % 2 ^ 12 := by
  have hbase : ((par &&& aprMask).setWidth 32 <<< 6).toNat = par.toNat % 2 ^ 15 * 64 := by
    rw [BitVec.toNat_shiftLeft, BitVec.toNat_setWidth, toNat_and_aprMask, Nat.shiftLeft_eq]
    omega
  have hoffset : ((pc &&& offsetMask).setWidth 32).toNat = pc.toNat % 2 ^ 12 := by
    rw [BitVec.toNat_setWidth, toNat_and_offsetMask]
    omega
  have hlt : par.toNat % 2 ^ 15 * 64 ||| pc.toNat % 2 ^ 12 < 2 ^ 21 :=
    Nat.or_lt_two_pow (by omega) (by omega)
  have hmask : (0o7777777 : BitVec 32).toNat = 2 ^ 21 - 1 := rfl
  rw [BitVec.toNat_and, BitVec.toNat_or, hbase, hoffset, hmask,
    Nat.and_two_pow_sub_one_eq_mod, Nat.mod_eq_of_lt hlt]

theorem decode_eq_translate_iff (par pc : BitVec 16) :
    par.toNat % 2 ^ 15 * 64 ||| pc.toNat % 2 ^ 12 = translate par pc ↔ MasksKeep par pc := by
  have hpar := par.isLt
  have hsum := or_add_and (par.toNat % 2 ^ 15 * 64) (pc.toNat % 2 ^ 12)
  have hand : par.toNat % 2 ^ 15 * 64 &&& pc.toNat % 2 ^ 12 ≤ pc.toNat % 2 ^ 12 :=
    Nat.and_le_right
  unfold translate MasksKeep
  constructor
  · intro heq
    -- what the masks lose adds up to less than the modulus, so every part of it is zero
    have hlost : par.toNat / 2 ^ 15 = 0 ∧ pc.toNat % 2 ^ 13 / 2 ^ 12 = 0 ∧
        par.toNat % 2 ^ 15 * 64 &&& pc.toNat % 2 ^ 12 = 0 := by omega
    obtain ⟨hhigh, hdisplacement, hdisjoint⟩ := hlost
    have hkeep : par.toNat % 2 ^ 15 = par.toNat := by omega
    refine ⟨by omega, by omega, ?_⟩
    rwa [hkeep] at hdisjoint
  · rintro ⟨hhigh, hdisplacement, hdisjoint⟩
    have hkeep : par.toNat % 2 ^ 15 = par.toNat := Nat.mod_eq_of_lt hhigh
    rw [hkeep] at hsum ⊢
    omega

/-- The translation is exact for the unused mode, and otherwise exactly when the masks drop no
bit and the base shares none with the displacement. -/
theorem decodePhysAddr_exact_iff (aprRegs : AprRegs) (pc ps : BitVec 16) :
    TranslatesExactly aprRegs pc ps ↔
      ∀ i, pageRegister pc ps = some i → MasksKeep (aprRegs i) pc := by
  rw [TranslatesExactly, decodePhysAddr, aprIndex_eq]
  cases hindex : pageRegister pc ps with
  | none => simp
  | some i =>
      dsimp only
      rw [toNat_decode, decode_eq_translate_iff]
      simp

/-- In the upper half of a page a pc is translated like the one 4096 below it. -/
theorem not_translatesExactly_upper_half :
    ¬TranslatesExactly (fun _ ↦ 0) 0o10000 0 ∧
      decodePhysAddr (fun _ ↦ 0) 0o10000 0 = decodePhysAddr (fun _ ↦ 0) 0 0 := by
  unfold TranslatesExactly
  decide

end VPanel.Kernel
