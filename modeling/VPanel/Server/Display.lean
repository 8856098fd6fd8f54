import Mathlib.Data.Nat.Bitwise
import VPanel.Library.HexText
import VPanel.Wire.PanelStates

/-!
# What the diagnostic server prints

The display functions turn the members of a received state into text.  Each
member is printed with a number of columns that does not depend on its value,
except for the decimal fields of the macOS line.
-/

namespace VPanel.Server

open HexText Wire

def formatBits (one : Char) (value : ℕ) : ℕ → List Char
  | 0 => []
  | bits + 1 => (if value.testBit bits then one else '.') :: formatBits one value bits

/-- `format_binary`: the argument is a `uint32_t`. -/
def formatBinary (value bits : ℕ) : List Char := formatBits 'O' (value % 2 ^ 32) bits

/-- `format_binary64`: the argument is a `uint64_t`. -/
def formatBinary64 (value bits : ℕ) : List Char := formatBits '*' (value % 2 ^ 64) bits

theorem formatBits_congr {one : Char} {v w bits : ℕ}
    (h : ∀ i < bits, v.testBit i = w.testBit i) : formatBits one v bits = formatBits one w bits := by
  induction bits with
  | zero => rfl
  | succ bits ih =>
      rw [formatBits, formatBits, h bits (Nat.lt_succ_self bits),
        ih fun i hi ↦ h i (hi.trans (Nat.lt_succ_self bits))]

theorem testBit_of_formatBits_eq {one : Char} (hone : one ≠ '.') {v w bits : ℕ}
    (h : formatBits one v bits = formatBits one w bits) :
    ∀ i < bits, v.testBit i = w.testBit i := by
  induction bits with
  | zero => intro i hi; omega
  | succ bits ih =>
      obtain ⟨hhead, htail⟩ := List.cons.inj h
      have hbit : v.testBit bits = w.testBit bits := by
        cases hv : v.testBit bits <;> cases hw : w.testBit bits
        · rfl
        · simp [hv, hw, hone.symm] at hhead
        · simp [hv, hw, hone] at hhead
        · rfl
      intro i hi
      rcases Nat.lt_succ_iff_lt_or_eq.mp hi with hi | rfl
      · exact ih htail i hi
      · exact hbit

theorem testBit_mod_of_lt {v i n : ℕ} (hi : i < n) : (v % 2 ^ n).testBit i = v.testBit i := by
  rw [Nat.testBit_mod_two_pow, decide_eq_true hi, Bool.true_and]

theorem formatBinary_eq_iff {v w bits : ℕ} (hbits : bits ≤ 32) :
    formatBinary v bits = formatBinary w bits ↔ v % 2 ^ bits = w % 2 ^ bits := by
  constructor
  · intro h
    apply Nat.eq_of_testBit_eq
    intro i
    by_cases hi : i < bits
    · have hbit := testBit_of_formatBits_eq (by decide) h i hi
      have hi' : i < 32 := hi.trans_le hbits
      rwa [testBit_mod_of_lt hi', testBit_mod_of_lt hi', ← testBit_mod_of_lt hi,
        ← testBit_mod_of_lt (v := w) hi] at hbit
    · simp [Nat.testBit_mod_two_pow, hi]
  · intro h
    apply formatBits_congr
    intro i hi
    have hi' : i < 32 := hi.trans_le hbits
    rw [testBit_mod_of_lt hi', testBit_mod_of_lt hi', ← testBit_mod_of_lt hi, h,
      testBit_mod_of_lt hi]

def displayPdpPanel (panel : PdpField → ℕ) : List Char :=
  "PDP-11: ADDR: ".toList ++ formatBinary (panel .psAddress &&& 0x3FFFFF) 22 ++
    ", DATA: ".toList ++ formatBinary (panel .psData) 16 ++
    ", PSW: ".toList ++ formatBinary (panel .psPsw) 16 ++
    ", MMR0: ".toList ++ formatBinary (panel .psMmr0) 16 ++
    ", MMR3: ".toList ++ formatBinary (panel .psMmr3) 16 ++ "\n".toList

def pdpShown : List PdpField := [.psAddress, .psData, .psPsw, .psMmr0, .psMmr3]

theorem displayPdpPanel_congr {p q : PdpField → ℕ} (h : ∀ f ∈ pdpShown, p f = q f) :
    displayPdpPanel p = displayPdpPanel q := by
  unfold displayPdpPanel
  rw [h .psAddress (by decide), h .psData (by decide), h .psPsw (by decide),
    h .psMmr0 (by decide), h .psMmr3 (by decide)]

theorem displayPdpPanel_ne {p q : PdpField → ℕ} (h : ∀ f ∈ pdpShown, f ≠ .psMmr3 → p f = q f)
    (hp : p .psMmr3 < 2 ^ 16) (hq : q .psMmr3 < 2 ^ 16) (hne : p .psMmr3 ≠ q .psMmr3) :
    displayPdpPanel p ≠ displayPdpPanel q := by
  intro htext
  unfold displayPdpPanel at htext
  rw [h .psAddress (by decide) (by decide), h .psData (by decide) (by decide),
    h .psPsw (by decide) (by decide), h .psMmr0 (by decide) (by decide),
    List.append_cancel_right_eq, List.append_cancel_left_eq, formatBinary_eq_iff (by norm_num),
    Nat.mod_eq_of_lt hp, Nat.mod_eq_of_lt hq] at htext
  exact hne htext

/-- The `PRINT_REG` macro: `"%-6s= %016llx %s\n"`. -/
def printReg (name : String) (value : ℕ) : List Char :=
  name.toList ++ List.replicate (6 - name.length) ' ' ++ "= ".toList ++
    fixedHex Nat.digitChar 16 value ++ " ".toList ++ formatBinary64 value 64 ++ "\n".toList

theorem printReg_injective {name : String} {v w : ℕ} (hv : v < 2 ^ 64) (hw : w < 2 ^ 64)
    (h : printReg name v = printReg name w) : v = w := by
  simp only [printReg, List.append_assoc, List.append_cancel_left_eq] at h
  have hhex := (List.append_inj h (by simp)).1
  exact fixedHex_injective readsBack_digitChar (by simpa using hv) (by simpa using hw) hhex

def clearScreen : List Char := "\x1b[2J\x1b[H".toList

def printRegs {ι : Type} (regs : List (String × ι)) (panel : ι → ℕ) : List Char :=
  regs.flatMap fun reg ↦ printReg reg.1 (panel reg.2)

def netbsdx64Regs : List (String × ClockReg) :=
  [("ESP", .cfRsp), ("EIP", .cfRip), ("RAX", .cfRax), ("RBX", .cfRbx), ("RCX", .cfRcx),
    ("RDX", .cfRdx), ("RSI", .cfRsi), ("RDI", .cfRdi), ("RBP", .cfRbp), ("R8", .cfR8),
    ("R9", .cfR9), ("R10", .cfR10), ("R11", .cfR11), ("R12", .cfR12), ("R13", .cfR13),
    ("R14", .cfR14), ("R15", .cfR15), ("FLAGS", .cfRflags), ("CS", .cfCs), ("SS", .cfSs),
    ("GS", .cfGs), ("FS", .cfFs), ("ES", .cfEs), ("DS", .cfDs), ("TRAPNO", .cfTrapno),
    ("ERR", .cfErr)]

def displayNetbsdx64Panel (panel : ClockReg → ℕ) : List Char :=
  clearScreen ++ printRegs netbsdx64Regs panel

def linuxx64Regs : List (String × PtReg) :=
  [("RSP", .rsp), ("RIP", .rip), ("RAX", .rax), ("RBX", .rbx), ("RCX", .rcx), ("RDX", .rdx),
    ("RSI", .rsi), ("RDI", .rdi), ("RBP", .rbp), ("R8", .r8), ("R9", .r9), ("R10", .r10),
    ("R11", .r11), ("R12", .r12), ("R13", .r13), ("R14", .r14), ("R15", .r15),
    ("FLAGS", .eflags), ("CS", .cs), ("SS", .ss), ("ORIGAX", .origRax)]

def displayLinuxx64Panel (panel : PtReg → ℕ) : List Char :=
  clearScreen ++ printRegs linuxx64Regs panel

def displayVaxPanel (panel : VaxField → ℕ) : List Char :=
  "VAX: ADDR: ".toList ++ formatBinary (panel .psAddress) 32 ++
    ", DATA: ".toList ++ formatBinary (panel .psData) 16 ++ "\n".toList

theorem displayVaxPanel_congr {p q : VaxField → ℕ} (haddress : p .psAddress = q .psAddress)
    (hdata : p .psData % 2 ^ 16 = q .psData % 2 ^ 16) : displayVaxPanel p = displayVaxPanel q := by
  have hbits : formatBinary (p .psData) 16 = formatBinary (q .psData) 16 :=
    (formatBinary_eq_iff (by norm_num)).mpr hdata
  unfold displayVaxPanel
  rw [haddress, hbits]

theorem displayVaxPanel_ne {p q : VaxField → ℕ} (haddress : p .psAddress = q .psAddress)
    (hdata : p .psData % 2 ^ 16 ≠ q .psData % 2 ^ 16) : displayVaxPanel p ≠ displayVaxPanel q := by
  intro htext
  unfold displayVaxPanel at htext
  rw [haddress, List.append_cancel_right_eq, List.append_cancel_left_eq,
    formatBinary_eq_iff (by norm_num)] at htext
  exact hdata htext

/-- `%d` of an unsigned 32-bit argument. -/
def printSigned (v : ℕ) : List Char :=
  if v < 2 ^ 31 then Nat.toDigits 10 v else '-' :: Nat.toDigits 10 (2 ^ 32 - v)

/-- `%.2f` of `v / 100.0`.  A double holds the quotient of a 32-bit number closely
enough that the two printed decimals are those of the exact quotient. -/
def printHundredths (v : ℕ) : List Char :=
  Nat.toDigits 10 (v / 100) ++ ".".toList ++ Nat.toDigits 10 (v / 10 % 10) ++
    Nat.toDigits 10 (v % 10)

def displayMacosPanel (panel : MacosField → ℕ) : List Char :=
  "macOS (ARM64): PC: ".toList ++ formatBinary (panel .pc &&& 0xFFFFFFFF) 32 ++
    ", SP: ".toList ++ formatBinary (panel .sp &&& 0xFFFFFFFF) 32 ++
    ", CPU: ".toList ++ formatBinary (panel .cpuUsage) 7 ++
    "%, MEM: ".toList ++ formatBinary (panel .memoryUsage) 7 ++
    "%, LOAD: ".toList ++ printHundredths (panel .loadAverage) ++
    ", THR: ".toList ++ printSigned (panel .threadCount) ++ "\n".toList

def macosShown : List MacosField :=
  [.pc, .sp, .cpuUsage, .memoryUsage, .loadAverage, .threadCount]

theorem displayMacosPanel_congr {p q : MacosField → ℕ} (h : ∀ f ∈ macosShown, p f = q f) :
    displayMacosPanel p = displayMacosPanel q := by
  unfold displayMacosPanel
  rw [h .pc (by decide), h .sp (by decide), h .cpuUsage (by decide),
    h .memoryUsage (by decide), h .loadAverage (by decide), h .threadCount (by decide)]

theorem toDigits_ten_injective {v w : ℕ} (h : Nat.toDigits 10 v = Nat.toDigits 10 w) : v = w := by
  rw [← Nat.ofDigitChars_ten_toDigits (n := v), h, Nat.ofDigitChars_ten_toDigits]

theorem minus_notMem_toDigits (v : ℕ) : '-' ∉ Nat.toDigits 10 v := fun h ↦
  absurd (Nat.isDigit_of_mem_toDigits (by norm_num) (by norm_num) h) (by decide)

theorem printSigned_injective {v w : ℕ} (hv : v < 2 ^ 32) (hw : w < 2 ^ 32)
    (h : printSigned v = printSigned w) : v = w := by
  have hsign : ∀ a b : ℕ, Nat.toDigits 10 a ≠ '-' :: Nat.toDigits 10 b := fun a b heq ↦
    minus_notMem_toDigits a (heq ▸ List.mem_cons_self)
  unfold printSigned at h
  split at h <;> split at h
  · exact toDigits_ten_injective h
  · exact absurd h (hsign _ _)
  · exact absurd h.symm (hsign _ _)
  · have hneg := toDigits_ten_injective (List.cons.inj h).2
    omega

theorem displayMacosPanel_ne {p q : MacosField → ℕ}
    (h : ∀ f ∈ macosShown, f ≠ .threadCount → p f = q f) (hp : p .threadCount < 2 ^ 32)
    (hq : q .threadCount < 2 ^ 32) (hne : p .threadCount ≠ q .threadCount) :
    displayMacosPanel p ≠ displayMacosPanel q := by
  intro htext
  unfold displayMacosPanel at htext
  rw [h .pc (by decide) (by decide), h .sp (by decide) (by decide),
    h .cpuUsage (by decide) (by decide), h .memoryUsage (by decide) (by decide),
    h .loadAverage (by decide) (by decide), List.append_cancel_right_eq,
    List.append_cancel_left_eq] at htext
  exact hne (printSigned_injective hp hq htext)

theorem printRegs_congr {ι : Type} {regs : List (String × ι)} {p q : ι → ℕ}
    (h : ∀ reg ∈ regs, p reg.2 = q reg.2) : printRegs regs p = printRegs regs q :=
  List.flatMap_congr fun reg hreg ↦ by rw [h reg hreg]

theorem printRegs_ne {ι : Type} (regs : List (String × ι)) (hnodup : (regs.map Prod.snd).Nodup)
    {r : ι} (hr : r ∈ regs.map Prod.snd) {p q : ι → ℕ}
    (h : ∀ i ∈ regs.map Prod.snd, i ≠ r → p i = q i) (hp : p r < 2 ^ 64) (hq : q r < 2 ^ 64)
    (hne : p r ≠ q r) : printRegs regs p ≠ printRegs regs q := by
  obtain ⟨⟨name, r⟩, hreg, rfl⟩ := List.mem_map.mp hr
  obtain ⟨pre, post, rfl⟩ := List.append_of_mem hreg
  rw [List.map_append, List.map_cons, List.nodup_append, List.nodup_cons] at hnodup
  obtain ⟨-, ⟨hpost, -⟩, hpre⟩ := hnodup
  have hleft : printRegs pre p = printRegs pre q := printRegs_congr fun reg hmem ↦ by
    refine h _ (by simp [List.mem_map_of_mem hmem]) fun heq ↦ ?_
    exact hpre _ (List.mem_map_of_mem hmem) _ List.mem_cons_self heq
  have hright : printRegs post p = printRegs post q := printRegs_congr fun reg hmem ↦ by
    refine h _ (by simp [List.mem_map_of_mem hmem]) fun heq ↦ ?_
    exact hpost (heq ▸ List.mem_map_of_mem hmem)
  intro htext
  simp only [printRegs, List.flatMap_append, List.flatMap_cons] at htext hleft hright
  rw [hleft, hright, List.append_cancel_left_eq, List.append_cancel_right_eq] at htext
  exact hne (printReg_injective hp hq htext)

end VPanel.Server
