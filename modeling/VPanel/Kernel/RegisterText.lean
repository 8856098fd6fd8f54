import VPanel.Library.StdioFormat
import VPanel.Wire.PanelStates

/-!
# The register file of the Linux module

`kprobe.c` keeps the registers of the last probe hit on the first processor
and prints them into `/proc/panel_regs`; the client scans the line it reads
there.  The mutex makes each critical section one step.
-/

namespace VPanel.Kernel

open HexText StdioFormat Wire

inductive KernelReg
  | r15 | r14 | r13 | r12 | bp | bx | r11 | r10 | r9 | r8 | ax | cx | dx | si | di
  | origAx | ip | cs | flags | sp | ss
  deriving DecidableEq

abbrev PtRegs := KernelReg → BitVec 64

/-- The kernel's name of a member of the panel header's `struct pt_regs`. -/
def kernelReg : PtReg → KernelReg
  | .r15 => .r15
  | .r14 => .r14
  | .r13 => .r13
  | .r12 => .r12
  | .rbp => .bp
  | .rbx => .bx
  | .r11 => .r11
  | .r10 => .r10
  | .r9 => .r9
  | .r8 => .r8
  | .rax => .ax
  | .rcx => .cx
  | .rdx => .dx
  | .rsi => .si
  | .rdi => .di
  | .origRax => .origAx
  | .rip => .ip
  | .cs => .cs
  | .eflags => .flags
  | .rsp => .sp
  | .ss => .ss

/-! ## The module -/

/-- `captured_regs` and `regs_valid`. -/
structure ProbeModule where
  capturedRegs : PtRegs
  regsValid : Bool

def ProbeModule.initial : ProbeModule := ⟨fun _ ↦ 0, false⟩

def handlerPre (cpu : ℕ) (regs : PtRegs) (m : ProbeModule) : ProbeModule :=
  if cpu ≠ 0 then m else ⟨regs, true⟩

def regFormat : String :=
  "RIP=0x%lx RSP=0x%lx RBP=0x%lx RAX=0x%lx RBX=0x%lx RCX=0x%lx RDX=0x%lx " ++
  "RSI=0x%lx RDI=0x%lx R8=0x%lx R9=0x%lx R10=0x%lx R11=0x%lx R12=0x%lx " ++
  "R13=0x%lx R14=0x%lx R15=0x%lx EFLAGS=0x%lx CS=0x%lx SS=0x%lx ORIG_RAX=0x%lx\n"

def regArgs : List KernelReg :=
  [.ip, .sp, .bp, .ax, .bx, .cx, .dx, .si, .di, .r8, .r9, .r10, .r11, .r12, .r13, .r14, .r15,
    .flags, .cs, .ss, .origAx]

def noDataFormat : String := "No register data captured yet\n"

/-- What the critical section of `proc_read` formats. -/
def ProbeModule.text (m : ProbeModule) : List Char :=
  if !m.regsValid then render (w := 64) (directives noDataFormat.toList) []
  else render (directives regFormat.toList) (regArgs.map m.capturedRegs)

def outputSize : ℕ := 512

inductive ReadError
  /-- The errno. -/
  | einval
  /-- No errno: the copy would go past what `snprintf` wrote. -/
  | overread
  deriving DecidableEq

def procRead (m : ProbeModule) (count pos : ℕ) : Except ReadError (List Char × ℕ) :=
  if 0 < pos then .ok ([], pos)
  else
    let (len, output) := snprintf outputSize m.text
    if count < len then .error .einval
    else if output.length < len then .error .overread
    else .ok (output.take len, len)

/-! ## The client -/

def scanFormat : String :=
  "RIP=0x%lx RSP=0x%lx RBP=0x%lx RAX=0x%lx RBX=0x%lx RCX=0x%lx RDX=0x%lx RSI=0x%lx RDI=0x%lx " ++
  "R8=0x%lx R9=0x%lx R10=0x%lx R11=0x%lx R12=0x%lx R13=0x%lx R14=0x%lx R15=0x%lx " ++
  "EFLAGS=0x%lx CS=0x%lx SS=0x%lx ORIG_RAX=0x%lx"

def scanArgs : List PtReg :=
  [.rip, .rsp, .rbp, .rax, .rbx, .rcx, .rdx, .rsi, .rdi, .r8, .r9, .r10, .r11, .r12, .r13, .r14,
    .r15, .eflags, .cs, .ss, .origRax]

def bufferSize : ℕ := 512

def notYet : String := "No register data captured yet"

/-- How a call of `capture_cpu_state` returns: its value, the result of
`sscanf` if that was called, and the panel. -/
structure Capture where
  code : ℤ
  ret : Option ℤ
  panel : Linuxx64PanelState

/-- The assignments of `sscanf` to the members its arguments point to. -/
def assignRegs (panel : Linuxx64PanelState) (args : List PtReg) (values : List (BitVec 64)) :
    Linuxx64PanelState :=
  ⟨(args.zip values).foldl (fun regs p ↦ Function.update regs p.1 p.2) panel.psRegs⟩

/-- `capture_cpu_state`, reading with a stdio buffer of `bufsize` characters;
`none` is `exit(1)`. -/
def captureCpuState (m : ProbeModule) (bufsize : ℕ) (panel : Linuxx64PanelState) :
    Option Capture :=
  match fgets (procRead m bufsize) bufferSize ⟨0, []⟩ with
  | none => none
  | some buffer =>
      if strncmpEq buffer notYet.toList 29 then some ⟨-1, none, panel⟩
      else
        let r := scan (directives scanFormat.toList) (cString buffer)
        let panel := assignRegs panel scanArgs r.values
        if r.ret ≠ 21 then some ⟨-1, some r.ret, panel⟩
        else some ⟨0, some r.ret, panel⟩

/-! ## The two formats -/

theorem directives_regFormat :
    directives regFormat.toList = directives scanFormat.toList ++ [.ofChar '\n'] := by
  unfold regFormat scanFormat
  simp only [String.toList_append]
  rw [String.toList_ofList, String.toList_ofList, String.toList_ofList, String.toList_ofList,
    String.toList_ofList, String.toList_ofList]
  decide +kernel

/-- The format is read once; its facts follow under their own names. -/
theorem scanFormat_facts :
    Separated (directives scanFormat.toList) ∧ conversions (directives scanFormat.toList) = 21 ∧
      room 16 (directives scanFormat.toList) = 486 ∧
      Directive.ofChar '\n' ∉ directives scanFormat.toList ∧
      Directive.ofChar '\x00' ∉ directives scanFormat.toList ∧
      (directives scanFormat.toList).head? = some (.ofChar 'R') := by
  unfold scanFormat
  simp only [String.toList_append]
  rw [String.toList_ofList, String.toList_ofList, String.toList_ofList]
  decide +kernel

theorem separated_scanFormat : Separated (directives scanFormat.toList) :=
  scanFormat_facts.1

theorem conversions_scanFormat : conversions (directives scanFormat.toList) = 21 :=
  scanFormat_facts.2.1

theorem room_scanFormat : room 16 (directives scanFormat.toList) = 486 :=
  scanFormat_facts.2.2.1

theorem lineFeed_notMem_scanFormat : Directive.ofChar '\n' ∉ directives scanFormat.toList :=
  scanFormat_facts.2.2.2.1

theorem nul_notMem_scanFormat : Directive.ofChar '\x00' ∉ directives scanFormat.toList :=
  scanFormat_facts.2.2.2.2.1

theorem regArgs_eq : regArgs = scanArgs.map kernelReg := rfl

theorem mem_scanArgs (r : PtReg) : r ∈ scanArgs := by
  cases r <;> decide

theorem head?_scanFormat : (directives scanFormat.toList).head? = some (.ofChar 'R') :=
  scanFormat_facts.2.2.2.2.2

theorem render_noDataFormat :
    render (w := 64) (directives noDataFormat.toList) [] = notYet.toList ++ ['\n'] := by
  unfold noDataFormat notYet
  rw [String.toList_ofList, String.toList_ofList]
  decide +kernel

theorem notYet_line :
    '\n' ∉ notYet.toList ∧ '\x00' ∉ notYet.toList ∧ notYet.toList.length = 29 := by
  unfold notYet
  rw [String.toList_ofList]
  decide +kernel

/-! ## The line -/

/-- The text of the module without its line feed, in the client's terms. -/
def ProbeModule.line (m : ProbeModule) : List Char :=
  if !m.regsValid then notYet.toList
  else render (directives scanFormat.toList) (scanArgs.map fun r ↦ m.capturedRegs (kernelReg r))

variable (m : ProbeModule)

theorem text_eq_line : m.text = m.line ++ ['\n'] := by
  rw [ProbeModule.text, ProbeModule.line]
  cases m.regsValid with
  | false => exact render_noDataFormat
  | true =>
      have hlen : (regArgs.map m.capturedRegs).length =
          conversions (directives scanFormat.toList) := by
        rw [conversions_scanFormat]
        rfl
      rw [Bool.not_true, if_neg Bool.false_ne_true, if_neg Bool.false_ne_true,
        directives_regFormat, render_append _ _ hlen, regArgs_eq, List.map_map]
      rfl

theorem notMem_line {c : Char} (hnotYet : c ∉ notYet.toList) (hdigit : hexDigit? c = none)
    (hformat : Directive.ofChar c ∉ directives scanFormat.toList) : c ∉ m.line := by
  rw [ProbeModule.line]
  split
  · exact hnotYet
  · intro hc
    rcases mem_render hc with hc | hc
    · rw [hdigit] at hc
      cases hc
    · exact hformat hc

theorem lineFeed_notMem_line : '\n' ∉ m.line :=
  notMem_line m notYet_line.1 rfl lineFeed_notMem_scanFormat

theorem nul_notMem_text : '\x00' ∉ m.text := by
  rw [text_eq_line, List.mem_append, not_or]
  exact ⟨notMem_line m notYet_line.2.1 rfl nul_notMem_scanFormat, by decide⟩

theorem length_line_le : m.line.length ≤ 486 := by
  rw [ProbeModule.line]
  split
  · rw [notYet_line.2.2]
    norm_num
  · rw [← room_scanFormat]
    exact length_render_le (by norm_num) (by norm_num) _ _

theorem length_text_le : m.text.length + 1 ≤ 488 := by
  have hline := length_line_le m
  rw [text_eq_line, List.length_append, List.length_singleton]
  omega

/-! ## One read -/

theorem snprintf_text : snprintf outputSize m.text = (m.text.length, m.text ++ ['\x00']) := by
  have htext := length_text_le m
  exact snprintf_of_fits (by rw [outputSize]; omega)

theorem procRead_ne_overread (count pos : ℕ) : procRead m count pos ≠ .error .overread := by
  rw [procRead, snprintf_text]
  dsimp only
  split
  · simp
  · split
    · simp
    · rw [if_neg (by simp)]
      simp

theorem procRead_zero {count : ℕ} (hcount : 512 ≤ count) :
    procRead m count 0 = .ok (m.text, m.text.length) := by
  have htext := length_text_le m
  rw [procRead, if_neg (Nat.lt_irrefl 0), snprintf_text]
  dsimp only
  rw [if_neg (by omega), if_neg (by simp), List.take_left]

theorem fgets_procRead {bufsize : ℕ} (hbuf : 512 ≤ bufsize) :
    fgets (procRead m bufsize) bufferSize ⟨0, []⟩ = some m.text := by
  have hline := length_line_le m
  have hread : procRead m bufsize 0 = .ok (m.line ++ ['\n'], m.text.length) := by
    rw [procRead_zero m hbuf, text_eq_line]
  rw [text_eq_line]
  exact fgets_line _ (lineFeed_notMem_line m) (by rw [bufferSize]; omega) hread

/-! ## One call -/

theorem foldl_update_zip {α β : Type} [DecidableEq α] (f : α → β) (args : List α) (regs : α → β)
    (a : α) :
    (args.zip (args.map f)).foldl (fun regs p ↦ Function.update regs p.1 p.2) regs a =
      if a ∈ args then f a else regs a := by
  induction args generalizing regs with
  | nil => simp
  | cons b args ih =>
      rw [List.map_cons, List.zip_cons_cons, List.foldl_cons, ih]
      by_cases hab : a = b
      · subst hab
        simp
      · simp [hab]

theorem assignRegs_scanArgs (panel : Linuxx64PanelState) (f : PtReg → BitVec 64) :
    assignRegs panel scanArgs (scanArgs.map f) = ⟨f⟩ := by
  rw [assignRegs]
  congr 1
  funext r
  rw [foldl_update_zip, if_pos (mem_scanArgs r)]

theorem captureCpuState_not_valid (hvalid : m.regsValid = false) {bufsize : ℕ}
    (hbuf : 512 ≤ bufsize) (panel : Linuxx64PanelState) :
    captureCpuState m bufsize panel = some ⟨-1, none, panel⟩ := by
  have hsame : strncmpEq m.text notYet.toList 29 = true := by
    have hline : m.line = notYet.toList := by rw [ProbeModule.line, hvalid]; rfl
    rw [strncmpEq, cString_of_not_mem (nul_notMem_text m), cString_of_not_mem notYet_line.2.1,
      text_eq_line, hline, ← notYet_line.2.2, List.take_left, List.take_length]
    exact decide_eq_true rfl
  rw [captureCpuState, fgets_procRead m hbuf]
  dsimp only
  rw [if_pos hsame]

theorem strncmpEq_text (hvalid : m.regsValid = true) :
    strncmpEq m.text notYet.toList 29 = false := by
  obtain ⟨ds, hds⟩ := List.head?_eq_some_iff.mp head?_scanFormat
  have hline : m.line =
      'R' :: render ds (scanArgs.map fun r ↦ m.capturedRegs (kernelReg r)) := by
    rw [ProbeModule.line, hvalid, hds]
    rfl
  have hnotYet : notYet.toList.head? = some 'N' := by
    unfold notYet
    rw [String.toList_ofList]
    rfl
  obtain ⟨cs, hcs⟩ := List.head?_eq_some_iff.mp hnotYet
  rw [strncmpEq, cString_of_not_mem (nul_notMem_text m), cString_of_not_mem notYet_line.2.1,
    text_eq_line, hline, hcs]
  exact decide_eq_false (by simp)

theorem captureCpuState_valid (hvalid : m.regsValid = true) {bufsize : ℕ}
    (hbuf : 512 ≤ bufsize) (panel : Linuxx64PanelState) :
    captureCpuState m bufsize panel =
      some ⟨0, some 21, ⟨fun r ↦ m.capturedRegs (kernelReg r)⟩⟩ := by
  have hlen : (scanArgs.map fun r ↦ m.capturedRegs (kernelReg r)).length =
      conversions (directives scanFormat.toList) := by
    rw [conversions_scanFormat]
    rfl
  have hends : ∀ c ∈ ['\n'].head?, EndsNumber c := by
    intro c hc
    cases hc
    decide
  have hscan : scan (directives scanFormat.toList) (cString m.text) =
      ⟨scanArgs.map fun r ↦ m.capturedRegs (kernelReg r), false⟩ := by
    rw [cString_of_not_mem (nul_notMem_text m), text_eq_line, ProbeModule.line, hvalid,
      Bool.not_true, if_neg Bool.false_ne_true, scan_render separated_scanFormat hlen hends]
  have hret : (⟨scanArgs.map fun r ↦ m.capturedRegs (kernelReg r), false⟩ : Scanned 64).ret = 21 := by
    rfl
  rw [captureCpuState, fgets_procRead m hbuf]
  dsimp only
  rw [if_neg (by rw [strncmpEq_text m hvalid]; exact Bool.false_ne_true), hscan, hret,
    if_neg (not_not.mpr rfl), assignRegs_scanArgs]

/-! ## Runs -/

inductive ProbeEvent
  | handlerPre (cpu : ℕ) (regs : PtRegs)
  /-- A client makes a whole call, which changes nothing in the module. -/
  | captureCpuState (bufsize : ℕ) (panel : Linuxx64PanelState)

def ProbeModule.step (m : ProbeModule) : ProbeEvent → ProbeModule
  | .handlerPre cpu regs => Kernel.handlerPre cpu regs m
  | .captureCpuState _ _ => m

def ProbeModule.run (es : List ProbeEvent) : ProbeModule := es.foldl ProbeModule.step .initial

def ProbeEvent.captured? : ProbeEvent → Option PtRegs
  | .handlerPre cpu regs => if cpu = 0 then some regs else none
  | .captureCpuState _ _ => none

def lastCapture (es : List ProbeEvent) : Option PtRegs :=
  (es.filterMap ProbeEvent.captured?).getLast?

def Holds (m : ProbeModule) (last : Option PtRegs) : Prop :=
  match last with
  | none => m.regsValid = false
  | some regs => m = ⟨regs, true⟩

theorem Holds.step {m : ProbeModule} {es : List ProbeEvent} (h : Holds m (lastCapture es))
    (e : ProbeEvent) : Holds (m.step e) (lastCapture (es ++ [e])) := by
  rw [lastCapture, List.filterMap_append]
  cases e with
  | captureCpuState bufsize panel =>
      rw [List.filterMap_cons_none (by rfl), List.filterMap_nil, List.append_nil]
      exact h
  | handlerPre cpu regs =>
      by_cases hcpu : cpu = 0
      · rw [List.filterMap_cons_some (by rw [ProbeEvent.captured?, if_pos hcpu]),
          List.filterMap_nil, List.getLast?_concat, ProbeModule.step, handlerPre,
          if_neg (not_not.mpr hcpu)]
        rfl
      · rw [List.filterMap_cons_none (by rw [ProbeEvent.captured?, if_neg hcpu]),
          List.filterMap_nil, List.append_nil, ProbeModule.step, handlerPre, if_pos hcpu]
        exact h

theorem holds_run (es : List ProbeEvent) : Holds (.run es) (lastCapture es) := by
  induction es using List.reverseRecOn with
  | nil => rfl
  | append_singleton es e ih =>
      rw [ProbeModule.run, List.foldl_append]
      exact ih.step e

structure TextFits (m : ProbeModule) : Prop where
  output : m.text.length + 1 ≤ outputSize
  written : snprintf outputSize m.text = (m.text.length, m.text ++ ['\x00'])
  copied : ∀ count pos, procRead m count pos ≠ .error .overread
  buffer : m.text.length + 1 ≤ bufferSize
  stored : ∀ bufsize, 512 ≤ bufsize →
    fgets (procRead m bufsize) bufferSize ⟨0, []⟩ = some m.text

theorem textFits (m : ProbeModule) : TextFits m where
  output := (length_text_le m).trans (by rw [outputSize]; norm_num)
  written := snprintf_text m
  copied := procRead_ne_overread m
  buffer := (length_text_le m).trans (by rw [bufferSize]; norm_num)
  stored := fun _ hbuf ↦ fgets_procRead m hbuf

/-- After any run a call returns the last capture, or minus one when there is none. -/
theorem captureCpuState_run (es : List ProbeEvent) {bufsize : ℕ} (hbuf : 512 ≤ bufsize)
    (panel : Linuxx64PanelState) :
    (match lastCapture es with
      | none => captureCpuState (.run es) bufsize panel = some ⟨-1, none, panel⟩
      | some regs => captureCpuState (.run es) bufsize panel =
          some ⟨0, some 21, ⟨fun r ↦ regs (kernelReg r)⟩⟩) ∧
      TextFits (.run es) := by
  refine ⟨?_, textFits _⟩
  have hholds := holds_run es
  cases hlast : lastCapture es with
  | none =>
      rw [hlast] at hholds
      exact captureCpuState_not_valid _ hholds hbuf panel
  | some regs =>
      rw [hlast] at hholds
      dsimp only
      rw [captureCpuState_valid _ (by rw [hholds]) hbuf panel, hholds]

def twoHits : List ProbeEvent :=
  [.handlerPre 0 fun r ↦ if r = .ip then BitVec.allOnes 64 else 0, .handlerPre 1 fun _ ↦ 10]

theorem captureCpuState_run_twoHits :
    captureCpuState (.run twoHits) 1024 ⟨fun _ ↦ 7⟩ =
      some ⟨0, some 21, ⟨fun r ↦ if r = .rip then BitVec.allOnes 64 else 0⟩⟩ := by
  have hregs : (fun r ↦ if kernelReg r = .ip then BitVec.allOnes 64 else 0) =
      fun r ↦ if r = .rip then BitVec.allOnes 64 else 0 := by
    funext r
    cases r <;> rfl
  rw [← hregs]
  exact (captureCpuState_run twoHits (by norm_num : 512 ≤ 1024) ⟨fun _ ↦ 7⟩).1

end VPanel.Kernel
