import VPanel.Proxy.PanelState

/-!
# The three proxy modules

Each module declares its own packed copy of the state and names the entries
of the JSON object it sends to the browser.
-/

namespace VPanel.Proxy

open ByteCodec HexText ObjectLayout Wire

/-! ## Hexadecimal text -/

def upperDigit (d : ℕ) : Char := "0123456789ABCDEF".toList.getD d '0'

theorem readsBack_upperDigit : ReadsBack upperDigit := by
  intro d hd
  interval_cases d <;> rfl

/-- The loop of `to_hex`.  The index is a `size_t`, so the test `i >= 0` never fails;
a write outside the string, or a loop that does not end, gives `none`. -/
def toHexLoop : ℕ → BitVec 64 → ℕ → List Char → Option (List Char)
  | 0, _, _, _ => none
  | fuel + 1, i, value, result =>
      if value = 0 then some result
      else if i.toNat < result.length then
        toHexLoop fuel (i - 1) (value / 16) (result.set i.toNat (upperDigit (value % 16)))
      else none

/-- `to_hex<T, N>`. -/
def toHex (N value : ℕ) : Option (List Char) :=
  toHexLoop (N + 2) (BitVec.ofNat 64 N - 1) value (List.replicate N '0')

theorem fixedHex_upperDigit_zero (N : ℕ) : fixedHex upperDigit N 0 = List.replicate N '0' := by
  induction N with
  | zero => rfl
  | succ N ih =>
      rw [fixedHex, Nat.zero_div, ih, List.replicate_succ']
      rfl

theorem ofNat_succ_sub_one (sizeBits n : ℕ) :
    BitVec.ofNat sizeBits (n + 1) - 1 = BitVec.ofNat sizeBits n := by
  rw [BitVec.ofNat_add]
  exact BitVec.add_sub_cancel _ _

theorem toHexLoop_eq {n value fuel : ℕ} (hn : n < 2 ^ 64) (hvalue : value < 16 ^ (n + 1))
    (hfuel : n + 2 ≤ fuel) (tail : List Char) :
    toHexLoop fuel (BitVec.ofNat 64 n) value (List.replicate (n + 1) '0' ++ tail) =
      some (fixedHex upperDigit (n + 1) value ++ tail) := by
  induction n generalizing value fuel tail with
  | zero =>
      obtain ⟨fuel, rfl⟩ : ∃ f, fuel = f + 2 := ⟨fuel - 2, by omega⟩
      have hlow : value % 16 = value := Nat.mod_eq_of_lt (by simpa using hvalue)
      have hhigh : value / 16 = 0 := Nat.div_eq_of_lt (by simpa using hvalue)
      by_cases hzero : value = 0
      · subst hzero
        rfl
      · rw [toHexLoop, if_neg hzero, if_pos (by simp), toHexLoop, if_pos hhigh, hlow]
        simp [fixedHex, hlow]
  | succ n ih =>
      obtain ⟨fuel, rfl⟩ : ∃ f, fuel = f + 1 := ⟨fuel - 1, by omega⟩
      by_cases hzero : value = 0
      · subst hzero
        rw [toHexLoop, if_pos rfl, fixedHex_upperDigit_zero]
      · have hindex : (BitVec.ofNat 64 (n + 1)).toNat = n + 1 := by
          rw [BitVec.toNat_ofNat, Nat.mod_eq_of_lt hn]
        have hset : (List.replicate (n + 1 + 1) '0' ++ tail).set (n + 1)
            (upperDigit (value % 16)) =
              List.replicate (n + 1) '0' ++ (upperDigit (value % 16) :: tail) := by
          rw [List.replicate_succ', List.append_assoc, List.set_append_right _ _ (by simp)]
          simp
        have hnext : value / 16 < 16 ^ (n + 1) := by
          rw [pow_succ] at hvalue
          omega
        have hlast : fixedHex upperDigit (n + 1 + 1) value =
            fixedHex upperDigit (n + 1) (value / 16) ++ [upperDigit (value % 16)] := rfl
        rw [toHexLoop, if_neg hzero, hindex, if_pos (by simp; omega), ofNat_succ_sub_one, hset,
          ih (by omega) hnext (by omega), hlast, List.append_assoc, List.singleton_append]

theorem toHex_eq {N value : ℕ} (hpos : 0 < N) (hN : N ≤ 2 ^ 64) (hvalue : value < 16 ^ N) :
    toHex N value = some (fixedHex upperDigit N value) := by
  obtain ⟨n, rfl⟩ : ∃ n, N = n + 1 := ⟨N - 1, by omega⟩
  rw [toHex, ofNat_succ_sub_one]
  simpa using toHexLoop_eq (by omega) hvalue (by omega) []

/-! ## PDP-11 -/

namespace PDProxy

/-- `pdp_panel_state` of `pdproxy.cpp`. -/
def panelState : ObjType PdpField :=
  Abi.lp64.packedStruct [Abi.lp64.int .psAddress .uint32, Abi.lp64.int .psData .uint16,
    Abi.lp64.int .psPsw .uint16, Abi.lp64.int .psMser .uint16, Abi.lp64.int .psCpuErr .uint16,
    Abi.lp64.int .psMmr0 .uint16, Abi.lp64.int .psMmr3 .uint16]

@[simp] theorem size_panelState : panelState.size = 16 := rfl

def mode (panel : PdpField → ℕ) : ℕ := panel .psPsw >>> 14 &&& 3

def addr22 (panel : PdpField → ℕ) : Bool := panel .psMmr3 &&& 1 <<< 4 ≠ 0

def addr18 (panel : PdpField → ℕ) : Bool := (panel .psMmr0 &&& 1 <<< 0 ≠ 0) && !addr22 panel

def toJson (panel : PdpField → ℕ) : JsonObject :=
  [("address", .number (panel .psAddress &&& 0x3fffff)),
    ("data", .number (panel .psData)),
    ("parity_error", .boolean
      (panel .psMser &&& (1 <<< 7 ||| 1 <<< 6 ||| 1 <<< 5 ||| 1 <<< 4) ≠ 0)),
    ("address_error", .boolean (panel .psCpuErr &&& (1 <<< 6 ||| 1 <<< 5) ≠ 0)),
    ("user_mode", .boolean (mode panel = 3)),
    ("super_mode", .boolean (mode panel = 1)),
    ("kernel_mode", .boolean (mode panel = 0)),
    ("addr16", .boolean (!(addr18 panel || addr22 panel))),
    ("addr18", .boolean (addr18 panel)),
    ("addr22", .boolean (addr22 panel))]

def udpPacketToJson (data : List UInt8) : Option Reply :=
  replyWith panelState (fun panel ↦ some (toJson panel)) data

end PDProxy

/-! ## AMD64 -/

namespace AMD64Proxy

/-- `clockframe` of `amd64proxy.cpp`. -/
def clockframe : ObjType ClockReg :=
  Abi.lp64.packedStruct [Abi.lp64.int .cfRdi .uint64, Abi.lp64.int .cfRsi .uint64,
    Abi.lp64.int .cfRdx .uint64, Abi.lp64.int .cfRcx .uint64, Abi.lp64.int .cfR8 .uint64,
    Abi.lp64.int .cfR9 .uint64, Abi.lp64.int .cfR10 .uint64, Abi.lp64.int .cfR11 .uint64,
    Abi.lp64.int .cfR12 .uint64, Abi.lp64.int .cfR13 .uint64, Abi.lp64.int .cfR14 .uint64,
    Abi.lp64.int .cfR15 .uint64, Abi.lp64.int .cfRbp .uint64, Abi.lp64.int .cfRbx .uint64,
    Abi.lp64.int .cfRax .uint64, Abi.lp64.int .cfGs .uint64, Abi.lp64.int .cfFs .uint64,
    Abi.lp64.int .cfEs .uint64, Abi.lp64.int .cfDs .uint64, Abi.lp64.int .cfTrapno .uint64,
    Abi.lp64.int .cfErr .uint64, Abi.lp64.int .cfRip .uint64, Abi.lp64.int .cfCs .uint64,
    Abi.lp64.int .cfRflags .uint64, Abi.lp64.int .cfRsp .uint64, Abi.lp64.int .cfSs .uint64]

def panelState : ObjType ClockReg := Abi.lp64.packedStruct [clockframe]

@[simp] theorem size_panelState : panelState.size = 208 := rfl

/-- The registers that are shown, under their JSON keys. -/
def shown : List (String × ClockReg) :=
  [("rax", .cfRax), ("rbx", .cfRbx), ("rcx", .cfRcx), ("rdx", .cfRdx), ("rdi", .cfRdi),
    ("rsi", .cfRsi), ("rbp", .cfRbp), ("rsp", .cfRsp), ("rip", .cfRip), ("rflags", .cfRflags)]

/-- `json[key] = to_hex(ps_frame.reg)` for every shown register, a `uint64_t` each. -/
def toJson (panel : ClockReg → ℕ) : Option JsonObject :=
  shown.mapM fun e ↦ (toHex 16 (panel e.2)).map fun s ↦ (e.1, .string s)

def udpPacketToJson (data : List UInt8) : Option Reply := replyWith panelState toJson data

theorem load_lt (mem : List UInt8) (r : ClockReg) : panelState.load .little mem r < 2 ^ 64 := by
  have hwidth : panelState.width r = 8 := by cases r <;> rfl
  have hlt := panelState.load_lt .little mem r
  rwa [hwidth] at hlt

def dump (panel : ClockReg → ℕ) : JsonObject :=
  shown.map fun e ↦ (e.1, .string (fixedHex upperDigit 16 (panel e.2)))

theorem toJson_eq {panel : ClockReg → ℕ} (h : ∀ r, panel r < 2 ^ 64) :
    toJson panel = some (dump panel) := by
  have hdump : ∀ es : List (String × ClockReg),
      (es.mapM fun e ↦ (toHex 16 (panel e.2)).map fun s ↦ (e.1, JsonObject.Value.string s)) =
        some (es.map fun e ↦ (e.1, .string (fixedHex upperDigit 16 (panel e.2)))) := by
    intro es
    induction es with
    | nil => rfl
    | cons e es ih =>
        rw [List.mapM_cons, ih, toHex_eq (by norm_num) (by norm_num) (h e.2)]
        rfl
  exact hdump shown

end AMD64Proxy

/-! ## NetBSD VAX -/

namespace NetBSDVAXProxy

def panelState : ObjType VaxField :=
  Abi.lp64.packedStruct [Abi.lp64.int .psAddress .uint32, Abi.lp64.int .psData .uint32]

@[simp] theorem size_panelState : panelState.size = 8 := rfl

def toJson (panel : VaxField → ℕ) : JsonObject :=
  [("address", .number (panel .psAddress)), ("data", .number (panel .psData))]

def udpPacketToJson (data : List UInt8) : Option Reply :=
  replyWith panelState (fun panel ↦ some (toJson panel)) data

end NetBSDVAXProxy

/-! ## The proxies of `main.cpp` -/

/-- A proxy class: its state, and a JSON object for every state that can be received. -/
structure ProxyModule where
  Field : Type
  decEq : DecidableEq Field
  panelState : ObjType Field
  memberName : Field → String
  toJson : (Field → ℕ) → Option JsonObject
  toJson_isSome : ∀ mem, (toJson (panelState.load .little mem)).isSome

namespace ProxyModule

attribute [instance] decEq

def udpPacketToJson (M : ProxyModule) (data : List UInt8) : Option Reply :=
  replyWith M.panelState M.toJson data

theorem udpPacketToJson_eq (M : ProxyModule) (data : List UInt8) :
    (Accepts M.panelState.size data ∧ ∃ json, M.udpPacketToJson data = some (some json)) ∨
      (¬Accepts M.panelState.size data ∧ M.udpPacketToJson data = some none) := by
  by_cases hacc : Accepts M.panelState.size data
  · obtain ⟨json, hjson⟩ := Option.isSome_iff_exists.mp
      (M.toJson_isSome (peek data 6 M.panelState.size))
    exact Or.inl ⟨hacc, json, replyWith_of_accepts hacc hjson⟩
  · exact Or.inr ⟨hacc, replyWith_of_not_accepts M.toJson hacc⟩

/-- The reply without the check that no read leaves the datagram, which always succeeds. -/
def reply (M : ProxyModule) (data : List UInt8) : Reply := (M.udpPacketToJson data).getD none

theorem udpPacketToJson_eq_reply (M : ProxyModule) (data : List UInt8) :
    M.udpPacketToJson data = some (M.reply data) := by
  rcases M.udpPacketToJson_eq data with ⟨-, json, h⟩ | ⟨-, h⟩ <;> rw [reply, h, Option.getD_some]

theorem reply_take (M : ProxyModule) {n : ℕ} (hn : 6 + M.panelState.size ≤ n) (data : List UInt8) :
    M.reply (data.take n) = M.reply data :=
  congrArg (Option.getD · none) (replyWith_take hn M.toJson data)

end ProxyModule

def pdProxy : ProxyModule where
  Field := PdpField
  decEq := inferInstance
  panelState := PDProxy.panelState
  memberName
    | .psAddress => "ps_address"
    | .psData => "ps_data"
    | .psPsw => "ps_psw"
    | .psMser => "ps_mser"
    | .psCpuErr => "ps_cpu_err"
    | .psMmr0 => "ps_mmr0"
    | .psMmr3 => "ps_mmr3"
  toJson panel := some (PDProxy.toJson panel)
  toJson_isSome _ := rfl

def amd64Proxy : ProxyModule where
  Field := ClockReg
  decEq := inferInstance
  panelState := AMD64Proxy.panelState
  memberName
    | .cfRdi => "cf_rdi"
    | .cfRsi => "cf_rsi"
    | .cfRdx => "cf_rdx"
    | .cfRcx => "cf_rcx"
    | .cfR8 => "cf_r8"
    | .cfR9 => "cf_r9"
    | .cfR10 => "cf_r10"
    | .cfR11 => "cf_r11"
    | .cfR12 => "cf_r12"
    | .cfR13 => "cf_r13"
    | .cfR14 => "cf_r14"
    | .cfR15 => "cf_r15"
    | .cfRbp => "cf_rbp"
    | .cfRbx => "cf_rbx"
    | .cfRax => "cf_rax"
    | .cfGs => "cf_gs"
    | .cfFs => "cf_fs"
    | .cfEs => "cf_es"
    | .cfDs => "cf_ds"
    | .cfTrapno => "cf_trapno"
    | .cfErr => "cf_err"
    | .cfRip => "cf_rip"
    | .cfCs => "cf_cs"
    | .cfRflags => "cf_rflags"
    | .cfRsp => "cf_rsp"
    | .cfSs => "cf_ss"
  toJson := AMD64Proxy.toJson
  toJson_isSome mem := by rw [AMD64Proxy.toJson_eq (AMD64Proxy.load_lt mem), Option.isSome_some]

def netbsdvaxProxy : ProxyModule where
  Field := VaxField
  decEq := inferInstance
  panelState := NetBSDVAXProxy.panelState
  memberName
    | .psAddress => "ps_address"
    | .psData => "ps_data"
  toJson panel := some (NetBSDVAXProxy.toJson panel)
  toJson_isSome _ := rfl

/-- The proxies with the UDP ports they are created with. -/
def proxies : List (ℕ × ProxyModule) :=
  [(4000, pdProxy), (4001, amd64Proxy), (4002, netbsdvaxProxy)]

def proxyOn (port : ℕ) : Option ProxyModule := proxies.lookup port

end VPanel.Proxy
