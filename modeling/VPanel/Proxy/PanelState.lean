import VPanel.Library.HexText
import VPanel.Library.JsonObject
import VPanel.Wire.PanelStates

/-!
# From datagrams to JSON

The proxies share one acceptance rule, which compares the size of the
datagram with the count in its header and the count with the size of the
expected state.  Every read is checked against the bytes that were received.
-/

namespace VPanel.Proxy

open ByteCodec ObjectLayout Wire

variable {ι : Type} [DecidableEq ι]

/-- Copy `n` bytes from offset `off`; `none` stands for a read outside the source. -/
def memcpy? (src : List UInt8) (off n : ℕ) : Option (List UInt8) :=
  if off + n ≤ src.length then some (peek src off n) else none

theorem memcpy?_of_le {src : List UInt8} {off n : ℕ} (h : off + n ≤ src.length) :
    memcpy? src off n = some (peek src off n) := if_pos h

inductive Rejection
  | tooSmallForHeader (size : ℕ)
  | tooSmall (size expected count : ℕ)
  | invalidPayload (count stateSize : ℕ)
  deriving DecidableEq

/-- `panel_packet_header` of `types.hpp`. -/
def header : ObjType HeaderField :=
  Abi.lp64.packedStruct [Abi.lp64.int .ppByteCount .uint16, Abi.lp64.int .ppByteFlags .uint32]

@[simp] theorem size_header : header.size = 6 := rfl

/-- The line passed to `log_error`. -/
def Rejection.message : Rejection → String
  | .tooSmallForHeader size =>
      "Packet too small for header: " ++ toString size ++ " bytes (need " ++
        toString header.size ++ ")"
  | .tooSmall size expected count =>
      "Packet too small: " ++ toString size ++ " bytes (need " ++ toString expected ++
        " total, header=" ++ toString header.size ++ " + payload=" ++ toString count ++ ")"
  | .invalidPayload count stateSize =>
      "Invalid payload size: " ++ toString count ++ " bytes (expected " ++
        toString stateSize ++ " for panel state)"

def getPanelState (T : ObjType ι) (data : List UInt8) :
    Option (Except Rejection (ι → ℕ)) :=
  if data.length < header.size then some (.error (.tooSmallForHeader data.length))
  else do
    let headerBytes ← memcpy? data 0 header.size
    let count := header.load .little headerBytes .ppByteCount
    if data.length < header.size + count then
      return .error (.tooSmall data.length (header.size + count) count)
    if count ≠ T.size then
      return .error (.invalidPayload count T.size)
    let payload ← memcpy? data header.size T.size
    return .ok (T.load .little payload)

def announcedCount (data : List UInt8) : ℕ := leValue (peek data 0 2)

/-- A complete datagram for a state of `size` bytes. -/
def Accepts (size : ℕ) (data : List UInt8) : Prop :=
  6 + size ≤ data.length ∧ announcedCount data = size

instance (size : ℕ) (data : List UInt8) : Decidable (Accepts size data) :=
  inferInstanceAs (Decidable (_ ∧ _))

theorem load_header (data : List UInt8) :
    header.load .little (peek data 0 6) .ppByteCount = announcedCount data := by
  have hslot : header.slot? .ppByteCount = some ⟨.ppByteCount, 0, 2⟩ := rfl
  rw [ObjType.load_eq_of_slot? _ hslot, peek_peek (by norm_num)]
  rfl

/-- The whole behaviour of `get_panel_state`; in particular no read leaves the data. -/
theorem getPanelState_eq (T : ObjType ι) (data : List UInt8) :
    (Accepts T.size data ∧ getPanelState T data = some (.ok (T.load .little (peek data 6 T.size)))) ∨
      (¬Accepts T.size data ∧ ∃ r, getPanelState T data = some (.error r)) := by
  unfold getPanelState
  by_cases hheader : data.length < header.size
  · rw [if_pos hheader]
    refine Or.inr ⟨fun hacc ↦ ?_, _, rfl⟩
    have hlen := hacc.1
    simp only [size_header] at hheader
    omega
  · have hlen : 6 ≤ data.length := by simpa using hheader
    rw [if_neg hheader, size_header, memcpy?_of_le (by simpa using hlen)]
    simp only [Option.bind_eq_bind, Option.bind_some, load_header]
    by_cases hshort : data.length < 6 + announcedCount data
    · rw [if_pos hshort]
      refine Or.inr ⟨fun hacc ↦ ?_, _, rfl⟩
      have hsize := hacc.1
      rw [hacc.2] at hshort
      omega
    · rw [if_neg hshort]
      by_cases hcount : announcedCount data = T.size
      · have hfit : 6 + T.size ≤ data.length := by omega
        rw [if_neg (not_not.mpr hcount), memcpy?_of_le hfit]
        exact Or.inl ⟨⟨hfit, hcount⟩, rfl⟩
      · rw [if_pos hcount]
        exact Or.inr ⟨fun h ↦ hcount h.2, _, rfl⟩

theorem getPanelState_of_accepts {T : ObjType ι} {data : List UInt8} (h : Accepts T.size data) :
    getPanelState T data = some (.ok (T.load .little (peek data 6 T.size))) := by
  rcases getPanelState_eq T data with ⟨-, hok⟩ | ⟨hnot, -⟩
  · exact hok
  · exact absurd h hnot

theorem getPanelState_of_not_accepts {T : ObjType ι} {data : List UInt8}
    (h : ¬Accepts T.size data) : ∃ r, getPanelState T data = some (.error r) := by
  rcases getPanelState_eq T data with ⟨hacc, -⟩ | ⟨-, hr⟩
  · exact absurd hacc h
  · exact hr

theorem accepts_iff {size : ℕ} (hsize : size < 2 ^ 16) (data : List UInt8) :
    Accepts size data ↔ 6 + size ≤ data.length ∧ data.take 2 = leBytes 2 size := by
  apply and_congr_right
  intro hlen
  have htake : (data.take 2).length = 2 := by
    rw [List.length_take]
    omega
  have hcount : announcedCount data = leValue (data.take 2) := rfl
  constructor
  · intro h
    rw [← h, hcount]
    nth_rewrite 2 [← htake]
    exact (leBytes_leValue _).symm
  · intro h
    rw [hcount, h, leValue_leBytes]
    exact Nat.mod_eq_of_lt hsize

theorem exists_getPanelState_iff {T : ObjType ι} {data : List UInt8} :
    (∃ panel, getPanelState T data = some (.ok panel)) ↔ Accepts T.size data := by
  constructor
  · rintro ⟨panel, hpanel⟩
    by_contra hnot
    obtain ⟨r, hr⟩ := getPanelState_of_not_accepts hnot
    rw [hr] at hpanel
    cases hpanel
  · exact fun h ↦ ⟨_, getPanelState_of_accepts h⟩

theorem accepts_append {size : ℕ} (flags : ℕ) {payload : List UInt8} (hsize : size < 2 ^ 16)
    (hpayload : payload.length = size) :
    Accepts size (leBytes 2 size ++ (leBytes 4 flags ++ payload)) ∧
      peek (leBytes 2 size ++ (leBytes 4 flags ++ payload)) 6 size = payload := by
  constructor
  · rw [accepts_iff hsize]
    refine ⟨?_, List.take_left' (length_leBytes 2 size)⟩
    simp only [List.length_append, length_leBytes]
    omega
  · have hheader : (leBytes 2 size ++ leBytes 4 flags).length = 6 := by simp
    rw [← List.append_assoc, peek, List.drop_left' hheader, List.take_of_length_le hpayload.le]

/-- What `udp_packet_to_json` returns: the empty string, or the dump of an object. -/
abbrev Reply := Option JsonObject

/-- The common shape of the three proxies: an empty reply for a rejected datagram. -/
def replyWith (T : ObjType ι) (toJson : (ι → ℕ) → Option JsonObject) (data : List UInt8) :
    Option Reply := do
  match ← getPanelState T data with
  | .error _ => return none
  | .ok panel => return some (← toJson panel)

theorem replyWith_of_not_accepts {T : ObjType ι} {data : List UInt8}
    (toJson : (ι → ℕ) → Option JsonObject) (h : ¬Accepts T.size data) :
    replyWith T toJson data = some none := by
  obtain ⟨r, hr⟩ := getPanelState_of_not_accepts h
  simp [replyWith, hr]

theorem replyWith_of_accepts {T : ObjType ι} {data : List UInt8}
    {toJson : (ι → ℕ) → Option JsonObject} {json : JsonObject} (h : Accepts T.size data)
    (hjson : toJson (T.load .little (peek data 6 T.size)) = some json) :
    replyWith T toJson data = some (some json) := by
  simp [replyWith, getPanelState_of_accepts h, hjson]

/-- Bytes behind the state do not matter. -/
theorem replyWith_take {T : ObjType ι} {n : ℕ} (hn : 6 + T.size ≤ n)
    (toJson : (ι → ℕ) → Option JsonObject) (data : List UInt8) :
    replyWith T toJson (data.take n) = replyWith T toJson data := by
  have hpeek : ∀ off w, off + w ≤ n → peek (data.take n) off w = peek data off w := by
    intro off w hle
    have h : peek (peek data 0 n) off w = peek data (0 + off) w := peek_peek hle
    rwa [Nat.zero_add] at h
  have hiff : Accepts T.size (data.take n) ↔ Accepts T.size data := by
    rw [Accepts, Accepts, announcedCount, announcedCount, hpeek 0 2 (by omega), List.length_take]
    omega
  by_cases hacc : Accepts T.size data
  · rw [replyWith, replyWith, getPanelState_of_accepts hacc,
      getPanelState_of_accepts (hiff.mpr hacc), hpeek 6 T.size hn]
  · rw [replyWith_of_not_accepts toJson hacc, replyWith_of_not_accepts toJson (mt hiff.mp hacc)]

theorem replyWith_eq_some {T : ObjType ι} {toJson : (ι → ℕ) → Option JsonObject}
    {data : List UInt8} {reply : Reply} (h : replyWith T toJson data = some reply) :
    (¬Accepts T.size data ∧ reply = none) ∨
      (Accepts T.size data ∧ ∃ json, reply = some json ∧
        toJson (T.load .little (peek data 6 T.size)) = some json) := by
  by_cases hacc : Accepts T.size data
  · refine Or.inr ⟨hacc, ?_⟩
    cases hjson : toJson (T.load .little (peek data 6 T.size)) with
    | none => simp [replyWith, getPanelState_of_accepts hacc, hjson] at h
    | some json =>
        rw [replyWith_of_accepts hacc hjson] at h
        exact ⟨json, (Option.some.inj h).symm, rfl⟩
  · rw [replyWith_of_not_accepts toJson hacc] at h
    exact Or.inl ⟨hacc, (Option.some.inj h).symm⟩

end VPanel.Proxy
