import Mathlib.Data.List.Infix
import VPanel.Library.ByteCodec

/-!
# WebSocket frames

A frame that is not masked: the opcode and a short length in two bytes, a longer
length where one is needed, and the payload.  A reader takes frames from the
start of a stream for as long as they are complete.
-/

namespace WebSocketFrame

open ByteCodec

structure Frame where
  fin : Bool
  opcode : ℕ
  payload : List UInt8
  deriving DecidableEq

/-- The number of bytes of a longer length. -/
def extension (short : ℕ) : ℕ := if short = 126 then 2 else if short = 127 then 8 else 0

/-- The length of the payload, which must be written in as few bytes as possible. -/
def payloadLength (short : ℕ) (long : List UInt8) : Option ℕ :=
  let n := ByteOrder.big.decode long
  if short < 126 then some short
  else if short = 126 then if 126 ≤ n then some n else none
  else if 2 ^ 16 ≤ n ∧ n < 2 ^ 63 then some n else none

inductive Reading
  | more
  | failed
  | frame (f : Frame) (rest : List UInt8)

def read : List UInt8 → Reading
  | b0 :: b1 :: s =>
      -- a reserved bit, or a mask
      if b0.toNat / 16 % 8 ≠ 0 ∨ 128 ≤ b1.toNat then .failed
      else if s.length < extension b1.toNat then .more
      else
        match payloadLength b1.toNat (s.take (extension b1.toNat)) with
        | none => .failed
        | some n =>
            let s := s.drop (extension b1.toNat)
            if s.length < n then .more
            else .frame ⟨128 ≤ b0.toNat, b0.toNat % 16, s.take n⟩ (s.drop n)
  | _ => .more

/-- Read frames, at most so many, as long as the stream holds complete ones. -/
def readMany : ℕ → List UInt8 → Option (List Frame × List UInt8)
  | 0, s => some ([], s)
  | n + 1, s =>
      match read s with
      | .more => some ([], s)
      | .failed => none
      | .frame f rest => (readMany n rest).map fun r ↦ (f :: r.1, r.2)

/-- The complete frames at the start of a stream, and what follows them. -/
def received (s : List UInt8) : Option (List Frame × List UInt8) := readMany s.length s

/-! ## Writing frames -/

def lengthBytes (size : ℕ) : List UInt8 :=
  if size < 126 then [UInt8.ofNat size]
  else if size < 2 ^ 16 then 126 :: ByteOrder.big.encode 2 size
  else 127 :: ByteOrder.big.encode 8 size

def Frame.firstByte (f : Frame) : UInt8 := UInt8.ofNat ((if f.fin then 128 else 0) + f.opcode)

def Frame.bytes (f : Frame) : List UInt8 :=
  f.firstByte :: (lengthBytes f.payload.length ++ f.payload)

structure Frame.Valid (f : Frame) : Prop where
  opcode : f.opcode < 16
  payload : f.payload.length < 2 ^ 63

theorem lengthBytes_eq {size : ℕ} (h : size < 2 ^ 63) :
    ∃ (b1 : UInt8) (long : List UInt8), lengthBytes size = b1 :: long ∧ b1.toNat < 128 ∧
      long.length = extension b1.toNat ∧ payloadLength b1.toNat long = some size := by
  unfold lengthBytes
  split_ifs with hshort hmiddle
  · have hbyte : (UInt8.ofNat size).toNat = size := by
      rw [UInt8.toNat_ofNat']
      omega
    refine ⟨UInt8.ofNat size, [], rfl, by omega, ?_, ?_⟩
    · rw [hbyte, extension, if_neg (by omega), if_neg (by omega)]
      rfl
    · rw [hbyte, payloadLength, if_pos hshort]
  · have hsize : ByteOrder.big.decode (ByteOrder.big.encode 2 size) = size := by
      rw [ByteOrder.big.decode_encode]
      exact Nat.mod_eq_of_lt hmiddle
    refine ⟨126, _, rfl, by decide, ByteOrder.length_encode .., ?_⟩
    rw [payloadLength, hsize]
    exact if_pos (Nat.le_of_not_lt hshort)
  · have hsize : ByteOrder.big.decode (ByteOrder.big.encode 8 size) = size := by
      rw [ByteOrder.big.decode_encode]
      exact Nat.mod_eq_of_lt (by omega)
    refine ⟨127, _, rfl, by decide, ByteOrder.length_encode .., ?_⟩
    have hlong : 2 ^ 16 ≤ size ∧ size < 2 ^ 63 := ⟨Nat.le_of_not_lt hmiddle, h⟩
    rw [payloadLength, hsize]
    exact if_pos hlong

section Valid

variable {f : Frame}

theorem Frame.Valid.firstByte (h : f.Valid) :
    f.firstByte.toNat / 16 % 8 = 0 ∧ decide (128 ≤ f.firstByte.toNat) = f.fin ∧
      f.firstByte.toNat % 16 = f.opcode := by
  have hopcode := h.opcode
  have hbyte : f.firstByte.toNat = (if f.fin then 128 else 0) + f.opcode := by
    rw [Frame.firstByte, UInt8.toNat_ofNat']
    split_ifs <;> omega
  rw [hbyte]
  cases f.fin with
  | false => exact ⟨by simp; omega, by simp; omega, by simp; omega⟩
  | true => exact ⟨by simp; omega, by simp, by simp; omega⟩

theorem Frame.Valid.read_append (h : f.Valid) (rest : List UInt8) :
    read (f.bytes ++ rest) = .frame f rest := by
  obtain ⟨b1, long, hlength, hb1, hlong, hsize⟩ := lengthBytes_eq h.payload
  obtain ⟨hreserved, hfin, hopcode⟩ := h.firstByte
  have hbytes : f.bytes ++ rest = f.firstByte :: b1 :: (long ++ (f.payload ++ rest)) := by
    rw [Frame.bytes, hlength]
    simp
  have hroom : ¬(long ++ (f.payload ++ rest)).length < extension b1.toNat := by
    rw [List.length_append]
    omega
  have hmask : ¬(128 ≤ b1.toNat) := by omega
  rw [hbytes, read, if_neg (by simp [hreserved, hmask]), if_neg hroom, List.take_left' hlong,
    hsize, List.drop_left' hlong]
  simp [hfin, hopcode]

theorem Frame.Valid.read_prefix (h : f.Valid) {s : List UInt8} (hs : s <+: f.bytes)
    (hne : s ≠ f.bytes) : read s = .more := by
  obtain ⟨b1, long, hlength, hb1, hlong, hsize⟩ := lengthBytes_eq h.payload
  obtain ⟨hreserved, -, -⟩ := h.firstByte
  rw [Frame.bytes, hlength] at hs hne
  rcases s with _ | ⟨b0, _ | ⟨b, s⟩⟩
  · rfl
  · rfl
  · rw [List.cons_append, List.cons_prefix_cons, List.cons_prefix_cons] at hs
    obtain ⟨rfl, rfl, hs⟩ := hs
    have hne : s ≠ long ++ f.payload := fun heq ↦ hne (by rw [heq, List.cons_append])
    have hmask : ¬(128 ≤ b.toNat) := by omega
    rw [read, if_neg (by simp [hreserved, hmask])]
    by_cases hroom : s.length < extension b.toNat
    · rw [if_pos hroom]
    · have hstart : long <+: s :=
        List.prefix_of_prefix_length_le (List.prefix_append ..) hs (by omega)
      obtain ⟨s, rfl⟩ := hstart
      have hs : s <+: f.payload := (List.prefix_append_right_inj long).mp hs
      have hlt : s.length < f.payload.length :=
        lt_of_le_of_ne hs.length_le fun heq ↦ hne (by rw [hs.eq_of_length heq])
      rw [if_neg hroom, List.take_left' hlong, hsize, List.drop_left' hlong]
      exact if_pos hlt

end Valid

/-! ## Streams -/

theorem two_le_length_bytes (f : Frame) : 2 ≤ f.bytes.length := by
  have hpos : 0 < (lengthBytes f.payload.length).length := by
    unfold lengthBytes
    split_ifs <;> simp
  rw [Frame.bytes, List.length_cons, List.length_append]
  omega

theorem readMany_prefix {fs : List Frame} (hvalid : ∀ f ∈ fs, f.Valid) {s : List UInt8}
    (hs : s <+: fs.flatMap Frame.bytes) {n : ℕ} (hn : s.length ≤ n) :
    ∃ complete later rest, fs = complete ++ later ∧ readMany n s = some (complete, rest) ∧
      s = complete.flatMap Frame.bytes ++ rest ∧
        ∀ f ∈ later.head?, rest <+: f.bytes ∧ rest ≠ f.bytes := by
  induction fs generalizing s n with
  | nil =>
      rw [List.prefix_nil.mp hs]
      refine ⟨[], [], [], rfl, ?_, rfl, nofun⟩
      cases n <;> rfl
  | cons f fs ih =>
      obtain ⟨hf, hfs⟩ := List.forall_mem_cons.mp hvalid
      rw [List.flatMap_cons] at hs
      by_cases hlen : f.bytes.length ≤ s.length
      · obtain ⟨s, rfl⟩ := List.prefix_of_prefix_length_le (List.prefix_append ..) hs hlen
        have htwo := two_le_length_bytes f
        rw [List.length_append] at hn
        obtain ⟨n, rfl⟩ : ∃ m, n = m + 1 := ⟨n - 1, by omega⟩
        have hs : s <+: fs.flatMap Frame.bytes := (List.prefix_append_right_inj _).mp hs
        obtain ⟨complete, later, rest, rfl, hread, rfl, hrest⟩ := ih hfs hs (n := n) (by omega)
        refine ⟨f :: complete, later, rest, rfl, ?_, by simp, hrest⟩
        rw [readMany, hf.read_append]
        simp only [hread]
        rfl
      · have hshort : s.length < f.bytes.length := Nat.lt_of_not_le hlen
        have hstart : s <+: f.bytes :=
          List.prefix_of_prefix_length_le hs (List.prefix_append ..) hshort.le
        have hne : s ≠ f.bytes := fun heq ↦ hshort.ne (congrArg List.length heq)
        refine ⟨[], f :: fs, s, rfl, ?_, rfl, ?_⟩
        · cases n with
          | zero => rw [List.eq_nil_of_length_eq_zero (Nat.le_zero.mp hn), readMany]
          | succ n => rw [readMany, hf.read_prefix hstart hne]
        · rintro g hg
          cases hg
          exact ⟨hstart, hne⟩

/-- Any part of a stream of frames is read as the frames that are complete in it. -/
theorem received_prefix {fs : List Frame} (hvalid : ∀ f ∈ fs, f.Valid) {s : List UInt8}
    (hs : s <+: fs.flatMap Frame.bytes) :
    ∃ complete later rest, fs = complete ++ later ∧ received s = some (complete, rest) ∧
      s = complete.flatMap Frame.bytes ++ rest ∧
        ∀ f ∈ later.head?, rest <+: f.bytes ∧ rest ≠ f.bytes :=
  readMany_prefix hvalid hs le_rfl

end WebSocketFrame
