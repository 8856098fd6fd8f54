import Mathlib.Data.Nat.Digits.Lemmas

/-!
# Byte orders

A byte order turns a number into exactly `w` bytes and back.  Little-endian
words and the mixed order of a machine that stores a long as two words are
both instances; everything above only uses the laws in the structure.
-/

namespace ByteCodec

/-- The `w` little-endian bytes of `n`; higher bits are dropped. -/
def leBytes : ℕ → ℕ → List UInt8
  | 0, _ => []
  | w + 1, n => UInt8.ofNat (n % 256) :: leBytes w (n / 256)

def leValue (bs : List UInt8) : ℕ := Nat.ofDigits 256 (bs.map UInt8.toNat)

@[simp] theorem leBytes_zero (n : ℕ) : leBytes 0 n = [] := rfl

@[simp] theorem leValue_nil : leValue [] = 0 := rfl

@[simp] theorem leValue_cons (b : UInt8) (bs : List UInt8) :
    leValue (b :: bs) = b.toNat + 256 * leValue bs := by
  simp [leValue, Nat.ofDigits_cons]

@[simp] theorem length_leBytes (w n : ℕ) : (leBytes w n).length = w := by
  induction w generalizing n with
  | zero => rfl
  | succ w ih => simp only [leBytes, List.length_cons, ih]

theorem leValue_leBytes (w n : ℕ) : leValue (leBytes w n) = n % 256 ^ w := by
  induction w generalizing n with
  | zero => simp [Nat.mod_one]
  | succ w ih =>
      have hbyte : (UInt8.ofNat (n % 256)).toNat = n % 256 := by
        rw [UInt8.toNat_ofNat']
        exact Nat.mod_eq_of_lt (Nat.mod_lt n (by norm_num))
      rw [leBytes, leValue_cons, ih, hbyte, pow_succ', Nat.mod_mul]

theorem leBytes_leValue (bs : List UInt8) : leBytes bs.length (leValue bs) = bs := by
  induction bs with
  | nil => rfl
  | cons b bs ih =>
      have hb : b.toNat < 256 := b.toNat_lt
      have hlow : (b.toNat + 256 * leValue bs) % 256 = b.toNat := by omega
      have hhigh : (b.toNat + 256 * leValue bs) / 256 = leValue bs := by omega
      rw [List.length_cons, leValue_cons, leBytes, hlow, hhigh, ih, UInt8.ofNat_toNat]

theorem leValue_append (bs cs : List UInt8) :
    leValue (bs ++ cs) = leValue bs + 256 ^ bs.length * leValue cs := by
  simp [leValue, Nat.ofDigits_append]

/-- How a compiler orders the bytes of an integer of each width. -/
structure ByteOrder where
  encode : ℕ → ℕ → List UInt8
  decode : List UInt8 → ℕ
  length_encode : ∀ w n, (encode w n).length = w
  decode_encode : ∀ w n, decode (encode w n) = n % 256 ^ w
  encode_decode : ∀ bs, encode bs.length (decode bs) = bs

namespace ByteOrder

attribute [simp] length_encode

theorem decode_lt (o : ByteOrder) (bs : List UInt8) : o.decode bs < 256 ^ bs.length := by
  have h : o.decode bs = o.decode bs % 256 ^ bs.length := by
    conv_lhs => rw [← o.encode_decode bs, o.decode_encode]
  rw [h]
  exact Nat.mod_lt _ (by positivity)

theorem decode_injective_of_length (o : ByteOrder) {bs cs : List UInt8}
    (hlen : bs.length = cs.length) (h : o.decode bs = o.decode cs) : bs = cs := by
  rw [← o.encode_decode bs, ← o.encode_decode cs, hlen, h]

def little : ByteOrder where
  encode := leBytes
  decode := leValue
  length_encode := length_leBytes
  decode_encode := leValue_leBytes
  encode_decode := leBytes_leValue

@[simp] theorem decode_little (bs : List UInt8) : little.decode bs = leValue bs := rfl

/-- Network byte order. -/
def big : ByteOrder where
  encode w n := (leBytes w n).reverse
  decode bs := leValue bs.reverse
  length_encode w n := by simp
  decode_encode w n := by rw [List.reverse_reverse, leValue_leBytes]
  encode_decode bs := by rw [← List.length_reverse, leBytes_leValue, List.reverse_reverse]

end ByteOrder

def swapWords : List UInt8 → List UInt8
  | [a, b, c, d] => [c, d, a, b]
  | bs => bs

@[simp] theorem length_swapWords (bs : List UInt8) : (swapWords bs).length = bs.length := by
  unfold swapWords
  split <;> rfl

@[simp] theorem swapWords_swapWords (bs : List UInt8) : swapWords (swapWords bs) = bs := by
  rcases bs with _ | ⟨a, _ | ⟨b, _ | ⟨c, _ | ⟨d, _ | ⟨e, bs⟩⟩⟩⟩⟩ <;> rfl

/-- High-order word first, low byte first inside each word. -/
def ByteOrder.wordSwapped : ByteOrder where
  encode w n := swapWords (leBytes w n)
  decode bs := leValue (swapWords bs)
  length_encode w n := by rw [length_swapWords, length_leBytes]
  decode_encode w n := by rw [swapWords_swapWords, leValue_leBytes]
  encode_decode bs := by
    rw [← length_swapWords bs, leBytes_leValue, swapWords_swapWords]

theorem leValue_wordSwapped_two (n : ℕ) :
    leValue (ByteOrder.wordSwapped.encode 2 n) = n % 2 ^ 16 := by
  have h := leValue_leBytes 2 n
  norm_num at h
  exact h

theorem leValue_wordSwapped_four (n : ℕ) :
    leValue (ByteOrder.wordSwapped.encode 4 n) = n / 2 ^ 16 % 2 ^ 16 + 2 ^ 16 * (n % 2 ^ 16) := by
  have hbytes : ByteOrder.wordSwapped.encode 4 n = leBytes 2 (n / 256 / 256) ++ leBytes 2 n := rfl
  rw [hbytes, leValue_append, length_leBytes, leValue_leBytes, leValue_leBytes,
    Nat.div_div_eq_div_mul]
  norm_num

end ByteCodec
