import Mathlib.Data.List.GetD
import VPanel.Library.WhileLoop
import VPanel.Proxy.Modules

/-!
# The loop of `to_hex`

The index of the loop is a `size_t` that counts down, so its own test never
stops it.  Here the loop runs without any check on the index, for every width
of the value and of `size_t`; that no write leaves the string is a theorem, and
the checked function of the proxies computes the same text.
-/

namespace VPanel.Proxy.ToHex

open HexText WhileLoop

/-- The variables of `to_hex<T, N>`, for a `T` of `w` bytes and a `size_t` of `sizeBits` bits. -/
structure Locals (sizeBits w : ℕ) where
  i : BitVec sizeBits
  value : BitVec (8 * w)
  result : List Char
  deriving DecidableEq

/-- `for (size_t i = N - 1; i >= 0 && value; --i)`. -/
def loop (sizeBits w : ℕ) : Loop (Locals sizeBits w) where
  guard s := 0 ≤ s.i ∧ s.value ≠ 0
  body s :=
    { i := s.i - 1
      value := s.value >>> 4
      result := s.result.set s.i.toNat (upperDigit (s.value &&& 0xF).toNat) }

instance (sizeBits w : ℕ) : DecidablePred (loop sizeBits w).guard :=
  fun s ↦ inferInstanceAs (Decidable (0 ≤ s.i ∧ s.value ≠ 0))

variable {sizeBits w : ℕ}

def start (N : BitVec sizeBits) (value : BitVec (8 * w)) : Locals sizeBits w where
  i := N - 1
  value := value
  result := List.replicate N.toNat '0'

/-- `sizeof(T) * 2`, the default of `N`, a `size_t` as well. -/
def defaultDigits (sizeBits w : ℕ) : BitVec sizeBits := BitVec.ofNat sizeBits w * 2

/-- The loop ends with `text` in the string, and every index written on the way is below `N`. -/
structure Returns (N : BitVec sizeBits) (value : BitVec (8 * w)) (text : List Char) : Prop where
  ends : ∃ s, (loop sizeBits w).Ends (start N value) s ∧ s.result = text
  inside : ∀ s, (loop sizeBits w).Reaches (start N value) s → (loop sizeBits w).guard s →
    s.i.toNat < N.toNat

/-- The loop is about to write at the index that follows zero on the way down. -/
def WrapsBelowZero (N : BitVec sizeBits) (value : BitVec (8 * w)) : Prop :=
  ∃ s, (loop sizeBits w).Reaches (start N value) s ∧ (loop sizeBits w).guard s ∧
    s.i = BitVec.allOnes sizeBits

/-- `text` is the number `v` in `n` digits. -/
structure Spells (n : ℕ) (text : List Char) (v : ℕ) : Prop where
  length : text.length = n
  digits : ∀ c ∈ text, c ∈ "0123456789ABCDEF".toList
  reading : readHex 0 text = (v, [])

theorem spells_fixedHex (n v : ℕ) : Spells n (fixedHex upperDigit n v) (v % 16 ^ n) where
  length := length_fixedHex upperDigit n v
  digits c hc := by
    obtain ⟨d, hd, rfl⟩ := mem_fixedHex hc
    have hlength : d < "0123456789ABCDEF".toList.length := hd
    rw [upperDigit, List.getD_eq_getElem _ '0' hlength]
    exact List.getElem_mem hlength
  reading := by
    have hread := readHex_fixedHex readsBack_upperDigit n v 0 []
    rwa [List.append_nil, Nat.zero_mul, Nat.zero_add] at hread

theorem spells_fixedHex_of_lt {n v : ℕ} (hv : v < 16 ^ n) :
    Spells n (fixedHex upperDigit n v) v := by
  have hspells := spells_fixedHex n v
  rwa [Nat.mod_eq_of_lt hv] at hspells

theorem spells_take_drop {m n v : ℕ} (hv : v < 16 ^ (m + n)) :
    Spells m ((fixedHex upperDigit (m + n) v).take m) (v / 16 ^ n) ∧
      Spells n ((fixedHex upperDigit (m + n) v).drop m) (v % 16 ^ n) := by
  have hhigh : v / 16 ^ n < 16 ^ m := by
    rw [Nat.div_lt_iff_lt_mul (by positivity), ← pow_add]
    exact hv
  have hlength := length_fixedHex upperDigit m (v / 16 ^ n)
  rw [fixedHex_add, List.take_left' hlength, List.drop_left' hlength]
  exact ⟨spells_fixedHex_of_lt hhigh, spells_fixedHex n v⟩

/-- The call returns the value in `N` digits, and the two parts of a split text are the value's. -/
def Exact (N : BitVec sizeBits) (value : BitVec (8 * w)) : Prop :=
  ∃ text, Returns N value text ∧ Spells N.toNat text value.toNat ∧
    ∀ m n, m + n = N.toNat →
      Spells m (text.take m) (value.toNat / 16 ^ n) ∧ Spells n (text.drop m) (value.toNat % 16 ^ n)

/-! ## One turn of the loop -/

theorem index_nonneg (i : BitVec sizeBits) : 0 ≤ i := BitVec.not_lt.mp BitVec.not_lt_zero

theorem guard_iff {s : Locals sizeBits w} : (loop sizeBits w).guard s ↔ s.value ≠ 0 :=
  and_iff_right (index_nonneg s.i)

theorem toNat_and_mask (value : BitVec (8 * w)) : (value &&& 0xF).toNat = value.toNat % 16 := by
  obtain rfl | hw := Nat.eq_zero_or_pos w
  · simp [BitVec.eq_nil value]
  · have hmask : 15 % 2 ^ (8 * w) = 15 := Nat.mod_eq_of_lt
      (lt_of_lt_of_le (by norm_num : 15 < 2 ^ 8) (Nat.pow_le_pow_right (by norm_num) (by omega)))
    rw [BitVec.toNat_and, BitVec.ofNat_eq_ofNat, BitVec.toNat_ofNat, hmask]
    exact Nat.and_two_pow_sub_one_eq_mod value.toNat 4

theorem toNat_shift (value : BitVec (8 * w)) : (value >>> 4).toNat = value.toNat / 16 := by
  rw [BitVec.toNat_ushiftRight, Nat.shiftRight_eq_div_pow]

/-- The lower `k` digits of `v` are written and dropped from the variable. -/
structure Written (N : BitVec sizeBits) (v : BitVec (8 * w)) (k : ℕ) (s : Locals sizeBits w) :
    Prop where
  le : k ≤ N.toNat
  index : s.i = BitVec.ofNat sizeBits (N.toNat - k) - 1
  value : s.value.toNat = v.toNat / 16 ^ k
  result : s.result = List.replicate (N.toNat - k) '0' ++ fixedHex upperDigit k v.toNat

variable {N : BitVec sizeBits} {v : BitVec (8 * w)} {k : ℕ} {s : Locals sizeBits w}

theorem written_start (N : BitVec sizeBits) (v : BitVec (8 * w)) : Written N v 0 (start N v) where
  le := Nat.zero_le _
  index := by simp [start]
  value := by simp [start]
  result := by simp [start, fixedHex]

theorem Written.guard_iff (h : Written N v k s) : (loop sizeBits w).guard s ↔ 16 ^ k ≤ v.toNat := by
  have hzero : s.value = 0 ↔ v.toNat < 16 ^ k := by
    rw [← BitVec.toNat_inj, h.value, BitVec.ofNat_eq_ofNat, BitVec.toNat_zero,
      Nat.div_eq_zero_iff_lt (by positivity)]
  rw [ToHex.guard_iff, ne_eq, hzero, not_lt]

theorem Written.index_eq (h : Written N v k s) (hk : k < N.toNat) :
    s.i = BitVec.ofNat sizeBits (N.toNat - (k + 1)) := by
  have hdigits : N.toNat - k = N.toNat - (k + 1) + 1 := by omega
  rw [h.index, hdigits, ofNat_succ_sub_one]

theorem Written.toNat_index (h : Written N v k s) (hk : k < N.toNat) :
    s.i.toNat = N.toNat - (k + 1) := by
  have hN := N.isLt
  rw [h.index_eq hk, BitVec.toNat_ofNat, Nat.mod_eq_of_lt (by omega)]

/-- A turn writes the next digit. -/
theorem Written.turn (h : Written N v k s) (hk : k < N.toNat) :
    Written N v (k + 1) ((loop sizeBits w).body s) where
  le := hk
  index := by
    change s.i - 1 = _
    rw [h.index_eq hk]
  value := by
    change (s.value >>> 4).toNat = _
    rw [toNat_shift, h.value, Nat.div_div_eq_div_mul, pow_succ]
  result := by
    have hdigits : N.toNat - k = N.toNat - (k + 1) + 1 := by omega
    have hnext : fixedHex upperDigit (k + 1) v.toNat =
        upperDigit (v.toNat / 16 ^ k % 16) :: fixedHex upperDigit k v.toNat := by
      rw [Nat.add_comm, fixedHex_add]
      rfl
    change s.result.set s.i.toNat (upperDigit (s.value &&& 0xF).toNat) = _
    rw [toNat_and_mask, h.value, h.result, h.toNat_index hk, hdigits, List.replicate_succ',
      List.append_assoc, List.set_append_right _ _ (by simp), hnext]
    simp

example : (loop 64 1).body ⟨1, 0x2A, ['0', '0']⟩ = ⟨0, 0x02, ['0', 'A']⟩ := by decide

/-! ## The whole loop -/

theorem toNat_value_body_lt (h : (loop sizeBits w).guard s) :
    ((loop sizeBits w).body s).value.toNat < s.value.toNat := by
  have hne : s.value.toNat ≠ 0 := by
    intro hzero
    apply guard_iff.mp h
    exact BitVec.eq_of_toNat_eq hzero
  change (s.value >>> 4).toNat < _
  rw [toNat_shift]
  omega

/-- A value below `16 ^ N` runs out before the index does. -/
theorem Written.lt_of_guard (h : Written N v k s) (hv : v.toNat < 16 ^ N.toNat)
    (hguard : (loop sizeBits w).guard s) : k < N.toNat := by
  have hpow : 16 ^ k < 16 ^ N.toNat := lt_of_le_of_lt (h.guard_iff.mp hguard) hv
  exact (Nat.pow_lt_pow_iff_right (by norm_num)).mp hpow

theorem exists_written (hv : v.toNat < 16 ^ N.toNat)
    (h : (loop sizeBits w).Reaches (start N v) s) : ∃ k, Written N v k s := by
  refine Loop.Reaches.invariant (I := fun t ↦ ∃ k, Written N v k t) ?_ h ⟨0, written_start N v⟩
  rintro t ⟨k, ht⟩ hguard
  exact ⟨k + 1, ht.turn (ht.lt_of_guard hv hguard)⟩

theorem toNat_index_lt (hv : v.toNat < 16 ^ N.toNat)
    (h : (loop sizeBits w).Reaches (start N v) s) (hguard : (loop sizeBits w).guard s) :
    s.i.toNat < N.toNat := by
  obtain ⟨k, hk⟩ := exists_written hv h
  have hlt := hk.lt_of_guard hv hguard
  rw [hk.toNat_index hlt]
  omega

theorem Written.result_eq (h : Written N v k s) (hdone : ¬(loop sizeBits w).guard s) :
    s.result = fixedHex upperDigit N.toNat v.toNat := by
  have hsmall : v.toNat < 16 ^ k := not_le.mp fun hle ↦ hdone (h.guard_iff.mpr hle)
  have hsplit : N.toNat = N.toNat - k + k := (Nat.sub_add_cancel h.le).symm
  rw [hsplit, fixedHex_add, Nat.div_eq_of_lt hsmall, fixedHex_upperDigit_zero, h.result]

/-- A longer value is still not zero when the index has passed zero. -/
theorem wrapsBelowZero_of_le (hv : 16 ^ N.toNat ≤ v.toNat) : WrapsBelowZero N v := by
  have hturn : ∀ k < N.toNat, ∀ t, Written N v k t →
      (loop sizeBits w).guard t ∧ Written N v (k + 1) ((loop sizeBits w).body t) := by
    intro k hk t ht
    have hpow : 16 ^ k ≤ 16 ^ N.toNat := Nat.pow_le_pow_right (by norm_num) hk.le
    exact ⟨ht.guard_iff.mpr (hpow.trans hv), ht.turn hk⟩
  obtain ⟨t, hreach, ht⟩ := Loop.exists_reaches hturn (written_start N v)
  refine ⟨t, hreach, ht.guard_iff.mpr hv, ?_⟩
  rw [ht.index, Nat.sub_self, BitVec.zero_sub]
  exact BitVec.neg_one_eq_allOnes

theorem le_toNat_allOnes (N : BitVec sizeBits) : N.toNat ≤ (BitVec.allOnes sizeBits).toNat := by
  have hN := N.isLt
  rw [BitVec.toNat_allOnes]
  omega

theorem wrapsBelowZero_iff (N : BitVec sizeBits) (v : BitVec (8 * w)) :
    WrapsBelowZero N v ↔ 16 ^ N.toNat ≤ v.toNat := by
  constructor
  · rintro ⟨s, hreach, hguard, hi⟩
    by_contra hv
    have hlt := toNat_index_lt (not_le.mp hv) hreach hguard
    rw [hi] at hlt
    exact absurd (le_toNat_allOnes N) (Nat.not_le.mpr hlt)
  · exact wrapsBelowZero_of_le

theorem returns_iff (N : BitVec sizeBits) (v : BitVec (8 * w)) (text : List Char) :
    Returns N v text ↔
      v.toNat < 16 ^ N.toNat ∧ text = fixedHex upperDigit N.toNat v.toNat := by
  constructor
  · intro h
    have hv : v.toNat < 16 ^ N.toNat := by
      by_contra hle
      obtain ⟨s, hreach, hguard, hi⟩ := wrapsBelowZero_of_le (not_lt.mp hle)
      have hlt := h.inside s hreach hguard
      rw [hi] at hlt
      exact absurd (le_toNat_allOnes N) (Nat.not_le.mpr hlt)
    obtain ⟨s, ⟨hreach, hdone⟩, rfl⟩ := h.ends
    obtain ⟨k, hk⟩ := exists_written hv hreach
    exact ⟨hv, hk.result_eq hdone⟩
  · rintro ⟨hv, rfl⟩
    obtain ⟨s, hreach, hdone⟩ := Loop.exists_ends (L := loop sizeBits w)
      (fun s ↦ s.value.toNat) (fun _ ↦ toNat_value_body_lt) (start N v)
    obtain ⟨k, hk⟩ := exists_written hv hreach
    exact ⟨⟨s, ⟨hreach, hdone⟩, hk.result_eq hdone⟩, fun _ ↦ toNat_index_lt hv⟩

theorem Returns.injective {a b : BitVec (8 * w)} {text : List Char} (ha : Returns N a text)
    (hb : Returns N b text) : a = b := by
  obtain ⟨hlta, htexta⟩ := (returns_iff N a text).mp ha
  obtain ⟨hltb, htextb⟩ := (returns_iff N b text).mp hb
  apply BitVec.eq_of_toNat_eq
  exact fixedHex_injective readsBack_upperDigit hlta hltb (htexta.symm.trans htextb)

theorem exact_iff (N : BitVec sizeBits) (v : BitVec (8 * w)) :
    Exact N v ↔ v.toNat < 16 ^ N.toNat := by
  constructor
  · rintro ⟨text, hreturns, -⟩
    exact ((returns_iff N v text).mp hreturns).1
  · intro hv
    refine ⟨_, (returns_iff N v _).mpr ⟨hv, rfl⟩, spells_fixedHex_of_lt hv, ?_⟩
    intro m n hN
    rw [← hN] at hv ⊢
    exact spells_take_drop hv

/-! ## The default number of digits -/

theorem toNat_defaultDigits (hw : 2 * w < 2 ^ sizeBits) :
    (defaultDigits sizeBits w).toNat = 2 * w := by
  have hdigits : defaultDigits sizeBits w = BitVec.ofNat sizeBits (2 * w) := by
    rw [defaultDigits, Nat.mul_comm, BitVec.ofNat_mul]
    rfl
  rw [hdigits, BitVec.toNat_ofNat, Nat.mod_eq_of_lt hw]

theorem two_pow_four_mul (n : ℕ) : 2 ^ (4 * n) = 16 ^ n := pow_mul 2 4 n

theorem toNat_lt_pow (value : BitVec (8 * w)) : value.toNat < 16 ^ (2 * w) := by
  rw [← two_pow_four_mul, ← Nat.mul_assoc]
  exact value.isLt

def highHalf (value : BitVec (8 * w)) : BitVec (4 * w) := value.extractLsb' (4 * w) (4 * w)

def lowHalf (value : BitVec (8 * w)) : BitVec (4 * w) := value.extractLsb' 0 (4 * w)

theorem toNat_highHalf (value : BitVec (8 * w)) :
    (highHalf value).toNat = value.toNat / 16 ^ w := by
  have hlt := toNat_lt_pow value
  rw [Nat.two_mul, pow_add] at hlt
  rw [highHalf, BitVec.extractLsb'_toNat, Nat.shiftRight_eq_div_pow, two_pow_four_mul]
  exact Nat.mod_eq_of_lt (Nat.div_lt_of_lt_mul hlt)

theorem toNat_lowHalf (value : BitVec (8 * w)) : (lowHalf value).toNat = value.toNat % 16 ^ w := by
  rw [lowHalf, BitVec.extractLsb'_toNat, Nat.shiftRight_zero, two_pow_four_mul]

/-- `to_hex` is exact for the values that fit into its digits, and for no others: the index of a
longer value wraps below zero.  Every value fits into the default number of digits, for every width
for which that number is a `size_t`. -/
theorem to_hex_exact (sizeBits w : ℕ) :
    (∀ s : Locals sizeBits w, 0 ≤ s.i) ∧
      (2 * w < 2 ^ sizeBits → ∀ value : BitVec (8 * w), ∃ text,
        Returns (defaultDigits sizeBits w) value text ∧ Spells (2 * w) text value.toNat ∧
          Spells w (text.take w) (highHalf value).toNat ∧
          Spells w (text.drop w) (lowHalf value).toNat) ∧
      (∀ (N : BitVec sizeBits) (value : BitVec (8 * w)),
        (Exact N value ↔ value.toNat < 16 ^ N.toNat) ∧
          (WrapsBelowZero N value ↔ 16 ^ N.toNat ≤ value.toNat)) ∧
      ∀ (N : BitVec sizeBits) (a b : BitVec (8 * w)) (text : List Char),
        Returns N a text → Returns N b text → a = b := by
  refine ⟨fun s ↦ index_nonneg s.i, fun hw value ↦ ?_,
    fun N value ↦ ⟨exact_iff N value, wrapsBelowZero_iff N value⟩, fun N a b text ↦ Returns.injective⟩
  have hdigits := toNat_defaultDigits hw
  have hfits : value.toNat < 16 ^ (defaultDigits sizeBits w).toNat := by
    rw [hdigits]
    exact toNat_lt_pow value
  obtain ⟨text, hreturns, hspells, hsplit⟩ := (exact_iff _ value).mpr hfits
  have hhalves := hsplit w w (by rw [hdigits, Nat.two_mul])
  rw [← toNat_highHalf, ← toNat_lowHalf] at hhalves
  rw [hdigits] at hspells
  exact ⟨text, hreturns, hspells, hhalves⟩

theorem to_hex_exact_full_width :
    (∃ text, Returns (defaultDigits 64 8) (0xF123456789ABCDEF : BitVec (8 * 8)) text ∧
      Spells 16 text 0xF123456789ABCDEF ∧ Spells 8 (text.take 8) 0xF1234567 ∧
        Spells 8 (text.drop 8) 0x89ABCDEF) ∧
      Exact (2 : BitVec 64) (0xF1 : BitVec (8 * 4)) ∧
        WrapsBelowZero (2 : BitVec 64) (0x100 : BitVec (8 * 4)) :=
  ⟨(to_hex_exact 64 8).2.1 (by norm_num) 0xF123456789ABCDEF,
    ((to_hex_exact 64 4).2.2.1 2 0xF1).1.mpr (by decide),
    ((to_hex_exact 64 4).2.2.1 2 0x100).2.mpr (by decide)⟩

/-! ## The checked loop -/

/-- A value with more digits than the string has left ends the checked loop without a text. -/
theorem toHexLoop_eq_none {n value fuel : ℕ} {result : List Char} (hn : n < result.length)
    (hlength : result.length < 2 ^ 64) (hvalue : 16 ^ (n + 1) ≤ value) :
    toHexLoop fuel (BitVec.ofNat 64 n) value result = none := by
  induction fuel generalizing n value result with
  | zero => rfl
  | succ fuel ih =>
      have hpow : 0 < 16 ^ n := by positivity
      have hdrop : 16 ^ n ≤ value / 16 := by
        rw [Nat.le_div_iff_mul_le (by norm_num), ← pow_succ]
        exact hvalue
      have hindex : (BitVec.ofNat 64 n).toNat = n := by
        rw [BitVec.toNat_ofNat, Nat.mod_eq_of_lt (hn.trans hlength)]
      rw [toHexLoop, if_neg (by omega), hindex, if_pos hn]
      cases n with
      | zero =>
          cases fuel with
          | zero => rfl
          | succ fuel =>
              have hwrapped : (BitVec.ofNat 64 0 - 1).toNat = 2 ^ 64 - 1 := rfl
              rw [toHexLoop, if_neg (by omega), hwrapped, List.length_set, if_neg (by omega)]
      | succ n =>
          rw [ofNat_succ_sub_one]
          exact ih (by rw [List.length_set]; omega) (by rwa [List.length_set]) hdrop

theorem toHex_eq_some_iff {n value : ℕ} {text : List Char} (hpos : 0 < n) (hn : n < 2 ^ 64) :
    toHex n value = some text ↔ value < 16 ^ n ∧ text = fixedHex upperDigit n value := by
  by_cases hvalue : value < 16 ^ n
  · rw [toHex_eq hpos hn.le hvalue, Option.some_inj, eq_comm]
    exact (and_iff_right hvalue).symm
  · obtain ⟨m, rfl⟩ : ∃ m, n = m + 1 := ⟨n - 1, by omega⟩
    have hnone : toHex (m + 1) value = none := by
      rw [toHex, ofNat_succ_sub_one]
      apply toHexLoop_eq_none _ _ (not_lt.mp hvalue)
      · simp
      · simpa using hn
    simp [hnone, hvalue]

/-- The function of the proxies is the loop with the index checked before each write. -/
theorem returns_iff_toHex {N : BitVec 64} (hN : N ≠ 0) (v : BitVec (8 * w)) (text : List Char) :
    Returns N v text ↔ toHex N.toNat v.toNat = some text := by
  have hpos : 0 < N.toNat := by
    apply Nat.pos_of_ne_zero
    intro hzero
    exact hN (BitVec.eq_of_toNat_eq hzero)
  rw [returns_iff, toHex_eq_some_iff hpos N.isLt]

theorem toJson_returns {panel : Wire.ClockReg → ℕ} (h : ∀ r, panel r < 2 ^ 64) :
    ∃ json, AMD64Proxy.toJson panel = some json ∧ ∀ e ∈ AMD64Proxy.shown, ∃ text,
      (e.1, .string text) ∈ json ∧
        Returns (defaultDigits 64 8) (BitVec.ofNat (8 * 8) (panel e.2)) text := by
  refine ⟨_, AMD64Proxy.toJson_eq h, fun e he ↦ ⟨_, List.mem_map.mpr ⟨e, he, rfl⟩, ?_⟩⟩
  rw [returns_iff, BitVec.toNat_ofNat, Nat.mod_eq_of_lt (h e.2), toNat_defaultDigits (by norm_num)]
  exact ⟨h e.2, rfl⟩

end VPanel.Proxy.ToHex
