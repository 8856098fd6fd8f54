import Mathlib.Data.List.Nodup
import Mathlib.Tactic.IntervalCases
import Mathlib.Tactic.Ring

/-!
# Bit operators on JavaScript numbers

JavaScript numbers are integers here.  A bit operator converts its operands
to 32-bit words; all of them return a signed result except the unsigned
shift.  The scan that skips clear bits visits exactly the set bits of its mask, each
once and in increasing order, also when it starts on a negative number.
-/

namespace JsInteger

/-- The conversion every bit operator applies to its operands. -/
def toWord (x : ℤ) : BitVec 32 := BitVec.ofInt 32 x

def bitXor (a b : ℤ) : ℤ := (toWord a ^^^ toWord b).toInt

def bitAnd (a b : ℤ) : ℤ := (toWord a &&& toWord b).toInt

def bitOr (a b : ℤ) : ℤ := (toWord a ||| toWord b).toInt

def bitNot (a : ℤ) : ℤ := (~~~toWord a).toInt

/-- `a << n`. -/
def shiftLeft (a : ℤ) (n : ℕ) : ℤ := (toWord a <<< (n % 32)).toInt

/-- `a >>> n`. -/
def shiftRightUnsigned (a : ℤ) (n : ℕ) : ℤ := (toWord a >>> (n % 32)).toNat

@[simp] theorem toWord_toInt (w : BitVec 32) : toWord w.toInt = w := BitVec.ofInt_toInt

@[simp] theorem toWord_natCast (n : ℕ) : toWord (n : ℤ) = BitVec.ofNat 32 n :=
  BitVec.ofInt_natCast 32 n

@[simp] theorem toWord_bitXor (a b : ℤ) : toWord (bitXor a b) = toWord a ^^^ toWord b :=
  toWord_toInt _

@[simp] theorem toWord_bitAnd (a b : ℤ) : toWord (bitAnd a b) = toWord a &&& toWord b :=
  toWord_toInt _

@[simp] theorem toWord_bitOr (a b : ℤ) : toWord (bitOr a b) = toWord a ||| toWord b :=
  toWord_toInt _

@[simp] theorem toWord_bitNot (a : ℤ) : toWord (bitNot a) = ~~~toWord a := toWord_toInt _

@[simp] theorem toWord_shiftLeft (a : ℤ) (n : ℕ) :
    toWord (shiftLeft a n) = toWord a <<< (n % 32) :=
  toWord_toInt _

@[simp] theorem toWord_shiftRightUnsigned (a : ℤ) (n : ℕ) :
    toWord (shiftRightUnsigned a n) = toWord a >>> (n % 32) := by
  rw [shiftRightUnsigned, toWord_natCast, BitVec.ofNat_toNat, BitVec.setWidth_eq]

/-- A mask of ones keeps the low bits. -/
theorem toWord_bitAnd_ones {n : ℕ} (hn : n ≤ 32) (v : ℕ) :
    toWord (bitAnd (v : ℤ) ((2 ^ n - 1 : ℕ) : ℤ)) = BitVec.ofNat 32 (v % 2 ^ n) := by
  have hle : 2 ^ n ≤ 2 ^ 32 := Nat.pow_le_pow_right (by norm_num) hn
  have hpos := Nat.two_pow_pos n
  apply BitVec.eq_of_toNat_eq
  rw [toWord_bitAnd, toWord_natCast, toWord_natCast, BitVec.toNat_and, BitVec.toNat_ofNat,
    BitVec.toNat_ofNat, BitVec.toNat_ofNat, Nat.mod_eq_of_lt (by omega : 2 ^ n - 1 < 2 ^ 32),
    Nat.and_two_pow_sub_one_eq_mod, Nat.mod_mod_of_dvd _ (pow_dvd_pow 2 hn),
    Nat.mod_eq_of_lt ((Nat.mod_lt v hpos).trans_le hle)]

theorem getLsbD_toWord_ones {n : ℕ} (hn : n ≤ 32) (i : ℕ) :
    (toWord ((2 ^ n - 1 : ℕ) : ℤ)).getLsbD i = decide (i < n) := by
  rw [toWord_natCast, BitVec.getLsbD_ofNat, Nat.testBit_two_pow_sub_one]
  by_cases hi : i < n
  · simp [hi, hi.trans_le hn]
  · simp [hi]

theorem toInt_eq_zero_iff (w : BitVec 32) : w.toInt = 0 ↔ w = 0 := by
  constructor
  · intro h
    rw [← toWord_toInt w, h]
    rfl
  · rintro rfl
    rfl

theorem bitXor_eq_zero_iff (a b : ℤ) : bitXor a b = 0 ↔ toWord a = toWord b := by
  rw [bitXor, toInt_eq_zero_iff]
  exact BitVec.xor_eq_zero_iff

theorem toWord_shiftLeft_one {i : ℕ} (hi : i < 32) :
    toWord (shiftLeft 1 i) = BitVec.twoPow 32 i := by
  rw [toWord_shiftLeft, Nat.mod_eq_of_lt hi, BitVec.twoPow]
  rfl

theorem bitAnd_shiftLeft_ne_zero_iff (a : ℤ) {i : ℕ} (hi : i < 32) :
    bitAnd a (shiftLeft 1 i) ≠ 0 ↔ (toWord a).getLsbD i = true := by
  rw [Ne, bitAnd, toInt_eq_zero_iff, toWord_shiftLeft_one hi, BitVec.and_twoPow]
  cases h : (toWord a).getLsbD i with
  | false => simp
  | true =>
      have hne : BitVec.twoPow 32 i ≠ 0 := by
        intro hzero
        have hbit := congrArg (fun w ↦ w.getLsbD i) hzero
        simp [hi] at hbit
      simpa using hne

/-! ## Loops that may throw or spin -/

inductive JsError
  /-- An operation on `undefined`. -/
  | typeError
  /-- The loop bound of the model was reached. -/
  | diverges
  deriving DecidableEq, Repr

/-- `while (!(mask & 1)) { id++; mask >>>= 1; }`, with a bound on the rounds. -/
def skipClear : ℕ → ℕ → ℤ → Except JsError (ℕ × ℤ)
  | 0, _, _ => .error .diverges
  | fuel + 1, id, mask =>
      if bitAnd mask 1 = 0 then skipClear fuel (id + 1) (shiftRightUnsigned mask 1)
      else .ok (id, mask)

/-- `for (; mask; id++, mask >>>= 1)` around the skipping loop and a body. -/
def scanLoop {σ : Type} (body : ℕ → σ → Except JsError σ) :
    ℕ → ℕ → ℤ → σ → Except JsError σ
  | 0, _, _, _ => .error .diverges
  | fuel + 1, id, mask, st =>
      if mask = 0 then .ok st
      else do
        let (id, mask) ← skipClear 33 id mask
        let st ← body id st
        scanLoop body fuel (id + 1) (shiftRightUnsigned mask 1) st

/-- The whole scan; a 32-bit mask needs no more than 33 rounds. -/
def scan {σ : Type} (body : ℕ → σ → Except JsError σ) (mask : ℤ) (st : σ) :
    Except JsError σ :=
  scanLoop body 33 0 mask st

/-- `mask` stands for the unsigned word `m`. -/
def Represents (mask : ℤ) (m : ℕ) : Prop := (toWord mask).toNat = m ∧ (mask = 0 ↔ m = 0)

theorem represents_bitXor (a b : ℤ) :
    Represents (bitXor a b) (toWord a ^^^ toWord b).toNat := by
  refine ⟨by rw [toWord_bitXor], ?_⟩
  rw [bitXor, toInt_eq_zero_iff, BitVec.toNat_eq]
  rfl

theorem Represents.shift {mask : ℤ} {m : ℕ} (h : Represents mask m) :
    Represents (shiftRightUnsigned mask 1) (m / 2) := by
  have hshift : (toWord mask >>> (1 % 32)).toNat = m / 2 := by
    rw [BitVec.toNat_ushiftRight, h.1, Nat.shiftRight_eq_div_pow]
  refine ⟨by rw [toWord_shiftRightUnsigned, hshift], ?_⟩
  rw [shiftRightUnsigned, hshift]
  exact Int.natCast_eq_zero

theorem Represents.bitAnd_one {mask : ℤ} {m : ℕ} (h : Represents mask m) :
    bitAnd mask 1 = 0 ↔ m % 2 = 0 := by
  have hword : (toWord mask &&& toWord 1).toNat = m % 2 := by
    rw [BitVec.toNat_and, h.1]
    exact Nat.and_one_is_mod m
  rw [bitAnd, toInt_eq_zero_iff, BitVec.toNat_eq, hword]
  rfl

def bitsFrom : ℕ → ℕ → ℕ → List ℕ
  | 0, _, _ => []
  | n + 1, id, m => if m % 2 = 0 then bitsFrom n (id + 1) (m / 2)
      else id :: bitsFrom n (id + 1) (m / 2)

theorem bitsFrom_zero_right (n id : ℕ) : bitsFrom n id 0 = [] := by
  induction n generalizing id with
  | zero => rfl
  | succ n ih => rw [bitsFrom, if_pos rfl, Nat.zero_div, ih]

theorem mem_bitsFrom {n id m i : ℕ} :
    i ∈ bitsFrom n id m ↔ ∃ k < n, i = id + k ∧ m.testBit k = true := by
  induction n generalizing id m with
  | zero => simp [bitsFrom]
  | succ n ih =>
      have hlater : i ∈ bitsFrom n (id + 1) (m / 2) ↔
          ∃ k < n, i = id + (k + 1) ∧ m.testBit (k + 1) = true := by
        rw [ih]
        simp only [Nat.testBit_succ, Nat.add_assoc, Nat.add_comm 1]
      rw [bitsFrom]
      split
      next heven =>
        rw [hlater, Nat.exists_lt_succ_left]
        simp [Nat.testBit_zero, heven]
      next hodd =>
        rw [List.mem_cons, hlater, Nat.exists_lt_succ_left]
        have hbit : m % 2 = 1 := by omega
        simp [Nat.testBit_zero, hbit]

theorem nodup_bitsFrom (n id m : ℕ) : (bitsFrom n id m).Nodup := by
  induction n generalizing id m with
  | zero => exact List.nodup_nil
  | succ n ih =>
      rw [bitsFrom]
      split
      next => exact ih _ _
      next =>
        refine List.nodup_cons.mpr ⟨?_, ih _ _⟩
        rw [mem_bitsFrom]
        rintro ⟨k, -, hk, -⟩
        omega

theorem skipClear_spec {n fuel id m : ℕ} {mask : ℤ} (hrep : Represents mask m) (hm : m ≠ 0)
    (hlt : m < 2 ^ n) (hfuel : n ≤ fuel) :
    ∃ id' mask' m' n', skipClear fuel id mask = .ok (id', mask') ∧ Represents mask' m' ∧
      m' < 2 ^ (n' + 1) ∧ n' < n ∧
        bitsFrom n id m = id' :: bitsFrom n' (id' + 1) (m' / 2) := by
  induction n generalizing fuel id m mask with
  | zero => exact absurd (Nat.lt_one_iff.mp hlt) hm
  | succ n ih =>
      obtain ⟨fuel, rfl⟩ : ∃ f, fuel = f + 1 := ⟨fuel - 1, by omega⟩
      rw [skipClear, bitsFrom]
      by_cases heven : m % 2 = 0
      · rw [if_pos (hrep.bitAnd_one.mpr heven), if_pos heven]
        have hlt' : m / 2 < 2 ^ n := by
          rw [pow_succ] at hlt
          omega
        obtain ⟨id', mask', m', n', hskip, hrep', hm', hn', hbits⟩ :=
          @ih fuel (id + 1) _ _ hrep.shift (by omega) hlt' (by omega)
        exact ⟨id', mask', m', n', hskip, hrep', hm', by omega, hbits⟩
      · rw [if_neg (mt hrep.bitAnd_one.mp heven), if_neg heven]
        exact ⟨id, mask, m, n, rfl, hrep, hlt, Nat.lt_succ_self n, rfl⟩

theorem scanLoop_eq {σ : Type} (body : ℕ → σ → Except JsError σ) {n fuel id m : ℕ} {mask : ℤ}
    (hrep : Represents mask m) (hlt : m < 2 ^ n) (hn : n ≤ 33) (hfuel : n < fuel) (st : σ) :
    scanLoop body fuel id mask st =
      (bitsFrom n id m).foldlM (fun st i ↦ body i st) st := by
  induction fuel generalizing n id m mask st with
  | zero => omega
  | succ fuel ih =>
      rw [scanLoop]
      by_cases hm : m = 0
      · subst hm
        rw [if_pos (hrep.2.mpr rfl), bitsFrom_zero_right]
        rfl
      · obtain ⟨id', mask', m', n', hskip, hrep', hm', hn', hbits⟩ :=
          @skipClear_spec n _ id _ _ hrep hm hlt hn
        have hhalf : m' / 2 < 2 ^ n' := by
          rw [pow_succ] at hm'
          omega
        rw [if_neg (mt hrep.2.mp hm), hskip, hbits, List.foldlM_cons]
        change (body id' st >>= fun st' ↦
          scanLoop body fuel (id' + 1) (shiftRightUnsigned mask' 1) st') = _
        exact bind_congr fun st' ↦ ih hrep'.shift hhalf (by omega) (by omega) st'

def setBits (w : BitVec 32) : List ℕ := bitsFrom 32 0 w.toNat

theorem mem_setBits {w : BitVec 32} {i : ℕ} : i ∈ setBits w ↔ w.getLsbD i = true := by
  rw [setBits, mem_bitsFrom]
  constructor
  · rintro ⟨k, -, rfl, hbit⟩
    rwa [Nat.zero_add]
  · intro h
    exact ⟨i, BitVec.lt_of_getLsbD h, (Nat.zero_add i).symm, h⟩

/-- Two words differ in places below 32 only. -/
theorem mem_setBits_xor {a b : BitVec 32} {i : ℕ} :
    i ∈ setBits (a ^^^ b) ↔ i < 32 ∧ a.getLsbD i ≠ b.getLsbD i := by
  rw [mem_setBits, BitVec.getLsbD_xor, bne_iff_ne]
  refine ⟨fun h ↦ ⟨?_, h⟩, fun h ↦ h.2⟩
  by_contra hge
  rw [BitVec.getLsbD_of_ge _ _ (Nat.le_of_not_lt hge),
    BitVec.getLsbD_of_ge _ _ (Nat.le_of_not_lt hge)] at h
  exact h rfl

theorem nodup_setBits (w : BitVec 32) : (setBits w).Nodup := nodup_bitsFrom _ _ _

theorem scan_bitXor {σ : Type} (body : ℕ → σ → Except JsError σ) (a b : ℤ) (st : σ) :
    scan body (bitXor a b) st =
      (setBits (toWord a ^^^ toWord b)).foldlM (fun st i ↦ body i st) st :=
  scanLoop_eq body (represents_bitXor a b) (BitVec.isLt _) (by norm_num) (by norm_num) st

/-! ## The scan with a fixed bound -/

/-- `for (; id < 32 && mask; id++) if (mask & (1 << id)) { ..; mask &= ~(1 << id); }`, where
`n` rounds are left. -/
def scanBoundedLoop {σ : Type} (body : ℕ → σ → Except JsError σ) :
    ℕ → ℕ → ℤ → σ → Except JsError σ
  | 0, _, _, st => .ok st
  | n + 1, id, mask, st =>
      if mask = 0 then .ok st
      else if bitAnd mask (shiftLeft 1 id) ≠ 0 then do
        let st ← body id st
        scanBoundedLoop body n (id + 1) (bitAnd mask (bitNot (shiftLeft 1 id))) st
      else scanBoundedLoop body n (id + 1) mask st

def scanBounded {σ : Type} (body : ℕ → σ → Except JsError σ) (mask : ℤ) (st : σ) :
    Except JsError σ :=
  scanBoundedLoop body 32 0 mask st

/-- `mask` is what is left of the word `m` once the bits below `id` are cleared. -/
structure RemainsFrom (mask : ℤ) (m : BitVec 32) (id : ℕ) : Prop where
  bits : ∀ i, (toWord mask).getLsbD i = (m.getLsbD i && decide (id ≤ i))
  zero : mask = 0 ↔ toWord mask = 0

theorem remainsFrom_bitXor (a b : ℤ) : RemainsFrom (bitXor a b) (toWord a ^^^ toWord b) 0 := by
  refine ⟨fun i ↦ by simp, ?_⟩
  rw [toWord_bitXor, bitXor, toInt_eq_zero_iff]

theorem RemainsFrom.clear {mask : ℤ} {m : BitVec 32} {id : ℕ} (h : RemainsFrom mask m id)
    (hid : id < 32) : RemainsFrom (bitAnd mask (bitNot (shiftLeft 1 id))) m (id + 1) := by
  refine ⟨fun i ↦ ?_, by rw [toWord_bitAnd, bitAnd, toInt_eq_zero_iff]⟩
  rw [toWord_bitAnd, toWord_bitNot, toWord_shiftLeft_one hid, BitVec.getLsbD_and, h.bits,
    BitVec.getLsbD_not, BitVec.getLsbD_twoPow]
  by_cases hi : i < 32
  · by_cases heq : id = i
    · simp [heq]
    · have hiff : decide (id ≤ i) = decide (id + 1 ≤ i) := decide_eq_decide.mpr (by omega)
      simp [hi, hid, heq, hiff]
  · simp [BitVec.getLsbD_of_ge m i (by omega)]

theorem RemainsFrom.skip {mask : ℤ} {m : BitVec 32} {id : ℕ} (h : RemainsFrom mask m id)
    (hbit : m.getLsbD id = false) : RemainsFrom mask m (id + 1) := by
  refine ⟨fun i ↦ ?_, h.zero⟩
  rw [h.bits]
  by_cases heq : id = i
  · subst heq
    simp [hbit]
  · have hiff : decide (id ≤ i) = decide (id + 1 ≤ i) := decide_eq_decide.mpr (by omega)
    rw [hiff]

theorem scanBoundedLoop_eq {σ : Type} (body : ℕ → σ → Except JsError σ) {n id : ℕ} {mask : ℤ}
    {m : BitVec 32} (h : RemainsFrom mask m id) (hn : id + n = 32) (st : σ) :
    scanBoundedLoop body n id mask st =
      (bitsFrom n id (m.toNat / 2 ^ id)).foldlM (fun st i ↦ body i st) st := by
  induction n generalizing id mask st with
  | zero => rfl
  | succ n ih =>
      have hbit : (m.toNat / 2 ^ id) % 2 = 0 ↔ m.getLsbD id = false := by
        rw [← BitVec.testBit_toNat, ← Nat.zero_add id, ← Nat.testBit_div_two_pow, Nat.zero_add,
          Nat.testBit_zero]
        simp
      have hhalf : m.toNat / 2 ^ id / 2 = m.toNat / 2 ^ (id + 1) := by
        rw [Nat.div_div_eq_div_mul, pow_succ]
      rw [scanBoundedLoop]
      by_cases hzero : mask = 0
      · have hrest : m.toNat / 2 ^ id = 0 := by
          apply Nat.eq_of_testBit_eq
          intro i
          have hi := h.bits (i + id)
          rw [h.zero.mp hzero] at hi
          rw [Nat.testBit_div_two_pow, BitVec.testBit_toNat, Nat.zero_testBit]
          simpa using hi.symm
        rw [if_pos hzero, hrest, bitsFrom_zero_right]
        rfl
      · rw [if_neg hzero, bitsFrom, hhalf]
        have hmask : bitAnd mask (shiftLeft 1 id) ≠ 0 ↔ m.getLsbD id = true := by
          rw [bitAnd_shiftLeft_ne_zero_iff mask (by omega), h.bits]
          simp
        cases hset : m.getLsbD id with
        | true =>
            rw [if_pos (hmask.mpr hset), if_neg (by rw [hbit, hset]; simp), List.foldlM_cons]
            exact bind_congr fun st' ↦ ih (h.clear (by omega)) (by omega) st'
        | false =>
            rw [if_neg (by rw [hmask, hset]; simp), if_pos (hbit.mpr hset)]
            exact ih (h.skip hset) (by omega) st

/-- The scan with a fixed bound takes the same steps as the one that skips. -/
theorem scanBounded_bitXor {σ : Type} (body : ℕ → σ → Except JsError σ) (a b : ℤ) (st : σ) :
    scanBounded body (bitXor a b) st =
      (setBits (toWord a ^^^ toWord b)).foldlM (fun st i ↦ body i st) st := by
  have hloop := scanBoundedLoop_eq body (n := 32) (remainsFrom_bitXor a b) rfl st
  rwa [pow_zero, Nat.div_one] at hloop

/-! ## Assignments to the elements of an array -/

/-- `xs[i] = f(xs[i])` on an object element; an element that does not exist throws. -/
def assignAt {α : Type*} (f : α → α) (i : ℕ) (xs : List α) : Except JsError (List α) :=
  if i < xs.length then .ok (xs.modify i f) else .error .typeError

theorem foldlM_assignAt {α β : Type*} (index : β → ℕ) (f : β → α → α) {is : List β}
    (hnodup : (is.map index).Nodup) {xs : List α} (hlt : ∀ i ∈ is, index i < xs.length) :
    ∃ ys, is.foldlM (fun st i ↦ assignAt (f i) (index i) st) xs = .ok ys ∧
      ys.length = xs.length ∧ (∀ i ∈ is, ys[index i]? = xs[index i]?.map (f i)) ∧
        ∀ j, (∀ i ∈ is, index i ≠ j) → ys[j]? = xs[j]? := by
  induction is generalizing xs with
  | nil => exact ⟨xs, rfl, rfl, by simp, fun j _ ↦ rfl⟩
  | cons i is ih =>
      rw [List.map_cons, List.nodup_cons] at hnodup
      have hi : index i < xs.length := hlt i List.mem_cons_self
      have hrest : ∀ k ∈ is, index k < (xs.modify (index i) (f i)).length := fun k hk ↦ by
        simpa using hlt k (List.mem_cons_of_mem i hk)
      obtain ⟨ys, hrun, hlen, hset, hkeep⟩ := ih hnodup.2 hrest
      have hfresh : ∀ k ∈ is, index k ≠ index i := fun k hk heq ↦
        hnodup.1 (heq ▸ List.mem_map_of_mem hk)
      refine ⟨ys, ?_, by simpa using hlen, ?_, ?_⟩
      · rw [List.foldlM_cons, assignAt, if_pos hi]
        exact hrun
      · intro k hk
        rcases List.mem_cons.mp hk with rfl | hk
        · rw [hkeep _ hfresh, List.getElem?_modify_eq]
          rfl
        · rw [hset k hk, List.getElem?_modify_ne _ _ (hfresh k hk).symm]
      · intro j hj
        rw [hkeep j (fun k hk ↦ hj k (List.mem_cons_of_mem i hk)),
          List.getElem?_modify_ne _ _ (hj i List.mem_cons_self)]

/-- A scan of the difference of two masks assigns to the places of the bits that differ, and
to no other place. -/
theorem scan_assignAt {α : Type} (f : ℕ → α → α) (offset : ℕ) (old new : ℤ) {xs : List α}
    (hlt : ∀ i < 32, (toWord new).getLsbD i ≠ (toWord old).getLsbD i → offset + i < xs.length) :
    ∃ ys, scan (fun i st ↦ assignAt (f i) (offset + i) st) (bitXor new old) xs = .ok ys ∧
      ys.length = xs.length ∧
      (∀ i < 32, (toWord new).getLsbD i ≠ (toWord old).getLsbD i →
        ys[offset + i]? = xs[offset + i]?.map (f i)) ∧
      ∀ j, (∀ i < 32, (toWord new).getLsbD i ≠ (toWord old).getLsbD i → offset + i ≠ j) →
        ys[j]? = xs[j]? := by
  have hnodup : ((setBits (toWord new ^^^ toWord old)).map (offset + ·)).Nodup :=
    (nodup_setBits _).map fun _ _ h ↦ Nat.add_left_cancel h
  have hbound : ∀ i ∈ setBits (toWord new ^^^ toWord old), offset + i < xs.length :=
    fun i hi ↦ hlt i (mem_setBits_xor.mp hi).1 (mem_setBits_xor.mp hi).2
  obtain ⟨ys, hrun, hlen, hset, hkeep⟩ := foldlM_assignAt (offset + ·) f hnodup hbound
  refine ⟨ys, (scan_bitXor _ new old xs).trans hrun, hlen, ?_, ?_⟩
  · exact fun i hi hne ↦ hset i (mem_setBits_xor.mpr ⟨hi, hne⟩)
  · exact fun j hj ↦ hkeep j fun i hi ↦ hj i (mem_setBits_xor.mp hi).1 (mem_setBits_xor.mp hi).2

end JsInteger
