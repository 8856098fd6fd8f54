import Mathlib.Tactic.Ring
import VPanel.Library.ByteCodec

/-!
# Layout of C objects in memory

An object type is a list of named scalar slots inside a block of bytes.  The
structure carries the proof that its slots follow each other without overlap
and end inside the block, so reading back what was stored needs no further
side condition on a concrete declaration.
-/

namespace ObjectLayout

open ByteCodec

variable {ι κ : Type*}

/-- A scalar member: its name, its offset in the object and its width. -/
structure Slot (ι : Type*) where
  name : ι
  offset : ℕ
  size : ℕ

namespace Slot

def shift (k : ℕ) (s : Slot ι) : Slot ι := { s with offset := k + s.offset }

def rename (f : ι → κ) (s : Slot ι) : Slot κ := ⟨f s.name, s.offset, s.size⟩

end Slot

/-- The slots stand in increasing order, without overlap, between two offsets. -/
def Chained : ℕ → List (Slot ι) → ℕ → Prop
  | lo, [], hi => lo ≤ hi
  | lo, s :: ss, hi => lo ≤ s.offset ∧ Chained (s.offset + s.size) ss hi

namespace Chained

theorem weaken_left {lo lo' hi : ℕ} {ss : List (Slot ι)} (hlo : lo' ≤ lo)
    (h : Chained lo ss hi) : Chained lo' ss hi := by
  cases ss with
  | nil => exact hlo.trans h
  | cons s ss => exact ⟨hlo.trans h.1, h.2⟩

theorem weaken_right {lo hi hi' : ℕ} {ss : List (Slot ι)} (hhi : hi ≤ hi')
    (h : Chained lo ss hi) : Chained lo ss hi' := by
  induction ss generalizing lo with
  | nil => exact le_trans h hhi
  | cons s ss ih => exact ⟨h.1, ih h.2⟩

theorem append {lo mid hi : ℕ} {ss ts : List (Slot ι)} (hs : Chained lo ss mid)
    (ht : Chained mid ts hi) : Chained lo (ss ++ ts) hi := by
  induction ss generalizing lo with
  | nil => exact ht.weaken_left hs
  | cons s ss ih => exact ⟨hs.1, ih hs.2⟩

theorem shift {lo hi : ℕ} {ss : List (Slot ι)} (k : ℕ) (h : Chained lo ss hi) :
    Chained (k + lo) (ss.map (Slot.shift k)) (k + hi) := by
  induction ss generalizing lo with
  | nil => exact Nat.add_le_add_left h k
  | cons s ss ih =>
      refine ⟨Nat.add_le_add_left h.1 k, ?_⟩
      simpa only [Slot.shift, Nat.add_assoc] using ih h.2

theorem rename {lo hi : ℕ} {ss : List (Slot ι)} (f : ι → κ) (h : Chained lo ss hi) :
    Chained lo (ss.map (Slot.rename f)) hi := by
  induction ss generalizing lo with
  | nil => exact h
  | cons s ss ih => exact ⟨h.1, ih h.2⟩

theorem le {lo hi : ℕ} {ss : List (Slot ι)} (h : Chained lo ss hi) : lo ≤ hi := by
  induction ss generalizing lo with
  | nil => exact h
  | cons s ss ih =>
      have htail := ih h.2
      have hhead := h.1
      omega

theorem bounds {lo hi : ℕ} {ss : List (Slot ι)} (h : Chained lo ss hi) {s : Slot ι}
    (hs : s ∈ ss) : lo ≤ s.offset ∧ s.offset + s.size ≤ hi := by
  induction ss generalizing lo with
  | nil => simp at hs
  | cons t ss ih =>
      rcases List.mem_cons.mp hs with rfl | hs
      · exact ⟨h.1, h.2.le⟩
      · have hrest := ih h.2 hs
        have hhead := h.1
        omega

end Chained

/-- A laid-out object type. -/
structure ObjType (ι : Type*) where
  size : ℕ
  align : ℕ
  slots : List (Slot ι)
  align_pos : 0 < align
  chained : Chained 0 slots size

def alignUp (a o : ℕ) : ℕ := (o + a - 1) / a * a

theorem le_alignUp {a : ℕ} (ha : 0 < a) (o : ℕ) : o ≤ alignUp a o := by
  have hdiv := Nat.div_add_mod' (o + a - 1) a
  have hmod := Nat.mod_lt (o + a - 1) ha
  unfold alignUp
  omega

namespace ObjType

def scalar (name : ι) (size align : ℕ) (h : 0 < align) : ObjType ι where
  size := size
  align := align
  slots := [⟨name, 0, size⟩]
  align_pos := h
  chained := ⟨le_rfl, (Nat.zero_add size).le⟩

def rename (f : ι → κ) (T : ObjType ι) : ObjType κ where
  size := T.size
  align := T.align
  slots := T.slots.map (Slot.rename f)
  align_pos := T.align_pos
  chained := T.chained.rename f

def alignIn (packed : Bool) (T : ObjType ι) : ℕ := if packed then 1 else T.align

theorem alignIn_pos (packed : Bool) (T : ObjType ι) : 0 < T.alignIn packed := by
  unfold alignIn
  split
  · exact Nat.one_pos
  · exact T.align_pos

def endOffset (packed : Bool) : ℕ → List (ObjType ι) → ℕ
  | o, [] => o
  | o, T :: Ts => endOffset packed (alignUp (T.alignIn packed) o + T.size) Ts

/-- Each member goes to the next offset that its alignment allows. -/
def place (packed : Bool) : ℕ → List (ObjType ι) → List (Slot ι)
  | _, [] => []
  | o, T :: Ts =>
      T.slots.map (Slot.shift (alignUp (T.alignIn packed) o)) ++
        place packed (alignUp (T.alignIn packed) o + T.size) Ts

theorem place_chained (packed : Bool) (o : ℕ) (Ts : List (ObjType ι)) :
    Chained o (place packed o Ts) (endOffset packed o Ts) := by
  induction Ts generalizing o with
  | nil => exact le_refl o
  | cons T Ts ih =>
      have hstart := le_alignUp (T.alignIn_pos packed) o
      have hhead := T.chained.shift (alignUp (T.alignIn packed) o)
      exact (hhead.weaken_left hstart).append (ih _)

def structAlign (packed : Bool) (Ts : List (ObjType ι)) : ℕ :=
  (Ts.map (alignIn packed)).foldr max 1

theorem structAlign_pos (packed : Bool) (Ts : List (ObjType ι)) : 0 < structAlign packed Ts := by
  induction Ts with
  | nil => exact Nat.one_pos
  | cons T Ts ih => exact lt_of_lt_of_le ih (le_max_right _ _)

/-- A struct: members in declaration order, the size rounded up to the alignment. -/
def struct (packed : Bool) (members : List (ObjType ι)) : ObjType ι where
  size := alignUp (structAlign packed members) (endOffset packed 0 members)
  align := structAlign packed members
  slots := place packed 0 members
  align_pos := structAlign_pos packed members
  chained := (place_chained packed 0 members).weaken_right
    (le_alignUp (structAlign_pos packed members) _)

end ObjType

/-! ## Bytes of a memory block -/

/-- `n` bytes of `mem` from `off` on. -/
def peek (mem : List UInt8) (off n : ℕ) : List UInt8 := (mem.drop off).take n

/-- Overwrite the bytes of `mem` from `off` on. -/
def poke (mem : List UInt8) (off : ℕ) (bs : List UInt8) : List UInt8 :=
  mem.take off ++ bs ++ mem.drop (off + bs.length)

theorem length_peek {mem : List UInt8} {off n : ℕ} (h : off + n ≤ mem.length) :
    (peek mem off n).length = n := by
  simp only [peek, List.length_take, List.length_drop]
  omega

theorem length_poke {mem bs : List UInt8} {off : ℕ} (h : off + bs.length ≤ mem.length) :
    (poke mem off bs).length = mem.length := by
  simp only [poke, List.length_append, List.length_take, List.length_drop]
  omega

theorem peek_poke_self {mem bs : List UInt8} {off : ℕ} (h : off + bs.length ≤ mem.length) :
    peek (poke mem off bs) off bs.length = bs := by
  have hlen : (mem.take off).length = off := by
    rw [List.length_take]
    omega
  rw [peek, poke, List.append_assoc]
  nth_rewrite 1 [← hlen]
  rw [List.drop_left, List.take_left]

theorem peek_poke_before {mem bs : List UInt8} {off a n : ℕ} (hoff : off ≤ mem.length)
    (h : a + n ≤ off) : peek (poke mem off bs) a n = peek mem a n := by
  have hlen : a + n ≤ (mem.take off).length := by
    rw [List.length_take]
    omega
  rw [peek, poke, List.append_assoc, List.drop_append_of_le_length (by omega),
    List.take_append_of_le_length (by rw [List.length_drop]; omega)]
  simp only [peek, List.drop_take, List.take_take]
  congr 1
  omega

theorem peek_append_left {mem rest : List UInt8} {a n : ℕ} (h : a + n ≤ mem.length) :
    peek (mem ++ rest) a n = peek mem a n := by
  rw [peek, List.drop_append_of_le_length (by omega),
    List.take_append_of_le_length (by rw [List.length_drop]; omega), peek]

theorem peek_peek {mem : List UInt8} {a b m n : ℕ} (h : b + n ≤ m) :
    peek (peek mem a m) b n = peek mem (a + b) n := by
  simp only [peek, List.drop_take, List.drop_drop, List.take_take]
  congr 1
  omega

theorem peek_add (mem : List UInt8) (a m n : ℕ) :
    peek mem a (m + n) = peek mem a m ++ peek mem (a + m) n := by
  simp only [peek, List.take_add, List.drop_drop]

theorem length_peek_poke_singleton {mem : List UInt8} {off n k : ℕ} (h : off + n ≤ mem.length)
    (hk : k + 1 ≤ mem.length) (b : UInt8) : (peek (poke mem k [b]) off n).length = n := by
  have hlen : (poke mem k [b]).length = mem.length := length_poke hk
  exact length_peek (h.trans_eq hlen.symm)

theorem peek_poke_last_ne {mem : List UInt8} {off n k : ℕ} (hlast : off + n = k + 1)
    (hn : 0 < n) (hk : k + 1 ≤ mem.length) {b c : UInt8} (hbc : b ≠ c) :
    peek (poke mem k [b]) off n ≠ peek (poke mem k [c]) off n := by
  have hbyte : ∀ d : UInt8, peek (peek (poke mem k [d]) off n) (n - 1) 1 = [d] := by
    intro d
    have hplace : off + (n - 1) = k := by omega
    rw [peek_peek (by omega), hplace]
    exact peek_poke_self hk
  intro h
  have hsingle : [b] = [c] := by rw [← hbyte b, h, hbyte c]
  exact hbc (List.singleton_inj.mp hsingle)

theorem append_drop_poke {xs zs bs : List UInt8} {k : ℕ} (hxs : xs.length ≤ k)
    (hk : k ≤ zs.length) :
    xs ++ (poke zs k bs).drop xs.length = poke (xs ++ zs.drop xs.length) k bs := by
  obtain ⟨n, rfl⟩ := Nat.exists_eq_add_of_le hxs
  have hfront : xs.length ≤ (zs.take (xs.length + n)).length := by
    rw [List.length_take]
    omega
  have htake : (xs ++ zs.drop xs.length).take (xs.length + n) =
      xs ++ (zs.drop xs.length).take n := by
    rw [List.take_append, List.take_of_length_le (by omega), Nat.add_sub_cancel_left]
  have hdrop : (xs ++ zs.drop xs.length).drop (xs.length + n + bs.length) =
      zs.drop (xs.length + n + bs.length) := by
    rw [Nat.add_assoc, ← List.drop_drop, List.drop_left, List.drop_drop]
  rw [poke, poke, htake, hdrop, List.append_assoc, List.drop_append_of_le_length hfront,
    List.drop_take, Nat.add_sub_cancel_left]
  simp only [List.append_assoc]

/-! ## Storing and loading members -/

/-- Assign every member of an object; the padding keeps its old bytes. -/
def storeSlots (o : ByteOrder) (vals : ι → ℕ) : List (Slot ι) → List UInt8 → List UInt8
  | [], mem => mem
  | s :: ss, mem => storeSlots o vals ss (poke mem s.offset (o.encode s.size (vals s.name)))

theorem length_storeSlots (o : ByteOrder) (vals : ι → ℕ) {lo hi : ℕ} {ss : List (Slot ι)}
    (h : Chained lo ss hi) {mem : List UInt8} (hmem : hi ≤ mem.length) :
    (storeSlots o vals ss mem).length = mem.length := by
  induction ss generalizing lo mem with
  | nil => rfl
  | cons s ss ih =>
      have hfit : s.offset + (o.encode s.size (vals s.name)).length ≤ mem.length := by
        rw [o.length_encode]
        exact h.2.le.trans hmem
      rw [storeSlots, ih h.2 (by rwa [length_poke hfit]), length_poke hfit]

theorem peek_storeSlots_before (o : ByteOrder) (vals : ι → ℕ) {lo hi : ℕ}
    {ss : List (Slot ι)} (h : Chained lo ss hi) {mem : List UInt8} (hmem : hi ≤ mem.length)
    {a n : ℕ} (han : a + n ≤ lo) : peek (storeSlots o vals ss mem) a n = peek mem a n := by
  induction ss generalizing lo mem with
  | nil => rfl
  | cons s ss ih =>
      have hend := h.2.le
      have hstart := h.1
      have hfit : s.offset + (o.encode s.size (vals s.name)).length ≤ mem.length := by
        rw [o.length_encode]
        omega
      rw [storeSlots, ih h.2 (by rwa [length_poke hfit]) (by omega),
        peek_poke_before (by omega) (by omega)]

theorem peek_storeSlots_mem (o : ByteOrder) (vals : ι → ℕ) {lo hi : ℕ} {ss : List (Slot ι)}
    (h : Chained lo ss hi) {mem : List UInt8} (hmem : hi ≤ mem.length) {s : Slot ι}
    (hs : s ∈ ss) :
    peek (storeSlots o vals ss mem) s.offset s.size = o.encode s.size (vals s.name) := by
  induction ss generalizing lo mem with
  | nil => simp at hs
  | cons t ss ih =>
      have hfit : t.offset + (o.encode t.size (vals t.name)).length ≤ mem.length := by
        rw [o.length_encode]
        exact h.2.le.trans hmem
      have hlen : hi ≤ (poke mem t.offset (o.encode t.size (vals t.name))).length := by
        rwa [length_poke hfit]
      rcases List.mem_cons.mp hs with rfl | hs
      · rw [storeSlots, peek_storeSlots_before o vals h.2 hlen le_rfl]
        simpa only [o.length_encode] using peek_poke_self hfit
      · exact ih h.2 hlen hs

namespace ObjType

variable [DecidableEq ι]

def slot? (T : ObjType ι) (name : ι) : Option (Slot ι) := T.slots.find? (fun s ↦ s.name = name)

def width (T : ObjType ι) (name : ι) : ℕ :=
  match T.slot? name with
  | some s => s.size
  | none => 0

def store (o : ByteOrder) (T : ObjType ι) (vals : ι → ℕ) (mem : List UInt8) : List UInt8 :=
  storeSlots o vals T.slots mem

/-- The value of a member in the object that starts at the first byte of `mem`. -/
def load (o : ByteOrder) (T : ObjType ι) (mem : List UInt8) (name : ι) : ℕ :=
  match T.slot? name with
  | some s => o.decode (peek mem s.offset s.size)
  | none => 0

theorem slot?_mem {T : ObjType ι} {name : ι} {s : Slot ι} (h : T.slot? name = some s) :
    s ∈ T.slots ∧ s.name = name :=
  ⟨List.mem_of_find?_eq_some h, by simpa using List.find?_some h⟩

theorem slot?_of_mem {T : ObjType ι} (hnodup : (T.slots.map Slot.name).Nodup) {s : Slot ι}
    (hs : s ∈ T.slots) : T.slot? s.name = some s := by
  unfold slot?
  generalize T.slots = slots at hnodup hs ⊢
  induction slots with
  | nil => simp at hs
  | cons t ss ih =>
      rw [List.map_cons, List.nodup_cons] at hnodup
      rcases List.mem_cons.mp hs with rfl | hs
      · simp
      · have hne : t.name ≠ s.name := fun h ↦ hnodup.1 (h ▸ List.mem_map_of_mem hs)
        rw [List.find?_cons_of_neg (by simpa using hne)]
        exact ih hnodup.2 hs

omit [DecidableEq ι] in
theorem length_store (o : ByteOrder) (T : ObjType ι) (vals : ι → ℕ) {mem : List UInt8}
    (hmem : T.size ≤ mem.length) : (T.store o vals mem).length = mem.length :=
  length_storeSlots o vals T.chained hmem

theorem load_eq_of_slot? (o : ByteOrder) {T : ObjType ι} {name : ι} {s : Slot ι}
    (h : T.slot? name = some s) (mem : List UInt8) :
    T.load o mem name = o.decode (peek mem s.offset s.size) := by
  simp only [load, h]

theorem load_lt (o : ByteOrder) (T : ObjType ι) (mem : List UInt8) (name : ι) :
    T.load o mem name < 256 ^ T.width name := by
  cases hslot : T.slot? name with
  | none => simp [load, width, hslot]
  | some s =>
      have hlen : (peek mem s.offset s.size).length ≤ s.size := by
        rw [peek, List.length_take]
        exact min_le_left _ _
      rw [load_eq_of_slot? o hslot, width, hslot]
      exact (o.decode_lt _).trans_le (Nat.pow_le_pow_right (by norm_num) hlen)

theorem load_append (o : ByteOrder) {T : ObjType ι} {name : ι} {mem : List UInt8}
    (h : ∀ s, T.slot? name = some s → s.offset + s.size ≤ mem.length) (rest : List UInt8) :
    T.load o (mem ++ rest) name = T.load o mem name := by
  cases hslot : T.slot? name with
  | none => simp [load, hslot]
  | some s =>
      rw [load_eq_of_slot? o hslot, load_eq_of_slot? o hslot, peek_append_left (h s hslot)]

theorem load_poke_before (o : ByteOrder) {T : ObjType ι} {name : ι} {s : Slot ι}
    (h : T.slot? name = some s) {mem : List UInt8} {k : ℕ} (hs : s.offset + s.size ≤ k)
    (hk : k ≤ mem.length) (bs : List UInt8) :
    T.load o (poke mem k bs) name = T.load o mem name := by
  rw [load_eq_of_slot? o h, load_eq_of_slot? o h, peek_poke_before hk hs]

theorem load_poke_last_ne (o : ByteOrder) {T : ObjType ι} {name : ι} {s : Slot ι}
    (h : T.slot? name = some s) {mem : List UInt8} {k : ℕ} (hs : s.offset + s.size = k + 1)
    (hsize : 0 < s.size) (hk : k + 1 ≤ mem.length) {b c : UInt8} (hbc : b ≠ c) :
    T.load o (poke mem k [b]) name ≠ T.load o (poke mem k [c]) name := by
  rw [load_eq_of_slot? o h, load_eq_of_slot? o h]
  intro heq
  have hfit : s.offset + s.size ≤ mem.length := hs.trans_le hk
  have hlen := length_peek_poke_singleton hfit hk
  exact peek_poke_last_ne hs hsize hk hbc
    (o.decode_injective_of_length ((hlen b).trans (hlen c).symm) heq)

omit [DecidableEq ι] in
theorem peek_store (o : ByteOrder) {T : ObjType ι} (vals : ι → ℕ) {mem : List UInt8}
    (hmem : T.size ≤ mem.length) {s : Slot ι} (hs : s ∈ T.slots) :
    peek (T.store o vals mem) s.offset s.size = o.encode s.size (vals s.name) :=
  peek_storeSlots_mem o vals T.chained hmem hs

theorem load_store_of_slot? (o o' : ByteOrder) {T : ObjType ι} (vals : ι → ℕ)
    {mem : List UInt8} (hmem : T.size ≤ mem.length) {name : ι} {s : Slot ι}
    (h : T.slot? name = some s) :
    T.load o' (T.store o vals mem) name = o'.decode (o.encode s.size (vals name)) := by
  obtain ⟨hs, rfl⟩ := slot?_mem h
  rw [load_eq_of_slot? o' h, peek_store o vals hmem hs]

/-- What was stored is read back, reduced to the width of the member. -/
theorem load_store (o : ByteOrder) (T : ObjType ι) (vals : ι → ℕ) {mem : List UInt8}
    (hmem : T.size ≤ mem.length) (name : ι) :
    T.load o (T.store o vals mem) name = vals name % 256 ^ T.width name := by
  cases hslot : T.slot? name with
  | none => simp [load, width, hslot, Nat.mod_one]
  | some s => rw [load_store_of_slot? o o vals hmem hslot, o.decode_encode, width, hslot]

/-- `U` has the members of `T`, in the same places relative to `base`. -/
def EmbedsIn [DecidableEq κ] (T : ObjType ι) (U : ObjType κ) (emb : ι → κ) (base : ℕ) : Prop :=
  ∀ name, ∃ s, T.slot? name = some s ∧
    U.slot? (emb name) = some ⟨emb name, base + s.offset, s.size⟩

namespace EmbedsIn

variable [DecidableEq κ] {T : ObjType ι} {U : ObjType κ} {emb : ι → κ} {base : ℕ}

theorem load_peek (h : T.EmbedsIn U emb base) (o : ByteOrder) (mem : List UInt8) (name : ι) :
    T.load o (peek mem base T.size) name = U.load o mem (emb name) := by
  obtain ⟨s, hT, hU⟩ := h name
  have hfit := (T.chained.bounds (slot?_mem hT).1).2
  rw [load_eq_of_slot? o hT, load_eq_of_slot? o hU, peek_peek hfit]

theorem width_eq (h : T.EmbedsIn U emb base) (name : ι) : U.width (emb name) = T.width name := by
  obtain ⟨s, hT, hU⟩ := h name
  simp only [width, hT, hU]

end EmbedsIn

end ObjType

/-! ## Objects without padding -/

/-- The slots fill the block between two offsets completely. -/
def Contiguous : ℕ → List (Slot ι) → ℕ → Prop
  | lo, [], hi => lo = hi
  | lo, s :: ss, hi => s.offset = lo ∧ Contiguous (lo + s.size) ss hi

instance Contiguous.decidable : (lo : ℕ) → (ss : List (Slot ι)) → (hi : ℕ) →
    Decidable (Contiguous lo ss hi)
  | lo, [], hi => inferInstanceAs (Decidable (lo = hi))
  | lo, s :: ss, hi =>
      have := Contiguous.decidable (lo + s.size) ss hi
      inferInstanceAs (Decidable (s.offset = lo ∧ _))

theorem Contiguous.le {lo hi : ℕ} {ss : List (Slot ι)} (h : Contiguous lo ss hi) : lo ≤ hi := by
  induction ss generalizing lo with
  | nil => exact Nat.le_of_eq h
  | cons s ss ih => exact (Nat.le_add_right _ _).trans (ih h.2)

theorem Contiguous.flatMap_peek {lo hi : ℕ} {ss : List (Slot ι)} (h : Contiguous lo ss hi)
    (mem : List UInt8) : ss.flatMap (fun s ↦ peek mem s.offset s.size) = peek mem lo (hi - lo) := by
  induction ss generalizing lo with
  | nil =>
      obtain rfl : lo = hi := h
      simp [peek]
  | cons s ss ih =>
      obtain ⟨rfl, htail⟩ := h
      have hend := htail.le
      rw [List.flatMap_cons, ih htail, ← peek_add]
      congr 1
      omega

theorem Contiguous.storeSlots_eq (o : ByteOrder) (vals : ι → ℕ) {lo hi : ℕ}
    {ss : List (Slot ι)} (h : Contiguous lo ss hi) {mem : List UInt8} (hmem : hi ≤ mem.length) :
    storeSlots o vals ss mem =
      mem.take lo ++ ss.flatMap (fun s ↦ o.encode s.size (vals s.name)) ++ mem.drop hi := by
  induction ss generalizing lo mem with
  | nil =>
      obtain rfl : lo = hi := h
      simp [storeSlots]
  | cons s ss ih =>
      obtain ⟨rfl, htail⟩ := h
      have hend := htail.le
      set bs := o.encode s.size (vals s.name) with hbs
      have hlen : bs.length = s.size := o.length_encode _ _
      have hfit : s.offset + bs.length ≤ mem.length := by omega
      have htake : (poke mem s.offset bs).take (s.offset + s.size) = mem.take s.offset ++ bs := by
        rw [poke, List.take_left']
        simp only [List.length_append, List.length_take]
        omega
      have hdrop : (poke mem s.offset bs).drop hi = mem.drop hi := by
        obtain ⟨k, rfl⟩ := Nat.exists_eq_add_of_le hend
        have hfront : (mem.take s.offset ++ bs).length = s.offset + s.size := by
          simp only [List.length_append, List.length_take]
          omega
        rw [poke, ← List.drop_drop, List.drop_left' hfront, hlen, List.drop_drop]
      rw [storeSlots, ih htail (by rwa [length_poke hfit]), htake, hdrop, List.flatMap_cons]
      simp only [List.append_assoc, hbs]

theorem ObjType.store_eq_flatMap (o : ByteOrder) {T : ObjType ι} (vals : ι → ℕ)
    (h : Contiguous 0 T.slots T.size) {mem : List UInt8} (hmem : mem.length = T.size) :
    T.store o vals mem = T.slots.flatMap (fun s ↦ o.encode s.size (vals s.name)) := by
  rw [ObjType.store, h.storeSlots_eq o vals hmem.ge, List.take_zero, List.nil_append,
    List.drop_eq_nil_of_le hmem.le, List.append_nil]

section Unpadded

variable [DecidableEq ι] (o : ByteOrder) {T : ObjType ι} (h : Contiguous 0 T.slots T.size)

include h

omit [DecidableEq ι] in
theorem ObjType.length_flatMap_encode (vals : ι → ℕ) :
    (T.slots.flatMap fun s ↦ o.encode s.size (vals s.name)).length = T.size := by
  have hzero : (List.replicate T.size (0 : UInt8)).length = T.size := List.length_replicate
  rw [← ObjType.store_eq_flatMap o vals h hzero, ObjType.length_store o T vals hzero.ge, hzero]

theorem ObjType.load_flatMap_encode (vals : ι → ℕ) (name : ι) :
    T.load o (T.slots.flatMap fun s ↦ o.encode s.size (vals s.name)) name =
      vals name % 256 ^ T.width name := by
  have hzero : (List.replicate T.size (0 : UInt8)).length = T.size := List.length_replicate
  rw [← ObjType.store_eq_flatMap o vals h hzero, ObjType.load_store o T vals hzero.ge]

theorem ObjType.flatMap_encode_load (hnodup : (T.slots.map Slot.name).Nodup) {mem : List UInt8}
    (hmem : T.size ≤ mem.length) :
    (T.slots.flatMap fun s ↦ o.encode s.size (T.load o mem s.name)) = peek mem 0 T.size := by
  rw [← Nat.sub_zero T.size, ← h.flatMap_peek mem]
  apply List.flatMap_congr
  intro s hs
  have hfit := (T.chained.bounds hs).2.trans hmem
  have hbytes := o.encode_decode (peek mem s.offset s.size)
  rw [length_peek hfit] at hbytes
  rw [ObjType.load_eq_of_slot? o (ObjType.slot?_of_mem hnodup hs), hbytes]

end Unpadded

/-! ## Compilers -/

inductive CInt
  | short | long | uint16 | uint32 | uint64
  deriving DecidableEq

structure Abi where
  size : CInt → ℕ
  align : CInt → ℕ
  align_pos : ∀ t, 0 < align t
  order : ByteOrder
  honoursPack : Bool

namespace Abi

def int (A : Abi) (name : ι) (t : CInt) : ObjType ι :=
  .scalar name (A.size t) (A.align t) (A.align_pos t)

def struct (_A : Abi) (members : List (ObjType ι)) : ObjType ι := .struct false members

/-- A struct declared between `#pragma pack(push, 1)` and `#pragma pack(pop)`. -/
def packedStruct (A : Abi) (members : List (ObjType ι)) : ObjType ι :=
  .struct A.honoursPack members

/-- A little-endian host with 64-bit longs, every integer aligned to its size. -/
def lp64 : Abi where
  size
    | .short | .uint16 => 2
    | .uint32 => 4
    | .long | .uint64 => 8
  align
    | .short | .uint16 => 2
    | .uint32 => 4
    | .long | .uint64 => 8
  align_pos t := by cases t <;> decide
  order := .little
  honoursPack := true

/-- A little-endian host with 32-bit longs and no alignment above four bytes. -/
def ilp32 : Abi where
  size
    | .short | .uint16 => 2
    | .long | .uint32 => 4
    | .uint64 => 8
  align
    | .short | .uint16 => 2
    | .long | .uint32 | .uint64 => 4
  align_pos t := by cases t <;> decide
  order := .little
  honoursPack := true

/-- The 2.11BSD compiler: everything on even addresses, longs with the high word first. -/
def pdp11 : Abi where
  size
    | .short | .uint16 => 2
    | .long | .uint32 => 4
    | .uint64 => 8
  align _ := 2
  align_pos _ := by decide
  order := .wordSwapped
  honoursPack := false

end Abi

end ObjectLayout
