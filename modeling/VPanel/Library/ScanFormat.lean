import VPanel.Library.StdioFormat

/-!
# Scanning numbers, characters and words

The conversions `%lo`, `%lx`, `%c` and `%s` of `scanf`.  A number ends at the
first character that is no digit of its base; what is left of the digits
belongs to the conversions that follow.
-/

namespace ScanFormat

open HexText StdioFormat

variable {w : ℕ}

/-! ## Digits of a base -/

/-- Read the longest run of digits below the base, of sixteen at most. -/
def readDigits (base : ℕ) : ℕ → List Char → ℕ × List Char
  | acc, [] => (acc, [])
  | acc, c :: cs =>
      match hexDigit? c with
      | some d => if d < base then readDigits base (base * acc + d) cs else (acc, c :: cs)
      | none => (acc, c :: cs)

/-- The number a list of digits stands for, the highest first. -/
def valueOfDigits (base : ℕ) (ds : List ℕ) : ℕ := ds.foldl (fun acc d ↦ base * acc + d) 0

theorem valueOfDigits_concat (base : ℕ) (ds : List ℕ) (d : ℕ) :
    valueOfDigits base (ds ++ [d]) = base * valueOfDigits base ds + d := by
  rw [valueOfDigits, List.foldl_append]
  rfl

theorem valueOfDigits_mono {b b' : ℕ} (hb : b ≤ b') (ds : List ℕ) :
    valueOfDigits b ds ≤ valueOfDigits b' ds := by
  induction ds using List.reverseRecOn with
  | nil => exact le_rfl
  | append_singleton ds d ih =>
      rw [valueOfDigits_concat, valueOfDigits_concat]
      exact Nat.add_le_add_right (Nat.mul_le_mul hb ih) d

theorem le_valueOfDigits {base : ℕ} (hbase : 1 ≤ base) {ds : List ℕ} {d : ℕ} (hd : d ∈ ds) :
    d ≤ valueOfDigits base ds := by
  induction ds using List.reverseRecOn with
  | nil => cases hd
  | append_singleton ds e ih =>
      rw [valueOfDigits_concat]
      rcases List.mem_append.mp hd with hd | hd
      · exact (ih hd).trans ((Nat.le_mul_of_pos_left _ hbase).trans (Nat.le_add_right _ _))
      · rw [List.mem_singleton.mp hd]
        exact Nat.le_add_left _ _

/-- Octal digits stand for the same number in both bases only when there is one that counts. -/
theorem valueOfDigits_eight_eq_iff {ds : List ℕ} (hds : ∀ d ∈ ds, d < 8) :
    valueOfDigits 8 ds = valueOfDigits 16 ds ↔ valueOfDigits 16 ds < 8 := by
  rcases List.eq_nil_or_concat ds with rfl | ⟨init, d, rfl⟩
  · exact iff_of_true rfl (by decide)
  · have hd : d < 8 := hds d (by simp)
    have hmono : valueOfDigits 8 init ≤ valueOfDigits 16 init := valueOfDigits_mono (by norm_num) init
    rw [List.concat_eq_append, valueOfDigits_concat, valueOfDigits_concat]
    omega

/-- `c` does not continue a number of the base. -/
def StopsDigits (base : ℕ) (c : Char) : Prop := ∀ d, hexDigit? c = some d → base ≤ d

theorem readDigits_stop {base : ℕ} (acc : ℕ) {c : Char} (hc : StopsDigits base c)
    (cs : List Char) : readDigits base acc (c :: cs) = (acc, c :: cs) := by
  rw [readDigits]
  cases hd : hexDigit? c with
  | none => rfl
  | some d => exact if_neg (Nat.not_lt.mpr (hc d hd))

theorem readDigits_digits {base : ℕ} (hbase : base ≤ 16) {ds : List ℕ} (hds : ∀ d ∈ ds, d < base)
    (acc : ℕ) (rest : List Char) :
    readDigits base acc (ds.map Nat.digitChar ++ rest) =
      readDigits base (ds.foldl (fun acc d ↦ base * acc + d) acc) rest := by
  induction ds generalizing acc with
  | nil => rfl
  | cons d ds ih =>
      have hd : d < base := hds d List.mem_cons_self
      rw [List.map_cons, List.cons_append, readDigits, readsBack_digitChar d (hd.trans_le hbase),
        List.foldl_cons]
      exact (if_pos hd).trans (ih (fun k hk ↦ hds k (List.mem_cons_of_mem d hk)) _)

theorem lt_of_hexDigit? {c : Char} {d : ℕ} (h : hexDigit? c = some d) : d < 16 := by
  unfold hexDigit? at h
  simp only [Char.reduceToNat] at h
  split_ifs at h <;> cases h <;> omega

theorem readDigits_sixteen (acc : ℕ) (s : List Char) : readDigits 16 acc s = readHex acc s := by
  induction s generalizing acc with
  | nil => rfl
  | cons c cs ih =>
      rw [readDigits, readHex]
      cases hd : hexDigit? c with
      | none => rfl
      | some d => exact (if_pos (lt_of_hexDigit? hd)).trans (ih _)

/-! ## Conversions -/

/-- `%lo`: the number `strtoul` reads in base eight, and the text after it. -/
def scanOctal (s : List Char) : Option (BitVec w × List Char) :=
  let (negative, digits) := stripSign s
  let (n, rest) := readDigits 8 0 digits
  if rest.length = digits.length then none
  else if 2 ^ w ≤ n then some (BitVec.allOnes w, rest)
  else some (if negative then -BitVec.ofNat w n else BitVec.ofNat w n, rest)

inductive Directive
  | white
  | literal (c : Char)
  | octLong
  | hexLong
  | char
  | string
  deriving DecidableEq

def directives : List Char → List Directive
  | [] => []
  | '%' :: 'l' :: 'o' :: cs => .octLong :: directives cs
  | '%' :: 'l' :: 'x' :: cs => .hexLong :: directives cs
  | '%' :: 'c' :: cs => .char :: directives cs
  | '%' :: 's' :: cs => .string :: directives cs
  | c :: cs => (if isSpace c then .white else .literal c) :: directives cs

inductive Value (w : ℕ)
  | number (v : BitVec w)
  | char (c : Char)
  | string (s : List Char)
  deriving DecidableEq

/-- The values a scan converted, and whether the input ended before it did. -/
structure Scanned (w : ℕ) where
  values : List (Value w)
  inputFailure : Bool

def Scanned.ret (r : Scanned w) : ℤ :=
  if r.inputFailure ∧ r.values = [] then -1 else r.values.length

def Scanned.cons (v : Value w) (r : Scanned w) : Scanned w := { r with values := v :: r.values }

def scan : List Directive → List Char → Scanned w
  | [], _ => ⟨[], false⟩
  | .white :: ds, s => scan ds (s.dropWhile isSpace)
  | .literal _ :: _, [] => ⟨[], true⟩
  | .literal c :: ds, a :: s => if a = c then scan ds s else ⟨[], false⟩
  | .octLong :: ds, s =>
      match scanOctal (s.dropWhile isSpace) with
      | some (v, rest) => (scan ds rest).cons (.number v)
      | none => ⟨[], (s.dropWhile isSpace).isEmpty⟩
  | .hexLong :: ds, s =>
      match scanHex (s.dropWhile isSpace) with
      | some (v, rest) => (scan ds rest).cons (.number v)
      | none => ⟨[], (s.dropWhile isSpace).isEmpty⟩
  | .char :: _, [] => ⟨[], true⟩
  | .char :: ds, c :: s => (scan ds s).cons (.char c)
  | .string :: ds, s =>
      let word := (s.dropWhile isSpace).takeWhile fun c ↦ !isSpace c
      if word = [] then ⟨[], true⟩
      else (scan ds ((s.dropWhile isSpace).dropWhile fun c ↦ !isSpace c)).cons (.string word)

/-! ## Numbers -/

theorem hexDigit?_digitChar_isSome {d : ℕ} (hd : d < 16) :
    (hexDigit? (Nat.digitChar d)).isSome := by
  rw [readsBack_digitChar d hd]
  rfl

theorem ne_sign_of_hexDigit {c : Char} (hc : (hexDigit? c).isSome) : c ≠ '-' ∧ c ≠ '+' := by
  constructor <;> rintro rfl <;> exact absurd hc (by decide)

theorem stripSign_digits {ds : List ℕ} (hne : ds ≠ []) (hds : ∀ d ∈ ds, d < 16)
    (rest : List Char) :
    stripSign (ds.map Nat.digitChar ++ rest) = (false, ds.map Nat.digitChar ++ rest) := by
  obtain ⟨d, ds, rfl⟩ := List.exists_cons_of_ne_nil hne
  exact stripSign_cons (hexDigit?_digitChar_isSome (hds d List.mem_cons_self))

theorem length_rest_ne {ds : List ℕ} (hne : ds ≠ []) (rest : List Char) :
    ¬rest.length = (ds.map Nat.digitChar ++ rest).length := by
  rw [List.length_append, List.length_map]
  have := List.length_pos_of_ne_nil hne
  omega

/-- An octal number reaches up to the first character that is no octal digit. -/
theorem scanOctal_digits {ds : List ℕ} (hne : ds ≠ []) (hds : ∀ d ∈ ds, d < 8) {c : Char}
    (hc : StopsDigits 8 c) (cs : List Char) :
    ∃ v : BitVec w, scanOctal (ds.map Nat.digitChar ++ c :: cs) = some (v, c :: cs) ∧
      (valueOfDigits 8 ds < 2 ^ w → v = BitVec.ofNat w (valueOfDigits 8 ds)) := by
  have hread : readDigits 8 0 (ds.map Nat.digitChar ++ c :: cs) = (valueOfDigits 8 ds, c :: cs) := by
    rw [readDigits_digits (by norm_num) hds, readDigits_stop _ hc]
    rfl
  have hsign := stripSign_digits hne (fun d hd ↦ (hds d hd).trans (by norm_num)) (c :: cs)
  unfold scanOctal
  simp only [hsign, hread, if_neg (length_rest_ne hne (c :: cs))]
  by_cases hlarge : 2 ^ w ≤ valueOfDigits 8 ds
  · exact ⟨_, if_pos hlarge, fun h ↦ absurd h (Nat.not_lt.mpr hlarge)⟩
  · exact ⟨_, if_neg hlarge, fun _ ↦ rfl⟩

theorem stripSign_of_ne {c : Char} (hsign : c ≠ '-' ∧ c ≠ '+') (cs : List Char) :
    stripSign (c :: cs) = (false, c :: cs) := by
  unfold stripSign
  split
  next heq => cases heq; exact absurd rfl hsign.1
  next heq => cases heq; exact absurd rfl hsign.2
  next => rfl

theorem scanOctal_none {c : Char} (hc : StopsDigits 8 c) (hsign : c ≠ '-' ∧ c ≠ '+')
    (cs : List Char) : (scanOctal (c :: cs) : Option (BitVec w × List Char)) = none := by
  simp only [scanOctal, stripSign_of_ne hsign, readDigits_stop 0 hc, if_true]

theorem scanHex_digits {ds : List ℕ} (hne : ds ≠ []) (hds : ∀ d ∈ ds, d < 16) {c : Char}
    (hc : EndsNumber c) (cs : List Char) (hlt : valueOfDigits 16 ds < 2 ^ w) :
    scanHex (ds.map Nat.digitChar ++ c :: cs) =
      some (BitVec.ofNat w (valueOfDigits 16 ds), c :: cs) := by
  have hstop : StopsDigits 16 c := fun d hd ↦ by
    rw [hc.1] at hd
    cases hd
  have hread : readHex 0 (ds.map Nat.digitChar ++ c :: cs) = (valueOfDigits 16 ds, c :: cs) := by
    rw [← readDigits_sixteen, readDigits_digits le_rfl hds, readDigits_stop _ hstop]
    rfl
  have hx : stripPrefix (ds.map Nat.digitChar ++ c :: cs) = ds.map Nat.digitChar ++ c :: cs := by
    obtain ⟨d, ds, rfl⟩ := List.exists_cons_of_ne_nil hne
    apply stripPrefix_cons
    intro a ha
    cases ds with
    | nil =>
        obtain rfl : c = a := by simpa using ha
        exact hc.2
    | cons e ds =>
        obtain rfl : Nat.digitChar e = a := by simpa using ha
        exact ne_x_of_hexDigit (hexDigit?_digitChar_isSome (hds e (by simp)))
  unfold scanHex
  simp only [stripSign_digits hne hds, hx, hread, if_neg (length_rest_ne hne (c :: cs)),
    if_neg (Nat.not_le.mpr hlt)]
  rfl

theorem scanHex_none {c : Char} (hc : hexDigit? c = none) (hsign : c ≠ '-' ∧ c ≠ '+')
    (cs : List Char) : (scanHex (c :: cs) : Option (BitVec w × List Char)) = none := by
  have hzero : c ≠ '0' := by
    rintro rfl
    exact absurd hc (by decide)
  have hread : readHex 0 (c :: cs) = (0, c :: cs) := readHex_stop 0 fun a ha ↦ by
    obtain rfl : c = a := by simpa using ha
    exact hc
  simp only [scanHex, stripSign_of_ne hsign, stripPrefix_of_ne hzero, hread, if_true]

/-! ## Fields of a line -/

theorem dropWhile_append_of_head {p : Char → Bool} {s rest : List Char} (hs : ∀ c ∈ s, p c = true)
    (hrest : ∀ c ∈ rest.head?, p c = false) : (s ++ rest).dropWhile p = rest := by
  rw [List.dropWhile_append_of_pos hs]
  cases rest with
  | nil => rfl
  | cons c rest => exact List.dropWhile_cons_of_neg (by rw [hrest c rfl]; simp)

theorem scan_word {word rest : List Char} (hne : word ≠ []) (hword : ∀ c ∈ word, isSpace c = false)
    (hrest : ∀ c ∈ rest.head?, isSpace c = true) :
    scan [.string] (word ++ rest) = (⟨[.string word], false⟩ : Scanned w) := by
  obtain ⟨c, word, rfl⟩ := List.exists_cons_of_ne_nil hne
  have hdrop : (c :: word ++ rest).dropWhile isSpace = c :: word ++ rest := by
    rw [List.cons_append, dropWhile_isSpace_cons (hword c List.mem_cons_self)]
  have htake : (c :: word ++ rest).takeWhile (fun c ↦ !isSpace c) = c :: word := by
    rw [List.takeWhile_append_of_pos fun a ha ↦ by rw [hword a ha]; rfl]
    cases rest with
    | nil => simp
    | cons a rest => simp [hrest a rfl]
  rw [scan, hdrop, htake, if_neg (by simp), scan]
  rfl

/-- A character and a word, each with white space before it or not. -/
theorem scan_char_word (before gap word rest : List Char) {c : Char}
    (hbefore : ∀ a ∈ before, isSpace a = true) (hc : isSpace c = false)
    (hgap : ∀ a ∈ gap, isSpace a = true) (hne : word ≠ [])
    (hword : ∀ a ∈ word, isSpace a = false) (hrest : ∀ a ∈ rest.head?, isSpace a = true) :
    scan [.white, .char, .white, .string] (before ++ c :: (gap ++ (word ++ rest))) =
      (⟨[.char c, .string word], false⟩ : Scanned w) := by
  obtain ⟨a, as, hcons⟩ := List.exists_cons_of_ne_nil hne
  have hhead : ∀ b ∈ (word ++ rest).head?, isSpace b = false := by
    rw [hcons]
    rintro b ⟨⟩
    exact hword a (by rw [hcons]; exact List.mem_cons_self)
  rw [scan, dropWhile_append_of_head hbefore (by rintro b ⟨⟩; exact hc), scan, scan,
    dropWhile_append_of_head hgap hhead, scan_word hne hword hrest]
  rfl

/-! ## Lines of a pipe -/

/-- Characters up to a line end, `n` at most, and what follows them. -/
def takeLine : ℕ → List Char → List Char × List Char
  | 0, s => ([], s)
  | _ + 1, [] => ([], [])
  | n + 1, c :: s =>
      if c = '\n' then ([c], s) else (c :: (takeLine n s).1, (takeLine n s).2)

/-- The lines `fgets` delivers from a pipe, when its buffer has `size` characters. -/
def readLines (size : ℕ) : ℕ → List Char → List (List Char)
  | 0, _ => []
  | fuel + 1, s =>
      if (takeLine (size - 1) s).1 = [] then []
      else (takeLine (size - 1) s).1 :: readLines size fuel (takeLine (size - 1) s).2

theorem takeLine_line {line : List Char} (hline : '\n' ∉ line) {n : ℕ} (hn : line.length < n)
    (rest : List Char) : takeLine n (line ++ '\n' :: rest) = (line ++ ['\n'], rest) := by
  induction line generalizing n with
  | nil =>
      obtain ⟨n, rfl⟩ := Nat.exists_eq_add_one.mpr hn
      rfl
  | cons c cs ih =>
      obtain ⟨n, rfl⟩ := Nat.exists_eq_add_one_of_ne_zero (Nat.ne_zero_of_lt hn)
      have hc : c ≠ '\n' := fun h ↦ hline (h ▸ List.mem_cons_self)
      have hcs := ih (fun h ↦ hline (List.mem_cons_of_mem c h)) (Nat.lt_of_succ_lt_succ hn)
      rw [List.cons_append, takeLine, if_neg hc, hcs, List.cons_append]

/-- Every line that fits the buffer is delivered whole; each takes up at least one character. -/
theorem readLines_lines {size : ℕ} {lines : List (List Char)}
    (hlines : ∀ line ∈ lines, '\n' ∉ line ∧ line.length + 2 ≤ size) {fuel : ℕ}
    (hfuel : (lines.flatMap (· ++ ['\n'])).length ≤ fuel) :
    readLines size fuel (lines.flatMap (· ++ ['\n'])) = lines.map (· ++ ['\n']) := by
  induction lines generalizing fuel with
  | nil =>
      cases fuel with
      | zero => rfl
      | succ fuel =>
          rw [readLines, List.flatMap_nil]
          cases size - 1 <;> rfl
  | cons line lines ih =>
      obtain ⟨hline, hsize⟩ := hlines line List.mem_cons_self
      rw [List.flatMap_cons, List.length_append, List.length_append, List.length_singleton] at hfuel
      obtain ⟨fuel, rfl⟩ : ∃ f, fuel = f + 1 := ⟨fuel - 1, by omega⟩
      have htake : takeLine (size - 1) (line ++ ['\n'] ++ lines.flatMap (· ++ ['\n'])) =
          (line ++ ['\n'], lines.flatMap (· ++ ['\n'])) := by
        rw [List.append_assoc]
        exact takeLine_line hline (by omega) _
      rw [List.flatMap_cons, List.map_cons, readLines, htake, if_neg (by simp),
        ih (fun line' h ↦ hlines line' (List.mem_cons_of_mem line h)) (by omega)]

end ScanFormat
