import Mathlib.Data.Bool.AllAny
import Mathlib.Data.List.Infix
import VPanel.Library.ScanFormat

/-!
# The address of the panel in the kernel

Both clients read the symbol table from `nm` through `grep`.  The loop of
`open_kmem_and_find_panel` tries an octal number first and a hexadecimal one
only when the line does not scan at all.
-/

namespace VPanel.Client

open HexText StdioFormat ScanFormat

/-! ## The loop -/

/-- The number of bits of a `long`, and of a pointer. -/
structure Arch where
  longBits : ℕ
  pointerBits : ℕ
  pointer_le_long : pointerBits ≤ longBits

def pdp11 : Arch := ⟨32, 16, by norm_num⟩

def vax : Arch := ⟨32, 32, le_rfl⟩

/-- The variables `addr`, `type` and `symbol` after a scan of three values. -/
structure SymbolLine (arch : Arch) where
  addr : BitVec arch.longBits
  type : Char
  symbol : List Char

variable (arch : Arch)

def octalFormat : List ScanFormat.Directive := ScanFormat.directives "%lo %c %s".toList

def hexFormat : List ScanFormat.Directive := ScanFormat.directives "%lx %c %s".toList

variable {arch} in
def stored : List (Value arch.longBits) → Option (SymbolLine arch)
  | [.number addr, .char type, .string symbol] => some ⟨addr, type, symbol⟩
  | _ => none

/-- The condition of the loop body. -/
def parseLine (line : List Char) : Option (SymbolLine arch) :=
  let octal := ScanFormat.scan octalFormat line
  let hex := ScanFormat.scan hexFormat line
  if octal.ret = 3 then stored octal.values
  else if hex.ret = 3 then stored hex.values
  else none

def panelNames : List (List Char) := ["panel".toList, "_panel".toList]

/-- Where the loop breaks: the line, the address it was read as, and the lines left in the pipe. -/
structure Settled (arch : Arch) where
  line : List Char
  addr : BitVec arch.longBits
  unread : List (List Char)

def search : List (List Char) → Option (Settled arch)
  | [] => none
  | line :: lines =>
      match parseLine arch line with
      | some r => if r.symbol ∈ panelNames then some ⟨line, r.addr, lines⟩ else search lines
      | none => search lines

/-- The loop on the output of `nm`. -/
def findPanel (output : List Char) : Option (Settled arch) :=
  search arch (readLines 256 output.length output)

/-- `*panel_addr`; the null pointer means that the symbol was not found. -/
def panelAddr (output : List Char) : BitVec arch.pointerBits :=
  (findPanel arch output).elim 0 fun r ↦ r.addr.setWidth arch.pointerBits

/-- `grep panel`. -/
def grepPanel (lines : List (List Char)) : List (List Char) :=
  lines.filter fun line ↦ "panel".toList <:+: line

theorem mem_panelNames {name : List Char} :
    name ∈ panelNames ↔ name = "panel".toList ∨ name = "_panel".toList := by
  simp [panelNames]

def popenText (lines : List (List Char)) : List Char := lines.flatMap (· ++ ['\n'])

/-! ## Listings -/

inductive Radix
  | octal | hex
  deriving DecidableEq

def Radix.base : Radix → ℕ
  | .octal => 8
  | .hex => 16

/-- A symbol as `nm` lists it; an undefined one has no address. -/
structure NmSymbol where
  digits : Option (List ℕ)
  type : Char
  name : List Char

def NmSymbol.field (width : ℕ) (s : NmSymbol) : List Char :=
  match s.digits with
  | some ds => ds.map Nat.digitChar
  | none => List.replicate width ' '

def NmSymbol.text (width : ℕ) (s : NmSymbol) : List Char :=
  s.field width ++ ' ' :: s.type :: ' ' :: s.name

/-- The types `nm` gives to symbols without an address. -/
def undefinedTypes : List Char := ['U', 'v', 'w']

/-- The line of a defined symbol with one of the two names of the panel. -/
def NmSymbol.IsPanel (s : NmSymbol) : Prop :=
  s.digits ≠ none ∧ (s.name = "panel".toList ∨ s.name = "_panel".toList)

instance (s : NmSymbol) : Decidable s.IsPanel := inferInstanceAs (Decidable (_ ∧ _))

def NmSymbol.address (radix : Radix) (s : NmSymbol) : ℕ :=
  s.digits.elim 0 (valueOfDigits radix.base)

/-- The fields of a line hold what `nm` prints. -/
structure NmSymbol.Valid (arch : Arch) (radix : Radix) (width : ℕ) (s : NmSymbol) : Prop where
  width : ∀ ds, s.digits = some ds → ds.length = width
  digits : ∀ ds, s.digits = some ds → ∀ d ∈ ds, d < radix.base
  address : s.address radix < 2 ^ arch.pointerBits
  type : isSpace s.type = false
  undefined : s.digits = none → s.type ∈ undefinedTypes
  name_ne_nil : s.name ≠ []
  name : ∀ c ∈ s.name, isSpace c = false
  name_length : s.name.length < 64

structure Listing (arch : Arch) where
  radix : Radix
  width : ℕ
  width_pos : 0 < width
  /-- A part of the address may be scanned into `symbol`. -/
  width_lt : width < 64
  symbols : List NmSymbol
  valid : ∀ s ∈ symbols, s.Valid arch radix width

variable {arch}

def Listing.output (listing : Listing arch) : List Char :=
  popenText (grepPanel (listing.symbols.map (NmSymbol.text listing.width)))

/-- The loop breaks at the line of `s`, with the lines of `after` unread, and with the address of
`s` in `*panel_addr`. -/
def Finds (listing : Listing arch) (s : NmSymbol) (after : List NmSymbol) : Prop :=
  ∃ r, findPanel arch listing.output = some r ∧ r.line = s.text listing.width ++ ['\n'] ∧
    r.unread = (grepPanel (after.map (NmSymbol.text listing.width))).map (· ++ ['\n']) ∧
    panelAddr arch listing.output = BitVec.ofNat arch.pointerBits (s.address listing.radix) ∧
    panelAddr arch listing.output ≠ 0

/-! ## One line -/

section Line

variable {w : ℕ} {ds : List ℕ} {type : Char} {name : List Char}

theorem octalFormat_eq : octalFormat = [.octLong, .white, .char, .white, .string] := by decide

theorem hexFormat_eq : hexFormat = [.hexLong, .white, .char, .white, .string] := by decide

theorem isSpace_digitChar {d : ℕ} (hd : d < 16) : isSpace (Nat.digitChar d) = false :=
  isSpace_of_hexDigit (hexDigit?_digitChar_isSome hd)

theorem dropWhile_digits (hne : ds ≠ []) (hds : ∀ d ∈ ds, d < 16) (rest : List Char) :
    (ds.map Nat.digitChar ++ rest).dropWhile isSpace = ds.map Nat.digitChar ++ rest := by
  obtain ⟨d, ds, rfl⟩ := List.exists_cons_of_ne_nil hne
  exact dropWhile_isSpace_cons (isSpace_digitChar (hds d List.mem_cons_self)) _

theorem scan_fields (htype : isSpace type = false) (hne : name ≠ [])
    (hname : ∀ c ∈ name, isSpace c = false) :
    ScanFormat.scan [.white, .char, .white, .string] (' ' :: type :: ' ' :: (name ++ ['\n'])) =
      (⟨[.char type, .string name], false⟩ : ScanFormat.Scanned w) := by
  have hspace : ∀ a ∈ [' '], isSpace a = true := List.all_iff_forall_prop.mp (by decide)
  exact scan_char_word [' '] [' '] name ['\n'] hspace htype hspace hne hname (by rintro a ⟨⟩; decide)

variable (name) in
/-- The characters after an octal number that stops within the digits of the address. -/
theorem scan_tail {e : ℕ} (he : e < 16) {post : List ℕ} (hpost : ∀ d ∈ post, d < 16)
    (htype : isSpace type = false) :
    ∃ symbol, ScanFormat.scan [.white, .char, .white, .string]
        (Nat.digitChar e :: (post.map Nat.digitChar ++ ' ' :: type :: ' ' :: (name ++ ['\n']))) =
      (⟨[.char (Nat.digitChar e), .string symbol], false⟩ : ScanFormat.Scanned w) ∧
        symbol ∉ panelNames := by
  have hlong : ∀ n ∈ panelNames, 'p' ∈ n ∧ n.length ≠ 1 := by decide
  have hspace : ∀ a ∈ [' '], isSpace a = true := List.all_iff_forall_prop.mp (by decide)
  have hnone : ∀ a ∈ ([] : List Char), isSpace a = true := nofun
  cases post with
  | nil =>
      refine ⟨[type], ?_, fun h ↦ (hlong _ h).2 rfl⟩
      refine scan_char_word [] [' '] [type] (' ' :: (name ++ ['\n'])) hnone (isSpace_digitChar he)
        hspace (List.cons_ne_nil type []) ?_ ?_
      · rintro a ha
        rwa [List.mem_singleton.mp ha]
      · rintro a ⟨⟩
        decide
  | cons d post =>
      refine ⟨(d :: post).map Nat.digitChar, ?_, fun h ↦ ?_⟩
      · refine scan_char_word [] [] ((d :: post).map Nat.digitChar)
          (' ' :: type :: ' ' :: (name ++ ['\n'])) hnone (isSpace_digitChar he) hnone (by simp) ?_ ?_
        · intro a ha
          obtain ⟨k, hk, rfl⟩ := List.mem_map.mp ha
          exact isSpace_digitChar (hpost k hk)
        · rintro a ⟨⟩
          decide
      · obtain ⟨k, hk, heq⟩ := List.mem_map.mp (hlong _ h).1
        have hdigit := hexDigit?_digitChar_isSome (hpost k hk)
        rw [heq] at hdigit
        exact absurd hdigit (by decide)

theorem parseLine_of_octal {v : BitVec arch.longBits} {line : List Char}
    (h : ScanFormat.scan octalFormat line = ⟨[.number v, .char type, .string name], false⟩) :
    parseLine arch line = some ⟨v, type, name⟩ := by
  simp only [parseLine, h]
  rfl

theorem parseLine_of_hex {v : BitVec arch.longBits} {line : List Char} {b : Bool}
    (hoctal : (ScanFormat.scan octalFormat line : ScanFormat.Scanned arch.longBits) = ⟨[], b⟩)
    (h : ScanFormat.scan hexFormat line = ⟨[.number v, .char type, .string name], false⟩) :
    parseLine arch line = some ⟨v, type, name⟩ := by
  simp only [parseLine, hoctal, h]
  cases b <;> rfl

/-- An address of octal digits is read in base eight. -/
theorem parseLine_octal_digits (hne : ds ≠ []) (hds : ∀ d ∈ ds, d < 8)
    (htype : isSpace type = false) (hname_ne : name ≠ [])
    (hname : ∀ c ∈ name, isSpace c = false) :
    ∃ v, parseLine arch (ds.map Nat.digitChar ++ ' ' :: type :: ' ' :: (name ++ ['\n'])) =
        some ⟨v, type, name⟩ ∧
      (valueOfDigits 8 ds < 2 ^ arch.longBits →
        v = BitVec.ofNat arch.longBits (valueOfDigits 8 ds)) := by
  have hstop : StopsDigits 8 ' ' := by
    intro d hd
    cases hd
  obtain ⟨v, hscan, hv⟩ := scanOctal_digits (w := arch.longBits) hne hds hstop
    (type :: ' ' :: (name ++ ['\n']))
  refine ⟨v, parseLine_of_octal ?_, hv⟩
  rw [octalFormat_eq, ScanFormat.scan,
    dropWhile_digits hne (fun d hd ↦ (hds d hd).trans (by norm_num)), hscan]
  simp only [scan_fields htype hname_ne hname]
  rfl

/-- An address that starts with another digit does not scan as octal. -/
theorem parseLine_high_digit {d : ℕ} (hd : 8 ≤ d) (hds : ∀ k ∈ d :: ds, k < 16)
    (htype : isSpace type = false) (hname_ne : name ≠ [])
    (hname : ∀ c ∈ name, isSpace c = false) (hlt : valueOfDigits 16 (d :: ds) < 2 ^ arch.longBits) :
    parseLine arch ((d :: ds).map Nat.digitChar ++ ' ' :: type :: ' ' :: (name ++ ['\n'])) =
      some ⟨BitVec.ofNat arch.longBits (valueOfDigits 16 (d :: ds)), type, name⟩ := by
  have hstop : StopsDigits 8 (Nat.digitChar d) := by
    intro k hk
    rw [readsBack_digitChar d (hds d List.mem_cons_self)] at hk
    cases hk
    exact hd
  have hoctal : (ScanFormat.scan octalFormat
      ((d :: ds).map Nat.digitChar ++ ' ' :: type :: ' ' :: (name ++ ['\n'])) :
        ScanFormat.Scanned arch.longBits) = ⟨[], false⟩ := by
    rw [octalFormat_eq, ScanFormat.scan, dropWhile_digits (List.cons_ne_nil d ds) hds,
      List.map_cons, List.cons_append, scanOctal_none hstop
        (ne_sign_of_hexDigit (hexDigit?_digitChar_isSome (hds d List.mem_cons_self)))]
    rfl
  apply parseLine_of_hex hoctal
  rw [hexFormat_eq, ScanFormat.scan, dropWhile_digits (List.cons_ne_nil d ds) hds,
    scanHex_digits (List.cons_ne_nil d ds) hds (by decide) _ hlt]
  simp only [scan_fields htype hname_ne hname]
  rfl

/-- Otherwise the number stops within the address, and the rest of it is taken for the type and
the name. -/
theorem parseLine_mixed_digits (hne : ds ≠ []) (hds : ∀ d ∈ ds, d < 8) {e : ℕ} (he : 8 ≤ e)
    {post : List ℕ} (hpost : ∀ d ∈ e :: post, d < 16) (htype : isSpace type = false) :
    ∃ r, parseLine arch ((ds ++ e :: post).map Nat.digitChar ++
        ' ' :: type :: ' ' :: (name ++ ['\n'])) = some r ∧ r.symbol ∉ panelNames := by
  have he16 : e < 16 := hpost e List.mem_cons_self
  have hstop : StopsDigits 8 (Nat.digitChar e) := by
    intro k hk
    rw [readsBack_digitChar e he16] at hk
    cases hk
    exact he
  obtain ⟨v, hscan, -⟩ := scanOctal_digits (w := arch.longBits) hne hds hstop
    (post.map Nat.digitChar ++ ' ' :: type :: ' ' :: (name ++ ['\n']))
  obtain ⟨symbol, htail, hsymbol⟩ := scan_tail (w := arch.longBits) name he16
    (fun d hd ↦ hpost d (List.mem_cons_of_mem e hd)) htype
  refine ⟨⟨v, Nat.digitChar e, symbol⟩, parseLine_of_octal ?_, hsymbol⟩
  rw [List.map_append, List.map_cons, List.append_assoc, List.cons_append, octalFormat_eq,
    ScanFormat.scan, dropWhile_digits hne (fun d hd ↦ (hds d hd).trans (by norm_num)), hscan]
  simp only [htail]
  rfl

theorem parseLine_undefined {width : ℕ} (htype : type ∈ undefinedTypes) :
    parseLine arch (List.replicate width ' ' ++ ' ' :: type :: ' ' :: (name ++ ['\n'])) =
      none := by
  have hletters : ∀ c ∈ undefinedTypes,
      hexDigit? c = none ∧ isSpace c = false ∧ c ≠ '-' ∧ c ≠ '+' :=
    List.all_iff_forall_prop.mp (by decide)
  obtain ⟨hdigit, hspace, hsign⟩ := hletters type htype
  have hstop : StopsDigits 8 type := fun d hd ↦ by
    rw [hdigit] at hd
    cases hd
  have hdrop : (List.replicate width ' ' ++ ' ' :: type :: ' ' :: (name ++ ['\n'])).dropWhile
      isSpace = type :: ' ' :: (name ++ ['\n']) := by
    rw [List.append_cons]
    refine dropWhile_append_of_head (fun c hc ↦ ?_) ?_
    · rw [← List.replicate_succ'] at hc
      rw [List.eq_of_mem_replicate hc]
      decide
    · rintro c ⟨⟩
      exact hspace
  have hoctal : (ScanFormat.scan octalFormat (List.replicate width ' ' ++
      ' ' :: type :: ' ' :: (name ++ ['\n'])) : ScanFormat.Scanned arch.longBits) = ⟨[], false⟩ := by
    rw [octalFormat_eq, ScanFormat.scan, hdrop, scanOctal_none hstop hsign]
    rfl
  have hhex : (ScanFormat.scan hexFormat (List.replicate width ' ' ++
      ' ' :: type :: ' ' :: (name ++ ['\n'])) : ScanFormat.Scanned arch.longBits) = ⟨[], false⟩ := by
    rw [hexFormat_eq, ScanFormat.scan, hdrop, scanHex_none hdigit hsign]
    rfl
  simp only [parseLine, hoctal, hhex]
  rfl

end Line

/-! ## The whole listing -/

def NmSymbol.StartsHigh (s : NmSymbol) : Prop := ∃ d ds, s.digits = some (d :: ds) ∧ 8 ≤ d

theorem NmSymbol.not_startsHigh {s : NmSymbol} {ds : List ℕ} (h : s.digits = some ds)
    (hlow : ∀ d ∈ ds.head?, d < 8) : ¬s.StartsHigh := by
  rintro ⟨d, ds', hdigits, hd⟩
  obtain rfl : ds = d :: ds' := Option.some.inj (h.symm.trans hdigits)
  exact absurd (hlow d rfl) (Nat.not_lt.mpr hd)

theorem text_of_some {s : NmSymbol} {width : ℕ} {ds : List ℕ} (h : s.digits = some ds) :
    s.text width ++ ['\n'] =
      ds.map Nat.digitChar ++ ' ' :: s.type :: ' ' :: (s.name ++ ['\n']) := by
  simp [NmSymbol.text, NmSymbol.field, h]

theorem text_of_none {s : NmSymbol} {width : ℕ} (h : s.digits = none) :
    s.text width ++ ['\n'] =
      List.replicate width ' ' ++ ' ' :: s.type :: ' ' :: (s.name ++ ['\n']) := by
  simp [NmSymbol.text, NmSymbol.field, h]

theorem Radix.base_le (radix : Radix) : radix.base ≤ 16 := by
  cases radix <;> decide

/-- How the loop reads the line of a symbol. -/
inductive Reads (arch : Arch) (s : NmSymbol) (line : List Char) : Prop
  | undefined (hdigits : s.digits = none) (hparse : parseLine arch line = none)
  | octal (ds : List ℕ) (hdigits : s.digits = some ds) (hds : ∀ d ∈ ds, d < 8)
      (hparse : parseLine arch line =
        some ⟨BitVec.ofNat arch.longBits (valueOfDigits 8 ds), s.type, s.name⟩)
  | high (d : ℕ) (ds : List ℕ) (hdigits : s.digits = some (d :: ds)) (hd : 8 ≤ d)
      (hparse : parseLine arch line =
        some ⟨BitVec.ofNat arch.longBits (valueOfDigits 16 (d :: ds)), s.type, s.name⟩)
  | split (pre : List ℕ) (e : ℕ) (post : List ℕ) (hdigits : s.digits = some (pre ++ e :: post))
      (hne : pre ≠ []) (hpre : ∀ d ∈ pre, d < 8) (he : 8 ≤ e) (r : SymbolLine arch)
      (hparse : parseLine arch line = some r) (hsymbol : r.symbol ∉ panelNames)

theorem exists_split_octal (ds : List ℕ) :
    (∀ d ∈ ds, d < 8) ∨ ∃ pre e post, ds = pre ++ e :: post ∧ (∀ d ∈ pre, d < 8) ∧ 8 ≤ e := by
  induction ds with
  | nil => exact .inl nofun
  | cons d ds ih =>
      by_cases hd : d < 8
      · rcases ih with hall | ⟨pre, e, post, rfl, hpre, he⟩
        · exact .inl (List.forall_mem_cons.mpr ⟨hd, hall⟩)
        · exact .inr ⟨d :: pre, e, post, rfl, List.forall_mem_cons.mpr ⟨hd, hpre⟩, he⟩
      · exact .inr ⟨[], d, ds, rfl, nofun, Nat.le_of_not_lt hd⟩

variable {radix : Radix} {width : ℕ} {s : NmSymbol}

theorem NmSymbol.Valid.digits_ne_nil (h : s.Valid arch radix width) (hwidth : 0 < width)
    {ds : List ℕ} (hds : s.digits = some ds) : ds ≠ [] :=
  List.ne_nil_of_length_pos (h.width ds hds ▸ hwidth)

theorem NmSymbol.address_of_some {ds : List ℕ} (h : s.digits = some ds) (radix : Radix) :
    s.address radix = valueOfDigits radix.base ds := by
  rw [NmSymbol.address, h]
  rfl

theorem NmSymbol.Valid.radix_eq_hex (h : s.Valid arch radix width) {ds : List ℕ}
    (hds : s.digits = some ds) {d : ℕ} (hd : d ∈ ds) (hhigh : 8 ≤ d) : radix = .hex := by
  have hlt := h.digits ds hds d hd
  cases radix with
  | octal => exact absurd hlt (Nat.not_lt.mpr hhigh)
  | hex => rfl

theorem Radix.eight_le_base (radix : Radix) : 8 ≤ radix.base := by
  cases radix <;> decide

theorem NmSymbol.Valid.reads (h : s.Valid arch radix width) (hwidth : 0 < width) :
    Reads arch s (s.text width ++ ['\n']) := by
  have hlong : 2 ^ arch.pointerBits ≤ 2 ^ arch.longBits :=
    Nat.pow_le_pow_right (by norm_num) arch.pointer_le_long
  cases hdigits : s.digits with
  | none =>
      rw [text_of_none hdigits]
      exact .undefined hdigits (parseLine_undefined (h.undefined hdigits))
  | some ds =>
      have hds16 : ∀ d ∈ ds, d < 16 := fun d hd ↦
        (h.digits ds hdigits d hd).trans_le radix.base_le
      have haddress := NmSymbol.address_of_some hdigits radix
      have hne := h.digits_ne_nil hwidth hdigits
      rw [text_of_some hdigits]
      rcases exists_split_octal ds with hoctal | ⟨pre, e, post, rfl, hpre, he⟩
      · obtain ⟨v, hparse, hv⟩ := @parseLine_octal_digits arch ds s.type s.name hne hoctal
          h.type h.name_ne_nil h.name
        have hlt : valueOfDigits 8 ds < 2 ^ arch.longBits :=
          (valueOfDigits_mono radix.eight_le_base ds).trans_lt
            (haddress ▸ h.address.trans_le hlong)
        exact .octal ds hdigits hoctal (hv hlt ▸ hparse)
      · have hhex := h.radix_eq_hex hdigits (d := e) (by simp) he
        subst hhex
        cases pre with
        | nil =>
            refine .high e post hdigits he (parseLine_high_digit he hds16 h.type h.name_ne_nil
              h.name ?_)
            exact haddress ▸ h.address.trans_le hlong
        | cons d pre =>
            obtain ⟨r, hparse, hsymbol⟩ := @parseLine_mixed_digits arch (d :: pre) s.type s.name
              (List.cons_ne_nil d pre) hpre e he post
              (fun k hk ↦ hds16 k (List.mem_append_right _ hk)) h.type
            exact .split (d :: pre) e post hdigits (List.cons_ne_nil d pre) hpre he r hparse hsymbol

/-! ## The loop over the lines -/

theorem search_of_not_panel {line : List Char} (h : Reads arch s line) (hs : ¬s.IsPanel)
    (lines : List (List Char)) : search arch (line :: lines) = search arch lines := by
  rw [search]
  cases h with
  | undefined _ hparse => rw [hparse]
  | octal ds hdigits _ hparse =>
      have hname : s.name ∉ panelNames :=
        fun hname ↦ hs ⟨by simp [hdigits], mem_panelNames.mp hname⟩
      rw [hparse]
      exact if_neg hname
  | high d ds hdigits _ hparse =>
      have hname : s.name ∉ panelNames :=
        fun hname ↦ hs ⟨by simp [hdigits], mem_panelNames.mp hname⟩
      rw [hparse]
      exact if_neg hname
  | split pre e post _ _ _ _ r hparse hsymbol =>
      rw [hparse]
      exact if_neg hsymbol

theorem search_append {lines : List (List Char)}
    (h : ∀ line ∈ lines, ∀ rest, search arch (line :: rest) = search arch rest)
    (rest : List (List Char)) : search arch (lines ++ rest) = search arch rest := by
  induction lines with
  | nil => rfl
  | cons line lines ih =>
      rw [List.cons_append, h line List.mem_cons_self]
      exact ih fun line' hline ↦ h line' (List.mem_cons_of_mem line hline)

theorem length_unread_lt {lines : List (List Char)} {r : Settled arch}
    (h : search arch lines = some r) : r.unread.length < lines.length := by
  induction lines with
  | nil => cases h
  | cons line lines ih =>
      have hlater : search arch lines = some r → r.unread.length < (line :: lines).length :=
        fun h ↦ (ih h).trans (Nat.lt_succ_self _)
      rw [search] at h
      split at h
      next =>
        split_ifs at h
        · cases h
          exact Nat.lt_succ_self _
        · exact hlater h
      next => exact hlater h

/-! ## The whole output -/

variable {listing : Listing arch}

theorem newline_notMem_text (h : s.Valid arch radix width) :
    '\n' ∉ s.text width ∧ (s.text width).length = width + 3 + s.name.length := by
  have hspace : ∀ c, isSpace c = false → c ≠ '\n' := by
    rintro c hc rfl
    exact absurd hc (by decide)
  have hfield : '\n' ∉ s.field width ∧ (s.field width).length = width := by
    unfold NmSymbol.field
    cases hdigits : s.digits with
    | none => exact ⟨fun hmem ↦ absurd (List.eq_of_mem_replicate hmem) (by decide), by simp⟩
    | some ds =>
        refine ⟨fun hmem ↦ ?_, by simpa using h.width ds hdigits⟩
        obtain ⟨d, hd, heq⟩ := List.mem_map.mp hmem
        have hd16 := (h.digits ds hdigits d hd).trans_le radix.base_le
        exact hspace _ (isSpace_digitChar hd16) heq
  constructor
  · simp only [NmSymbol.text, List.mem_append, List.mem_cons, not_or]
    exact ⟨hfield.1, by decide, (hspace _ h.type).symm, by decide,
      fun hmem ↦ hspace _ (h.name _ hmem) rfl⟩
  · simp only [NmSymbol.text, List.length_append, List.length_cons, hfield.2]
    omega

theorem readLines_output (listing : Listing arch) :
    readLines 256 listing.output.length listing.output =
      (grepPanel (listing.symbols.map (NmSymbol.text listing.width))).map (· ++ ['\n']) := by
  refine readLines_lines (fun line hline ↦ ?_) le_rfl
  obtain ⟨s, hs, rfl⟩ := List.mem_map.mp (List.mem_of_mem_filter hline)
  have hvalid := listing.valid s hs
  have hname := hvalid.name_length
  have hwidth := listing.width_lt
  obtain ⟨hnewline, hlength⟩ := newline_notMem_text hvalid
  exact ⟨hnewline, by omega⟩

theorem grepPanel_split {before after : List NmSymbol} (hs : s.IsPanel) :
    grepPanel ((before ++ s :: after).map (NmSymbol.text width)) =
      grepPanel (before.map (NmSymbol.text width)) ++
        s.text width :: grepPanel (after.map (NmSymbol.text width)) := by
  have hnames : ∀ name ∈ panelNames, "panel".toList <:+: name := by decide
  have hinfix : "panel".toList <:+: s.text width :=
    (hnames s.name (mem_panelNames.mpr hs.2)).trans ⟨s.field width ++ [' ', s.type, ' '], [], by simp [NmSymbol.text]⟩
  rw [grepPanel, List.map_append, List.map_cons, List.filter_append,
    List.filter_cons, if_pos (decide_eq_true hinfix)]
  rfl

/-- The lines before the first one named after the panel are passed over. -/
theorem findPanel_output {before after : List NmSymbol}
    (hsplit : listing.symbols = before ++ s :: after) (hbefore : ∀ b ∈ before, ¬b.IsPanel)
    (hs : s.IsPanel) : findPanel arch listing.output =
      search arch ((s.text listing.width ++ ['\n']) ::
        (grepPanel (after.map (NmSymbol.text listing.width))).map (· ++ ['\n'])) := by
  rw [findPanel, readLines_output, hsplit, grepPanel_split hs, List.map_append, List.map_cons]
  refine search_append (fun line hline rest ↦ ?_) _
  obtain ⟨text, htext, rfl⟩ := List.mem_map.mp hline
  obtain ⟨b, hb, rfl⟩ := List.mem_map.mp (List.mem_of_mem_filter htext)
  have hvalid := listing.valid b (by rw [hsplit]; exact List.mem_append_left _ hb)
  exact search_of_not_panel (hvalid.reads listing.width_pos) (hbefore b hb) rest

theorem finds_iff_of_settles {before after : List NmSymbol}
    (hsplit : listing.symbols = before ++ s :: after) (hbefore : ∀ b ∈ before, ¬b.IsPanel)
    (hs : s.IsPanel) {n : ℕ} (hn : n < 2 ^ arch.pointerBits)
    (hparse : parseLine arch (s.text listing.width ++ ['\n']) =
      some ⟨BitVec.ofNat arch.longBits n, s.type, s.name⟩) :
    Finds listing s after ↔ n = s.address listing.radix ∧ n ≠ 0 := by
  have hvalid := listing.valid s (by rw [hsplit]; simp)
  have hfind := findPanel_output hsplit hbefore hs
  simp only [search, hparse, if_pos (mem_panelNames.mpr hs.2)] at hfind
  have haddr : panelAddr arch listing.output = BitVec.ofNat arch.pointerBits n := by
    rw [panelAddr, hfind, Option.elim_some, BitVec.setWidth_ofNat_of_le arch.pointer_le_long]
  have hinj : ∀ k < 2 ^ arch.pointerBits,
      BitVec.ofNat arch.pointerBits n = BitVec.ofNat arch.pointerBits k ↔ n = k := by
    intro k hk
    rw [← BitVec.toNat_inj, BitVec.toNat_ofNat, BitVec.toNat_ofNat, Nat.mod_eq_of_lt hn,
      Nat.mod_eq_of_lt hk]
  have hzero : BitVec.ofNat arch.pointerBits n ≠ 0 ↔ n ≠ 0 := not_congr (hinj 0 (Nat.two_pow_pos _))
  rw [Finds, haddr, hinj _ hvalid.address, hzero]
  constructor
  · rintro ⟨-, -, -, -, heq, hne⟩
    exact ⟨heq, hne⟩
  · rintro ⟨heq, hne⟩
    exact ⟨_, hfind, rfl, rfl, heq, hne⟩

/-- A loop that goes on behind the panel's line leaves fewer lines unread than come after it. -/
theorem not_finds_of_reads_on {before after : List NmSymbol}
    (hsplit : listing.symbols = before ++ s :: after) (hbefore : ∀ b ∈ before, ¬b.IsPanel)
    (hs : s.IsPanel) {r : SymbolLine arch}
    (hparse : parseLine arch (s.text listing.width ++ ['\n']) = some r)
    (hsymbol : r.symbol ∉ panelNames) : ¬Finds listing s after := by
  rintro ⟨r', hfound, -, hunread, -⟩
  rw [findPanel_output hsplit hbefore hs, search, hparse] at hfound
  have hlt := length_unread_lt ((if_neg hsymbol).symm.trans hfound)
  rw [hunread] at hlt
  exact lt_irrefl _ hlt

/-- The loop finds the panel exactly when its address is not zero, and is octal, starts with a digit
from 8 on, or is below 8. -/
theorem finds_panel_iff {before after : List NmSymbol}
    (hsplit : listing.symbols = before ++ s :: after) (hbefore : ∀ b ∈ before, ¬b.IsPanel)
    (hs : s.IsPanel) :
    Finds listing s after ↔ s.address listing.radix ≠ 0 ∧
      (listing.radix = .octal ∨ s.StartsHigh ∨ s.address listing.radix < 8) := by
  have hvalid := listing.valid s (by rw [hsplit]; simp)
  cases hvalid.reads listing.width_pos with
  | undefined hdigits => exact absurd hdigits hs.1
  | octal ds hdigits hds hparse =>
      have haddress := NmSymbol.address_of_some hdigits listing.radix
      have hmono := valueOfDigits_mono listing.radix.eight_le_base ds
      rw [finds_iff_of_settles hsplit hbefore hs
        (hmono.trans_lt (haddress ▸ hvalid.address)) hparse, haddress]
      have hhigh := NmSymbol.not_startsHigh hdigits fun d hd ↦ hds d (List.mem_of_mem_head? hd)
      cases hradix : listing.radix with
      | octal => simp [Radix.base]
      | hex =>
          have hsame := valueOfDigits_eight_eq_iff hds
          simp only [Radix.base, hhigh, reduceCtorEq, false_or, ← hsame]
          constructor
          · rintro ⟨heq, hne⟩
            exact ⟨heq ▸ hne, heq⟩
          · rintro ⟨hne, heq⟩
            exact ⟨heq, heq.symm ▸ hne⟩
  | high d ds hdigits hd hparse =>
      have hhex := hvalid.radix_eq_hex hdigits List.mem_cons_self hd
      have haddress := NmSymbol.address_of_some hdigits listing.radix
      rw [hhex] at haddress
      have hlt := hvalid.address
      rw [hhex, haddress] at hlt
      rw [finds_iff_of_settles hsplit hbefore hs hlt hparse, hhex, haddress]
      have hhigh : s.StartsHigh := ⟨d, ds, hdigits, hd⟩
      simp [hhigh, Radix.base]
  | split pre e post hdigits hne hpre he r hparse hsymbol =>
      refine iff_of_false (not_finds_of_reads_on hsplit hbefore hs hparse hsymbol) ?_
      rintro ⟨-, hcases⟩
      have hmem : e ∈ pre ++ e :: post := by simp
      have hhex := hvalid.radix_eq_hex hdigits hmem he
      have hlow : ∀ d ∈ (pre ++ e :: post).head?, d < 8 := by
        intro d hd
        rw [List.head?_append_of_ne_nil _ hne] at hd
        exact hpre d (List.mem_of_mem_head? hd)
      have hlarge : 8 ≤ s.address listing.radix := by
        rw [NmSymbol.address_of_some hdigits]
        have hbase : 1 ≤ listing.radix.base := le_trans (by norm_num) listing.radix.eight_le_base
        exact he.trans (le_valueOfDigits hbase hmem)
      rcases hcases with hoctal | hhigh | hsmall
      · rw [hoctal] at hhex
        cases hhex
      · exact NmSymbol.not_startsHigh hdigits hlow hhigh
      · exact absurd hsmall (Nat.not_lt.mpr hlarge)

/-! ## Some kernels -/

theorem valid_of_digits {radix : Radix} {ds : List ℕ} (hds : ∀ d ∈ ds, d < radix.base)
    (haddress : valueOfDigits radix.base ds < 2 ^ arch.pointerBits) {type : Char}
    (htype : isSpace type = false) {name : List Char} (hnil : name ≠ [])
    (hname : name.all (fun c ↦ !isSpace c) = true) (hlength : name.length < 64) :
    NmSymbol.Valid arch radix ds.length ⟨some ds, type, name⟩ := by
  refine ⟨?_, ?_, haddress, htype, nofun, hnil, fun c hc ↦ ?_, hlength⟩
  · rintro _ ⟨⟩
    rfl
  · rintro _ ⟨⟩
    exact hds
  · simpa using List.all_eq_true.mp hname c hc

/-- A listing of the panel alone. -/
def panelListing (arch : Arch) (radix : Radix) (ds : List ℕ)
    (hlength : 0 < ds.length ∧ ds.length < 64) (hds : ∀ d ∈ ds, d < radix.base)
    (haddress : valueOfDigits radix.base ds < 2 ^ arch.pointerBits) : Listing arch where
  radix := radix
  width := ds.length
  width_pos := hlength.1
  width_lt := hlength.2
  symbols := [⟨some ds, 'D', "panel".toList⟩]
  valid := by
    intro s hs
    obtain rfl := List.mem_singleton.mp hs
    exact valid_of_digits hds haddress rfl (List.cons_ne_nil _ _) (by decide) (by decide)

/-- A listing in which other names contain that of the panel, before it and behind it. -/
def kernelListing (arch : Arch) (radix : Radix) (ds others : List ℕ)
    (hlength : 0 < ds.length ∧ ds.length < 64 ∧ others.length = ds.length)
    (hds : ∀ d ∈ ds ++ others, d < radix.base)
    (haddress : valueOfDigits radix.base ds < 2 ^ arch.pointerBits ∧
      valueOfDigits radix.base others < 2 ^ arch.pointerBits) : Listing arch where
  radix := radix
  width := ds.length
  width_pos := hlength.1
  width_lt := hlength.2.1
  symbols := [⟨none, 'U', "_panel_intr".toList⟩, ⟨some others, 'T', "_sys_wait_for_panel".toList⟩,
    ⟨some ds, 'D', "_panel".toList⟩, ⟨some others, 'B', "_panel_seq".toList⟩]
  valid := by
    have hothers : ∀ name : List Char, name ≠ [] → name.all (fun c ↦ !isSpace c) = true →
        name.length < 64 → ∀ type, isSpace type = false →
          NmSymbol.Valid arch radix ds.length ⟨some others, type, name⟩ := by
      intro name hnil hname hlt type htype
      rw [← hlength.2.2]
      exact valid_of_digits (fun d hd ↦ hds d (List.mem_append_right _ hd)) haddress.2 htype hnil
        hname hlt
    intro s hs
    simp only [List.mem_cons, List.not_mem_nil, or_false] at hs
    rcases hs with rfl | rfl | rfl | rfl
    · refine ⟨nofun, nofun, Nat.two_pow_pos _, rfl, fun _ ↦ by decide, List.cons_ne_nil _ _,
        List.all_iff_forall_prop.mp (by decide), by decide⟩
    · exact hothers _ (List.cons_ne_nil _ _) (by decide) (by decide) 'T' rfl
    · exact valid_of_digits (fun d hd ↦ hds d (List.mem_append_left _ hd)) haddress.1 rfl
        (List.cons_ne_nil _ _) (by decide) (by decide)
    · exact hothers _ (List.cons_ne_nil _ _) (by decide) (by decide) 'B' rfl

/-- The addresses both machines have: octal ones, and the upper half of the memory. -/
theorem finds_panel_usual :
    Finds (kernelListing pdp11 .octal [0, 1, 2, 3, 4, 0] [0, 0, 4, 5, 6, 2] (by decide) (by decide)
          (by decide))
        ⟨some [0, 1, 2, 3, 4, 0], 'D', "_panel".toList⟩
        [⟨some [0, 0, 4, 5, 6, 2], 'B', "_panel_seq".toList⟩] ∧
      Finds (kernelListing vax .hex [8, 0, 0, 0, 1, 10, 11, 12] [8, 0, 1, 2, 0, 15, 14, 4]
          (by decide) (by decide) (by decide))
        ⟨some [8, 0, 0, 0, 1, 10, 11, 12], 'D', "_panel".toList⟩
        [⟨some [8, 0, 1, 2, 0, 15, 14, 4], 'B', "_panel_seq".toList⟩] :=
  ⟨(finds_panel_iff (show _ = [_, _] ++ _ :: [_] from rfl) (by decide) (by decide)).mpr
      ⟨by decide, .inl rfl⟩,
    (finds_panel_iff (show _ = [_, _] ++ _ :: [_] from rfl) (by decide) (by decide)).mpr
      ⟨by decide, .inr (.inl ⟨8, [0, 0, 0, 1, 10, 11, 12], rfl, by decide⟩)⟩⟩

/-- The first line named after the panel is found whenever its address is not zero. -/
def AlwaysFinds (arch : Arch) : Prop :=
  ∀ (listing : Listing arch) (before : List NmSymbol) (s : NmSymbol) (after : List NmSymbol),
    listing.symbols = before ++ s :: after → (∀ b ∈ before, ¬b.IsPanel) → s.IsPanel →
      s.address listing.radix ≠ 0 → Finds listing s after

/-- In `00401abc D panel` the octal number ends before the `a`. -/
theorem not_alwaysFinds_vax : ¬AlwaysFinds vax := by
  intro h
  obtain ⟨r, hfound, -⟩ := h
    (panelListing vax .hex [0, 0, 4, 0, 1, 10, 11, 12] (by decide) (by decide) (by decide)) [] _ []
    rfl nofun (by decide) (by decide)
  have hnone : (findPanel vax (panelListing vax .hex [0, 0, 4, 0, 1, 10, 11, 12] (by decide)
      (by decide) (by decide)).output).isNone = true := by decide
  rw [hfound] at hnone
  cases hnone

end VPanel.Client
