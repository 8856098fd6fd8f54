import Mathlib.Data.Bool.AllAny
import Mathlib.Data.List.Infix
import Mathlib.Tactic.IntervalCases

/-!
# The files of the web server

The route for everything but the configuration serves a file below the content
directory.  The path of a request is appended to the name of this directory and
the result goes through `sanitize_filename` before it is opened.
-/

namespace VPanel.Proxy.Crow

/-! ## `sanitize_filename` -/

def replacement : Char := '_'

def toUpper (c : Char) : Char :=
  if 'a' ≤ c ∧ c ≤ 'z' then Char.ofNat (c.toNat - ('a'.toNat - 'A'.toNat)) else c

/-- What follows the pattern, letters compared without their case. -/
def afterPattern : List Char → List Char → Option (List Char)
  | [], source => some source
  | _ :: _, [] => none
  | p :: pattern, c :: source => if toUpper c ≠ p then none else afterPattern pattern source

def afterNumber : (includeNumber : Bool) → List Char → Option (List Char)
  | false, source => some source
  | true, [] => none
  | true, c :: source => if c < '1' ∨ c > '9' then none else some source

/-- A name ends here, or an extension or another component begins. -/
def endsName : List Char → Bool
  | [] => true
  | c :: _ => c = '.' || c = ':' || c = '/' || c = '\\'

/-- What follows the name of a device at the start of the source. -/
def afterDevice (pattern : List Char) (includeNumber : Bool) (source : List Char) :
    Option (List Char) := do
  let source ← afterPattern pattern source
  let source ← afterNumber includeNumber source
  if endsName source then some source else none

/-- `sanitizeSpecialFile`, on the part of the source that starts at `ofs`. -/
def sanitizeSpecialFile (pattern : List Char) (includeNumber : Bool) (source : List Char) :
    List Char :=
  match afterDevice pattern includeNumber source with
  | none => source
  | some rest => replacement :: rest

/-- Directory traversals and device names at the start of a component. -/
def sanitizeEntry (data : List Char) : List Char :=
  match data with
  | [] => []
  | c :: _ =>
      if toUpper c = 'A' then sanitizeSpecialFile "AUX".toList false data
      else if toUpper c = 'C' then
        sanitizeSpecialFile "COM".toList true (sanitizeSpecialFile "CON".toList false data)
      else if toUpper c = 'L' then sanitizeSpecialFile "LPT".toList true data
      else if toUpper c = 'N' then sanitizeSpecialFile "NUL".toList false data
      else if toUpper c = 'P' then sanitizeSpecialFile "PRN".toList false data
      else if toUpper c = '.' then sanitizeSpecialFile "..".toList false data
      else data

/-- The characters that are replaced wherever they occur. -/
def Forbidden (c : Char) : Prop :=
  c < ' ' ∨ (0x80 ≤ c.toNat ∧ c.toNat ≤ 0x9f) ∨ c ∈ ['?', '<', '>', ':', '*', '|', '"']

instance (c : Char) : Decidable (Forbidden c) := inferInstanceAs (Decidable (_ ∨ _))

def Separator (c : Char) : Prop := c = '/' ∨ c = '\\'

instance (c : Char) : Decidable (Separator c) := inferInstanceAs (Decidable (_ ∨ _))

/-- The loop of `sanitize_filename` from one position on, for as many turns as there are
characters left; `first` stands for `i == 0`. -/
def sanitizeFrom : ℕ → (first checkForSpecialEntries : Bool) → List Char → List Char
  | 0, _, _, data => data
  | turns + 1, first, checkForSpecialEntries, data =>
      match if checkForSpecialEntries then sanitizeEntry data else data with
      | [] => []
      | c :: rest =>
          if Forbidden c then replacement :: sanitizeFrom turns false false rest
          else if Separator c then
            if first then replacement :: sanitizeFrom turns false false rest
            else c :: sanitizeFrom turns false true rest
          else c :: sanitizeFrom turns false false rest

/-- The bytes of a name are characters below 256. -/
def sanitizeFilename (data : List Char) : List Char :=
  sanitizeFrom (data.take 255).length true true (data.take 255)

/-! ## The names it returns -/

def devices : List (List Char × Bool) :=
  [("AUX".toList, false), ("CON".toList, false), ("COM".toList, true), ("LPT".toList, true),
    ("NUL".toList, false), ("PRN".toList, false), ("..".toList, false)]

/-- The component that starts here is a device or leads to the parent directory. -/
def Special (source : List Char) : Prop :=
  ∃ d ∈ devices, (afterDevice d.1 d.2 source).isSome

structure Clean (name : List Char) : Prop where
  length : name.length ≤ 255
  allowed : ∀ c ∈ name, ¬Forbidden c
  relative : ∀ c ∈ name.head?, ¬Separator c
  components : ∀ before component, name = before ++ component →
    (∀ c ∈ before.getLast?, Separator c) → ¬Special component

/-- The part of a clean name from one position on. -/
def CleanFrom : (first checkForSpecialEntries : Bool) → List Char → Prop
  | _, _, [] => True
  | first, checkForSpecialEntries, c :: rest =>
      (checkForSpecialEntries = true → ¬Special (c :: rest)) ∧ ¬Forbidden c ∧
        (Separator c → first = false) ∧ CleanFrom false (decide (Separator c)) rest

theorem not_special_nil : ¬Special [] := by
  rintro ⟨d, hd, h⟩
  have hall : ∀ d ∈ devices, (afterDevice d.1 d.2 []).isSome = false := by decide
  rw [hall d hd] at h
  cases h

theorem cleanFrom_iff {first check : Bool} {s : List Char} :
    CleanFrom first check s ↔ (∀ c ∈ s, ¬Forbidden c) ∧
      (first = true → ∀ c ∈ s.head?, ¬Separator c) ∧ (check = true → ¬Special s) ∧
      ∀ before c rest, s = before ++ c :: rest → Separator c → ¬Special rest := by
  induction s generalizing first check with
  | nil => simp [CleanFrom, not_special_nil]
  | cons c s ih =>
      rw [CleanFrom, ih]
      constructor
      · rintro ⟨hspecial, hallowed, hfirst, hrest, -, hcheck, hcomponents⟩
        refine ⟨List.forall_mem_cons.mpr ⟨hallowed, hrest⟩, fun h d hd hsep ↦ ?_, hspecial, ?_⟩
        · cases hd
          rw [hfirst hsep] at h
          cases h
        · intro before d rest heq hsep
          cases before with
          | nil =>
              cases heq
              exact hcheck (decide_eq_true hsep)
          | cons b before =>
              cases heq
              exact hcomponents before d rest rfl hsep
      · rintro ⟨hallowed, hrelative, hspecial, hcomponents⟩
        obtain ⟨hc, hrest⟩ := List.forall_mem_cons.mp hallowed
        refine ⟨hspecial, hc, fun hsep ↦ ?_, hrest, nofun, fun hsep ↦ ?_, ?_⟩
        · cases first with
          | false => rfl
          | true => exact absurd hsep (hrelative rfl c rfl)
        · exact hcomponents [] c s rfl (of_decide_eq_true hsep)
        · intro before d rest heq
          exact hcomponents (c :: before) d rest (by rw [heq, List.cons_append])

theorem clean_iff {name : List Char} :
    Clean name ↔ name.length ≤ 255 ∧ CleanFrom true true name := by
  rw [cleanFrom_iff]
  constructor
  · rintro ⟨hlength, hallowed, hrelative, hcomponents⟩
    refine ⟨hlength, hallowed, fun _ ↦ hrelative, fun _ ↦ ?_, ?_⟩
    · exact hcomponents [] name rfl nofun
    · intro before c rest heq hsep
      apply hcomponents (before ++ [c]) rest (by rw [heq]; simp)
      intro d hd
      rw [List.getLast?_concat] at hd
      cases hd
      exact hsep
  · rintro ⟨hlength, hallowed, hrelative, hspecial, hcomponents⟩
    refine ⟨hlength, hallowed, hrelative rfl, fun before component heq hlast ↦ ?_⟩
    rcases List.eq_nil_or_concat before with rfl | ⟨before, c, rfl⟩
    · rw [heq] at hspecial
      exact hspecial rfl
    · rw [List.concat_eq_append] at heq hlast
      rw [List.getLast?_concat] at hlast
      exact hcomponents before c component (by rw [heq]; simp) (hlast c rfl)

/-! ## What the loop does -/

theorem length_afterPattern {pattern source rest : List Char}
    (h : afterPattern pattern source = some rest) :
    rest.length + pattern.length = source.length := by
  induction pattern generalizing source with
  | nil =>
      cases h
      rfl
  | cons p pattern ih =>
      cases source with
      | nil => cases h
      | cons c source =>
          rw [afterPattern] at h
          split_ifs at h
          have hlen := ih h
          simp only [List.length_cons]
          omega

theorem length_afterNumber {includeNumber : Bool} {source rest : List Char}
    (h : afterNumber includeNumber source = some rest) : rest.length ≤ source.length := by
  unfold afterNumber at h
  split at h
  · cases h
    exact le_rfl
  · cases h
  · split_ifs at h
    cases h
    exact Nat.le_succ _

theorem afterDevice_eq_some {pattern source rest : List Char} {includeNumber : Bool}
    (h : afterDevice pattern includeNumber source = some rest) :
    ∃ middle, afterPattern pattern source = some middle ∧
      afterNumber includeNumber middle = some rest ∧ endsName rest = true := by
  rw [afterDevice] at h
  simp only [Option.bind_eq_bind, Option.bind_eq_some_iff] at h
  obtain ⟨middle, hmiddle, rest', hrest, h⟩ := h
  split_ifs at h with hends
  cases h
  exact ⟨middle, hmiddle, hrest, hends⟩

theorem length_afterDevice {pattern source rest : List Char} {includeNumber : Bool}
    (h : afterDevice pattern includeNumber source = some rest) :
    rest.length + pattern.length ≤ source.length := by
  obtain ⟨middle, hmiddle, hrest, -⟩ := afterDevice_eq_some h
  have hlen := length_afterPattern hmiddle
  have hle := length_afterNumber hrest
  omega

theorem afterDevice_eq_none {p c : Char} (h : toUpper c ≠ p) (pattern source : List Char)
    (includeNumber : Bool) : afterDevice (p :: pattern) includeNumber (c :: source) = none := by
  rw [afterDevice, afterPattern, if_pos h]
  rfl

theorem sanitizeSpecialFile_spec (pattern : List Char) (includeNumber : Bool)
    (source : List Char) :
    (afterDevice pattern includeNumber source = none ∧
        sanitizeSpecialFile pattern includeNumber source = source) ∨
      ∃ rest, afterDevice pattern includeNumber source = some rest ∧
        sanitizeSpecialFile pattern includeNumber source = replacement :: rest := by
  unfold sanitizeSpecialFile
  cases h : afterDevice pattern includeNumber source with
  | none => exact Or.inl ⟨rfl, rfl⟩
  | some rest => exact Or.inr ⟨rest, rfl, rfl⟩

def devicesFor (c : Char) : List (List Char × Bool) :=
  devices.filter fun d ↦ d.1.head? = some (toUpper c)

theorem special_cons_iff {c : Char} {s : List Char} :
    Special (c :: s) ↔ ∃ d ∈ devicesFor c, (afterDevice d.1 d.2 (c :: s)).isSome := by
  constructor
  · rintro ⟨⟨pattern, b⟩, hd, hsome⟩
    refine ⟨(pattern, b), List.mem_filter.mpr ⟨hd, decide_eq_true ?_⟩, hsome⟩
    cases pattern with
    | nil => cases b <;> exact absurd hd (by decide)
    | cons p pattern =>
        by_contra hne
        have hne : toUpper c ≠ p := fun h ↦ hne (h ▸ rfl)
        rw [afterDevice_eq_none hne] at hsome
        cases hsome
  · rintro ⟨d, hd, hsome⟩
    exact ⟨d, (List.mem_filter.mp hd).1, hsome⟩

/-- What `sanitizeEntry` may return for a device, or for no device. -/
def Sanitizes (data data' : List Char) : Prop :=
  (¬Special data ∧ data' = data) ∨
    Special data ∧ ∃ rest, rest.length < data.length ∧ data' = replacement :: rest

theorem sanitizes_self {c : Char} {s : List Char} (h : devicesFor c = []) :
    Sanitizes (c :: s) (c :: s) := by
  refine Or.inl ⟨fun hspecial ↦ ?_, rfl⟩
  obtain ⟨d, hd, -⟩ := special_cons_iff.mp hspecial
  rw [h] at hd
  cases hd

theorem sanitizes_device {c : Char} {s : List Char} {d : List Char × Bool}
    (h : devicesFor c = [d]) (hne : d.1 ≠ []) :
    Sanitizes (c :: s) (sanitizeSpecialFile d.1 d.2 (c :: s)) := by
  have hiff : Special (c :: s) ↔ (afterDevice d.1 d.2 (c :: s)).isSome := by
    rw [special_cons_iff, h]
    simp
  rcases sanitizeSpecialFile_spec d.1 d.2 (c :: s) with ⟨hnone, heq⟩ | ⟨rest, hsome, heq⟩
  · refine Or.inl ⟨fun hspecial ↦ ?_, heq⟩
    have hsome := hiff.mp hspecial
    rw [hnone] at hsome
    cases hsome
  · have hlen := length_afterDevice hsome
    have hpos := List.length_pos_of_ne_nil hne
    exact Or.inr ⟨hiff.mpr (hsome ▸ rfl), rest, by omega, heq⟩

theorem sanitizes_conCom {c : Char} {s : List Char} (h : toUpper c = 'C') :
    Sanitizes (c :: s) (sanitizeSpecialFile "COM".toList true
      (sanitizeSpecialFile "CON".toList false (c :: s))) := by
  have hdevices : devicesFor c = [("CON".toList, false), ("COM".toList, true)] := by
    rw [devicesFor, h]
    decide
  have hiff : Special (c :: s) ↔ (afterDevice "CON".toList false (c :: s)).isSome ∨
      (afterDevice "COM".toList true (c :: s)).isSome := by
    rw [special_cons_iff, hdevices]
    simp
  rcases sanitizeSpecialFile_spec "CON".toList false (c :: s) with ⟨hcon, heq⟩ | ⟨rest, hcon, heq⟩
  · rw [heq]
    rcases sanitizeSpecialFile_spec "COM".toList true (c :: s) with ⟨hcom, heq'⟩ | ⟨rest, hcom, heq'⟩
    · refine Or.inl ⟨fun hspecial ↦ ?_, heq'⟩
      rcases hiff.mp hspecial with hsome | hsome
      · rw [hcon] at hsome
        cases hsome
      · rw [hcom] at hsome
        cases hsome
    · have hlen := length_afterDevice hcom
      exact Or.inr ⟨hiff.mpr (Or.inr (hcom ▸ rfl)), rest, Nat.lt_of_add_right_lt hlen, heq'⟩
  · -- the replacement does not begin the name of a port
    have hcom : afterDevice "COM".toList true (replacement :: rest) = none :=
      afterDevice_eq_none (by decide) ..
    have hlen := length_afterDevice hcon
    refine Or.inr ⟨hiff.mpr (Or.inl (hcon ▸ rfl)), rest, Nat.lt_of_add_right_lt hlen, ?_⟩
    rw [heq, sanitizeSpecialFile, hcom]

theorem sanitizeEntry_spec (data : List Char) : Sanitizes data (sanitizeEntry data) := by
  cases data with
  | nil => exact Or.inl ⟨not_special_nil, rfl⟩
  | cons c s =>
      dsimp only [sanitizeEntry]
      split_ifs with hA hC hL hN hP hdot
      · apply sanitizes_device (d := ("AUX".toList, false)) _ (by decide)
        rw [devicesFor, hA]
        decide
      · exact sanitizes_conCom hC
      · apply sanitizes_device (d := ("LPT".toList, true)) _ (by decide)
        rw [devicesFor, hL]
        decide
      · apply sanitizes_device (d := ("NUL".toList, false)) _ (by decide)
        rw [devicesFor, hN]
        decide
      · apply sanitizes_device (d := ("PRN".toList, false)) _ (by decide)
        rw [devicesFor, hP]
        decide
      · apply sanitizes_device (d := ("..".toList, false)) _ (by decide)
        rw [devicesFor, hdot]
        decide
      · apply sanitizes_self
        rw [devicesFor, List.filter_eq_nil_iff]
        intro d hd heq
        have hhead : ∀ d ∈ devices, d.1.head? ∈
            [some 'A', some 'C', some 'L', some 'N', some 'P', some '.'] := by decide
        have hmem := hhead d hd
        rw [of_decide_eq_true heq] at hmem
        simp [hA, hC, hL, hN, hP, hdot] at hmem

theorem not_special_of_devicesFor {c : Char} (h : devicesFor c = []) (s : List Char) :
    ¬Special (c :: s) := by
  rintro hspecial
  obtain ⟨d, hd, -⟩ := special_cons_iff.mp hspecial
  rw [h] at hd
  cases hd

theorem not_special_replacement (s : List Char) : ¬Special (replacement :: s) :=
  not_special_of_devicesFor (by decide) s

theorem not_special_separator {c : Char} (h : Separator c) (s : List Char) :
    ¬Special (c :: s) := by
  apply not_special_of_devicesFor
  rcases h with rfl | rfl <;> decide

theorem not_special_sanitizeEntry (data : List Char) : ¬Special (sanitizeEntry data) := by
  rcases sanitizeEntry_spec data with ⟨hnot, heq⟩ | ⟨-, rest, -, heq⟩
  · rwa [heq]
  · rw [heq]
    exact not_special_replacement rest

theorem length_sanitizeEntry (data : List Char) : (sanitizeEntry data).length ≤ data.length := by
  rcases sanitizeEntry_spec data with ⟨-, heq⟩ | ⟨-, rest, hlen, heq⟩
  · rw [heq]
  · rw [heq]
    exact hlen

theorem sanitizeFrom_nil (turns : ℕ) (first check : Bool) :
    sanitizeFrom turns first check [] = [] := by
  cases turns with
  | zero => rfl
  | succ turns => cases check <;> rfl

theorem sanitizeFrom_cons (turns : ℕ) (first : Bool) (c : Char) (rest : List Char) :
    sanitizeFrom (turns + 1) first false (c :: rest) =
      if Forbidden c then replacement :: sanitizeFrom turns false false rest
      else if Separator c then
        if first then replacement :: sanitizeFrom turns false false rest
        else c :: sanitizeFrom turns false true rest
      else c :: sanitizeFrom turns false false rest := rfl

/-- The first character of a sanitised rest is its own, or it is a replacement. -/
theorem sanitizeFrom_cons_cases (turns : ℕ) (c : Char) (rest : List Char) :
    (∃ rest', sanitizeFrom (turns + 1) false false (c :: rest) = replacement :: rest') ∨
      (Separator c ∧ ∃ rest', sanitizeFrom (turns + 1) false false (c :: rest) = c :: rest') ∨
        (¬Separator c ∧ sanitizeFrom (turns + 1) false false (c :: rest) =
          c :: sanitizeFrom turns false false rest) := by
  rw [sanitizeFrom_cons]
  by_cases hforbidden : Forbidden c
  · rw [if_pos hforbidden]
    exact Or.inl ⟨_, rfl⟩
  · rw [if_neg hforbidden]
    by_cases hsep : Separator c
    · rw [if_pos hsep, if_neg Bool.false_ne_true]
      exact Or.inr (Or.inl ⟨hsep, _, rfl⟩)
    · rw [if_neg hsep]
      exact Or.inr (Or.inr ⟨hsep, rfl⟩)

/-- The characters of device names survive, and none is a separator. -/
def NameChar (p : Char) : Prop := p ≠ '_' ∧ p ≠ '/' ∧ p ≠ '\\'

instance (p : Char) : Decidable (NameChar p) := inferInstanceAs (Decidable (_ ∧ _))

theorem nameChar_devices : ∀ d ∈ devices, ∀ p ∈ d.1, NameChar p := by
  have hall : (devices.all fun d ↦ d.1.all fun p ↦ decide (NameChar p)) = true := by decide
  intro d hd p hp
  exact of_decide_eq_true (List.all_eq_true.mp (List.all_eq_true.mp hall d hd) p hp)

theorem afterPattern_sanitizeFrom {pattern : List Char} (hpattern : ∀ p ∈ pattern, NameChar p)
    {turns : ℕ} {source rest' : List Char} (hturns : source.length ≤ turns)
    (h : afterPattern pattern (sanitizeFrom turns false false source) = some rest') :
    ∃ turns' rest, rest.length ≤ turns' ∧ afterPattern pattern source = some rest ∧
      rest' = sanitizeFrom turns' false false rest := by
  induction pattern generalizing turns source with
  | nil =>
      cases h
      exact ⟨turns, source, hturns, rfl, rfl⟩
  | cons p pattern ih =>
      obtain ⟨⟨hreplacement, hslash, hbackslash⟩, hrest⟩ := List.forall_mem_cons.mp hpattern
      cases source with
      | nil =>
          rw [sanitizeFrom_nil] at h
          cases h
      | cons c source =>
          obtain ⟨turns, rfl⟩ : ∃ n, turns = n + 1 := ⟨turns - 1, by simp at hturns; omega⟩
          have hturns : source.length ≤ turns := by simpa using hturns
          rcases sanitizeFrom_cons_cases turns c source with
            ⟨rest, heq⟩ | ⟨hsep, rest, heq⟩ | ⟨-, heq⟩
          · rw [heq, afterPattern, if_pos] at h
            · cases h
            · exact fun hp ↦ hreplacement hp.symm
          · rw [heq, afterPattern, if_pos] at h
            · cases h
            · rcases hsep with rfl | rfl
              · exact fun hp ↦ hslash hp.symm
              · exact fun hp ↦ hbackslash hp.symm
          · rw [heq, afterPattern] at h
            split_ifs at h with hp
            rw [afterPattern, if_neg hp]
            exact ih hrest hturns h

theorem endsName_sanitizeFrom {turns : ℕ} {source : List Char} (hturns : source.length ≤ turns)
    (h : endsName (sanitizeFrom turns false false source) = true) : endsName source = true := by
  cases source with
  | nil => rfl
  | cons c source =>
      obtain ⟨turns, rfl⟩ : ∃ n, turns = n + 1 := ⟨turns - 1, by simp at hturns; omega⟩
      rcases sanitizeFrom_cons_cases turns c source with
        ⟨rest, heq⟩ | ⟨-, rest, heq⟩ | ⟨-, heq⟩
      · rw [heq] at h
        cases h
      · rw [heq] at h
        exact h
      · rw [heq] at h
        exact h

theorem afterNumber_sanitizeFrom {includeNumber : Bool} {turns : ℕ} {source rest' : List Char}
    (hturns : source.length ≤ turns)
    (h : afterNumber includeNumber (sanitizeFrom turns false false source) = some rest')
    (hends : endsName rest' = true) :
    ∃ rest, afterNumber includeNumber source = some rest ∧ endsName rest = true := by
  cases includeNumber with
  | false =>
      cases h
      exact ⟨source, rfl, endsName_sanitizeFrom hturns hends⟩
  | true =>
      cases source with
      | nil =>
          rw [sanitizeFrom_nil] at h
          cases h
      | cons c source =>
          obtain ⟨turns, rfl⟩ : ∃ n, turns = n + 1 := ⟨turns - 1, by simp at hturns; omega⟩
          have hturns : source.length ≤ turns := by simpa using hturns
          rcases sanitizeFrom_cons_cases turns c source with
            ⟨rest, heq⟩ | ⟨hsep, rest, heq⟩ | ⟨-, heq⟩
          · rw [heq, afterNumber, if_pos (by decide)] at h
            cases h
          · rw [heq, afterNumber] at h
            rcases hsep with rfl | rfl <;> cases h
          · rw [heq, afterNumber] at h
            split_ifs at h with hc
            cases h
            rw [afterNumber, if_neg hc]
            exact ⟨source, rfl, endsName_sanitizeFrom hturns hends⟩

/-- Sanitising what follows a component's first character never makes it special. -/
theorem special_of_sanitizeFrom {turns : ℕ} {c : Char} {rest : List Char}
    (hturns : rest.length ≤ turns) (h : Special (c :: sanitizeFrom turns false false rest)) :
    Special (c :: rest) := by
  obtain ⟨⟨pattern, b⟩, hd, hsome⟩ := h
  refine ⟨(pattern, b), hd, ?_⟩
  obtain ⟨rest', hrest'⟩ := Option.isSome_iff_exists.mp hsome
  obtain ⟨middle', hmiddle', hnumber, hends⟩ := afterDevice_eq_some hrest'
  cases pattern with
  | nil => cases b <;> exact absurd hd (by decide)
  | cons p pattern =>
      have hchars := (List.forall_mem_cons.mp (nameChar_devices _ hd)).2
      rw [afterPattern] at hmiddle'
      split_ifs at hmiddle' with hp
      obtain ⟨turns', middle, hlen, hmiddle, rfl⟩ :=
        afterPattern_sanitizeFrom hchars hturns hmiddle'
      obtain ⟨last, hlast, hends⟩ := afterNumber_sanitizeFrom hlen hnumber hends
      rw [afterDevice, afterPattern, if_neg hp, hmiddle]
      simp [hlast, hends]

theorem cleanFrom_replacement {first check : Bool} {rest : List Char}
    (h : CleanFrom false false rest) : CleanFrom first check (replacement :: rest) :=
  ⟨fun _ ↦ not_special_replacement rest, by decide, fun h ↦ absurd h (by decide), h⟩

theorem cleanFrom_sanitizeFrom {turns : ℕ} {first check : Bool} {data : List Char}
    (h : data.length ≤ turns) : CleanFrom first check (sanitizeFrom turns first check data) := by
  induction turns generalizing first check data with
  | zero =>
      rw [List.eq_nil_of_length_eq_zero (Nat.le_zero.mp h), sanitizeFrom_nil]
      trivial
  | succ turns ih =>
      rw [sanitizeFrom]
      have hentry : (if check then sanitizeEntry data else data).length ≤ data.length ∧
          (check = true → ¬Special (if check then sanitizeEntry data else data)) := by
        cases check with
        | false => exact ⟨le_rfl, nofun⟩
        | true => exact ⟨length_sanitizeEntry data, fun _ ↦ not_special_sanitizeEntry data⟩
      generalize (if check then sanitizeEntry data else data) = entry at hentry
      obtain ⟨hlen, hspecial⟩ := hentry
      cases entry with
      | nil => trivial
      | cons c rest =>
          have hrest : rest.length ≤ turns := by
            rw [List.length_cons] at hlen
            omega
          by_cases hforbidden : Forbidden c
          · simp only [if_pos hforbidden]
            exact cleanFrom_replacement (ih hrest)
          · simp only [if_neg hforbidden]
            by_cases hsep : Separator c
            · simp only [if_pos hsep]
              cases first with
              | true => exact cleanFrom_replacement (ih hrest)
              | false =>
                  refine ⟨fun _ ↦ not_special_separator hsep _, hforbidden, fun _ ↦ rfl, ?_⟩
                  rw [decide_eq_true hsep]
                  exact ih hrest
            · simp only [if_neg hsep]
              refine ⟨fun hcheck hnew ↦ ?_, hforbidden, fun h ↦ absurd h hsep, ?_⟩
              · exact hspecial hcheck (special_of_sanitizeFrom hrest hnew)
              · rw [decide_eq_false hsep]
                exact ih hrest

theorem length_sanitizeFrom (turns : ℕ) (first check : Bool) (data : List Char) :
    (sanitizeFrom turns first check data).length ≤ data.length := by
  induction turns generalizing first check data with
  | zero => exact le_rfl
  | succ turns ih =>
      rw [sanitizeFrom]
      have hentry : (if check then sanitizeEntry data else data).length ≤ data.length := by
        cases check with
        | false => exact le_rfl
        | true => exact length_sanitizeEntry data
      generalize (if check then sanitizeEntry data else data) = entry at hentry
      cases entry with
      | nil => exact Nat.zero_le _
      | cons c rest =>
          apply le_trans _ hentry
          dsimp only
          split_ifs <;> exact Nat.succ_le_succ (ih ..)

theorem sanitizeFrom_eq_self {turns : ℕ} {first check : Bool} {data : List Char}
    (h : CleanFrom first check data) : sanitizeFrom turns first check data = data := by
  induction turns generalizing first check data with
  | zero => rfl
  | succ turns ih =>
      cases data with
      | nil => exact sanitizeFrom_nil ..
      | cons c rest =>
          obtain ⟨hspecial, hforbidden, hfirst, hrest⟩ := h
          have hentry : (if check then sanitizeEntry (c :: rest) else c :: rest) = c :: rest := by
            cases check with
            | false => rfl
            | true =>
                rcases sanitizeEntry_spec (c :: rest) with ⟨-, heq⟩ | ⟨hnot, -⟩
                · exact heq
                · exact absurd hnot (hspecial rfl)
          rw [sanitizeFrom, hentry]
          simp only [if_neg hforbidden]
          by_cases hsep : Separator c
          · rw [decide_eq_true hsep] at hrest
            simp only [if_pos hsep, hfirst hsep, ih hrest]
            rfl
          · rw [decide_eq_false hsep] at hrest
            rw [if_neg hsep, ih hrest]

theorem clean_sanitizeFilename (data : List Char) : Clean (sanitizeFilename data) := by
  apply clean_iff.mpr
  refine ⟨?_, cleanFrom_sanitizeFrom le_rfl⟩
  exact (length_sanitizeFrom ..).trans (List.length_take_le ..)

theorem sanitizeFilename_eq_self {data : List Char} (h : Clean data) :
    sanitizeFilename data = data := by
  have htake : data.take 255 = data := List.take_of_length_le h.length
  rw [sanitizeFilename, htake]
  exact sanitizeFrom_eq_self (clean_iff.mp h).2

/-- The sanitised names are the clean ones, and a clean name is left alone; so sanitising a
name twice is the same as sanitising it once. -/
theorem sanitizeFilename_exact (data : List Char) :
    Clean (sanitizeFilename data) ∧ (sanitizeFilename data = data ↔ Clean data) ∧
      sanitizeFilename (sanitizeFilename data) = sanitizeFilename data := by
  have hclean := clean_sanitizeFilename data
  refine ⟨hclean, ⟨fun h ↦ h ▸ hclean, sanitizeFilename_eq_self⟩, ?_⟩
  exact sanitizeFilename_eq_self hclean

/-! ## Forbidden characters and devices, spelled out -/

theorem forbidden_iff (c : Char) :
    Forbidden c ↔ c.toNat < 32 ∨ 128 ≤ c.toNat ∧ c.toNat ≤ 159 ∨ c = '?' ∨ c = '<' ∨ c = '>' ∨
      c = ':' ∨ c = '*' ∨ c = '|' ∨ c = '"' := by
  have hcontrol : c < ' ' ↔ c.toNat < 32 := Iff.rfl
  rw [Forbidden, hcontrol]
  simp only [List.mem_cons, List.not_mem_nil, or_false]

theorem toUpper_eq (c : Char) : toUpper c = c.toUpper := by
  by_cases h : 'a' ≤ c ∧ c ≤ 'z'
  · have hlow : 97 ≤ c.toNat := h.1
    have hhigh : c.toNat ≤ 122 := h.2
    rw [← Char.ofNat_toNat c]
    generalize c.toNat = n at hlow hhigh
    interval_cases n <;> rfl
  · have hval : ¬('a'.val ≤ c.val ∧ c.val ≤ 'z'.val) := h
    rw [toUpper, if_neg h]
    delta Char.toUpper
    rw [dif_neg hval]

theorem afterPattern_eq_some {pattern source rest : List Char} :
    afterPattern pattern source = some rest ↔
      ∃ name, source = name ++ rest ∧ name.map Char.toUpper = pattern := by
  induction pattern generalizing source with
  | nil => simp [afterPattern, eq_comm]
  | cons p pattern ih =>
      cases source with
      | nil =>
          refine ⟨nofun, ?_⟩
          rintro ⟨name, heq, hname⟩
          obtain ⟨rfl, -⟩ := List.append_eq_nil_iff.mp heq.symm
          cases hname
      | cons c source =>
          rw [afterPattern, toUpper_eq]
          constructor
          · intro h
            split_ifs at h with hp
            obtain ⟨name, rfl, hname⟩ := ih.mp h
            exact ⟨c :: name, rfl, by rw [List.map_cons, hname, not_not.mp hp]⟩
          · rintro ⟨name, heq, hname⟩
            cases name with
            | nil => cases hname
            | cons d name =>
                obtain ⟨rfl, rfl⟩ := List.cons_eq_cons.mp heq
                obtain ⟨rfl, rfl⟩ := List.cons_eq_cons.mp hname
                rw [if_neg (not_not.mpr rfl)]
                exact ih.mpr ⟨name, rfl, rfl⟩

/-- The names of the devices, and of the parent directory, in capital letters. -/
def specialNames : List (List Char) :=
  ["AUX".toList, "CON".toList, "NUL".toList, "PRN".toList, "..".toList] ++
    ("123456789".toList.map fun n ↦ "COM".toList ++ [n]) ++
    "123456789".toList.map fun n ↦ "LPT".toList ++ [n]

theorem mem_digits {c : Char} : c ∈ "123456789".toList ↔ ¬(c < '1' ∨ c > '9') := by
  constructor
  · have hall : ∀ c ∈ "123456789".toList, ¬(c < '1' ∨ c > '9') :=
      List.all_iff_forall_prop.mp (by decide)
    exact hall c
  · intro h
    have hlow : 49 ≤ c.toNat := Nat.le_of_not_lt fun hlt ↦ h (Or.inl hlt)
    have hhigh : c.toNat ≤ 57 := Nat.le_of_not_lt fun hlt ↦ h (Or.inr hlt)
    rw [← Char.ofNat_toNat c]
    generalize c.toNat = n at hlow hhigh
    interval_cases n <;> decide

theorem toUpper_eq_digit {c n : Char} (hn : n ∈ "123456789".toList) : c.toUpper = n ↔ c = n := by
  constructor
  · rintro rfl
    by_cases h : 'a' ≤ c ∧ c ≤ 'z'
    · have hlow : 97 ≤ c.toNat := h.1
      have hhigh : c.toNat ≤ 122 := h.2
      rw [← Char.ofNat_toNat c] at hn
      generalize c.toNat = k at hlow hhigh hn
      interval_cases k <;> exact absurd hn (by decide)
    · rw [← toUpper_eq, toUpper, if_neg h]
  · have hall : ∀ n ∈ "123456789".toList, n.toUpper = n := List.all_iff_forall_prop.mp (by decide)
    rintro rfl
    exact hall c hn

theorem mem_specialNames {name : List Char} :
    name ∈ specialNames ↔ (name, false) ∈ devices ∨
      ∃ pattern, (pattern, true) ∈ devices ∧ ∃ n ∈ "123456789".toList, name = pattern ++ [n] := by
  have hplain : (name, false) ∈ devices ↔
      name ∈ ["AUX".toList, "CON".toList, "NUL".toList, "PRN".toList, "..".toList] := by
    simp [devices]
  have hnumbered : ∀ pattern, (pattern, true) ∈ devices ↔
      pattern = "COM".toList ∨ pattern = "LPT".toList := by
    intro pattern
    simp [devices]
  rw [hplain, specialNames, List.append_assoc, List.mem_append, List.mem_append]
  simp only [hnumbered, List.mem_map, or_and_right, exists_or, exists_eq_left, eq_comm]

/-- One of the characters that may follow, or none. -/
theorem endsName_iff {after : List Char} :
    endsName after = true ↔ after = [] ∨ ∃ c ∈ ['.', ':', '/', '\\'], after.head? = some c := by
  cases after with
  | nil => simp [endsName]
  | cons c after => simp [endsName, or_assoc]

theorem isSome_afterDevice {pattern source middle after : List Char} {includeNumber : Bool}
    (hpattern : afterPattern pattern source = some middle)
    (hnumber : afterNumber includeNumber middle = some after) (hends : endsName after = true) :
    (afterDevice pattern includeNumber source).isSome := by
  simp [afterDevice, hpattern, hnumber, hends]

/-- A component is special if it is one of these names, in capital or small letters, or goes on
behind one with a dot, a colon or a separator. -/
theorem special_iff {source : List Char} :
    Special source ↔ ∃ name after, source = name ++ after ∧
      name.map Char.toUpper ∈ specialNames ∧
        (after = [] ∨ ∃ c ∈ ['.', ':', '/', '\\'], after.head? = some c) := by
  constructor
  · rintro ⟨⟨pattern, includeNumber⟩, hd, hsome⟩
    obtain ⟨after, hafter⟩ := Option.isSome_iff_exists.mp hsome
    obtain ⟨middle, hmiddle, hnumber, hends⟩ := afterDevice_eq_some hafter
    obtain ⟨name, rfl, hname⟩ := afterPattern_eq_some.mp hmiddle
    cases includeNumber with
    | false =>
        cases hnumber
        refine ⟨name, after, rfl, mem_specialNames.mpr (Or.inl ?_), endsName_iff.mp hends⟩
        rwa [hname]
    | true =>
        cases middle with
        | nil => cases hnumber
        | cons n middle =>
            rw [afterNumber] at hnumber
            split_ifs at hnumber with hn
            cases hnumber
            have hdigit := mem_digits.mpr hn
            refine ⟨name ++ [n], after, by simp, mem_specialNames.mpr (Or.inr ?_),
              endsName_iff.mp hends⟩
            refine ⟨pattern, hd, n, hdigit, ?_⟩
            rw [List.map_append, hname, List.map_singleton, (toUpper_eq_digit hdigit).mpr rfl]
  · rintro ⟨name, after, rfl, hname, hends⟩
    have hends := endsName_iff.mpr hends
    rcases mem_specialNames.mp hname with hd | ⟨pattern, hd, n, hn, heq⟩
    · have hpattern : afterPattern (name.map Char.toUpper) (name ++ after) = some after :=
        afterPattern_eq_some.mpr ⟨name, rfl, rfl⟩
      exact ⟨_, hd, isSome_afterDevice hpattern rfl hends⟩
    · obtain ⟨stem, last, rfl, hstem, hlast⟩ := List.map_eq_append_iff.mp heq
      obtain ⟨c, rfl, hc⟩ := List.map_eq_singleton_iff.mp hlast
      obtain rfl := (toUpper_eq_digit hn).mp hc
      have hpattern : afterPattern pattern (stem ++ [c] ++ after) = some (c :: after) :=
        afterPattern_eq_some.mpr ⟨stem, by simp, hstem⟩
      have hnumber : afterNumber true (c :: after) = some after := if_neg (mem_digits.mp hn)
      exact ⟨_, hd, isSome_afterDevice hpattern hnumber hends⟩

/-! ## The static route -/

/-- `CONTENT_DIR`. -/
def contentDir : List Char := "wwwroot".toList

/-- The file that is opened for `/<path>`. -/
def staticFile (path : List Char) : List Char := sanitizeFilename (contentDir ++ '/' :: path)

/-- One component of a path, looked up from a directory that is given by its names from the
root on. -/
def enter (dir : List (List Char)) (component : List Char) : List (List Char) :=
  if component = [] ∨ component = ['.'] then dir
  else if component = ['.', '.'] then dir.dropLast
  else dir ++ [component]

theorem prefix_enter {base dir : List (List Char)} {component : List Char}
    (h : base <+: dir) (hcomponent : component ≠ ['.', '.']) : base <+: enter dir component := by
  unfold enter
  split_ifs
  · exact h
  · exact h.trans (List.prefix_append ..)

theorem prefix_foldl_enter {base dir : List (List Char)} {components : List (List Char)}
    (h : base <+: dir) (hcomponents : ∀ c ∈ components, c ≠ ['.', '.']) :
    base <+: components.foldl enter dir := by
  induction components generalizing dir with
  | nil => exact h
  | cons c components ih =>
      obtain ⟨hc, hrest⟩ := List.forall_mem_cons.mp hcomponents
      exact ih (prefix_enter h hc) hrest

theorem exists_around_component {components : List (List Char)} {c : List Char}
    (h : c ∈ components) :
    ∃ before after, ['/'].intercalate components = before ++ (c ++ after) ∧
      (∀ d ∈ before.getLast?, Separator d) ∧ endsName after = true := by
  induction components with
  | nil => cases h
  | cons e components ih =>
      cases components with
      | nil =>
          rw [List.mem_singleton.mp h]
          exact ⟨[], [], by simp, nofun, rfl⟩
      | cons f components =>
          have hcons : ['/'].intercalate (e :: f :: components) =
              e ++ '/' :: ['/'].intercalate (f :: components) := by simp
          rcases List.mem_cons.mp h with rfl | h
          · exact ⟨[], '/' :: ['/'].intercalate (f :: components), hcons, nofun, rfl⟩
          · obtain ⟨before, after, heq, hlast, hends⟩ := ih h
            refine ⟨e ++ '/' :: before, after, by rw [hcons, heq]; simp, fun d hd ↦ ?_, hends⟩
            rw [List.getLast?_append, List.getLast?_cons] at hd
            cases hb : before.getLast? with
            | none =>
                rw [hb] at hd
                cases hd
                exact Or.inl rfl
            | some b =>
                rw [hb] at hd
                cases hd
                exact hlast b hb

theorem Clean.component_ne_dotdot {name : List Char} (h : Clean name) :
    ∀ c ∈ name.splitOn '/', c ≠ ['.', '.'] := by
  rintro c hc rfl
  obtain ⟨before, after, heq, hlast, hends⟩ := exists_around_component hc
  rw [List.intercalate_splitOn] at heq
  apply h.components before _ heq hlast
  exact special_iff.mpr ⟨"..".toList, after, rfl, by decide, endsName_iff.mp hends⟩

theorem staticFile_eq (path : List Char) :
    ∃ rest, staticFile path = contentDir ++ '/' :: rest := by
  have htake : (contentDir ++ '/' :: path).take 255 = contentDir ++ '/' :: path.take 247 := rfl
  refine ⟨sanitizeFrom (path.take 247).length false true (path.take 247), ?_⟩
  rw [staticFile, sanitizeFilename, htake]
  rfl

/-- Whatever path is asked for, looking up the file that is opened enters the content
directory first and never leaves it again; the name is a string for `stat` and `open`, and a
clean name is opened as it was asked for. -/
theorem staticFile_contained (path : List Char) (cwd : List (List Char)) :
    (∀ n, 0 < n → cwd ++ [contentDir] <+: (((staticFile path).splitOn '/').take n).foldl enter cwd) ∧
      (∀ c ∈ staticFile path, c ≠ '\x00') ∧ (staticFile path).length ≤ 255 ∧
      (Clean (contentDir ++ '/' :: path) → staticFile path = contentDir ++ '/' :: path) := by
  have hclean : Clean (staticFile path) := clean_sanitizeFilename _
  refine ⟨fun n hn ↦ ?_, fun c hc heq ↦ ?_, hclean.length, sanitizeFilename_eq_self⟩
  · obtain ⟨n, rfl⟩ : ∃ m, n = m + 1 := ⟨n - 1, by omega⟩
    obtain ⟨rest, hrest⟩ := staticFile_eq path
    have hsplit : (staticFile path).splitOn '/' = contentDir :: rest.splitOn '/' := by
      rw [hrest, List.splitOn_append_cons_self_of_not_mem (by decide)]
    have hcomponents := hclean.component_ne_dotdot
    rw [hsplit] at hcomponents ⊢
    rw [List.take_succ_cons, List.foldl_cons]
    apply prefix_foldl_enter (List.prefix_rfl)
    exact fun c hc ↦ hcomponents c (List.mem_cons_of_mem _ (List.mem_of_mem_take hc))
  · apply hclean.allowed c hc
    rw [heq, forbidden_iff]
    exact Or.inl (by decide)

/-- Device names lose everything up to their extension. -/
example : staticFile "a/aux.js".toList = "wwwroot/a/_.js".toList := by decide

end VPanel.Proxy.Crow
