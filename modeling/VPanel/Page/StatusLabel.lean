import Mathlib.Data.Bool.AllAny
import VPanel.Library.EventRun
import VPanel.Library.TextNumbers

/-!
# The status label of the pages

The script behind the WebSocket tells in the status label how long ago the
latest state came and how many came in a second.  Two timers run between the
opening of the socket and the first error or its end.
-/

namespace VPanel.Page.Status

open EventRun TextNumbers

/-! ## Durations -/

/-- A number in a template string. -/
def numberText (n : ℤ) : List Char :=
  if n < 0 then '-' :: Nat.toDigits 10 n.natAbs else Nat.toDigits 10 n.natAbs

def formatDuration (ms : ℤ) : List Char :=
  let sec := ms / 1000
  let min := sec / 60
  let s := sec.tmod 60
  if min < 60 then numberText min ++ ':' :: padStart 2 (numberText s)
  else
    let hr := min / 60
    let m := min.tmod 60
    if hr < 24 then
      numberText hr ++ ':' :: padStart 2 (numberText m) ++ ':' :: padStart 2 (numberText s)
    else
      let days := hr / 24
      let h := hr.tmod 24
      numberText days ++ " days, ".toList ++ padStart 2 (numberText h) ++
        ':' :: padStart 2 (numberText m) ++ ':' :: padStart 2 (numberText s)

/-- The numbers that are shown for a number of seconds. -/
def durationFields (sec : ℕ) : List ℕ :=
  if sec / 60 < 60 then [sec / 60, sec % 60]
  else if sec / 60 / 60 < 24 then [sec / 60 / 60, sec / 60 % 60, sec % 60]
  else [sec / 60 / 60 / 24, sec / 60 / 60 % 24, sec / 60 % 60, sec % 60]

/-- The seconds that a reader makes of the numbers. -/
def secondsOf : List ℕ → Option ℕ
  | [m, s] => some (60 * m + s)
  | [h, m, s] => some (60 * (60 * h + m) + s)
  | [d, h, m, s] => some (60 * (60 * (24 * d + h) + m) + s)
  | _ => none

theorem secondsOf_durationFields (sec : ℕ) : secondsOf (durationFields sec) = some sec := by
  unfold durationFields
  split_ifs
  · simp only [secondsOf, Option.some.injEq]
    omega
  · simp only [secondsOf, Option.some.injEq]
    omega
  · simp only [secondsOf, Option.some.injEq]
    omega

theorem numberText_natCast (n : ℕ) : numberText n = Nat.toDigits 10 n := by
  rw [numberText, if_neg (by omega), Int.natAbs_natCast]

theorem endsNumber_cons {c : Char} (hc : c.isDigit = false) (rest : List Char) :
    EndsNumber (c :: rest) := by
  intro d hd
  rw [List.head?_cons, Option.mem_some_iff] at hd
  rw [← hd]
  exact hc

/-- A colon and a padded number. -/
def field (n : ℕ) : List Char := ':' :: padStart 2 (Nat.toDigits 10 n)

theorem endsNumber_field (n : ℕ) (rest : List Char) : EndsNumber (field n ++ rest) :=
  endsNumber_cons (by decide) _

theorem numbersIn_field (n : ℕ) {rest : List Char} (hrest : EndsNumber rest) :
    numbersIn (field n ++ rest) = n :: numbersIn rest := by
  have hcolon : ∀ c ∈ [':'], c.isDigit = false := List.all_iff_forall_prop.mp (by decide)
  rw [field, List.cons_append]
  exact (numbersIn_words hcolon _).trans (numbersIn_padStart 2 n hrest)

theorem formatDuration_natCast (ms : ℕ) :
    formatDuration ms =
      if ms / 1000 / 60 < 60 then Nat.toDigits 10 (ms / 1000 / 60) ++ field (ms / 1000 % 60)
      else if ms / 1000 / 60 / 60 < 24 then
        Nat.toDigits 10 (ms / 1000 / 60 / 60) ++ field (ms / 1000 / 60 % 60) ++
          field (ms / 1000 % 60)
      else
        Nat.toDigits 10 (ms / 1000 / 60 / 60 / 24) ++ " days, ".toList ++
          padStart 2 (Nat.toDigits 10 (ms / 1000 / 60 / 60 % 24)) ++
          field (ms / 1000 / 60 % 60) ++ field (ms / 1000 % 60) := by
  have hsec : (ms : ℤ) / 1000 = (ms / 1000 : ℕ) := by omega
  have hdiv : ∀ n : ℕ, (n : ℤ) / 60 = (n / 60 : ℕ) := by omega
  have hdays : ∀ n : ℕ, (n : ℤ) / 24 = (n / 24 : ℕ) := by omega
  have hmod : ∀ n : ℕ, (n : ℤ).tmod 60 = (n % 60 : ℕ) := fun n ↦ (Int.ofNat_tmod n 60).symm
  have hmod24 : ∀ n : ℕ, (n : ℤ).tmod 24 = (n % 24 : ℕ) := fun n ↦ (Int.ofNat_tmod n 24).symm
  have hlt : ∀ n : ℕ, (n : ℤ) < 60 ↔ n < 60 := by omega
  have hlt24 : ∀ n : ℕ, (n : ℤ) < 24 ↔ n < 24 := by omega
  simp only [formatDuration, field, hsec, hdiv, hdays, hmod, hmod24, hlt, hlt24,
    numberText_natCast]

theorem numbersIn_formatDuration (ms : ℕ) {rest : List Char} (hrest : EndsNumber rest) :
    numbersIn (formatDuration ms ++ rest) = durationFields (ms / 1000) ++ numbersIn rest := by
  have hs := numbersIn_field (ms / 1000 % 60) hrest
  have hm := numbersIn_field (ms / 1000 / 60 % 60) (endsNumber_field (ms / 1000 % 60) rest)
  rw [hs] at hm
  rw [formatDuration_natCast, durationFields]
  by_cases hmin : ms / 1000 / 60 < 60
  · rw [if_pos hmin, if_pos hmin, List.append_assoc,
      numbersIn_toDigits _ (endsNumber_field _ _), hs]
    rfl
  · rw [if_neg hmin, if_neg hmin]
    by_cases hhr : ms / 1000 / 60 / 60 < 24
    · rw [if_pos hhr, if_pos hhr, List.append_assoc, List.append_assoc,
        numbersIn_toDigits _ (endsNumber_field _ _), hm]
      rfl
    · have hdays : ∀ text : List Char, EndsNumber (" days, ".toList ++ text) :=
        endsNumber_cons (by decide)
      have hwords : ∀ c ∈ " days, ".toList, c.isDigit = false :=
        List.all_iff_forall_prop.mp (by decide)
      rw [if_neg hhr, if_neg hhr]
      simp only [List.append_assoc]
      rw [numbersIn_toDigits _ (hdays _), numbersIn_words hwords,
        numbersIn_padStart 2 _ (endsNumber_field _ _), hm]
      rfl

/-! ## The label -/

def connectingText : List Char := "Connecting...".toList

def waitingText : List Char := "Connected, waiting for panel state...".toList

def stateText (ago : ℤ) (fps : ℕ) : List Char :=
  "Connected, time since last state: ".toList ++ formatDuration ago ++ " (".toList ++
    Nat.toDigits 10 fps ++ " FPS)".toList

/-- The seconds and the frames per second that a reader finds in the label. -/
def readStatus (label : List Char) : Option (ℕ × ℕ) := do
  let sec ← secondsOf (numbersIn label).dropLast
  let fps ← (numbersIn label).getLast?
  return (sec, fps)

theorem numbersIn_stateText (ms fps : ℕ) :
    numbersIn (stateText ms fps) = durationFields (ms / 1000) ++ [fps] := by
  have hwords : ∀ c ∈ "Connected, time since last state: ".toList, c.isDigit = false :=
    List.all_iff_forall_prop.mp (by decide)
  have hopening : " (".toList = [' ', '('] := rfl
  have hunit : " FPS)".toList = [' ', 'F', 'P', 'S', ')'] := rfl
  have hfps : numbersIn (Nat.toDigits 10 fps ++ " FPS)".toList) = [fps] := by
    rw [hunit, numbersIn_toDigits fps (endsNumber_cons (by decide) _)]
    rfl
  have hago : EndsNumber (" (".toList ++ (Nat.toDigits 10 fps ++ " FPS)".toList)) := by
    rw [hopening]
    exact endsNumber_cons (by decide) _
  have hspace : ∀ c ∈ " (".toList, c.isDigit = false := List.all_iff_forall_prop.mp (by decide)
  unfold stateText
  rw [List.append_assoc, List.append_assoc, List.append_assoc,
    numbersIn_words hwords, numbersIn_formatDuration ms hago, numbersIn_words hspace, hfps]

theorem readStatus_stateText {ago : ℤ} (h : 0 ≤ ago) (fps : ℕ) :
    readStatus (stateText ago fps) = some ((ago / 1000).toNat, fps) := by
  obtain ⟨ms, rfl⟩ := Int.eq_ofNat_of_zero_le h
  have hsec : ((ms : ℤ) / 1000).toNat = ms / 1000 := by omega
  rw [readStatus, numbersIn_stateText, List.dropLast_concat, List.getLast?_concat,
    secondsOf_durationFields, hsec]
  rfl

/-! ## The script -/

/-- What the handler of a message does: it shows the state, it reports an error in the label
and returns `false`, or it throws. -/
inductive Handler
  | updated
  | notParsed
  | thrown
  deriving DecidableEq

inductive StatusEvent
  | onopen
  /-- A message, with the times at its arrival and behind its handler. -/
  | onmessage (now : ℤ) (handler : Handler) (later : ℤ)
  /-- The timers. -/
  | statusInterval (now : ℤ)
  | fpsInterval
  | onerror
  | onclose
  deriving DecidableEq

structure StatusPage where
  phase : Period
  label : List Char
  lastMessageTime : Option ℤ
  frameCount : ℕ
  fps : ℕ
  statusInterval : Bool
  fpsInterval : Bool
  deriving DecidableEq

namespace StatusPage

def start : StatusPage := ⟨.before, connectingText, none, 0, 0, false, false⟩

/-- A time of 0 counts as none. -/
def updateStatusLabel (s : StatusPage) (now : ℤ) : StatusPage :=
  match s.lastMessageTime with
  | some time =>
      if time ≠ 0 then { s with label := stateText (now - time) s.fps }
      else { s with label := waitingText }
  | none => { s with label := waitingText }

/-- The rest of `processQueue` for one message. -/
def handle (s : StatusPage) (handler : Handler) (later : ℤ) : StatusPage :=
  match handler with
  | .updated => s.updateStatusLabel later
  | .notParsed => { s with label := "Error parsing message".toList }
  | .thrown => s

def clearIntervals (s : StatusPage) : StatusPage :=
  { s with statusInterval := false, fpsInterval := false }

/-- The socket opens once, delivers messages while it is open, and closes once. -/
def step (s : StatusPage) : StatusEvent → Option (StatusPage × Unit)
  | .onopen =>
      if s.phase = .before then
        some ({ s with
          phase := .during
          label := "Connected".toList
          statusInterval := true
          fpsInterval := true }, ())
      else none
  | .onmessage now handler later =>
      if s.phase = .during then
        some ({ s with
          lastMessageTime := some now
          frameCount := s.frameCount + 1 }.handle handler later, ())
      else none
  | .statusInterval now => if s.statusInterval then some (s.updateStatusLabel now, ()) else none
  | .fpsInterval =>
      if s.fpsInterval then some ({ s with fps := s.frameCount, frameCount := 0 }, ()) else none
  | .onerror =>
      if s.phase = .past then none
      else some ({ s with label := "WebSocket error".toList }.clearIntervals, ())
  | .onclose =>
      if s.phase = .past then none
      else some ({ s with label := "Disconnected".toList, phase := .past }.clearIntervals, ())

end StatusPage

def statusPage : Machine StatusPage StatusEvent Unit where
  initial := .start
  step := StatusPage.step

/-! ## What a run shows -/

abbrev Trace := List (StatusEvent × Unit)

def StatusEvent.arrival : StatusEvent → Option ℤ
  | .onmessage now _ _ => some now
  | _ => none

def lastArrival (tr : Trace) : Option ℤ := (tr.filterMap fun e ↦ e.1.arrival).getLast?

def isTick (e : StatusEvent × Unit) : Bool := e.1 = .fpsInterval

/-- The steps since the timer last counted the frames. -/
def sinceTick (tr : Trace) : Trace := tr.reverse.takeWhile fun e ↦ !isTick e

/-- The steps between the two latest times that it did. -/
def lastPeriod (tr : Trace) : Trace :=
  ((tr.reverse.dropWhile fun e ↦ !isTick e).drop 1).takeWhile fun e ↦ !isTick e

def messageCount (tr : Trace) : ℕ := tr.countP fun e ↦ e.1.arrival.isSome

def opens (e : StatusEvent × Unit) : Bool := e.1 = .onopen

def ends (e : StatusEvent × Unit) : Bool := e.1 = .onerror ∨ e.1 = .onclose

def closes (e : StatusEvent × Unit) : Bool := e.1 = .onclose

theorem lastArrival_concat (tr : Trace) (e : StatusEvent × Unit) :
    lastArrival (tr ++ [e]) = e.1.arrival.or (lastArrival tr) := by
  have hlast : ([e].filterMap fun e ↦ e.1.arrival).getLast? = e.1.arrival := by
    cases he : e.1.arrival <;> simp [he]
  rw [lastArrival, List.filterMap_append, List.getLast?_append, hlast]
  rfl

theorem sinceTick_concat (tr : Trace) (e : StatusEvent × Unit) :
    sinceTick (tr ++ [e]) = if isTick e then [] else e :: sinceTick tr := by
  rw [sinceTick, List.reverse_concat, List.takeWhile_cons, ← sinceTick]
  cases isTick e <;> rfl

theorem lastPeriod_concat (tr : Trace) (e : StatusEvent × Unit) :
    lastPeriod (tr ++ [e]) = if isTick e then sinceTick tr else lastPeriod tr := by
  rw [lastPeriod, List.reverse_concat, List.dropWhile_cons]
  cases isTick e <;> rfl

theorem any_closes_concat (tr : Trace) (e : StatusEvent × Unit) :
    (tr ++ [e]).any closes = (tr.any closes || closes e) := by
  rw [List.any_append, List.any_cons, List.any_nil, Bool.or_false]

theorem messageCount_sinceTick_concat {tr : Trace} {e : StatusEvent × Unit}
    (he : isTick e = false) :
    messageCount (sinceTick (tr ++ [e])) =
      messageCount (sinceTick tr) + if e.1.arrival.isSome then 1 else 0 := by
  rw [sinceTick_concat, he]
  exact List.countP_cons

/-! ## One step -/

theorem updateStatusLabel_eq (s : StatusPage) (now : ℤ) :
    ∃ label, s.updateStatusLabel now = { s with label } := by
  unfold StatusPage.updateStatusLabel
  split
  · split_ifs
    · exact ⟨_, rfl⟩
    · exact ⟨_, rfl⟩
  · exact ⟨_, rfl⟩

theorem handle_eq (s : StatusPage) (handler : Handler) (later : ℤ) :
    ∃ label, s.handle handler later = { s with label } := by
  cases handler with
  | updated => exact updateStatusLabel_eq s later
  | notParsed => exact ⟨_, rfl⟩
  | thrown => exact ⟨s.label, rfl⟩

/-- What the variables of the script say about the messages of the run. -/
structure Counts (tr : Trace) (s : StatusPage) : Prop where
  arrival : s.lastMessageTime = lastArrival tr
  frames : s.frameCount = messageCount (sinceTick tr)
  rate : s.fps = messageCount (lastPeriod tr)

/-- Where the socket and the timers are. -/
structure Timers (tr : Trace) (s : StatusPage) : Prop where
  status : s.statusInterval = true ↔ period opens ends tr = .during
  counter : s.fpsInterval = s.statusInterval
  unopened : s.phase = .before → period opens ends tr = .before
  closed : s.phase = .past ↔ tr.any closes = true
  disconnected : s.phase = .past → s.label = "Disconnected".toList ∧ s.statusInterval = false

section

variable {tr : Trace} {s t : StatusPage} {e : StatusEvent}

theorem Counts.quiet (hs : Counts tr s) (hmessage : e.arrival = none)
    (htick : isTick (e, ()) = false) (htime : t.lastMessageTime = s.lastMessageTime)
    (hframes : t.frameCount = s.frameCount) (hfps : t.fps = s.fps) :
    Counts (tr ++ [(e, ())]) t where
  arrival := by
    rw [lastArrival_concat, hmessage, htime]
    exact hs.arrival
  frames := by
    rw [messageCount_sinceTick_concat htick, hmessage, hframes]
    exact hs.frames
  rate := by
    rw [lastPeriod_concat, htick, hfps]
    exact hs.rate

theorem Counts.step (hs : Counts tr s) (h : s.step e = some (t, ())) :
    Counts (tr ++ [(e, ())]) t := by
  cases e with
  | onopen =>
      obtain ⟨-, heq⟩ := Option.ite_none_right_eq_some.mp h
      cases heq
      exact hs.quiet rfl rfl rfl rfl rfl
  | onmessage now handler later =>
      obtain ⟨-, heq⟩ := Option.ite_none_right_eq_some.mp h
      obtain ⟨label, hlabel⟩ := handle_eq
        { s with lastMessageTime := some now, frameCount := s.frameCount + 1 } handler later
      rw [hlabel] at heq
      cases heq
      constructor
      · rw [lastArrival_concat]
        rfl
      · rw [messageCount_sinceTick_concat rfl, ← hs.frames]
        rfl
      · rw [lastPeriod_concat]
        exact hs.rate
  | statusInterval now =>
      obtain ⟨-, heq⟩ := Option.ite_none_right_eq_some.mp h
      obtain ⟨label, hlabel⟩ := updateStatusLabel_eq s now
      rw [hlabel] at heq
      cases heq
      exact hs.quiet rfl rfl rfl rfl rfl
  | fpsInterval =>
      obtain ⟨-, heq⟩ := Option.ite_none_right_eq_some.mp h
      cases heq
      constructor
      · rw [lastArrival_concat]
        exact hs.arrival
      · rw [sinceTick_concat]
        rfl
      · rw [lastPeriod_concat]
        exact hs.frames
  | onerror =>
      obtain ⟨-, heq⟩ := Option.ite_none_left_eq_some.mp h
      cases heq
      exact hs.quiet rfl rfl rfl rfl rfl
  | onclose =>
      obtain ⟨-, heq⟩ := Option.ite_none_left_eq_some.mp h
      cases heq
      exact hs.quiet rfl rfl rfl rfl rfl

/-- The steps that leave the timers and the socket as they are. -/
theorem Timers.quiet (hs : Timers tr s) (hopens : opens (e, ()) = false)
    (hends : ends (e, ()) = false) (hclose : closes (e, ()) = false)
    (hphase : t.phase = s.phase) (hstatus : t.statusInterval = s.statusInterval)
    (hfps : t.fpsInterval = s.fpsInterval) (hopen : s.phase ≠ .past) :
    Timers (tr ++ [(e, ())]) t := by
  have hperiod : period opens ends (tr ++ [(e, ())]) = period opens ends tr := by
    rw [period_concat, Period.next_eq_self opens ends hopens hends]
  constructor
  · rw [hperiod, hstatus]
    exact hs.status
  · rw [hfps, hstatus]
    exact hs.counter
  · rw [hperiod, hphase]
    exact hs.unopened
  · rw [any_closes_concat, hclose, Bool.or_false, hphase]
    exact hs.closed
  · intro hpast
    exact absurd (hphase.symm.trans hpast) hopen

/-- The timers run only while the socket is there. -/
theorem Timers.open_of_status (hs : Timers tr s) (h : s.statusInterval = true) :
    s.phase ≠ .past := by
  intro hpast
  rw [(hs.disconnected hpast).2] at h
  cases h

theorem Timers.step (hs : Timers tr s) (h : s.step e = some (t, ())) :
    Timers (tr ++ [(e, ())]) t := by
  cases e with
  | onopen =>
      obtain ⟨hphase, heq⟩ := Option.ite_none_right_eq_some.mp h
      cases heq
      have hperiod : period opens ends (tr ++ [(.onopen, ())]) = .during := by
        rw [period_concat, hs.unopened hphase]
        rfl
      have hclosed : ¬tr.any closes = true := by
        rw [← hs.closed, hphase]
        decide
      constructor
      · exact iff_of_true rfl hperiod
      · rfl
      · exact nofun
      · rw [any_closes_concat, Bool.eq_false_of_not_eq_true hclosed]
        exact iff_of_false nofun Bool.false_ne_true
      · exact nofun
  | onmessage now handler later =>
      obtain ⟨hphase, heq⟩ := Option.ite_none_right_eq_some.mp h
      obtain ⟨label, hlabel⟩ := handle_eq
        { s with lastMessageTime := some now, frameCount := s.frameCount + 1 } handler later
      rw [hlabel] at heq
      cases heq
      have hopen : s.phase ≠ .past := by
        rw [hphase]
        decide
      exact hs.quiet rfl rfl rfl rfl rfl rfl hopen
  | statusInterval now =>
      obtain ⟨hstatus, heq⟩ := Option.ite_none_right_eq_some.mp h
      obtain ⟨label, hlabel⟩ := updateStatusLabel_eq s now
      rw [hlabel] at heq
      cases heq
      exact hs.quiet rfl rfl rfl rfl rfl rfl (hs.open_of_status hstatus)
  | fpsInterval =>
      obtain ⟨hfps, heq⟩ := Option.ite_none_right_eq_some.mp h
      cases heq
      have hopen := hs.open_of_status (hs.counter.symm.trans hfps)
      exact hs.quiet rfl rfl rfl rfl rfl rfl hopen
  | onerror =>
      obtain ⟨hphase, heq⟩ := Option.ite_none_left_eq_some.mp h
      cases heq
      constructor
      · rw [period_concat]
        exact iff_of_false Bool.false_ne_true (Period.next_ne_during _ _ rfl _)
      · rfl
      · intro hbefore
        rw [period_concat, hs.unopened hbefore]
        rfl
      · rw [any_closes_concat]
        exact hs.closed.trans (iff_of_eq (congrArg (· = true) (Bool.or_false _).symm))
      · intro hpast
        exact absurd hpast hphase
  | onclose =>
      obtain ⟨hphase, heq⟩ := Option.ite_none_left_eq_some.mp h
      cases heq
      constructor
      · rw [period_concat]
        exact iff_of_false Bool.false_ne_true (Period.next_ne_during _ _ rfl _)
      · rfl
      · exact nofun
      · rw [any_closes_concat]
        exact iff_of_true rfl (Bool.or_true _)
      · exact fun _ ↦ ⟨rfl, rfl⟩

end

theorem counts_of_run {tr : Trace} {s : StatusPage} (h : Run statusPage tr s) : Counts tr s := by
  apply h.invariant (I := Counts)
  · exact ⟨rfl, rfl, rfl⟩
  · intro tr s e t _ hs hstep
    exact hs.step hstep

theorem timers_of_run {tr : Trace} {s : StatusPage} (h : Run statusPage tr s) : Timers tr s := by
  apply h.invariant (I := Timers)
  · exact ⟨by decide, rfl, fun _ ↦ rfl, by decide, nofun⟩
  · intro tr s e t _ hs hstep
    exact hs.step hstep

/-! ## What the label says -/

/-- The label tells how long ago the latest message came, in whole seconds, and how many came
between the two latest ticks of the FPS counter. -/
def Shows (tr : Trace) (now : ℤ) (label : List Char) : Prop :=
  match lastArrival tr with
  | none => label = waitingText
  | some time =>
      if time = 0 then label = waitingText
      else time ≤ now →
        readStatus label = some (((now - time) / 1000).toNat, messageCount (lastPeriod tr))

theorem Counts.shows {tr : Trace} {s : StatusPage} (hs : Counts tr s) (now : ℤ) :
    Shows tr now (s.updateStatusLabel now).label := by
  unfold Shows StatusPage.updateStatusLabel
  rw [hs.arrival]
  cases lastArrival tr with
  | none => rfl
  | some time =>
      by_cases htime : time = 0
      · simp only [htime, ne_eq, not_true_eq_false, reduceIte]
      · simp only [htime, ne_eq, not_false_eq_true, reduceIte]
        intro hle
        rw [hs.rate]
        exact readStatus_stateText (Int.sub_nonneg_of_le hle) _

/-- The timers run from the opening of the socket to the first error or its end, and what they and
the handled messages show agrees with the run; a closed socket stays `Disconnected`. -/
theorem status_run {tr : Trace} {s : StatusPage} (h : Run statusPage tr s) :
    (∀ now, (s.step (.statusInterval now)).isSome = true ↔ period opens ends tr = .during) ∧
      ((s.step .fpsInterval).isSome = true ↔ period opens ends tr = .during) ∧
      (∀ now t, s.step (.statusInterval now) = some (t, ()) → Shows tr now t.label) ∧
      (∀ now later t, s.step (.onmessage now .updated later) = some (t, ()) →
        Shows (tr ++ [(.onmessage now .updated later, ())]) later t.label) ∧
      (tr.any closes = true → s.label = "Disconnected".toList ∧ ∀ e, s.step e = none) := by
  have hcounts := counts_of_run h
  have htimers := timers_of_run h
  have hfps : s.fpsInterval = true ↔ period opens ends tr = .during := by
    rw [htimers.counter]
    exact htimers.status
  refine ⟨?_, ?_, ?_, ?_, ?_⟩
  · intro now
    exact Option.isSome_ite.trans htimers.status
  · exact Option.isSome_ite.trans hfps
  · intro now t hstep
    obtain ⟨-, heq⟩ := Option.ite_none_right_eq_some.mp hstep
    cases heq
    exact hcounts.shows now
  · intro now later t hstep
    have ht := hcounts.step hstep
    obtain ⟨-, heq⟩ := Option.ite_none_right_eq_some.mp hstep
    -- The label is written last, and the counts do not read it.
    obtain ⟨label, hlabel⟩ := updateStatusLabel_eq
      { s with lastMessageTime := some now, frameCount := s.frameCount + 1 } later
    cases heq
    apply Counts.shows
    rw [StatusPage.handle, hlabel] at ht
    exact ⟨ht.arrival, ht.frames, ht.rate⟩
  · intro hclosed
    have hpast := htimers.closed.mpr hclosed
    obtain ⟨hlabel, hstatus⟩ := htimers.disconnected hpast
    refine ⟨hlabel, ?_⟩
    intro e
    cases e <;> simp [StatusPage.step, hpast, hstatus, htimers.counter]

/-- The events of a run with two messages and one tick of the FPS counter. -/
def exampleEvents : List StatusEvent :=
  [.onopen, .onmessage 100500 .updated 100503, .onmessage 101000 .thrown 101004, .fpsInterval]

theorem status_run_example : ∃ (tr : Trace) (s t : StatusPage),
    tr.map Prod.fst = exampleEvents ∧ Run statusPage tr s ∧
      s.step (.statusInterval 3796500) = some (t, ()) ∧ readStatus t.label = some (3695, 2) := by
  have hreplay : statusPage.replay statusPage.initial exampleEvents = some (_, _) := rfl
  have hrun := Run.replay .start hreplay
  exact ⟨_, _, _, rfl, hrun, rfl, (status_run hrun).2.2.1 3796500 _ rfl (by decide)⟩

end VPanel.Page.Status
