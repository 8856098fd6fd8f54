import VPanel.Library.DeltaQueue
import VPanel.Library.LinkedChain

/-!
# The callouts of the PDP-11 kernel

The entries of the array `callout` are linked into the timeout queue, in the
order of their deadlines, and the list of the free ones.  `timeout` and
`untimeout` may be called between any two turns of the loop in `softclock`, by
the functions it calls and by interrupts.
-/

namespace VPanel.Kernel

open LinkedChain

/-- The callouts by field, and the heads of the two lists through them.  `c_time` is an `int`,
which is taken not to wrap: `callouts_within` bounds the times of every run. -/
structure CalloutTable (F A : Type) where
  ncallout : ℕ
  cTime : ℕ → ℤ
  cArg : ℕ → A
  cFunc : ℕ → F
  cNext : ℕ → Option ℕ
  calltodo : Option ℕ
  callfree : Option ℕ

inductive Halt
  | timeoutTableOverflow
  /-- The links of the queue lead around. -/
  | endlessQueue
  deriving DecidableEq

namespace CalloutTable

variable {F A : Type} (t : CalloutTable F A)

/-- The link at a place of the queue, `&calltodo` being `none`. -/
def next (p : Option ℕ) : Option ℕ := Links.follow ⟨t.calltodo, t.cNext⟩ p

def setNext (p q : Option ℕ) : CalloutTable F A :=
  let links := Links.set ⟨t.calltodo, t.cNext⟩ p q
  { t with calltodo := links.head, cNext := links.next }

def setTime (p : ℕ) (time : ℤ) : CalloutTable F A :=
  { t with cTime := Function.update t.cTime p time }

/-- The loop of `hardclock`, from `p1` on. -/
def countDown : ℕ → CalloutTable F A → Option ℕ → Bool → Except Halt (CalloutTable F A × Bool)
  | 0, _, _, _ => .error .endlessQueue
  | _ + 1, t, none, needsoft => .ok (t, needsoft)
  | n + 1, t, some p1, needsoft =>
      let t := t.setTime p1 (t.cTime p1 - 1)
      if 0 < t.cTime p1 then .ok (t, needsoft)
      else if t.cTime p1 = 0 then .ok (t, true)
      else countDown n t (t.cNext p1) true

def hardclock (needsoft : Bool) : Except Halt (CalloutTable F A × Bool) :=
  countDown (t.ncallout + 1) t t.calltodo needsoft

/-- The loop of `timeout`: `p1`, and what is left of `t`. -/
def place : ℕ → Option ℕ → ℤ → Except Halt (Option ℕ × ℤ)
  | 0, _, _ => .error .endlessQueue
  | n + 1, p1, time =>
      match t.next p1 with
      | none => .ok (p1, time)
      | some p2 =>
          if t.cTime p2 < time then
            place n (some p2) (if 0 < t.cTime p2 then time - t.cTime p2 else time)
          else .ok (p1, time)

def link (pnew : ℕ) (p1 : Option ℕ) (time : ℤ) : CalloutTable F A :=
  let p2 := t.next p1
  let t := ((t.setNext p1 (some pnew)).setNext (some pnew) p2).setTime pnew time
  match p2 with
  | none => t
  | some p2 => t.setTime p2 (t.cTime p2 - time)

def timeout (func : F) (arg : A) (time : ℤ) : Except Halt (CalloutTable F A) :=
  let time := if time ≤ 0 then 1 else time
  match t.callfree with
  | none => .error .timeoutTableOverflow
  | some pnew => do
      let t := { t with
        callfree := t.cNext pnew
        cArg := Function.update t.cArg pnew arg
        cFunc := Function.update t.cFunc pnew func }
      let (p1, time) ← t.place (t.ncallout + 1) none time
      return t.link pnew p1 time

/-- Put a callout in front of the free ones. -/
def free (p : ℕ) : CalloutTable F A :=
  { t with cNext := Function.update t.cNext p t.callfree, callfree := some p }

/-- Add the time of a callout to the next one. -/
def passTime (p2 : ℕ) : CalloutTable F A :=
  match t.cNext p2 with
  | none => t
  | some p3 => if 0 < t.cTime p2 then t.setTime p3 (t.cTime p3 + t.cTime p2) else t

def unlink (p1 : Option ℕ) (p2 : ℕ) : CalloutTable F A :=
  ((t.passTime p2).setNext p1 (t.cNext p2)).free p2

variable [DecidableEq F] [DecidableEq A]

/-- The loop of `untimeout`, from `p1` on. -/
def cancel (func : F) (arg : A) : ℕ → Option ℕ → Except Halt (CalloutTable F A)
  | 0, _ => .error .endlessQueue
  | n + 1, p1 =>
      match t.next p1 with
      | none => .ok t
      | some p2 =>
          if t.cFunc p2 = func ∧ t.cArg p2 = arg then .ok (t.unlink p1 p2)
          else cancel func arg n (some p2)

def untimeout (func : F) (arg : A) : Except Halt (CalloutTable F A) :=
  t.cancel func arg (t.ncallout + 1) none

omit [DecidableEq F] [DecidableEq A]

/-- A turn of the loop of `softclock`, with what it calls; `none` when the loop ends. -/
def softclock : CalloutTable F A × Option ((F × A) × ℤ) :=
  match t.calltodo with
  | none => (t, none)
  | some p1 =>
      if 0 < t.cTime p1 then (t, none)
      else ({ t with calltodo := t.cNext p1 }.free p1, some ((t.cFunc p1, t.cArg p1), t.cTime p1))

/-- The whole loop of `softclock`, with its calls, when no function that it calls and no interrupt
touches the table. -/
def softclocks : ℕ → CalloutTable F A → Except Halt (CalloutTable F A × List ((F × A) × ℤ))
  | 0, _ => .error .endlessQueue
  | n + 1, t =>
      match t.softclock with
      | (t, none) => .ok (t, [])
      | (t, some call) => do
          let (t, calls) ← softclocks n t
          return (t, call :: calls)

end CalloutTable

/-! ## The lists in the table -/

variable {F A : Type}

/-- The two lists run through all callouts, each once. -/
structure CalloutTable.Lists (t : CalloutTable F A) (queue unused : List ℕ) : Prop where
  calltodo : Chain t.cNext t.calltodo queue
  callfree : Chain t.cNext t.callfree unused
  slots : (queue ++ unused).Perm (List.range t.ncallout)

namespace CalloutTable

def queue (t : CalloutTable F A) : List ℕ := Links.walk t.cNext t.ncallout t.calltodo

def unused (t : CalloutTable F A) : List ℕ := Links.walk t.cNext t.ncallout t.callfree

/-- What callouts hold: the time, and the call. -/
def entries (t : CalloutTable F A) (l : List ℕ) : List (ℤ × (F × A)) :=
  l.map fun p ↦ (t.cTime p, (t.cFunc p, t.cArg p))

variable {t : CalloutTable F A} {queue unused l mid rest : List ℕ} {p : ℕ}

theorem Lists.nodup (h : t.Lists queue unused) : (queue ++ unused).Nodup :=
  h.slots.nodup_iff.mpr List.nodup_range

theorem Lists.length (h : t.Lists queue unused) :
    queue.length + unused.length = t.ncallout := by
  have hlength := h.slots.length_eq
  rwa [List.length_append, List.length_range] at hlength

theorem Lists.queue_le (h : t.Lists queue unused) : queue.length ≤ t.ncallout :=
  (Nat.le_add_right _ _).trans_eq h.length

theorem Lists.queue_eq (h : t.Lists queue unused) : t.queue = queue :=
  h.calltodo.walk_eq h.queue_le

theorem Lists.unused_eq (h : t.Lists queue unused) : t.unused = unused :=
  h.callfree.walk_eq ((Nat.le_add_left _ _).trans_eq h.length)

theorem entries_congr {t' : CalloutTable F A}
    (hsame : ∀ i ∈ l, t'.cTime i = t.cTime i ∧ t'.cFunc i = t.cFunc i ∧ t'.cArg i = t.cArg i) :
    t'.entries l = t.entries l := by
  apply List.map_congr_left
  intro i hi
  obtain ⟨htime, hfunc, harg⟩ := hsame i hi
  rw [htime, hfunc, harg]

@[simp] theorem entries_nil : t.entries [] = [] := rfl

@[simp] theorem entries_cons : t.entries (p :: l) =
    (t.cTime p, (t.cFunc p, t.cArg p)) :: t.entries l := rfl

@[simp] theorem entries_append (l l' : List ℕ) :
    t.entries (l ++ l') = t.entries l ++ t.entries l' := List.map_append

theorem entries_setTime_of_notMem (hp : p ∉ l) (time : ℤ) :
    (t.setTime p time).entries l = t.entries l := by
  apply entries_congr
  intro i hi
  have hip : i ≠ p := by
    rintro rfl
    exact hp hi
  exact ⟨Function.update_of_ne hip .., rfl, rfl⟩

@[simp] theorem cTime_setTime_self (time : ℤ) : (t.setTime p time).cTime p = time :=
  Function.update_self ..

theorem cNext_setNext_of_ne {q r : Option ℕ} {i : ℕ} (h : q ≠ some i) :
    (t.setNext q r).cNext i = t.cNext i := by
  cases q with
  | none => rfl
  | some j => exact Function.update_of_ne (fun heq ↦ h (congrArg some heq.symm)) r t.cNext

/-! ## The clock tick -/

theorem countDown_spec {n : ℕ} {p1 : Option ℕ} (hchain : Chain t.cNext p1 l) (hnodup : l.Nodup)
    (hn : l.length < n) (needsoft : Bool) :
    ∃ cTime, countDown n t p1 needsoft =
        .ok ({ t with cTime := cTime },
          needsoft || decide (DeltaQueue.Due (DeltaQueue.tick (t.entries l)))) ∧
      (∀ i ∉ l, cTime i = t.cTime i) ∧
      { t with cTime := cTime }.entries l = DeltaQueue.tick (t.entries l) := by
  induction l generalizing t p1 n needsoft with
  | nil =>
      rw [show p1 = none from hchain]
      cases n with
      | zero => exact absurd hn (Nat.not_lt_zero _)
      | succ n =>
          refine ⟨t.cTime, ?_, fun _ _ ↦ rfl, rfl⟩
          simp [countDown, DeltaQueue.tick, DeltaQueue.Due]
  | cons i l ih =>
      obtain ⟨rfl, hrest⟩ := hchain
      obtain ⟨hi, hnodup⟩ := List.nodup_cons.mp hnodup
      cases n with
      | zero => exact absurd hn (Nat.not_lt_zero _)
      | succ n =>
          have hentries := entries_setTime_of_notMem (t := t) hi (t.cTime i - 1)
          have hothers : ∀ j ∉ i :: l, (t.setTime i (t.cTime i - 1)).cTime j = t.cTime j := by
            intro j hj
            have hji : j ≠ i := fun heq ↦ hj (heq ▸ List.mem_cons_self)
            exact Function.update_of_ne hji ..
          rw [countDown, cTime_setTime_self, entries_cons, DeltaQueue.tick]
          by_cases hpositive : 0 < t.cTime i - 1
          · rw [if_pos hpositive, if_pos hpositive]
            refine ⟨(t.setTime i (t.cTime i - 1)).cTime, ?_, hothers, ?_⟩
            · have hdue : ¬DeltaQueue.Due
                  ((t.cTime i - 1, (t.cFunc i, t.cArg i)) :: t.entries l) := Int.not_le.mpr hpositive
              rw [decide_eq_false hdue, Bool.or_false]
              rfl
            · change (t.setTime i (t.cTime i - 1)).entries (i :: l) = _
              rw [entries_cons, cTime_setTime_self, hentries]
              rfl
          · rw [if_neg hpositive, if_neg hpositive]
            by_cases hzero : t.cTime i - 1 = 0
            · rw [if_pos hzero, if_pos hzero]
              refine ⟨(t.setTime i (t.cTime i - 1)).cTime, ?_, hothers, ?_⟩
              · have hdue : DeltaQueue.Due
                    ((t.cTime i - 1, (t.cFunc i, t.cArg i)) :: t.entries l) := hzero.le
                rw [decide_eq_true hdue, Bool.or_true]
                rfl
              · change (t.setTime i (t.cTime i - 1)).entries (i :: l) = _
                rw [entries_cons, cTime_setTime_self, hentries]
                rfl
            · rw [if_neg hzero, if_neg hzero]
              have hn' : l.length < n := Nat.lt_of_succ_lt_succ hn
              obtain ⟨cTime, hcount, hkeep, htick⟩ :=
                ih (t := t.setTime i (t.cTime i - 1)) hrest hnodup hn' true
              have hself : cTime i = t.cTime i - 1 := by
                rw [hkeep i hi, cTime_setTime_self]
              have hdue : DeltaQueue.Due ((t.cTime i - 1, (t.cFunc i, t.cArg i)) ::
                  DeltaQueue.tick (t.entries l)) := Int.not_lt.mp hpositive
              refine ⟨cTime, ?_, fun j hj ↦ ?_, ?_⟩
              · rw [decide_eq_true hdue, Bool.or_true]
                exact hcount
              · rw [hkeep j fun hjl ↦ hj (List.mem_cons_of_mem i hjl)]
                exact hothers j hj
              · rw [entries_cons, ← hentries, ← htick]
                exact congrArg (· :: _) (congrArg (·, _) hself)

theorem Lists.hardclock (h : t.Lists queue unused) (needsoft : Bool) :
    ∃ t', t.hardclock needsoft =
        .ok (t', needsoft || decide (DeltaQueue.Due (DeltaQueue.tick (t.entries queue)))) ∧
      t'.ncallout = t.ncallout ∧ t'.Lists queue unused ∧
      t'.entries queue = DeltaQueue.tick (t.entries queue) := by
  have hnodup := (List.nodup_append.mp h.nodup).1
  obtain ⟨cTime, hcount, -, htick⟩ :=
    countDown_spec h.calltodo hnodup (Nat.lt_succ_of_le h.queue_le) needsoft
  exact ⟨_, hcount, rfl, ⟨h.calltodo, h.callfree, h.slots⟩, htick⟩

/-! ## New callouts -/

theorem place_spec {pre : List ℕ} {n : ℕ} (hchain : Chain t.cNext t.calltodo (pre ++ l))
    (hn : l.length < n) (time : ℤ) :
    ∃ mid rest time', l = mid ++ rest ∧
      t.place n pre.getLast? time = .ok ((pre ++ mid).getLast?, time') ∧
      ∀ call, DeltaQueue.insert time call (t.entries l) =
        t.entries mid ++ (time', call) :: DeltaQueue.delay (-time') (t.entries rest) := by
  induction l generalizing pre n time with
  | nil =>
      cases n with
      | zero => exact absurd hn (Nat.not_lt_zero _)
      | succ n =>
          have hnext : t.next pre.getLast? = none := hchain.follow
          refine ⟨[], [], time, rfl, ?_, fun _ ↦ rfl⟩
          rw [place, hnext, List.append_nil]
  | cons i l ih =>
      cases n with
      | zero => exact absurd hn (Nat.not_lt_zero _)
      | succ n =>
          have hnext : t.next pre.getLast? = some i := hchain.follow
          rw [place, hnext]
          by_cases hskip : t.cTime i < time
          · have hlast : (pre ++ [i]).getLast? = some i := List.getLast?_concat
            have hchain' : Chain t.cNext t.calltodo (pre ++ [i] ++ l) := by
              rwa [List.append_assoc]
            obtain ⟨mid, rest, time', rfl, hplace, hinsert⟩ :=
              ih hchain' (Nat.lt_of_succ_lt_succ hn) (if 0 < t.cTime i then time - t.cTime i else time)
            refine ⟨i :: mid, rest, time', rfl, ?_, fun call ↦ ?_⟩
            · rw [hlast, List.append_assoc] at hplace
              dsimp only
              rw [if_pos hskip]
              exact hplace
            · rw [entries_cons, DeltaQueue.insert, if_pos hskip, hinsert]
              rfl
          · refine ⟨[], i :: l, time, rfl, ?_, fun call ↦ ?_⟩
            · dsimp only
              rw [if_neg hskip, List.append_nil]
            · rw [entries_cons, DeltaQueue.insert, if_neg hskip]
              rfl

theorem link_links (p1 : Option ℕ) (time : ℤ) :
    Links.mk (t.link p p1 time).calltodo (t.link p p1 time).cNext =
      (Links.set ⟨t.calltodo, t.cNext⟩ p1 (some p)).set (some p) (t.next p1) := by
  unfold link
  cases t.next p1 <;> rfl

theorem link_rest (p1 : Option ℕ) (time : ℤ) :
    (t.link p p1 time).callfree = t.callfree ∧ (t.link p p1 time).ncallout = t.ncallout ∧
      (t.link p p1 time).cFunc = t.cFunc ∧ (t.link p p1 time).cArg = t.cArg := by
  unfold link
  cases t.next p1 <;> exact ⟨rfl, rfl, rfl, rfl⟩

theorem link_entries (hchain : Chain t.cNext t.calltodo (mid ++ rest))
    (hnodup : (mid ++ rest).Nodup) (hp : p ∉ mid ++ rest) (time : ℤ) :
    (t.link p mid.getLast? time).entries (mid ++ p :: rest) =
      t.entries mid ++ (time, (t.cFunc p, t.cArg p)) ::
        DeltaQueue.delay (-time) (t.entries rest) := by
  obtain ⟨hpmid, hprest⟩ := not_or.mp fun hmem ↦ hp (List.mem_append.mpr hmem)
  obtain ⟨-, hrest, hdisjoint⟩ := List.nodup_append.mp hnodup
  have hnext : t.next mid.getLast? = rest.head? := hchain.follow
  rw [entries_append, entries_cons]
  unfold link
  rw [hnext]
  cases rest with
  | nil =>
      have hmid : (t.setTime p time).entries mid = t.entries mid :=
        entries_setTime_of_notMem hpmid time
      have hself : (t.setTime p time).cTime p = time := cTime_setTime_self time
      exact congrArg₂ _ hmid (congrArg (· :: _) (congrArg (·, _) hself))
  | cons j rest =>
      obtain ⟨hj, -⟩ := List.nodup_cons.mp hrest
      have hjmid : j ∉ mid := fun hmem ↦ hdisjoint j hmem j List.mem_cons_self rfl
      have hjp : j ≠ p := by
        rintro rfl
        exact hprest List.mem_cons_self
      have hprest' : p ∉ rest := fun hmem ↦ hprest (List.mem_cons_of_mem j hmem)
      let u := (t.setTime p time).setTime j ((t.setTime p time).cTime j - time)
      have hmid : u.entries mid = t.entries mid := by
        rw [entries_setTime_of_notMem hjmid, entries_setTime_of_notMem hpmid]
      have htail : u.entries rest = t.entries rest := by
        rw [entries_setTime_of_notMem hj, entries_setTime_of_notMem hprest']
      have hself : u.cTime p = time := by
        change Function.update (t.setTime p time).cTime j _ p = time
        rw [Function.update_of_ne hjp.symm, cTime_setTime_self]
      have hnextTime : u.cTime j = t.cTime j + -time := by
        change Function.update (t.setTime p time).cTime j _ j = t.cTime j + -time
        rw [Function.update_self]
        change Function.update t.cTime p time j - time = t.cTime j + -time
        rw [Function.update_of_ne hjp]
        rfl
      change u.entries mid ++ (u.cTime p, (t.cFunc p, t.cArg p)) ::
        (u.cTime j, (t.cFunc j, t.cArg j)) :: u.entries rest = _
      rw [hmid, htail, hself, hnextTime]
      rfl

theorem link_cNext_of_ne {p1 : Option ℕ} {i : ℕ} (hp : i ≠ p) (hp1 : p1 ≠ some i) (time : ℤ) :
    (t.link p p1 time).cNext i = t.cNext i := by
  have hlinks := congrArg Links.next (link_links (t := t) (p := p) p1 time)
  have hset : (t.setNext p1 (some p)).cNext i = t.cNext i := cNext_setNext_of_ne hp1
  rw [← hset]
  exact (congrFun hlinks i).trans (Function.update_of_ne hp ..)

theorem perm_insert (mid rest unused : List ℕ) (p : ℕ) :
    (mid ++ p :: rest ++ unused).Perm (mid ++ rest ++ p :: unused) := by
  have hleft : (mid ++ p :: rest).Perm (p :: (mid ++ rest)) := List.perm_middle
  have hright : (mid ++ rest ++ p :: unused).Perm (p :: (mid ++ rest ++ unused)) :=
    List.perm_middle
  exact (hleft.append_right unused).trans hright.symm

theorem timeout_overflow (h : t.Lists queue []) (func : F) (arg : A) (time : ℤ) :
    t.timeout func arg time = .error .timeoutTableOverflow := by
  have hfree : t.callfree = none := h.callfree
  unfold timeout
  rw [hfree]

theorem Lists.timeout (h : t.Lists queue (p :: unused)) (func : F) (arg : A) (time : ℤ) :
    ∃ t' queue', t.timeout func arg time = .ok t' ∧ t'.ncallout = t.ncallout ∧
      t'.Lists queue' unused ∧
      t'.entries queue' = DeltaQueue.insert (max time 1) (func, arg) (t.entries queue) := by
  obtain ⟨hfree, hunused⟩ := h.callfree
  obtain ⟨hqueue, hpunused, hdisjoint⟩ := List.nodup_append.mp h.nodup
  have hp : p ∉ queue := fun hmem ↦ hdisjoint p hmem p List.mem_cons_self rfl
  let t₀ : CalloutTable F A := { t with
    callfree := t.cNext p
    cArg := Function.update t.cArg p arg
    cFunc := Function.update t.cFunc p func }
  have hentries : t₀.entries queue = t.entries queue := by
    apply entries_congr
    intro i hi
    have hip : i ≠ p := by
      rintro rfl
      exact hp hi
    exact ⟨rfl, Function.update_of_ne hip .., Function.update_of_ne hip ..⟩
  have htime : (if time ≤ 0 then 1 else time) = max time 1 := by split <;> omega
  have hempty : Chain t₀.cNext t₀.calltodo ([] ++ queue) := h.calltodo
  obtain ⟨mid, rest, time', rfl, hplace, hinsert⟩ :=
    place_spec (t := t₀) hempty (Nat.lt_succ_of_le h.queue_le) (max time 1)
  have hchain : Chain t₀.cNext t₀.calltodo (mid ++ rest) := h.calltodo
  have hlinks := link_links (t := t₀) (p := p) mid.getLast? time'
  obtain ⟨hfree', hn, -, -⟩ := link_rest (t := t₀) (p := p) mid.getLast? time'
  have hnext : t₀.next mid.getLast? = rest.head? := hchain.follow
  refine ⟨t₀.link p mid.getLast? time', mid ++ p :: rest, ?_, hn, ⟨?_, ?_, ?_⟩, ?_⟩
  · unfold CalloutTable.timeout
    rw [hfree, htime]
    exact congrArg (· >>= fun r ↦ Except.ok (t₀.link p r.1 r.2)) hplace
  · have hinserted := hchain.insert hqueue hp
    rw [hnext] at hlinks
    rw [← hlinks] at hinserted
    exact hinserted
  · rw [hfree']
    apply hunused.congr
    intro i hi
    have hip : i ≠ p := by
      rintro rfl
      exact (List.nodup_cons.mp hpunused).1 hi
    apply link_cNext_of_ne hip
    intro hlast
    have himid : i ∈ mid ++ rest := List.mem_append_left rest (List.mem_of_getLast? hlast)
    exact hdisjoint i himid i (List.mem_cons_of_mem p hi) rfl
  · rw [hn]
    exact (perm_insert mid rest unused p).trans h.slots
  · rw [link_entries (t := t₀) hchain hqueue hp, ← hentries, hinsert]
    have hfunc : t₀.cFunc p = func := Function.update_self ..
    have harg : t₀.cArg p = arg := Function.update_self ..
    rw [hfunc, harg]

/-! ## Cancelled and called callouts -/

theorem unlink_entries (h : t.Lists (mid ++ p :: rest) unused) :
    (t.unlink mid.getLast? p).entries (mid ++ rest) = t.entries mid ++
      if 0 < t.cTime p then DeltaQueue.delay (t.cTime p) (t.entries rest)
      else t.entries rest := by
  have hqueue := (List.nodup_append.mp h.nodup).1
  obtain ⟨-, hrest, hdisjoint⟩ := List.nodup_append.mp hqueue
  have hnext : t.cNext p = rest.head? := h.calltodo.drop.2.eq_head?
  change (t.passTime p).entries (mid ++ rest) = _
  unfold passTime
  rw [hnext]
  cases rest with
  | nil =>
      have hdelay : (if 0 < t.cTime p then DeltaQueue.delay (t.cTime p) (t.entries [])
          else t.entries []) = [] := by
        split <;> rfl
      rw [hdelay, List.append_nil, List.append_nil]
      rfl
  | cons j rest =>
      obtain ⟨-, hj⟩ := List.nodup_cons.mp hrest
      have hjmid : j ∉ mid := fun hmem ↦
        hdisjoint j hmem j (List.mem_cons_of_mem p List.mem_cons_self) rfl
      dsimp only [List.head?_cons]
      by_cases hpositive : 0 < t.cTime p
      · rw [if_pos hpositive, if_pos hpositive]
        change (t.setTime j (t.cTime j + t.cTime p)).entries (mid ++ j :: rest) = _
        rw [entries_append, entries_setTime_of_notMem hjmid, entries_cons, cTime_setTime_self,
          entries_setTime_of_notMem (List.nodup_cons.mp hj).1]
        rfl
      · rw [if_neg hpositive, if_neg hpositive, ← entries_append]

theorem passTime_eq (p : ℕ) : ∃ cTime, t.passTime p = { t with cTime := cTime } := by
  unfold passTime
  cases t.cNext p with
  | none => exact ⟨t.cTime, rfl⟩
  | some p3 =>
      by_cases hpositive : 0 < t.cTime p
      · exact ⟨_, if_pos hpositive⟩
      · exact ⟨t.cTime, if_neg hpositive⟩

theorem unlink_links (p1 : Option ℕ) :
    Links.mk (t.unlink p1 p).calltodo (t.unlink p1 p).cNext =
      ⟨(Links.set ⟨t.calltodo, t.cNext⟩ p1 (t.cNext p)).head,
        Function.update (Links.set ⟨t.calltodo, t.cNext⟩ p1 (t.cNext p)).next p t.callfree⟩ := by
  obtain ⟨cTime, htime⟩ := passTime_eq (t := t) p
  unfold unlink
  rw [htime]
  rfl

theorem unlink_rest (p1 : Option ℕ) :
    (t.unlink p1 p).callfree = some p ∧ (t.unlink p1 p).ncallout = t.ncallout := by
  obtain ⟨cTime, htime⟩ := passTime_eq (t := t) p
  unfold unlink
  rw [htime]
  exact ⟨rfl, rfl⟩

theorem Lists.unlink (h : t.Lists (mid ++ p :: rest) unused) :
    (t.unlink mid.getLast? p).Lists (mid ++ rest) (p :: unused) := by
  have hlinks := unlink_links (t := t) (p := p) mid.getLast?
  obtain ⟨hfree, hn⟩ := unlink_rest (t := t) (p := p) mid.getLast?
  obtain ⟨hqueue, hunused, hdisjoint⟩ := List.nodup_append.mp h.nodup
  obtain ⟨-, hrest, hmidrest⟩ := List.nodup_append.mp hqueue
  have hpmid : p ∉ mid := fun hmem ↦ hmidrest p hmem p List.mem_cons_self rfl
  have hp : p ∉ mid ++ rest := fun hmem ↦ (List.mem_append.mp hmem).elim hpmid
    (List.nodup_cons.mp hrest).1
  have hpunused : p ∉ unused := fun hmem ↦
    hdisjoint p (List.mem_append_right mid List.mem_cons_self) p hmem rfl
  refine ⟨?_, ?_, ?_⟩
  · have hchain := (h.calltodo.unlink hqueue).update hp t.callfree
    exact (congrArg (fun L : Links ℕ ↦ Chain L.next L.head (mid ++ rest)) hlinks).mpr hchain
  · have hnext := congrArg Links.next hlinks
    dsimp only at hnext
    rw [hfree, hnext]
    refine ⟨rfl, ?_⟩
    rw [Function.update_self]
    apply Chain.update _ hpunused
    apply h.callfree.congr
    intro i hi
    apply cNext_setNext_of_ne
    intro hlast
    have himid : i ∈ mid ++ p :: rest := List.mem_append_left _ (List.mem_of_getLast? hlast)
    exact hdisjoint i himid i hi rfl
  · rw [hn]
    exact (perm_insert mid rest unused p).symm.trans h.slots

section Cancel

variable [DecidableEq F] [DecidableEq A]

theorem cancel_spec {pre : List ℕ} {n : ℕ} (h : t.Lists (pre ++ l) unused) (hn : l.length < n)
    (func : F) (arg : A) :
    ∃ t' left unused', t.cancel func arg n pre.getLast? = .ok t' ∧ t'.ncallout = t.ncallout ∧
      t'.Lists (pre ++ left) unused' ∧
      t'.entries (pre ++ left) = t.entries pre ++
        DeltaQueue.remove (fun call ↦ decide (call = (func, arg))) (t.entries l) := by
  induction l generalizing pre n with
  | nil =>
      cases n with
      | zero => exact absurd hn (Nat.not_lt_zero _)
      | succ n =>
          have hnext : t.next pre.getLast? = none := h.calltodo.follow
          refine ⟨t, [], unused, ?_, rfl, h, entries_append pre []⟩
          rw [cancel, hnext]
  | cons i l ih =>
      cases n with
      | zero => exact absurd hn (Nat.not_lt_zero _)
      | succ n =>
          have hnext : t.next pre.getLast? = some i := h.calltodo.follow
          have hcall : (t.cFunc i = func ∧ t.cArg i = arg) ↔
              (t.cFunc i, t.cArg i) = (func, arg) := Prod.mk_inj.symm
          rw [cancel, hnext]
          dsimp only
          by_cases hfound : t.cFunc i = func ∧ t.cArg i = arg
          · refine ⟨t.unlink pre.getLast? i, l, i :: unused, if_pos hfound,
              (unlink_rest _).2, h.unlink, ?_⟩
            rw [unlink_entries h, entries_cons, DeltaQueue.remove,
              if_pos (decide_eq_true (hcall.mp hfound))]
          · have hlast : (pre ++ [i]).getLast? = some i := List.getLast?_concat
            have h' : t.Lists (pre ++ [i] ++ l) unused := by
              rwa [List.append_assoc]
            obtain ⟨t', left, unused', hcancel, hn', hlists, hentries⟩ :=
              ih h' (Nat.lt_of_succ_lt_succ hn)
            rw [hlast] at hcancel
            rw [List.append_assoc] at hlists hentries
            refine ⟨t', i :: left, unused', (if_neg hfound).trans hcancel, hn', hlists, ?_⟩
            have hkeep : ¬decide ((t.cFunc i, t.cArg i) = (func, arg)) = true :=
              fun heq ↦ hfound (hcall.mpr (of_decide_eq_true heq))
            have hpre : t.entries (pre ++ [i]) = t.entries pre ++ t.entries [i] :=
              entries_append pre [i]
            rw [hpre, List.append_assoc] at hentries
            rw [entries_cons, DeltaQueue.remove, if_neg hkeep]
            exact hentries

theorem Lists.untimeout (h : t.Lists queue unused) (func : F) (arg : A) :
    ∃ t' queue' unused', t.untimeout func arg = .ok t' ∧ t'.ncallout = t.ncallout ∧
      t'.Lists queue' unused' ∧ t'.entries queue' =
        DeltaQueue.remove (fun call ↦ decide (call = (func, arg))) (t.entries queue) := by
  have h' : t.Lists ([] ++ queue) unused := h
  exact cancel_spec h' (Nat.lt_succ_of_le h.queue_le) func arg

end Cancel

theorem Lists.softclock_idle (h : t.Lists queue unused)
    (hdue : ¬DeltaQueue.Due (t.entries queue)) : t.softclock = (t, none) := by
  unfold softclock
  rw [h.calltodo.eq_head?]
  cases queue with
  | nil => rfl
  | cons p rest => exact if_pos (Int.not_le.mp hdue)

theorem softclock_eq_unlink (hhead : t.calltodo = some p) (hdue : t.cTime p ≤ 0) :
    t.softclock = (t.unlink none p, some ((t.cFunc p, t.cArg p), t.cTime p)) := by
  have htime : t.passTime p = t := by
    unfold passTime
    cases t.cNext p with
    | none => rfl
    | some p3 => exact if_neg (Int.not_lt.mpr hdue)
  unfold softclock unlink
  rw [hhead, htime]
  exact if_neg (Int.not_lt.mpr hdue)

theorem Lists.softclock_due (h : t.Lists (p :: rest) unused) (hdue : t.cTime p ≤ 0) :
    ∃ t', t.softclock = (t', some ((t.cFunc p, t.cArg p), t.cTime p)) ∧
      t'.ncallout = t.ncallout ∧ t'.Lists rest (p :: unused) ∧
      t'.entries rest = t.entries rest := by
  have h' : t.Lists ([] ++ p :: rest) unused := h
  refine ⟨t.unlink none p, softclock_eq_unlink h.calltodo.1 hdue, (unlink_rest none).2,
    h'.unlink, ?_⟩
  have hentries := unlink_entries h'
  rwa [if_neg (Int.not_lt.mpr hdue)] at hentries

/-- The loop of `softclock` calls what is due in front of the queue, and nothing else. -/
theorem Lists.softclocks {n : ℕ} (h : t.Lists queue unused) (hn : queue.length < n) :
    ∃ t' served left unused', queue = served ++ left ∧ t'.Lists left unused' ∧
      CalloutTable.softclocks n t = .ok (t', (t.entries served).map Prod.swap) ∧
      t'.entries left = t.entries left ∧ (∀ e ∈ t.entries served, e.1 ≤ 0) ∧
      ¬DeltaQueue.Due (t'.entries left) := by
  induction n generalizing t queue unused with
  | zero => exact absurd hn (Nat.not_lt_zero _)
  | succ n ih =>
      rw [CalloutTable.softclocks]
      by_cases hdue : DeltaQueue.Due (t.entries queue)
      · cases queue with
        | nil => cases hdue
        | cons p rest =>
            obtain ⟨t₁, hturn, -, hlists₁, hentries₁⟩ := h.softclock_due hdue
            obtain ⟨t', served, left, unused', rfl, hlists, hloop, hleft, hserved, hidle⟩ :=
              ih hlists₁ (Nat.lt_of_succ_lt_succ hn)
            rw [entries_append, entries_append] at hentries₁
            obtain ⟨hsame, hsame'⟩ := List.append_inj hentries₁ (by simp [entries])
            refine ⟨t', p :: served, left, unused', rfl, hlists, ?_, hleft.trans hsame', ?_, hidle⟩
            · rw [hturn]
              dsimp only
              rw [hloop, hsame]
              rfl
            · rw [entries_cons, ← hsame]
              exact List.forall_mem_cons.mpr ⟨hdue, hserved⟩
      · rw [h.softclock_idle hdue]
        exact ⟨t, [], queue, unused, rfl, h, rfl, rfl, nofun, hdue⟩

end CalloutTable

end VPanel.Kernel
