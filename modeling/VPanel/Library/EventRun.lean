import Mathlib.Data.List.Nodup
import Mathlib.Data.List.TakeWhile

/-!
# Runs of a machine

A machine takes one event at a time.  An event may be impossible in a state,
and a step has an output.  A run records the events with their outputs, the
latest at the end.
-/

namespace EventRun

structure Machine (σ ε ω : Type) where
  initial : σ
  step : σ → ε → Option (σ × ω)

variable {σ ε ω : Type} {M : Machine σ ε ω}

def Machine.within (M : Machine σ ε ω) (P : σ → ε → Prop) [∀ s e, Decidable (P s e)] :
    Machine σ ε ω where
  initial := M.initial
  step s e := if P s e then M.step s e else none

/-- The steps of a run and the state it ends in. -/
inductive Run (M : Machine σ ε ω) : List (ε × ω) → σ → Prop
  | start : Run M [] M.initial
  | step {tr : List (ε × ω)} {s t : σ} {e : ε} {o : ω} (h : Run M tr s)
      (hstep : M.step s e = some (t, o)) : Run M (tr ++ [(e, o)]) t

theorem Run.invariant {I : List (ε × ω) → σ → Prop} (hstart : I [] M.initial)
    (hkeep : ∀ tr s e t o, I tr s → M.step s e = some (t, o) → I (tr ++ [(e, o)]) t)
    {tr : List (ε × ω)} {s : σ} (h : Run M tr s) : I tr s := by
  induction h with
  | start => exact hstart
  | step _ hstep ih => exact hkeep _ _ _ _ _ ih hstep

theorem eq_of_map_output {x : Option σ} {t : σ} {o o' : ω} (h : x.map (·, o) = some (t, o')) :
    x = some t ∧ o' = o := by
  obtain ⟨u, hu, heq⟩ := Option.map_eq_some_iff.mp h
  obtain ⟨rfl, rfl⟩ : u = t ∧ o = o' := by simpa using heq
  exact ⟨hu, rfl⟩

theorem find?_of_nodup {α κ : Type} [DecidableEq κ] {key : α → κ} {l : List α}
    (hnodup : (l.map key).Nodup) {a : α} (ha : a ∈ l) : l.find? (key · = key a) = some a := by
  cases hfind : l.find? (key · = key a) with
  | none => exact absurd (decide_eq_true rfl) (List.find?_eq_none.mp hfind a ha)
  | some b =>
      have hkey : key b = key a := by simpa using List.find?_some hfind
      rw [List.inj_on_of_nodup_map hnodup (List.mem_of_find?_eq_some hfind) ha hkey]

section Within

variable {P : σ → ε → Prop} [∀ s e, Decidable (P s e)]

theorem within_step_eq_some {s : σ} {e : ε} {r : σ × ω} :
    (M.within P).step s e = some r ↔ P s e ∧ M.step s e = some r :=
  Option.ite_none_right_eq_some

theorem Run.of_within {tr : List (ε × ω)} {s : σ} (h : Run (M.within P) tr s) : Run M tr s := by
  induction h with
  | start => exact .start
  | step _ hstep ih => exact ih.step (within_step_eq_some.mp hstep).2

end Within

/-! ## Executing events -/

/-- Take the events in order from a state; `none` when one is impossible. -/
def Machine.replay (M : Machine σ ε ω) : σ → List ε → Option (List (ε × ω) × σ)
  | s, [] => some ([], s)
  | s, e :: es => do
      let (t, o) ← M.step s e
      let (tr, u) ← M.replay t es
      some ((e, o) :: tr, u)

theorem replay_cons_eq_some {e : ε} {es : List ε} {tr : List (ε × ω)} {s t : σ}
    (h : M.replay s (e :: es) = some (tr, t)) :
    ∃ u o tr', M.step s e = some (u, o) ∧ M.replay u es = some (tr', t) ∧ tr = (e, o) :: tr' := by
  rw [Machine.replay, Option.bind_eq_bind, Option.bind_eq_some_iff] at h
  obtain ⟨⟨u, o⟩, hstep, h⟩ := h
  rw [Option.bind_eq_bind, Option.bind_eq_some_iff] at h
  obtain ⟨⟨tr', v⟩, hrest, heq⟩ := h
  obtain ⟨rfl, rfl⟩ : (e, o) :: tr' = tr ∧ v = t := by simpa using heq
  exact ⟨u, o, tr', hstep, hrest, rfl⟩

theorem replay_cons {e : ε} {es : List ε} {tr : List (ε × ω)} {s t u : σ} {o : ω}
    (hstep : M.step s e = some (t, o)) (hrest : M.replay t es = some (tr, u)) :
    M.replay s (e :: es) = some ((e, o) :: tr, u) := by
  simp only [Machine.replay, hstep, hrest, Option.bind_eq_bind, Option.bind_some]

theorem replay_append {es fs : List ε} {tr tr' : List (ε × ω)} {s t u : σ}
    (hes : M.replay s es = some (tr, t)) (hfs : M.replay t fs = some (tr', u)) :
    M.replay s (es ++ fs) = some (tr ++ tr', u) := by
  induction es generalizing s tr with
  | nil =>
      obtain ⟨rfl, rfl⟩ : [] = tr ∧ s = t := by simpa [Machine.replay] using hes
      exact hfs
  | cons e es ih =>
      obtain ⟨v, o, tr₁, hstep, hrest, rfl⟩ := replay_cons_eq_some hes
      exact replay_cons hstep (ih hrest)

theorem Run.replay {es : List ε} {pre tr : List (ε × ω)} {s t : σ} (h : Run M pre s)
    (hes : M.replay s es = some (tr, t)) : Run M (pre ++ tr) t := by
  induction es generalizing pre s tr with
  | nil =>
      obtain ⟨rfl, rfl⟩ : [] = tr ∧ s = t := by simpa [Machine.replay] using hes
      rwa [List.append_nil]
  | cons e es ih =>
      obtain ⟨u, o, tr', hstep, hrest, rfl⟩ := replay_cons_eq_some hes
      have hrun := ih (h.step hstep) hrest
      rwa [List.append_assoc] at hrun

theorem map_fst_replay {es : List ε} {tr : List (ε × ω)} {s t : σ}
    (hes : M.replay s es = some (tr, t)) : tr.map Prod.fst = es := by
  induction es generalizing s tr with
  | nil =>
      obtain ⟨rfl, -⟩ : [] = tr ∧ s = t := by simpa [Machine.replay] using hes
      rfl
  | cons e es ih =>
      obtain ⟨u, o, tr', -, hrest, rfl⟩ := replay_cons_eq_some hes
      rw [List.map_cons, ih hrest]

theorem exists_run_of_replay {es : List ε} {t : σ}
    (h : (M.replay M.initial es).map Prod.snd = some t) :
    ∃ tr, tr.map Prod.fst = es ∧ Run M tr t := by
  obtain ⟨⟨tr, u⟩, hes, rfl⟩ := Option.map_eq_some_iff.mp h
  exact ⟨tr, map_fst_replay hes, Run.replay .start hes⟩

/-! ## The time between two events -/

/-- Where a history stands with respect to an event that opens a period and
the next event that closes it. -/
inductive Period
  | before | during | past
  deriving DecidableEq

section Period

variable {α : Type} (opens closes : α → Bool)

def since (l : List α) : List α := l.dropWhile fun a ↦ !opens a

/-- The part of a history from the opening event to the closing one. -/
def window (l : List α) : List α := (since opens l).takeWhile fun a ↦ !closes a

def period (l : List α) : Period :=
  if since opens l = [] then .before
  else if (since opens l).any closes then .past
  else .during

def Period.next (a : α) : Period → Period
  | .before => if opens a then if closes a then .past else .during else .before
  | .during => if closes a then .past else .during
  | .past => .past

theorem Period.next_eq_self {a : α} (hopens : opens a = false) (hcloses : closes a = false)
    (p : Period) : p.next opens closes a = p := by
  cases p <;> simp [next, hopens, hcloses]

theorem Period.next_ne_during {a : α} (hcloses : closes a = true) (p : Period) :
    p.next opens closes a ≠ .during := by
  cases p <;> cases hopens : opens a <;> simp [next, hcloses, hopens]

theorem since_concat (l : List α) (a : α) :
    since opens (l ++ [a]) =
      if since opens l = [] then if opens a then [a] else [] else since opens l ++ [a] := by
  rw [since, List.dropWhile_append, ← since]
  cases since opens l with
  | nil => cases ha : opens a <;> simp [ha]
  | cons b m => simp

theorem period_concat (l : List α) (a : α) :
    period opens closes (l ++ [a]) = (period opens closes l).next opens closes a := by
  rw [period, period, since_concat]
  by_cases hnil : since opens l = []
  · cases ho : opens a <;> cases hc : closes a <;> simp [hnil, ho, hc, Period.next]
  · cases hany : (since opens l).any closes <;> cases hc : closes a <;>
      simp [hnil, hany, hc, Period.next, -List.any_eq_true, -List.any_eq_false]

theorem takeWhile_append_of_any {l : List α} (h : l.any closes = true) (m : List α) :
    (l ++ m).takeWhile (fun a ↦ !closes a) = l.takeWhile fun a ↦ !closes a := by
  induction l with
  | nil => cases h
  | cons a l ih =>
      cases ha : closes a with
      | true => simp [ha]
      | false =>
          have hl : l.any closes = true := by simpa [ha] using h
          simp [ha, ih hl]

theorem takeWhile_of_not_any {l : List α} (h : l.any closes = false) :
    (l.takeWhile fun a ↦ !closes a) = l :=
  List.takeWhile_eq_self_iff.mpr fun a ha ↦ by simpa using List.any_eq_false.mp h a ha

theorem window_concat (l : List α) (a : α) :
    window opens closes (l ++ [a]) =
      window opens closes l ++
        if period opens closes (l ++ [a]) = .during then [a] else [] := by
  rw [window, window, period, since_concat]
  by_cases hnil : since opens l = []
  · cases opens a <;> cases hc : closes a <;> simp [hnil, hc]
  · cases hany : (since opens l).any closes with
    | true =>
        rw [if_neg hnil, takeWhile_append_of_any closes hany]
        simp [hany, -List.any_eq_true]
    | false =>
        rw [if_neg hnil, takeWhile_of_not_any closes hany,
          List.takeWhile_append_of_pos fun b hb ↦ by simpa using List.any_eq_false.mp hany b hb]
        cases hc : closes a <;> simp [hany, hc, -List.any_eq_false]

end Period

/-! ## Machines with the same runs -/

section Agree

variable {τ : Type} {N : Machine τ ε ω} {R : σ → τ → Prop}

/-- Both steps are impossible, or both have the same output and lead to related states. -/
inductive Agree (R : σ → τ → Prop) : Option (σ × ω) → Option (τ × ω) → Prop
  | impossible : Agree R none none
  | step {s : σ} {t : τ} (h : R s t) (o : ω) : Agree R (some (s, o)) (some (t, o))

theorem Agree.flip {x : Option (σ × ω)} {y : Option (τ × ω)} (h : Agree R x y) :
    Agree (fun t s ↦ R s t) y x := by
  cases h with
  | impossible => exact .impossible
  | step h o => exact .step (R := fun t s ↦ R s t) h o

theorem Run.transfer (hinitial : R M.initial N.initial)
    (hstep : ∀ s t e, R s t → Agree R (M.step s e) (N.step t e))
    {tr : List (ε × ω)} {s : σ} (h : Run M tr s) : ∃ t, Run N tr t ∧ R s t := by
  induction h with
  | start => exact ⟨N.initial, .start, hinitial⟩
  | @step _ s s' e _ _ hnext ih =>
      obtain ⟨t, hrun, hrelated⟩ := ih
      have hagree := hstep s t e hrelated
      rw [hnext] at hagree
      cases htarget : N.step t e with
      | none =>
          rw [htarget] at hagree
          cases hagree
      | some r =>
          rw [htarget] at hagree
          cases hagree with
          | step hrelated' => exact ⟨_, hrun.step htarget, hrelated'⟩

theorem traces_eq (hinitial : R M.initial N.initial)
    (hstep : ∀ s t e, R s t → Agree R (M.step s e) (N.step t e)) (tr : List (ε × ω)) :
    (∃ s, Run M tr s) ↔ ∃ t, Run N tr t := by
  constructor
  · rintro ⟨s, hrun⟩
    obtain ⟨t, hrun', -⟩ := hrun.transfer hinitial hstep
    exact ⟨t, hrun'⟩
  · rintro ⟨t, hrun⟩
    have hback : ∀ t s e, R s t → Agree (fun t s ↦ R s t) (N.step t e) (M.step s e) :=
      fun t s e h ↦ (hstep s t e h).flip
    obtain ⟨s, hrun', -⟩ := Run.transfer (R := fun t s ↦ R s t) hinitial hback hrun
    exact ⟨s, hrun'⟩

end Agree

end EventRun
