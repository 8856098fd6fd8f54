import Mathlib.Data.List.Perm.Basic
import VPanel.Library.EventRun

/-!
# The message queue of the pages

A message that arrives while the handler of an earlier one is at work has to
wait.  The scripts of a page run one at a time, but the handler may itself
enqueue messages, so the calls that are under way form a stack.
-/

namespace VPanel.Page.Queue

open EventRun

/-- A call under way: `processQueue` before the test of its loop, or the handler. -/
inductive Frame (α : Type)
  | loop
  | handler (msg : α)
  deriving DecidableEq

inductive Outcome
  | returned (update : Bool)
  | thrown
  deriving DecidableEq

structure Socket (α : Type) where
  msgQueue : List α
  processing : Bool
  frameCount : ℕ
  fps : ℕ
  frames : List (Frame α)
  deriving DecidableEq

inductive QueueEvent (α : Type)
  /-- A call of `enqueue`: by `ws.onmessage` on an empty stack, otherwise by the handler. -/
  | enqueue (msg : α)
  | loop
  | finish (outcome : Outcome)
  /-- The timer of the FPS counter. -/
  | second
  deriving DecidableEq

inductive Effect (α : Type)
  | quiet
  /-- The warning about a full queue. -/
  | dropped (msg : α)
  | handed (msg : α)
  | statusLabel
  | logged
  deriving DecidableEq

variable {α : Type}

/-- The first lines of `enqueue`. -/
def push (maxQueue : ℕ) (msgQueue : List α) (msg : α) : List α × Effect α :=
  if msgQueue.length ≥ maxQueue then
    (msgQueue.tail ++ [msg], (msgQueue.head?).elim .quiet .dropped)
  else (msgQueue ++ [msg], .quiet)

/-- `processQueue` up to the first test of its loop. -/
def processQueue (s : Socket α) : Socket α :=
  if s.processing then s else { s with processing := true, frames := .loop :: s.frames }

def enqueue (maxQueue : ℕ) (s : Socket α) (msg : α) : Socket α × Effect α :=
  (processQueue { s with msgQueue := (push maxQueue s.msgQueue msg).1 },
    (push maxQueue s.msgQueue msg).2)

/-- The loop test of `processQueue`, and the call of the handler. -/
def loopStep (s : Socket α) (callers : List (Frame α)) : Socket α × Effect α :=
  match s.msgQueue with
  | [] => ({ s with processing := false, frames := callers }, .quiet)
  | msg :: rest =>
      ({ s with
        msgQueue := rest
        frameCount := s.frameCount + 1
        frames := .handler msg :: s.frames }, .handed msg)

def Outcome.effect : Outcome → Effect α
  | .returned true => .statusLabel
  | .returned false => .quiet
  | .thrown => .logged

def step (maxQueue : ℕ) (s : Socket α) : QueueEvent α → Option (Socket α × Effect α)
  | .enqueue msg =>
      match s.frames with
      | .loop :: _ => none
      | _ => some (enqueue maxQueue s msg)
  | .loop =>
      match s.frames with
      | .loop :: callers => some (loopStep s callers)
      | _ => none
  | .finish outcome =>
      match s.frames with
      | .handler _ :: callers => some ({ s with frames := callers }, outcome.effect)
      | _ => none
  | .second =>
      match s.frames with
      | [] => some ({ s with fps := s.frameCount, frameCount := 0 }, .quiet)
      | _ => none

/-- The script behind `openWebSocket`. -/
def socket (α : Type) (maxQueue : ℕ) : Machine (Socket α) (QueueEvent α) (Effect α) where
  initial := ⟨[], false, 0, 0, []⟩
  step := step maxQueue

/-! ## What a run shows -/

abbrev Trace (α : Type) := List (QueueEvent α × Effect α)

def arrivals (tr : Trace α) : List α :=
  tr.filterMap fun e ↦ match e.1 with
    | .enqueue msg => some msg
    | _ => none

def handled (tr : Trace α) : List α :=
  tr.filterMap fun e ↦ match e.2 with
    | .handed msg => some msg
    | _ => none

def dropped (tr : Trace α) : List α :=
  tr.filterMap fun e ↦ match e.2 with
    | .dropped msg => some msg
    | _ => none

/-- The handler enqueues nothing. -/
def NoReentry (s : Socket α) : QueueEvent α → Prop
  | .enqueue _ => s.frames = []
  | _ => True

instance (s : Socket α) : (e : QueueEvent α) → Decidable (NoReentry s e)
  | .enqueue _ => decidable_of_iff _ List.isEmpty_iff
  | .loop | .finish _ | .second => inferInstanceAs (Decidable True)

/-- The rest of `processQueue` when the handler of each waiting message ends as given. -/
def drain (outcomes : List Outcome) : List (QueueEvent α) :=
  outcomes.flatMap (fun outcome ↦ [.loop, .finish outcome]) ++ [.loop]

/-! ## One step -/

/-- Where the scripts of the page are. -/
inductive Control (s : Socket α) : Prop
  | idle (hframes : s.frames = []) (hqueue : s.msgQueue = []) (hprocessing : s.processing = false)
  | testing (hframes : s.frames = [.loop]) (hprocessing : s.processing = true)
  | handling (msg : α) (hframes : s.frames = [.handler msg, .loop])
      (hprocessing : s.processing = true)

theorem Control.step {maxQueue : ℕ} {s t : Socket α} {e : QueueEvent α} {o : Effect α}
    (hs : Control s) (h : step maxQueue s e = some (t, o)) : Control t := by
  cases hs with
  | idle hframes hqueue hprocessing =>
      cases e with
      | enqueue msg =>
          simp only [Queue.step, hframes, enqueue, processQueue, hprocessing] at h
          cases h
          exact .testing rfl rfl
      | loop => simp [Queue.step, hframes] at h
      | finish outcome => simp [Queue.step, hframes] at h
      | second =>
          simp only [Queue.step, hframes] at h
          cases h
          exact .idle rfl hqueue hprocessing
  | testing hframes hprocessing =>
      cases e with
      | enqueue msg => simp [Queue.step, hframes] at h
      | loop =>
          simp only [Queue.step, hframes, loopStep] at h
          cases hqueue : s.msgQueue with
          | nil =>
              rw [hqueue] at h
              cases h
              exact .idle rfl rfl rfl
          | cons msg rest =>
              rw [hqueue] at h
              cases h
              exact .handling msg rfl hprocessing
      | finish outcome => simp [Queue.step, hframes] at h
      | second => simp [Queue.step, hframes] at h
  | handling msg hframes hprocessing =>
      cases e with
      | enqueue msg' =>
          simp only [Queue.step, hframes, enqueue, processQueue, hprocessing, reduceIte] at h
          cases h
          exact .handling msg rfl rfl
      | loop => simp [Queue.step, hframes] at h
      | finish outcome =>
          simp only [Queue.step, hframes] at h
          cases h
          exact .testing rfl hprocessing
      | second => simp [Queue.step, hframes] at h

/-- What a step does to the queue. -/
inductive QueueChange (maxQueue : ℕ) : List α → QueueEvent α → Effect α → List α → Prop
  | enqueue (q : List α) (msg : α) :
      QueueChange maxQueue q (.enqueue msg) (push maxQueue q msg).2 (push maxQueue q msg).1
  | handed (msg : α) (q : List α) : QueueChange maxQueue (msg :: q) .loop (.handed msg) q
  | returns : QueueChange maxQueue [] .loop .quiet []
  | finish (q : List α) (outcome : Outcome) :
      QueueChange maxQueue q (.finish outcome) outcome.effect q
  | second (q : List α) : QueueChange maxQueue q .second .quiet q

theorem msgQueue_processQueue (s : Socket α) : (processQueue s).msgQueue = s.msgQueue := by
  unfold processQueue
  split <;> rfl

theorem step_queueChange {maxQueue : ℕ} {s t : Socket α} {e : QueueEvent α} {o : Effect α}
    (h : step maxQueue s e = some (t, o)) : QueueChange maxQueue s.msgQueue e o t.msgQueue := by
  unfold step at h
  split at h
  next msg =>
    split at h
    · cases h
    · cases h
      rw [msgQueue_processQueue]
      exact .enqueue _ msg
  next =>
    split at h
    · unfold loopStep at h
      split at h
      next hqueue =>
        cases h
        rw [hqueue]
        exact .returns
      next msg rest hqueue =>
        cases h
        rw [hqueue]
        exact .handed msg rest
    · cases h
  next outcome =>
    split at h
    · cases h
      exact .finish _ outcome
    · cases h
  next =>
    split at h
    · cases h
      exact .second _
    · cases h

theorem push_cases {maxQueue : ℕ} (hmax : 1 ≤ maxQueue) (q : List α) (msg : α) :
    (q.length < maxQueue ∧ push maxQueue q msg = (q ++ [msg], .quiet)) ∨
      ∃ oldest rest, q = oldest :: rest ∧ maxQueue ≤ q.length ∧
        push maxQueue q msg = (rest ++ [msg], .dropped oldest) := by
  unfold push
  by_cases hfull : q.length ≥ maxQueue
  · rw [if_pos hfull]
    cases q with
    | nil => exact absurd (hmax.trans hfull) (by simp)
    | cons oldest rest => exact .inr ⟨oldest, rest, rfl, hfull, rfl⟩
  · rw [if_neg hfull]
    exact .inl ⟨Nat.lt_of_not_le hfull, rfl⟩

/-! ## Every message is accounted for -/

@[simp] theorem arrivals_concat (tr : Trace α) (e : QueueEvent α) (o : Effect α) :
    arrivals (tr ++ [(e, o)]) = arrivals tr ++ match e with
      | .enqueue msg => [msg]
      | _ => [] := by
  cases e <;> simp [arrivals]

@[simp] theorem handled_concat (tr : Trace α) (e : QueueEvent α) (o : Effect α) :
    handled (tr ++ [(e, o)]) = handled tr ++ match o with
      | .handed msg => [msg]
      | _ => [] := by
  cases o <;> simp [handled]

@[simp] theorem dropped_concat (tr : Trace α) (e : QueueEvent α) (o : Effect α) :
    dropped (tr ++ [(e, o)]) = dropped tr ++ match o with
      | .dropped msg => [msg]
      | _ => [] := by
  cases o <;> simp [dropped]

structure Accounted (maxQueue : ℕ) (tr : Trace α) (q : List α) : Prop where
  order : (handled tr ++ q).Sublist (arrivals tr)
  conserved : (arrivals tr).Perm (handled tr ++ dropped tr ++ q)
  bounded : q.length ≤ maxQueue

theorem Accounted.step {maxQueue : ℕ} (hmax : 1 ≤ maxQueue) {tr : Trace α} {q q' : List α}
    {e : QueueEvent α} {o : Effect α} (h : Accounted maxQueue tr q)
    (hq : QueueChange maxQueue q e o q') : Accounted maxQueue (tr ++ [(e, o)]) q' := by
  cases hq with
  | enqueue _ msg =>
      rcases push_cases hmax q msg with ⟨hlt, hpush⟩ | ⟨oldest, rest, rfl, -, hpush⟩
      · rw [hpush]
        refine ⟨?_, ?_, ?_⟩
        · simpa using h.order.append_right [msg]
        · simpa using h.conserved.append_right [msg]
        · rw [List.length_append]
          exact hlt
      · rw [hpush]
        refine ⟨?_, ?_, ?_⟩
        · have hskip : (handled tr ++ rest).Sublist (arrivals tr) :=
            ((List.Sublist.refl _).append (List.sublist_cons_self oldest rest)).trans h.order
          simpa using hskip.append_right [msg]
        · simpa using h.conserved.append_right [msg]
        · simpa using h.bounded
  | handed msg =>
      refine ⟨?_, ?_, ?_⟩
      · simpa using h.order
      · have hmove : (handled tr ++ dropped tr ++ msg :: q').Perm
            (handled tr ++ [msg] ++ dropped tr ++ q') := by
          simpa using List.perm_middle.append_left (handled tr)
        simpa using h.conserved.trans hmove
      · exact (Nat.le_succ _).trans h.bounded
  | returns => exact ⟨by simpa using h.order, by simpa using h.conserved, h.bounded⟩
  | finish _ outcome =>
      refine ⟨?_, ?_, h.bounded⟩
      · rcases outcome with (_ | _) | _ <;> simpa [Outcome.effect] using h.order
      · rcases outcome with (_ | _) | _ <;> simpa [Outcome.effect] using h.conserved
  | second => exact ⟨by simpa using h.order, by simpa using h.conserved, h.bounded⟩

theorem run_accounted {maxQueue : ℕ} (hmax : 1 ≤ maxQueue) {tr : Trace α} {s : Socket α}
    (h : Run (socket α maxQueue) tr s) : Accounted maxQueue tr s.msgQueue ∧ Control s := by
  refine h.invariant (I := fun tr s ↦ Accounted maxQueue tr s.msgQueue ∧ Control s) ?_ ?_
  · exact ⟨⟨.refl [], .refl [], Nat.zero_le _⟩, .idle rfl rfl rfl⟩
  · intro tr s e t o hs hstep
    exact ⟨hs.1.step hmax (step_queueChange hstep), hs.2.step hstep⟩

theorem Control.of_frames_nil {s : Socket α} (h : Control s) (hframes : s.frames = []) :
    s.msgQueue = [] ∧ s.processing = false := by
  cases h with
  | idle _ hqueue hprocessing => exact ⟨hqueue, hprocessing⟩
  | testing hframes' => simp [hframes] at hframes'
  | handling _ hframes' => simp [hframes] at hframes'

/-- Without calls from the handler the queue is empty at every arrival. -/
theorem dropped_eq_nil {maxQueue : ℕ} (hmax : 1 ≤ maxQueue) {tr : Trace α} {s : Socket α}
    (h : Run ((socket α maxQueue).within NoReentry) tr s) : dropped tr = [] := by
  induction h with
  | start => rfl
  | @step tr s t e o hrun hstep ih =>
      obtain ⟨hno, hstep⟩ := within_step_eq_some.mp hstep
      have hcontrol := (run_accounted hmax hrun.of_within).2
      have hq := step_queueChange hstep
      rw [dropped_concat, ih, List.nil_append]
      generalize hs : s.msgQueue = q at hq
      generalize t.msgQueue = q' at hq
      cases hq with
      | enqueue _ msg =>
          have hempty : q = [] := hs.symm.trans (hcontrol.of_frames_nil hno).1
          rcases push_cases hmax q msg with ⟨-, hpush⟩ | ⟨oldest, rest, hcons, -⟩
          · rw [hpush]
          · rw [hempty] at hcons
            cases hcons
      | handed => rfl
      | returns => rfl
      | finish _ outcome => rcases outcome with (_ | _) | _ <;> rfl
      | second => rfl

/-! ## The queue is drained -/

theorem replay_drain {maxQueue : ℕ} {outcomes : List Outcome} {s : Socket α}
    (hframes : s.frames = [.loop]) (hlen : outcomes.length = s.msgQueue.length) :
    ∃ tr t, (socket α maxQueue).replay s (drain outcomes) = some (tr, t) ∧
      handled tr = s.msgQueue ∧ t.frames = [] := by
  induction outcomes generalizing s with
  | nil =>
      have hempty : s.msgQueue = [] := List.eq_nil_of_length_eq_zero hlen.symm
      refine ⟨[(.loop, .quiet)], { s with processing := false, frames := [] }, ?_, ?_, rfl⟩
      · simp [drain, Machine.replay, socket, Queue.step, hframes, loopStep, hempty]
      · rw [hempty]
        rfl
  | cons outcome outcomes ih =>
      obtain ⟨msg, rest, hqueue⟩ := List.exists_cons_of_length_pos (l := s.msgQueue)
        (by rw [← hlen, List.length_cons]; omega)
      have hloop : step maxQueue s .loop = some ({ s with
          msgQueue := rest
          frameCount := s.frameCount + 1
          frames := [.handler msg, .loop] }, .handed msg) := by
        simp [Queue.step, hframes, loopStep, hqueue]
      obtain ⟨tr, t, hrun, hhandled, hreturned⟩ := @ih
        { s with msgQueue := rest, frameCount := s.frameCount + 1, frames := [.loop] } rfl
        (by simpa [hqueue] using hlen)
      refine ⟨(.loop, .handed msg) :: (.finish outcome, outcome.effect) :: tr, t,
        replay_cons hloop (replay_cons rfl hrun), ?_, hreturned⟩
      rw [hqueue, ← show handled tr = rest from hhandled]
      rcases outcome with (_ | _) | _ <;> rfl

/-! ## The queue is sound -/

/-- What holds in a state a run reaches. -/
structure QueueSound (maxQueue : ℕ) (tr : Trace α) (s : Socket α) : Prop where
  /-- Handled in the order of arrival, each arrival at most once. -/
  fifo : (handled tr).Sublist (arrivals tr)
  /-- What arrived was handled or dropped, or is waiting. -/
  conserved : (arrivals tr).Perm (handled tr ++ dropped tr ++ s.msgQueue)
  bounded : s.msgQueue.length ≤ maxQueue
  /-- A message is only dropped when it is the oldest one of a full queue and another arrives. -/
  dropsOldest : ∀ e t msg, step maxQueue s e = some (t, .dropped msg) →
    ∃ arrival rest, e = .enqueue arrival ∧ s.msgQueue = msg :: rest ∧
      s.msgQueue.length = maxQueue
  /-- A handler that throws leaves what one that returns leaves. -/
  thrown : ∀ t o, step maxQueue s (.finish .thrown) = some (t, o) →
    t.msgQueue = s.msgQueue ∧ ∀ update,
      step maxQueue s (.finish (.returned update)) = some (t, (Outcome.returned update).effect)
  /-- The outermost call has returned. -/
  idle : s.frames = [] → s.msgQueue = [] ∧ s.processing = false
  /-- The next message is then handed over at once. -/
  handsNext : s.frames = [] → ∀ msg, ∃ tr' t,
    (socket α maxQueue).replay s [.enqueue msg, .loop] = some (tr', t) ∧ handled tr' = [msg]
  /-- `enqueue` returns once the handlers of the waiting messages do. -/
  returns : s.frames = [.loop] → ∀ outcomes, outcomes.length = s.msgQueue.length →
    ∃ tr' t, (socket α maxQueue).replay s (drain outcomes) = some (tr', t) ∧
      handled tr' = s.msgQueue ∧ t.frames = []

theorem step_dropped {maxQueue : ℕ} (hmax : 1 ≤ maxQueue) {s t : Socket α} {e : QueueEvent α}
    {msg : α} (h : step maxQueue s e = some (t, .dropped msg)) :
    ∃ arrival rest, e = .enqueue arrival ∧ s.msgQueue = msg :: rest ∧
      maxQueue ≤ s.msgQueue.length := by
  have hq := step_queueChange h
  generalize s.msgQueue = q at hq ⊢
  generalize t.msgQueue = q' at hq
  generalize ho : Effect.dropped msg = o at hq
  cases hq with
  | enqueue _ arrival =>
      rcases push_cases hmax q arrival with ⟨-, hpush⟩ | ⟨oldest, rest, hqueue, hfull, hpush⟩
      · rw [hpush] at ho
        cases ho
      · rw [hpush] at ho
        cases ho
        exact ⟨arrival, rest, rfl, hqueue, hfull⟩
  | handed => cases ho
  | returns => cases ho
  | finish _ outcome => rcases outcome with (_ | _) | _ <;> cases ho
  | second => cases ho

theorem step_thrown {maxQueue : ℕ} {s t : Socket α} {o : Effect α}
    (h : step maxQueue s (.finish .thrown) = some (t, o)) (update : Bool) :
    t.msgQueue = s.msgQueue ∧
      step maxQueue s (.finish (.returned update)) = some (t, (Outcome.returned update).effect) := by
  cases hframes : s.frames with
  | nil => simp [step, hframes] at h
  | cons frame callers =>
      cases frame with
      | loop => simp [step, hframes] at h
      | handler msg =>
          simp only [step, hframes] at h ⊢
          cases h
          exact ⟨rfl, rfl⟩

theorem replay_arrival {maxQueue : ℕ} (hmax : 1 ≤ maxQueue) {s : Socket α} (hs : Control s)
    (hframes : s.frames = []) (msg : α) :
    ∃ tr t, (socket α maxQueue).replay s [.enqueue msg, .loop] = some (tr, t) ∧
      handled tr = [msg] := by
  obtain ⟨hqueue, hprocessing⟩ := hs.of_frames_nil hframes
  have hpush : push maxQueue [] msg = ([msg], .quiet) := if_neg (Nat.not_le.mpr hmax)
  have henqueue : step maxQueue s (.enqueue msg) = some ({ s with
      msgQueue := [msg]
      processing := true
      frames := [.loop] }, .quiet) := by
    simp [step, hframes, hqueue, hpush, enqueue, processQueue, hprocessing]
  exact ⟨_, _, replay_cons henqueue (replay_cons rfl rfl), rfl⟩

/-- The queue is bounded and keeps the order, and no handler can freeze it. -/
theorem message_queue_sound {maxQueue : ℕ} (hmax : 1 ≤ maxQueue) :
    (∀ (tr : Trace α) (s : Socket α), Run (socket α maxQueue) tr s → QueueSound maxQueue tr s) ∧
      ∀ (tr : Trace α) (s : Socket α), Run ((socket α maxQueue).within NoReentry) tr s →
        dropped tr = [] := by
  refine ⟨fun tr s h ↦ ?_, fun tr s ↦ dropped_eq_nil hmax⟩
  obtain ⟨haccounted, hcontrol⟩ := run_accounted hmax h
  constructor
  · exact (List.sublist_append_left _ _).trans haccounted.order
  · exact haccounted.conserved
  · exact haccounted.bounded
  · intro e t msg hstep
    obtain ⟨arrival, rest, he, hqueue, hfull⟩ := step_dropped hmax hstep
    exact ⟨arrival, rest, he, hqueue, le_antisymm haccounted.bounded hfull⟩
  · intro t o hstep
    exact ⟨(step_thrown hstep true).1, fun update ↦ (step_thrown hstep update).2⟩
  · exact hcontrol.of_frames_nil
  · exact fun hframes ↦ replay_arrival hmax hcontrol hframes
  · exact fun hframes outcomes hlen ↦ replay_drain hframes hlen

/-- The handler of 1 enqueues 2 and 3 and throws; the queue has room for one. -/
theorem message_queue_sound_reentrant : ∃ tr s, Run (socket ℕ 1) tr s ∧ QueueSound 1 tr s ∧
    handled tr = [1, 3] ∧ dropped tr = [2] ∧ s.frames = [] := by
  have hreplay : (socket ℕ 1).replay (socket ℕ 1).initial [.enqueue 1, .loop, .enqueue 2,
    .enqueue 3, .finish .thrown, .loop, .finish (.returned true), .loop] = some (_, _) := rfl
  have hrun := Run.replay .start hreplay
  exact ⟨_, _, hrun, (message_queue_sound le_rfl).1 _ _ hrun, rfl, rfl, rfl⟩

end VPanel.Page.Queue
