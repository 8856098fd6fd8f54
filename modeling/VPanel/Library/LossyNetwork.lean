import Mathlib.Algebra.Order.Group.Multiset
import Mathlib.Data.Multiset.Filter
import Mathlib.Tactic.Abel
import VPanel.Library.EventRun

/-!
# A network of datagrams

A datagram on its way may be lost or duplicated, and one may overtake another.
The receiver is a machine of its own, which takes the arrivals between its
other events.
-/

namespace LossyNetwork

open EventRun

/-- Which events of a receiver are arrivals. -/
structure Port (π ε : Type) where
  arrival : π → ε
  arrivalOf : ε → Option π
  arrivalOf_arrival : ∀ d, arrivalOf (arrival d) = some d

inductive NetworkEvent (π ε : Type)
  | send (d : π)
  | lose (d : π)
  | duplicate (d : π)
  | deliver (d : π)
  /-- An event of the receiver that is no arrival. -/
  | own (e : ε)
  deriving DecidableEq

structure Network (π σ : Type) where
  inFlight : Multiset π
  receiver : σ

variable {π σ ε ω : Type}

/-- A receiver behind a network.  The output is the receiver's step, if it makes one. -/
def attach [DecidableEq π] (M : Machine σ ε ω) (port : Port π ε) :
    Machine (Network π σ) (NetworkEvent π ε) (Option (ε × ω)) where
  initial := ⟨0, M.initial⟩
  step n
    | .send d => some ({ n with inFlight := d ::ₘ n.inFlight }, none)
    | .lose d =>
        if d ∈ n.inFlight then some ({ n with inFlight := n.inFlight.erase d }, none) else none
    | .duplicate d =>
        if d ∈ n.inFlight then some ({ n with inFlight := d ::ₘ n.inFlight }, none) else none
    | .deliver d =>
        if d ∈ n.inFlight then
          (M.step n.receiver (port.arrival d)).map fun r ↦
            (⟨n.inFlight.erase d, r.1⟩, some (port.arrival d, r.2))
        else none
    | .own e =>
        if (port.arrivalOf e).isSome then none
        else (M.step n.receiver e).map fun r ↦ ({ n with receiver := r.1 }, some (e, r.2))

abbrev NetworkTrace (π ε ω : Type) := List (NetworkEvent π ε × Option (ε × ω))

section Traces

variable (tr : NetworkTrace π ε ω)

def sent : List π :=
  tr.filterMap fun x ↦ match x.1 with
    | .send d => some d
    | _ => none

def lost : List π :=
  tr.filterMap fun x ↦ match x.1 with
    | .lose d => some d
    | _ => none

def duplicated : List π :=
  tr.filterMap fun x ↦ match x.1 with
    | .duplicate d => some d
    | _ => none

def delivered : List π :=
  tr.filterMap fun x ↦ match x.1 with
    | .deliver d => some d
    | _ => none

/-- The steps of the receiver. -/
def receiverSteps : List (ε × ω) := tr.filterMap Prod.snd

end Traces

@[simp] theorem sent_concat (tr : NetworkTrace π ε ω) (e : NetworkEvent π ε)
    (o : Option (ε × ω)) :
    sent (tr ++ [(e, o)]) = sent tr ++ match e with
      | .send d => [d]
      | _ => [] := by
  cases e <;> simp [sent]

@[simp] theorem lost_concat (tr : NetworkTrace π ε ω) (e : NetworkEvent π ε)
    (o : Option (ε × ω)) :
    lost (tr ++ [(e, o)]) = lost tr ++ match e with
      | .lose d => [d]
      | _ => [] := by
  cases e <;> simp [lost]

@[simp] theorem duplicated_concat (tr : NetworkTrace π ε ω) (e : NetworkEvent π ε)
    (o : Option (ε × ω)) :
    duplicated (tr ++ [(e, o)]) = duplicated tr ++ match e with
      | .duplicate d => [d]
      | _ => [] := by
  cases e <;> simp [duplicated]

@[simp] theorem delivered_concat (tr : NetworkTrace π ε ω) (e : NetworkEvent π ε)
    (o : Option (ε × ω)) :
    delivered (tr ++ [(e, o)]) = delivered tr ++ match e with
      | .deliver d => [d]
      | _ => [] := by
  cases e <;> simp [delivered]

@[simp] theorem receiverSteps_concat (tr : NetworkTrace π ε ω) (e : NetworkEvent π ε)
    (o : Option (ε × ω)) : receiverSteps (tr ++ [(e, o)]) = receiverSteps tr ++ o.toList := by
  cases o <;> simp [receiverSteps]

/-! ## What a step can do -/

/-- What a step does to the datagrams on their way. -/
inductive Moves (M : Machine σ ε ω) (port : Port π ε) (n : Network π σ) :
    NetworkEvent π ε → Option (ε × ω) → Network π σ → Prop
  | send (d : π) : Moves M port n (.send d) none { n with inFlight := d ::ₘ n.inFlight }
  | lose (d : π) (rest : Multiset π) (h : n.inFlight = d ::ₘ rest) :
      Moves M port n (.lose d) none { n with inFlight := rest }
  | duplicate (d : π) (h : d ∈ n.inFlight) :
      Moves M port n (.duplicate d) none { n with inFlight := d ::ₘ n.inFlight }
  | deliver (d : π) (rest : Multiset π) (h : n.inFlight = d ::ₘ rest) (t : σ) (o : ω)
      (hstep : M.step n.receiver (port.arrival d) = some (t, o)) :
      Moves M port n (.deliver d) (some (port.arrival d, o)) ⟨rest, t⟩
  | own (e : ε) (hown : port.arrivalOf e = none) (t : σ) (o : ω)
      (hstep : M.step n.receiver e = some (t, o)) :
      Moves M port n (.own e) (some (e, o)) { n with receiver := t }

variable [DecidableEq π] {M : Machine σ ε ω} {port : Port π ε} {n n' : Network π σ} {e : NetworkEvent π ε}
  {o : Option (ε × ω)} {tr : NetworkTrace π ε ω}

theorem moves_of_step (h : (attach M port).step n e = some (n', o)) : Moves M port n e o n' := by
  cases e with
  | send d =>
      cases h
      exact .send d
  | lose d =>
      obtain ⟨hmem, h⟩ := Option.ite_none_right_eq_some.mp h
      cases h
      exact .lose d _ (Multiset.cons_erase hmem).symm
  | duplicate d =>
      obtain ⟨hmem, h⟩ := Option.ite_none_right_eq_some.mp h
      cases h
      exact .duplicate d hmem
  | deliver d =>
      obtain ⟨hmem, h⟩ := Option.ite_none_right_eq_some.mp h
      obtain ⟨⟨t, o'⟩, hstep, h⟩ := Option.map_eq_some_iff.mp h
      cases h
      exact .deliver d _ (Multiset.cons_erase hmem).symm t o' hstep
  | own e =>
      obtain ⟨hown, h⟩ := Option.ite_none_left_eq_some.mp h
      obtain ⟨⟨t, o'⟩, hstep, h⟩ := Option.map_eq_some_iff.mp h
      cases h
      exact .own e (Option.not_isSome_iff_eq_none.mp hown) t o' hstep

/-! ## Runs -/


/-- The receiver makes a run of its own. -/
theorem run_receiver (h : Run (attach M port) tr n) : Run M (receiverSteps tr) n.receiver := by
  induction h with
  | start => exact .start
  | @step tr n n' e o _ hstep ih =>
      rw [receiverSteps_concat]
      cases moves_of_step hstep with
      | send d => simpa using ih
      | lose d rest _ => simpa using ih
      | duplicate d _ => simpa using ih
      | deliver d rest _ t o hreceiver => exact ih.step hreceiver
      | own e _ t o hreceiver => exact ih.step hreceiver

/-- What arrives at the receiver is what is delivered. -/
theorem filterMap_receiverSteps (h : Run (attach M port) tr n) :
    (receiverSteps tr).filterMap (fun x ↦ port.arrivalOf x.1) = delivered tr := by
  induction h with
  | start => rfl
  | @step tr n n' e o _ hstep ih =>
      rw [receiverSteps_concat, delivered_concat, List.filterMap_append, ih]
      cases moves_of_step hstep with
      | send d => rfl
      | lose d rest _ => rfl
      | duplicate d _ => rfl
      | deliver d rest _ t o _ => simp [port.arrivalOf_arrival]
      | own e hown t o _ => simp [hown]

/-- Every copy that is made is on its way, lost or delivered, and nothing else is. -/
theorem conserved (h : Run (attach M port) tr n) :
    (delivered tr : Multiset π) + lost tr + n.inFlight = sent tr + duplicated tr := by
  induction h with
  | start => rfl
  | @step tr n n' e o _ hstep ih =>
      rw [delivered_concat, lost_concat, sent_concat, duplicated_concat]
      simp only [← Multiset.coe_add]
      cases moves_of_step hstep with
      | send d =>
          have hadd : (delivered tr : Multiset π) + lost tr + ({d} + n.inFlight) =
              sent tr + {d} + duplicated tr := by
            rw [add_left_comm, ih]
            abel
          simpa using hadd
      | lose d rest hflight =>
          have hadd : (delivered tr : Multiset π) + (lost tr + {d}) + rest =
              sent tr + duplicated tr := by
            rw [← ih, hflight, ← Multiset.singleton_add]
            abel
          simpa using hadd
      | duplicate d hmem =>
          have hadd : (delivered tr : Multiset π) + lost tr + ({d} + n.inFlight) =
              sent tr + (duplicated tr + {d}) := by
            rw [add_left_comm, ih]
            abel
          simpa using hadd
      | deliver d rest hflight t o _ =>
          have hadd : (delivered tr : Multiset π) + {d} + lost tr + rest =
              sent tr + duplicated tr := by
            rw [← ih, hflight, ← Multiset.singleton_add]
            abel
          simpa using hadd
      | own e _ t o _ => simpa using ih

/-- Only copies of what was sent are on their way, and only they are delivered. -/
theorem genuine (h : Run (attach M port) tr n) :
    (∀ d ∈ n.inFlight, d ∈ sent tr) ∧ ∀ d ∈ delivered tr, d ∈ sent tr := by
  induction h with
  | start => exact ⟨fun d hd ↦ absurd hd (Multiset.notMem_zero d), nofun⟩
  | @step tr n n' e o _ hstep ih =>
      obtain ⟨hflight, hdelivered⟩ := ih
      simp only [sent_concat, delivered_concat, List.mem_append]
      cases moves_of_step hstep with
      | send d =>
          refine ⟨fun x hx ↦ ?_, fun x hx ↦ Or.inl (hdelivered x (by simpa using hx))⟩
          rcases Multiset.mem_cons.mp hx with rfl | hx
          · exact Or.inr (List.mem_singleton_self _)
          · exact Or.inl (hflight x hx)
      | lose d rest heq =>
          refine ⟨fun x hx ↦ Or.inl (hflight x ?_),
            fun x hx ↦ Or.inl (hdelivered x (by simpa using hx))⟩
          rw [heq]
          exact Multiset.mem_cons_of_mem hx
      | duplicate d hmem =>
          refine ⟨fun x hx ↦ Or.inl ?_, fun x hx ↦ Or.inl (hdelivered x (by simpa using hx))⟩
          rcases Multiset.mem_cons.mp hx with rfl | hx
          · exact hflight _ hmem
          · exact hflight x hx
      | deliver d rest heq t o _ =>
          refine ⟨fun x hx ↦ Or.inl (hflight x ?_), fun x hx ↦ Or.inl ?_⟩
          · rw [heq]
            exact Multiset.mem_cons_of_mem hx
          · rcases hx with hx | hx
            · exact hdelivered x hx
            · rw [List.mem_singleton.mp hx]
              apply hflight
              rw [heq]
              exact Multiset.mem_cons_self ..
      | own e _ t o _ =>
          exact ⟨fun x hx ↦ Or.inl (hflight x hx),
            fun x hx ↦ Or.inl (hdelivered x (by simpa using hx))⟩

/-- No more copies arrive than were made. -/
theorem delivered_le (h : Run (attach M port) tr n) :
    (delivered tr : Multiset π) ≤ sent tr + duplicated tr := by
  rw [← conserved h, add_assoc]
  exact Multiset.le_add_right ..

end LossyNetwork
