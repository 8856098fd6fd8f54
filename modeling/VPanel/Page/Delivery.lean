import VPanel.Proxy.Modules

/-!
# What a page receives

A proxy answers every datagram with a JSON text or with the empty string.
The texts are delivered in order, and parsing one gives back the entries of
the dumped object in some order.
-/

namespace VPanel.Page

open ByteCodec ObjectLayout Proxy

/-- The objects that arrive for a sequence of datagrams. -/
inductive Delivered (udpPacketToJson : List UInt8 → Option Reply) :
    List (List UInt8) → List JsonObject → Prop
  | nil : Delivered udpPacketToJson [] []
  | rejected {d ds os} (h : udpPacketToJson d = some none)
      (rest : Delivered udpPacketToJson ds os) : Delivered udpPacketToJson (d :: ds) os
  | sent {d ds json o os} (h : udpPacketToJson d = some (some json)) (parsed : o.Perm json)
      (rest : Delivered udpPacketToJson ds os) : Delivered udpPacketToJson (d :: ds) (o :: os)

def acceptedStates {ι : Type} [DecidableEq ι] (T : ObjType ι) :
    List (List UInt8) → List (ι → ℕ)
  | [] => []
  | d :: ds =>
      match getPanelState T d with
      | some (.ok panel) => panel :: acceptedStates T ds
      | _ => acceptedStates T ds

section Accepted

variable {ι : Type} [DecidableEq ι] {T : ObjType ι} {d : List UInt8} {ds : List (List UInt8)}

theorem acceptedStates_cons_of_accepts (h : Accepts T.size d) :
    acceptedStates T (d :: ds) = T.load .little (peek d 6 T.size) :: acceptedStates T ds := by
  simp only [acceptedStates, getPanelState_of_accepts h]

theorem acceptedStates_cons_of_not_accepts (h : ¬Accepts T.size d) :
    acceptedStates T (d :: ds) = acceptedStates T ds := by
  obtain ⟨r, hr⟩ := getPanelState_of_not_accepts h
  simp only [acceptedStates, hr]

theorem Delivered.forall₂ {toJson : (ι → ℕ) → Option JsonObject} {os : List JsonObject}
    (h : Delivered (replyWith T toJson) ds os) :
    List.Forall₂ (fun panel o ↦ ∃ mem json, panel = T.load .little mem ∧
      toJson panel = some json ∧ o.Perm json) (acceptedStates T ds) os := by
  induction h with
  | nil => exact .nil
  | rejected hreply _ ih =>
      obtain ⟨hnot, -⟩ | ⟨-, _, hsome, -⟩ := replyWith_eq_some hreply
      · rwa [acceptedStates_cons_of_not_accepts hnot]
      · cases hsome
  | sent hreply hperm _ ih =>
      obtain ⟨-, hnone⟩ | ⟨hacc, json, hsome, hjson⟩ := replyWith_eq_some hreply
      · cases hnone
      · rw [acceptedStates_cons_of_accepts hacc]
        exact .cons ⟨_, json, rfl, hjson, Option.some.inj hsome ▸ hperm⟩ ih

end Accepted

end VPanel.Page
