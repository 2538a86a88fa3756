import KnowledgeAcquisition.Proof.Ipc.PipeClient
import Mathlib.Data.List.GetD
import Mathlib.Data.List.TakeDrop

/-!
# The id of a client

The id crosses a field of 32 bytes. The server knows a client by what arrives there, and the client goes on with
what it has.
-/

namespace KnowledgeAcquisition.Proof.Ipc
open KnowledgeAcquisition.Ipc Library

theorem takeWhile_of_noNul {text : List UInt8} (noNul : 0 ∉ text) (rest : List UInt8) :
    (text ++ rest).takeWhile (· ≠ 0) = text ++ rest.takeWhile (· ≠ 0) := by
  apply List.takeWhile_append_of_pos
  intro letter member
  exact decide_eq_true fun zero => noNul (zero ▸ member)

theorem field_toList (text : List UInt8) (size : Nat) :
    (Vector.ofFn fun i : Fin size => text.getD i 0).toList = resizeTo 0 text size := by
  have length := resizeTo_length 0 text size
  rw [resizeTo] at length
  rw [Vector.toList_ofFn, resizeTo]
  apply List.ext_getElem
  · rw [List.length_ofFn, length]
  · intro i inside _
    rw [List.length_ofFn] at inside
    rw [List.getElem_ofFn]
    by_cases short : i < text.length
    · rw [List.getElem_append_left (by rw [List.length_take]; omega), List.getElem_take,
        List.getD_eq_getElem _ _ short]
    · rw [List.getElem_append_right (by rw [List.length_take]; omega), List.getElem_replicate,
        List.getD_eq_default _ _ (Nat.le_of_not_lt short)]

theorem takeWhile_field {text : List UInt8} (noNul : 0 ∉ text) (size : Nat) :
    (resizeTo 0 text size).takeWhile (· ≠ 0) = text.take size := by
  have front : 0 ∉ text.take size := fun member => noNul (List.mem_of_mem_take member)
  rw [resizeTo, takeWhile_of_noNul front]
  cases size - text.length with
  | zero => simp
  | succ zeros => simp [List.replicate_succ]

theorem request_clientId (req : IPCRequestPayload) :
    (IPCRequestPayload.ofBytes req.toBytes).clientId = req.clientId := by
  apply Vector.ext
  intro i inside
  have front : i < req.clientId.toList.length := by rw [Vector.length_toList]; exact inside
  rw [IPCRequestPayload.ofBytes, IPCRequestPayload.toBytes, Vector.getElem_ofFn, List.getD_append _ _ _ _ front,
    List.getD_eq_getElem _ _ front, Vector.getElem_toList]

theorem request_requestPayload {clientId : ClientId} (noNul : 0 ∉ clientId) (command seq : UInt32) :
    request (packet .command (requestPayload clientId command).toBytes seq) = some (clientId.take 32, command) := by
  have whole : clientId.takeWhile (· ≠ 0) = clientId := by
    simpa using takeWhile_of_noNul noNul []
  have field : (requestPayload clientId command).clientId.toList.takeWhile (· ≠ 0) = clientId.take 32 := by
    rw [requestPayload, whole, field_toList, takeWhile_field noNul]
  simp only [request, packet, request_toBytes_length, and_self, if_true, request_command, request_clientId, field]
  rfl

def TakenFor (clientId extracted : ClientId) : Prop :=
  ∃ command seq, request (packet .command (requestPayload clientId command).toBytes seq) = some (extracted, command)

theorem takenFor_iff {clientId : ClientId} (noNul : 0 ∉ clientId) (extracted : ClientId) :
    TakenFor clientId extracted ↔ extracted = clientId.take 32 := by
  constructor
  · rintro ⟨command, seq, asked⟩
    rw [request_requestPayload noNul] at asked
    exact (Prod.mk.inj (Option.some.inj asked)).1.symm
  · rintro rfl
    exact ⟨1, 0, request_requestPayload noNul 1 0⟩

/-- The server knows the client by its own id, and makes the pipes that the client opens. -/
def Recognised (clientId : ClientId) : Prop :=
  TakenFor clientId clientId ∧
    ∀ extracted, TakenFor clientId extracted → extracted = clientId ∧ dynamicPaths extracted = switchedPaths clientId

theorem recognised_iff {clientId : ClientId} (noNul : 0 ∉ clientId) :
    Recognised clientId ↔ clientId.length ≤ 32 := by
  rw [Recognised, takenFor_iff noNul, eq_comm, List.take_eq_self_iff]
  constructor
  · exact fun recognised => recognised.1
  · intro short
    refine ⟨short, fun extracted taken => ?_⟩
    rw [takenFor_iff noNul, List.take_of_length_le short] at taken
    subst taken
    exact ⟨rfl, rfl⟩

structure KeptApart (clientId other : ClientId) : Prop where
  entries : ∀ extracted extracted', TakenFor clientId extracted → TakenFor other extracted' →
    ∀ registry now, joinClient registry extracted now extracted' = registry extracted'
  pipes : ∀ path ∈ switchedPaths clientId, path ∉ switchedPaths other

theorem switchedPaths_apart {clientId other : ClientId} (different : clientId ≠ other) :
    (∀ path ∈ switchedPaths clientId, path ∉ switchedPaths other) ↔
      clientId ≠ other ++ ascii "_fb" ∧ other ≠ clientId ++ ascii "_fb" := by
  simp only [switchedPaths, List.mem_cons, List.not_mem_nil, or_false, forall_eq_or_imp, forall_eq, not_or,
    List.append_assoc, List.append_cancel_left_eq, List.append_cancel_right_eq]
  constructor
  · exact fun apart => ⟨apart.1.2, fun same => apart.2.1 same.symm⟩
  · exact fun apart => ⟨⟨different, apart.1⟩, fun same => apart.2 same.symm, different⟩

theorem clients_served_apart_iff {clientId other : ClientId} (noNul : 0 ∉ clientId) (noNul' : 0 ∉ other)
    (different : clientId ≠ other) :
    Recognised clientId ∧ Recognised other ∧ KeptApart clientId other ↔
      clientId.length ≤ 32 ∧ other.length ≤ 32 ∧
        clientId ≠ other ++ ascii "_fb" ∧ other ≠ clientId ++ ascii "_fb" := by
  rw [recognised_iff noNul, recognised_iff noNul']
  constructor
  · rintro ⟨short, short', apart⟩
    exact ⟨short, short', (switchedPaths_apart different).mp apart.pipes⟩
  · rintro ⟨short, short', apart⟩
    refine ⟨short, short', ?_, (switchedPaths_apart different).mpr apart⟩
    intro extracted extracted' taken taken' registry now
    rw [takenFor_iff noNul, List.take_of_length_le short] at taken
    rw [takenFor_iff noNul', List.take_of_length_le short'] at taken'
    subst taken taken'
    exact Function.update_of_ne different.symm _ _

theorem clients_served_apart_alpha_beta :
    Recognised (ascii "alpha") ∧ Recognised (ascii "beta") ∧ KeptApart (ascii "alpha") (ascii "beta") := by
  exact (clients_served_apart_iff (by decide) (by decide) (by decide)).mpr (by decide)

def longId (last : UInt8) : ClientId := List.replicate 32 97 ++ [last]

theorem long_ids_share_entry : 0 ∉ longId 98 ∧ 0 ∉ longId 99 ∧ longId 98 ≠ longId 99 ∧
    ¬Recognised (longId 98) ∧ ¬KeptApart (longId 98) (longId 99) := by
  have noNul : 0 ∉ longId 98 := by decide
  have noNul' : 0 ∉ longId 99 := by decide
  refine ⟨noNul, noNul', by decide, ?_, ?_⟩
  · rw [recognised_iff noNul]
    decide
  · intro apart
    have shared := apart.entries _ _ ((takenFor_iff noNul _).mpr rfl) ((takenFor_iff noNul' _).mpr rfl)
      (fun _ => none) 0
    have same : (longId 98).take 32 = (longId 99).take 32 := by decide
    rw [same, joinClient, Function.update_self] at shared
    cases shared

end KnowledgeAcquisition.Proof.Ipc
