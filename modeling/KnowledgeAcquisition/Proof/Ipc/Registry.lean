import KnowledgeAcquisition.Ipc.PipeServer
import Mathlib.Data.Set.Insert

/-!
# The client registry

What housekeeping may erase, and the session table that the registry should be.
-/

namespace KnowledgeAcquisition.Proof.Ipc
open KnowledgeAcquisition.Ipc Library Library.Trace

/-- A sweep erases no session whose last heartbeat is at most 5000 ms older than the clock. -/
def Spares (s : PipeServer) (action : PipeServer.Action) : Prop :=
  action = .sweep → ∀ s', s.step action = some s' → ∀ clientId session, s.registry clientId = some session →
    s'.registry clientId = none → session.lastHeartbeatTimestampMs.toNat + 5000 < s.clock.toNat

/-- A sweep finds no heartbeat that is later than the time it goes by. -/
def SweepsPast (s : PipeServer) (action : PipeServer.Action) : Prop :=
  action = .sweep → ∀ currentTimeMs, s.main = .sampled currentTimeMs → ∀ clientId session,
    s.registry clientId = some session → session.lastHeartbeatTimestampMs ≤ currentTimeMs

def SampledPast (s : PipeServer) : Prop := ∀ currentTimeMs, s.main = .sampled currentTimeMs → currentTimeMs ≤ s.clock

theorem expired_old {session : ClientSession} {currentTimeMs : UInt64}
    (past : session.lastHeartbeatTimestampMs ≤ currentTimeMs)
    (expired : session.isHeartbeatExpired currentTimeMs 5000 = true) :
    session.lastHeartbeatTimestampMs.toNat + 5000 < currentTimeMs.toNat := by
  simp only [ClientSession.isHeartbeatExpired] at expired
  split at expired
  case isTrue => cases expired
  case isFalse =>
      -- No wraparound: the subtrahend is the smaller one.
      have age := UInt64.lt_iff_toNat_lt.mp (of_decide_eq_true expired)
      rw [UInt64.toNat_sub_of_le _ _ past, show UInt64.toNat 5000 = 5000 from rfl] at age
      omega

theorem sampledPast_step (s : PipeServer) (action : PipeServer.Action) (s' : PipeServer) (inv : SampledPast s)
    (moves : s.step action = some s') : SampledPast s' := by
  intro currentTimeMs sampled
  cases action with
  | tick now =>
      simp only [PipeServer.step, Option.ite_none_right_eq_some, Option.some.injEq] at moves
      obtain ⟨later, rfl⟩ := moves
      exact UInt64.le_trans (inv currentTimeMs sampled) later
  | accept packet =>
      simp only [PipeServer.step, Option.ite_none_right_eq_some, Option.some.injEq] at moves
      obtain ⟨-, rfl⟩ := moves
      exact inv currentTimeMs sampled
  | join =>
      obtain ⟨clientId, -, rfl⟩ := Option.map_eq_some_iff.mp moves
      exact inv currentTimeMs sampled
  | sample =>
      simp only [PipeServer.step, Option.ite_none_right_eq_some, Option.some.injEq] at moves
      obtain ⟨-, rfl⟩ := moves
      obtain rfl := MainPhase.sampled.inj sampled
      exact UInt64.le_refl _
  | process clientId packet =>
      simp only [PipeServer.step, Option.ite_none_right_eq_some, Option.some.injEq] at moves
      obtain ⟨-, rfl⟩ := moves
      cases sampled
  | sweep =>
      simp only [PipeServer.step] at moves
      split at moves <;> cases moves
      cases sampled
  | stamp =>
      simp only [PipeServer.step] at moves
      split at moves <;> cases moves
      cases sampled

theorem sweep_spares {s : PipeServer} (inv : SampledPast s) {action : PipeServer.Action}
    (past : SweepsPast s action) : Spares s action := by
  intro sweep s' moves clientId session held gone
  subst sweep
  simp only [PipeServer.step] at moves
  split at moves
  case h_1 currentTimeMs sampled =>
      cases moves
      have expired : session.isHeartbeatExpired currentTimeMs 5000 = true := by
        simpa [sweepRegistry, held] using gone
      have old := expired_old (past rfl currentTimeMs sampled clientId session held) expired
      exact Nat.lt_of_lt_of_le old (UInt64.le_iff_toNat_le.mp (inv currentTimeMs sampled))
  case h_2 => cases moves

theorem fresh_sessions_survive (clock : UInt64) (actions : List PipeServer.Action)
    (meets : Meets PipeServer.step SweepsPast { clock } actions) :
    Meets PipeServer.step Spares { clock } actions := by
  have start : SampledPast { clock } := fun _ sampled => MainPhase.noConfusion sampled
  apply Meets.imp _ _ start meets
  · exact fun s action s' inv _ moves => sampledPast_step s action s' inv moves
  · exact fun s action inv past => sweep_spares inv past

def requestPacket (command : UInt32) : Received where
  header := { type := .command, payloadSize := 36, timestampMs := 0, sequenceId := 0, hasCheckSum := 0
              checkSumCalculated := 0 }
  payload := IPCRequestPayload.toBytes { clientId := (Vector.replicate 32 0).set 0 97, command }

def oneSession : Registry := Function.update (fun _ => none) [97] (some ⟨10⟩)

theorem expired_session_swept : Meets PipeServer.step Spares { clock := 10 }
    [.accept (requestPacket 1), .join, .tick 6000, .sample, .sweep] := by
  apply fresh_sessions_survive
  have otherwise : ∀ s action, action ≠ .sweep → SweepsPast s action := fun _ _ other sweep => absurd sweep other
  have accepts : PipeServer.step { clock := 10 } (.accept (requestPacket 1)) =
      some { clock := 10, joining := some [97] } := rfl
  have joins : PipeServer.step { clock := 10, joining := some [97] } .join =
      some { clock := 10, registry := oneSession } := rfl
  apply Meets.cons (otherwise _ _ PipeServer.Action.noConfusion) accepts
  apply Meets.cons (otherwise _ _ PipeServer.Action.noConfusion) joins
  apply Meets.cons (otherwise _ _ PipeServer.Action.noConfusion) rfl
  apply Meets.cons (otherwise _ _ PipeServer.Action.noConfusion) rfl
  refine ⟨?_, fun _ _ => trivial⟩
  intro _ currentTimeMs sampled clientId session held
  obtain rfl := MainPhase.sampled.inj sampled
  by_cases own : clientId = [97]
  · subst own
    obtain rfl := Option.some.inj held
    decide
  · have absent : oneSession clientId = none := Function.update_of_ne own _ _
    cases absent.symm.trans held

/-- The client joins after housekeeping has read the clock and before it takes the lock. -/
theorem fresh_session_erased : ¬ Meets PipeServer.step Spares { clock := 10 }
    [.sample, .tick 20, .accept (requestPacket 1), .join, .sweep] := by
  intro meets
  have swept := ((((meets.2 _ rfl).2 _ rfl).2 _ rfl).2 _ rfl).1
  have old := swept rfl _ rfl [97] ⟨20⟩ rfl rfl
  exact absurd old (by decide)

/-! ## The session table -/

/-- What the registry is for: the ids that have a session, and the one whose session is being opened. -/
structure SessionTable where
  present : Set ClientId
  opening : Option ClientId

namespace SessionTable

inductive Label where
  | handled (request : Option (ClientId × UInt32)) (answer : Option Answer)
  | joined
  | expired
  | silent

/-- Command 1 registers and command 2 disconnects. What is not prescribed leaves the table alone, and the
client is not told that a session was opened. -/
inductive Step : SessionTable → Label → SessionTable → Prop
  | opened {t : SessionTable} {clientId : ClientId} (absent : clientId ∉ t.present) :
      Step t (.handled (some (clientId, 1)) (some .opened)) { t with opening := some clientId }
  | rejected {t : SessionTable} {clientId : ClientId} (present : clientId ∈ t.present) :
      Step t (.handled (some (clientId, 1)) (some .rejected)) t
  | removed {t : SessionTable} {clientId : ClientId} (present : clientId ∈ t.present) :
      Step t (.handled (some (clientId, 2)) (some .removed)) { t with present := t.present \ {clientId} }
  | nothingToRemove {t : SessionTable} {clientId : ClientId} {answer : Option Answer}
      (absent : clientId ∉ t.present) (refused : answer ≠ some .opened) :
      Step t (.handled (some (clientId, 2)) answer) t
  | otherCommand {t : SessionTable} {clientId : ClientId} {command : UInt32} {answer : Option Answer}
      (notRegister : command ≠ 1) (notDisconnect : command ≠ 2) (refused : answer ≠ some .opened) :
      Step t (.handled (some (clientId, command)) answer) t
  | noRequest {t : SessionTable} {answer : Option Answer} (refused : answer ≠ some .opened) :
      Step t (.handled none answer) t
  | joined {t : SessionTable} {clientId : ClientId} (opening : t.opening = some clientId) :
      Step t .joined { present := insert clientId t.present, opening := none }
  | expired {t : SessionTable} {kept : Set ClientId} (fewer : kept ⊆ t.present) :
      Step t .expired { t with present := kept }
  | silent {t : SessionTable} : Step t .silent t

theorem command_of_opened {t t' : SessionTable} {clientId : ClientId} {command : UInt32}
    (step : Step t (.handled (some (clientId, command)) (some .opened)) t') : command = 1 := by
  cases step with
  | opened absent => rfl
  | nothingToRemove absent refused => exact absurd rfl refused
  | otherCommand notRegister notDisconnect refused => exact absurd rfl refused

end SessionTable

def table (s : PipeServer) : SessionTable where
  present := {clientId | (s.registry clientId).isSome}
  opening := s.joining

def label (s : PipeServer) : PipeServer.Action → SessionTable.Label
  | .accept packet => .handled (request packet) (acceptClient s.registry packet).1
  | .join => .joined
  | .sweep => .expired
  | _ => .silent

def Refines (s : PipeServer) (action : PipeServer.Action) : Prop :=
  ∀ s', s.step action = some s' → SessionTable.Step (table s) (label s action) (table s')

def RegistersFirst (s : PipeServer) (action : PipeServer.Action) : Prop :=
  ∀ packet, action = .accept packet → s.serverRunning ∧ s.joining = none →
    ∀ clientId command, request packet = some (clientId, command) → s.registry clientId = none → command = 1

theorem present_update_none (registry : Registry) (clientId : ClientId) :
    {id | (Function.update registry clientId none id).isSome} = {id | (registry id).isSome} \ {clientId} := by
  ext id
  by_cases same : id = clientId
  · simp [same]
  · simp [same]

theorem present_update_some (registry : Registry) (clientId : ClientId) (session : ClientSession) :
    {id | (Function.update registry clientId (some session) id).isSome} =
      insert clientId {id | (registry id).isSome} := by
  ext id
  by_cases same : id = clientId
  · simp [same]
  · simp [same]

theorem present_stampSession (registry : Registry) (clientId : ClientId) (currentTimeMs : UInt64) :
    {id | (stampSession registry clientId currentTimeMs id).isSome} = {id | (registry id).isSome} := by
  ext id
  by_cases same : id = clientId
  · simp [stampSession, same]
  · simp [stampSession, Function.update_of_ne same]

theorem accept_refines {s : PipeServer} {packet : Received} (idle : s.joining = none)
    (first : ∀ clientId command, request packet = some (clientId, command) → s.registry clientId = none →
      command = 1) :
    SessionTable.Step (table s) (.handled (request packet) (acceptClient s.registry packet).1)
      (table { s with registry := (acceptClient s.registry packet).2.1
                      joining := (acceptClient s.registry packet).2.2 }) := by
  have same : ({ s with joining := none } : PipeServer) = s := by rw [← idle]
  cases asked : request packet with
  | none =>
      simp only [acceptClient, asked, same]
      exact .noRequest (by decide)
  | some pair =>
      obtain ⟨clientId, command⟩ := pair
      cases held : s.registry clientId with
      | none =>
          obtain rfl := first clientId command asked held
          simp only [acceptClient, asked, held]
          exact .opened (by simp [table, held])
      | some session =>
          have present : clientId ∈ (table s).present := by simp [table, held]
          by_cases disconnect : command = 2
          · subst disconnect
            simp only [acceptClient, asked, held, if_true]
            simp only [table, present_update_none, ← idle]
            exact .removed present
          · simp only [acceptClient, asked, held, disconnect, if_false, same]
            by_cases register : command = 1
            · subst register
              exact .rejected present
            · exact .otherCommand register disconnect (by decide)

theorem refines_iff_registersFirst (s : PipeServer) (action : PipeServer.Action) :
    Refines s action ↔ RegistersFirst s action := by
  constructor
  · intro refines packet accepts ready clientId command asked absent
    subst accepts
    have moved := refines { s with registry := (acceptClient s.registry packet).2.1
                                   joining := (acceptClient s.registry packet).2.2 } (by
      simp only [PipeServer.step, ready, and_self, if_true])
    simp only [label, acceptClient, asked, absent] at moved
    exact SessionTable.command_of_opened moved
  · intro first s' moves
    cases action with
    | tick now =>
        simp only [PipeServer.step, Option.ite_none_right_eq_some, Option.some.injEq] at moves
        obtain ⟨-, rfl⟩ := moves
        exact .silent
    | accept packet =>
        simp only [PipeServer.step, Option.ite_none_right_eq_some, Option.some.injEq] at moves
        obtain ⟨ready, rfl⟩ := moves
        exact accept_refines ready.2 (first packet rfl ready)
    | join =>
        obtain ⟨clientId, opening, rfl⟩ := Option.map_eq_some_iff.mp moves
        simp only [label, table, joinClient, present_update_some]
        exact .joined opening
    | sample =>
        simp only [PipeServer.step, Option.ite_none_right_eq_some, Option.some.injEq] at moves
        obtain ⟨-, rfl⟩ := moves
        exact .silent
    | process clientId packet =>
        simp only [PipeServer.step, Option.ite_none_right_eq_some, Option.some.injEq] at moves
        obtain ⟨-, rfl⟩ := moves
        exact .silent
    | sweep =>
        simp only [PipeServer.step] at moves
        split at moves <;> cases moves
        apply SessionTable.Step.expired
        intro clientId kept
        cases held : s.registry clientId with
        | none => simp [sweepRegistry, held] at kept
        | some session => simp [table, held]
    | stamp =>
        simp only [PipeServer.step] at moves
        split at moves <;> cases moves
        simp only [label, table]
        split
        case isTrue =>
            rw [present_stampSession]
            exact .silent
        case isFalse => exact .silent

theorem registry_is_session_table_iff (s : PipeServer) (actions : List PipeServer.Action) :
    Meets PipeServer.step Refines s actions ↔ Meets PipeServer.step RegistersFirst s actions :=
  meets_congr refines_iff_registersFirst s actions

/-- A client that the server does not know asks to be disconnected, and is registered. -/
theorem disconnect_registers : ¬ Meets PipeServer.step Refines { clock := 10 } [.accept (requestPacket 2)] := by
  intro meets
  have first := (refines_iff_registersFirst _ _).mp meets.1
  have command := first (requestPacket 2) rfl (by decide) [97] 2 (by decide) rfl
  exact absurd command (by decide)

end KnowledgeAcquisition.Proof.Ipc
