import Vaux.Client.Session

/-!
# The lock of the client id

`handle_connack` takes the lock of the client id on entry and keeps the guard to its end.  To
store the assigned id it takes the lock a second time, which no other task can give back.
-/

namespace Vaux
namespace Client

open Wire Mqtt

/-- The session, and whether the guard of the client id is alive. -/
structure Guarded where
  session : ClientSession
  held : Bool

/-- A function that takes the lock: without a result it waits for itself. -/
abbrev Locking (α : Type) := ExceptT MqttError (StateT Guarded Option) α

namespace Locking

/-- `client_id.lock().await`; the guard lives until the function returns. -/
def lockClientId : Locking (Option String) :=
  ExceptT.mk fun g =>
    if g.held then none else some (.ok g.session.clientId, { g with held := true })

def update (f : ClientSession → ClientSession) : Locking Unit :=
  modifyThe Guarded fun g => { g with session := f g.session }

/-- `if let Some(value)`. -/
def whenSome {α : Type} (value : Option α) (f : α → ClientSession → ClientSession) : Locking Unit :=
  match value with
  | some a => update (f a)
  | none => pure ()

end Locking

namespace ClientSession

open Locking

/-- `handle_connack` lock by lock. -/
def connackBody (connack : ConnAck) : Locking ConnAck := do
  let setId ← lockClientId
  if connack.reason ≠ .success then
    update fun s => { s with connected := false }
    throw (protocolError "connection refused" connack.reason)
  update fun s => { s with connected := true }
  if setId.isNone then
    match connack.assignedClientId with
    | some clientId => do
        let _ ← lockClientId
        update fun s => { s with clientId := some clientId }
    | none => throw (protocolError "no assigned client id" .invalidClientId)
  whenSome connack.serverKeepAlive fun keepAlive s => { s with keepAlive := keepAlive.toNat }
  whenSome connack.sessionExpiryInterval fun expiry s => { s with sessionExpiry := expiry.toNat }
  whenSome connack.receiveMaximum fun receiveMax s =>
    { s with qosSendRemaining := receiveMax.toUInt64 }
  return connack

/-- The session after `handle_connack` and its result; `none` if it never returns. -/
def runConnack (self : ClientSession) (connack : ConnAck) :
    Option (ClientSession × Except MqttError ConnAck) :=
  ((connackBody connack).run { session := self, held := false }).map fun (result, g) =>
    (g.session, result)

section

variable {α β : Type} (rest : Locking β) (s : ClientSession) (held : Bool)

theorem lockClientId_bind (next : Option String → Locking β) :
    (lockClientId >>= next) { session := s, held := false } =
      next s.clientId { session := s, held := true } := rfl

theorem update_bind (f : ClientSession → ClientSession) :
    (update f >>= fun _ => rest) { session := s, held } = rest { session := f s, held } := rfl

theorem whenSome_bind (value : Option α) (f : α → ClientSession → ClientSession) :
    (whenSome value f >>= fun _ => rest) { session := s, held } =
      rest { session := value.elim s (f · s), held } := by
  cases value <;> rfl

end

/-- The lock plays no part but that the assigned id cannot be stored. -/
theorem runConnack_eq (s : ClientSession) (connack : ConnAck) :
    s.runConnack connack = s.handleConnack connack := by
  obtain ⟨⟨clientId, _⟩, _⟩ := s
  unfold runConnack handleConnack connackBody
  rw [ExceptT.run, lockClientId_bind]
  by_cases hreason : connack.reason = .success
  · simp only [hreason, ne_eq, not_true_eq_false, if_false, update_bind]
    cases clientId with
    -- the guard that is alive is the function's own
    | none => cases connack.assignedClientId <;> rfl
    | some clientId =>
        simp only [Option.isNone_some, Bool.false_eq_true, if_false, whenSome_bind]
        cases connack.serverKeepAlive <;> cases connack.sessionExpiryInterval <;>
          cases connack.receiveMaximum <;> rfl
  · simp only [ne_eq, hreason, not_false_eq_true, if_true]
    rfl

/-! ## What a CONNACK does to the session -/

/-- `handle_connack` as its callers take it: it returns, and takes over what the CONNACK carries
or leaves the session disconnected. -/
structure TakesConnack (s : ClientSession) (connack : ConnAck) : Prop where
  returns : s.runConnack connack ≠ none
  accepted : ∀ s', s.runConnack connack = some (s', .ok connack) →
    s'.connected = true ∧
    (s.clientId = none ∨ s.clientId = some "" →
      connack.assignedClientId ≠ none ∧ s'.clientId = connack.assignedClientId) ∧
    s'.keepAlive = (connack.serverKeepAlive.map UInt16.toNat).getD s.keepAlive ∧
    s'.sessionExpiry = (connack.sessionExpiryInterval.map UInt32.toNat).getD s.sessionExpiry ∧
    s'.qosSendRemaining = (connack.receiveMaximum.map UInt16.toUInt64).getD s.qosSendRemaining
  refused : ∀ s' e, s.runConnack connack = some (s', .error e) →
    s' = { s with connected := false }

/-- The CONNACK refuses, or the client has an id of its own; an empty one is left empty. -/
def Named (self : ClientSession) (connack : ConnAck) : Prop :=
  connack.reason ≠ .success ∨
    ∃ clientId, self.clientId = some clientId ∧
      (clientId = "" → connack.assignedClientId = some "")

section

variable {s : ClientSession} {connack : ConnAck}

theorem runConnack_refused (h : connack.reason ≠ .success) :
    s.runConnack connack = some ({ s with connected := false },
      .error (protocolError "connection refused" connack.reason)) := by
  rw [runConnack_eq, handleConnack, if_pos h]

theorem runConnack_named {clientId : String} (h : connack.reason = .success)
    (hid : s.clientId = some clientId) :
    s.runConnack connack = some
      ({ s with
          connected := true
          keepAlive := (connack.serverKeepAlive.map UInt16.toNat).getD s.keepAlive
          sessionExpiry := (connack.sessionExpiryInterval.map UInt32.toNat).getD s.sessionExpiry
          qosSendRemaining :=
            (connack.receiveMaximum.map UInt16.toUInt64).getD s.qosSendRemaining },
        .ok connack) := by
  rw [runConnack_eq, handleConnack, if_neg (not_not.mpr h)]
  simp only [hid]

/-- Without an id of its own the client waits for its own guard, or it reports the missing id
as a connected client. -/
theorem runConnack_unnamed (h : connack.reason = .success) (hid : s.clientId = none) :
    s.runConnack connack =
      if connack.assignedClientId.isSome then none
      else some ({ s with connected := true },
        .error (protocolError "no assigned client id" .invalidClientId)) := by
  rw [runConnack_eq, handleConnack, if_neg (not_not.mpr h)]
  cases hassigned : connack.assignedClientId <;> simp only [hid] <;> rfl

theorem takesConnack_of_named (h : s.Named connack) : s.TakesConnack connack := by
  by_cases hreason : connack.reason = .success
  · obtain ⟨clientId, hid, hempty⟩ := h.resolve_left (not_not.mpr hreason)
    have hrun := runConnack_named hreason hid
    refine ⟨by rw [hrun]; exact nofun, fun s' hs' => ?_, fun s' e hs' => ?_⟩
    · rw [hrun] at hs'
      cases hs'
      refine ⟨rfl, fun hnone => ?_, rfl, rfl, rfl⟩
      rw [hid] at hnone
      obtain rfl : clientId = "" := by simpa using hnone
      rw [hempty rfl]
      exact ⟨nofun, hid⟩
    · rw [hrun] at hs'
      cases hs'
  · have hrun := runConnack_refused (s := s) hreason
    refine ⟨by rw [hrun]; exact nofun, fun s' hs' => ?_, fun s' e hs' => ?_⟩
    · rw [hrun] at hs'
      cases hs'
    · rw [hrun] at hs'
      cases hs'
      rfl

theorem named_of_takesConnack (h : s.TakesConnack connack) : s.Named connack := by
  by_cases hreason : connack.reason = .success
  · right
    cases hid : s.clientId with
    | none =>
        have hrun := runConnack_unnamed hreason hid
        cases hassigned : connack.assignedClientId with
        | none =>
            rw [hassigned] at hrun
            have hconnected := congrArg ClientSession.connected (h.refused _ _ hrun)
            exact absurd hconnected Bool.true_eq_false_eq_False.elim
        | some assigned =>
            rw [hassigned] at hrun
            exact absurd hrun h.returns
    | some clientId =>
        refine ⟨clientId, rfl, fun hempty => ?_⟩
        obtain ⟨-, hstored, -⟩ := h.accepted _ (runConnack_named hreason hid)
        rw [← (hstored (.inr (hid.trans (congrArg some hempty)))).2, ← hempty]
        exact hid
  · exact .inl hreason

end

end ClientSession

/-- `handle_connack` does what its callers take it to do exactly if it is refused or the client
has an id of its own. -/
theorem takesConnack_iff (s : ClientSession) (connack : ConnAck) :
    s.TakesConnack connack ↔ s.Named connack :=
  ⟨ClientSession.named_of_takesConnack, ClientSession.takesConnack_of_named⟩

/-- The id that a CONNACK assigns to an empty one is not stored; for a client without one the
function waits for its own guard, and if no id is assigned it fails as a connected client. -/
theorem not_takesConnack_of_empty :
    let empty := ClientSession.newFromClient { SessionState.new "" with clientId := some "" }
    let absent := ClientSession.newFromClient { SessionState.new "" with clientId := none }
    let assigned := { ConnAck.default with assignedClientId := some "auto-1" }
    (∃ s', empty.runConnack assigned = some (s', .ok assigned) ∧ s'.clientId = some "") ∧
    absent.runConnack assigned = none ∧
    (∃ s' e, absent.runConnack .default = some (s', .error e) ∧ s'.connected = true) ∧
    ¬ empty.TakesConnack assigned := by
  intro empty absent assigned
  have hrun : empty.runConnack assigned = some ({ empty with connected := true }, .ok assigned) := rfl
  refine ⟨⟨_, hrun, rfl⟩, rfl, ⟨_, _, rfl, rfl⟩, fun h => ?_⟩
  obtain ⟨-, hstored, -⟩ := h.accepted _ hrun
  exact absurd (hstored (.inr rfl)).2 (by decide)

end Client
end Vaux
