import Vaux.Broker.Takeover
import Vaux.Broker.Wills

/-!
# Wills that are withdrawn

A client withdraws its will with a DISCONNECT of reason Success, and a CONNECT without clean
start for its client id withdraws a will that waits for its delay.  The one clears the will of
the session, and the other cancels the token that the session has for its delay task.  Neither
finds a will that is on the way from the session to its timer or to the subscribers, and the
first does not look at the timer at all.
-/

namespace Vaux
namespace Broker

open Wire Mqtt Machine

/-! ## Timers that are cancelled -/

namespace Shared

section

variable {sh sh' : Shared} {t : TaskId} {c : Choice} {a : Action} {next : Next}

theorem cancelled_cancel (sh : Shared) (token : Option Token) {token' : Token}
    (h : (sh.delays token').cancelled = true) :
    ((sh.cancel token).delays token').cancelled = true := by
  cases token with
  | none => exact h
  | some token =>
      by_cases hne : token' = token
      · subst hne
        simp [cancel]
      · simpa [cancel, hne] using h

/-- A timer stays cancelled. -/
theorem cancelled_of_performed (h : Performed sh t c a sh' next) {token : Token}
    (htoken : token < sh.nextToken) (hcancelled : (sh.delays token).cancelled = true) :
    (sh'.delays token).cancelled = true := by
  cases h with
  | enter x _ _ =>
      show ((sh.choose x).1.delays token).cancelled = true
      rw [(choose_locks sh x).2.1]
      exact hcancelled
  | deliver publish sender sub _ hdeliver =>
      rw [(delivered_locks (delivered_of_deliver hdeliver)).2.2.1]
      exact hcancelled
  | delayWill ref will _ _ _ =>
      exact (congrArg Delay.cancelled (Function.update_of_ne (Nat.ne_of_lt htoken) _ _)).trans
        hcancelled
  | adopt x ref =>
      show ((sh.adopt x ref).delays token).cancelled = true
      rw [(adopt_same sh x ref).2.2.1]
      exact cancelled_cancel sh _ hcancelled
  | setPendingWill ref token' _ => exact cancelled_cancel sh _ hcancelled
  | _ => exact hcancelled

end

end Shared

section

variable {w w' : Wills} {t : TaskId} {c : Choice} {l : Label} {s' : State} {a : Action}
  {rest : List Action} {sh : Shared} {next : Next} {token : Token}

theorem cancelled_of_acted {s : State} (h : Acted s t c s' a rest sh next)
    (htoken : token < s.shared.nextToken)
    (hcancelled : (s.shared.delays token).cancelled = true) :
    (s'.shared.delays token).cancelled = true := by
  rw [h.shared, (Shared.afterNext_same sh (s.tasks t) next).2.2.1]
  exact Shared.cancelled_of_performed h.performed htoken hcancelled

theorem cancelled_of_step {s : State} (hstep : s.step l = some s')
    (htoken : token < s.shared.nextToken)
    (hcancelled : (s.shared.delays token).cancelled = true) :
    (s'.shared.delays token).cancelled = true := by
  rcases step_cases hstep with ⟨n, e, todo, rfl, h⟩ | ⟨t, c, a, rest, sh, next, rfl, h⟩ |
    ⟨token', rfl, h⟩ | ⟨accept, rfl, rfl⟩ | ⟨secs, rfl, -, rfl⟩
  · rcases Shared.handle_shared h.handle with heq | ⟨ch, msg, queue, -, -, -, heq⟩
    · rwa [heq]
    · rwa [heq]
  · exact cancelled_of_acted h htoken hcancelled
  · rw [h.shared]
    by_cases hne : token = token'
    · subst hne
      simpa using hcancelled
    · simpa [hne] using hcancelled
  · exact hcancelled
  · exact hcancelled

/-! ## How a will moves -/

/-- A will that is taken is that of the supplier of the session. -/
theorem Wills.recordTaken_cases (w : Wills) (t : TaskId) (ref : Ref) (u : TaskId) :
    (w.recordTaken t ref).routed = w.routed ∧
      ((w.state.shared.sessions ref).willMessage ≠ none ∧ w.state.history.supplier ref = some u ∨
        (∀ token, (w.recordTaken t ref).scheduled token = some u → w.scheduled token = some u) ∧
          ∀ t', (w.recordTaken t ref).carried t' = some u → w.carried t' = some u) := by
  unfold recordTaken
  cases hwill : (w.state.shared.sessions ref).willMessage with
  | none => exact ⟨rfl, .inr ⟨fun _ => id, fun _ => id⟩⟩
  | some will =>
      by_cases hu : w.state.history.supplier ref = some u
      · refine ⟨?_, .inl ⟨Option.some_ne_none will, hu⟩⟩
        simp only
        split <;> rfl
      · simp only
        split
        · refine ⟨rfl, .inr ⟨fun _ => id, fun t' ht' => ?_⟩⟩
          by_cases hne : t' = t
          · subst hne
            exact absurd ((Function.update_self t' _ w.carried).symm.trans ht') hu
          · exact (Function.update_of_ne hne _ _).symm.trans ht'
        · refine ⟨rfl, .inr ⟨fun token htoken => ?_, fun _ => id⟩⟩
          by_cases hne : token = w.state.shared.nextToken
          · subst hne
            exact absurd ((Function.update_self _ _ w.scheduled).symm.trans htoken) hu
          · exact (Function.update_of_ne hne _ _).symm.trans htoken

theorem Wills.recordRouted_cases (w : Wills) (t u : TaskId) :
    (w.recordRouted t).scheduled = w.scheduled ∧
      (∀ t', (w.recordRouted t).carried t' = some u → w.carried t' = some u) ∧
      (0 < (w.recordRouted t).routed u → 0 < w.routed u ∨ w.carried t = some u) := by
  unfold recordRouted
  cases hcarried : w.carried t with
  | none => exact ⟨rfl, fun _ => id, .inl⟩
  | some u' =>
      refine ⟨rfl, fun t' ht' => ?_, fun hrouted => ?_⟩
      · by_cases hne : t' = t
        · subst hne
          cases (Function.update_self t' _ w.carried).symm.trans ht'
        · exact (Function.update_of_ne hne _ _).symm.trans ht'
      · by_cases hne : u = u'
        · exact .inr (by rw [hne])
        · exact .inl (by simpa [Function.update_of_ne hne] using hrouted)

theorem Wills.recordAccepted_same (w : Wills) (x : Admission) :
    (w.recordAccepted x).scheduled = w.scheduled ∧ (w.recordAccepted x).carried = w.carried ∧
      (w.recordAccepted x).routed = w.routed ∧ (w.recordAccepted x).forsworn = w.forsworn ∧
      (w.recordAccepted x).client = w.client := by
  unfold recordAccepted
  split <;> exact ⟨rfl, rfl, rfl, rfl, rfl⟩

/-- An action moves a will out of a session, or from its task to the subscribers. -/
theorem Wills.Inv.at_cases_act (inv : w.Inv) (h : Acted w.state t c s' a rest sh next) {u : TaskId}
    {p : Place} (hp : Wills.At { w.record (.act t c) with state := s' } u p) :
    w.At u p ∨
      (∃ ref, a = .takeWill ref ∧ (w.state.shared.sessions ref).willMessage ≠ none ∧
        w.state.history.supplier ref = some u) ∨
      w.At u (.task t) := by
  have htodo := h.todo
  cases a with
  | takeWill ref =>
      simp only [record, htodo] at hp
      obtain ⟨hrouted, hmoved | ⟨hscheduled, hcarried⟩⟩ := w.recordTaken_cases t ref u
      · exact .inr (.inl ⟨ref, rfl, hmoved⟩)
      · exact .inl (inv.at_of_acted hp h rfl hscheduled hcarried (hrouted ▸ id))
  | route publish sender =>
      simp only [record, htodo] at hp
      obtain ⟨hscheduled, hcarried, hrouted⟩ := w.recordRouted_cases t u
      by_cases hmoved : w.carried t = some u
      · exact .inr (.inr hmoved)
      · refine .inl (inv.at_of_acted hp h rfl (fun _ => hscheduled ▸ id) hcarried fun hpos => ?_)
        exact (hrouted hpos).resolve_right hmoved
  | enroll x target =>
      simp only [record, htodo] at hp
      obtain ⟨hscheduled, hcarried, hrouted, -, -⟩ := w.recordAccepted_same x
      exact .inl (inv.at_of_acted hp h rfl (fun _ => hscheduled ▸ id) (fun _ => hcarried ▸ id)
        (hrouted ▸ id))
  | _ =>
      simp only [record, htodo] at hp
      exact .inl (inv.at_of_acted hp h rfl (fun _ => id) (fun _ => id) id)

/-- The connection whose will the label takes out of its session. -/
def Wills.takes (w : Wills) : Label → Option TaskId
  | .act t _ =>
    match (w.state.tasks t).todo with
    | .takeWill ref :: _ =>
      if (w.state.shared.sessions ref).willMessage.isSome then w.state.history.supplier ref else none
    | _ => none
  | _ => none

/-- A will is where it was, or has been taken, or comes from a task or from a timer that is
not cancelled. -/
theorem Wills.Inv.at_cases (inv : w.Inv) (hstep : w.step l = some w') {u : TaskId} {p : Place}
    (hp : w'.At u p) :
    w.At u p ∨ w.takes l = some u ∨ (∃ t, w.At u (.task t)) ∨
      ∃ token, w.At u (.timer token) ∧ (w.state.shared.delays token).cancelled = false := by
  obtain ⟨state, hstate, rfl⟩ := Wills.step_eq_some.mp hstep
  rcases step_cases hstate with ⟨n, e, todo, rfl, h⟩ | ⟨t, c, a, rest, sh, next, rfl, h⟩ |
    ⟨token, rfl, h⟩ | ⟨accept, rfl, rfl⟩ | ⟨secs, rfl, -, rfl⟩
  · exact .inl (Wills.at_of_event h hp)
  · rcases inv.at_cases_act h hp with hat | ⟨ref, rfl, hwill, hu⟩ | hat
    · exact .inl hat
    · refine .inr (.inl ?_)
      simp only [takes, h.todo]
      rw [if_pos (Option.isSome_iff_ne_none.mpr hwill)]
      exact hu
    · exact .inr (.inr (.inl ⟨t, hat⟩))
  · rcases Wills.at_cases_fire h hp with ⟨hu, -⟩ | ⟨hat, -⟩
    · exact .inr (.inr (.inr ⟨token, ⟨hu, h.waiting⟩, h.live⟩))
    · exact .inl hat
  · cases p <;> exact .inl hp
  · cases p <;> exact .inl hp

/-! ## A DISCONNECT with reason Success -/

/-- The connection that handles a DISCONNECT with reason Success before its will is routed. -/
def Wills.forswears (w : Wills) : Label → Option TaskId
  | .event n e =>
    if e.isSuccess && (w.state.tasks (.connection n)).connected && w.routed (.connection n) = 0 then
      some (.connection n)
    else none
  | _ => none

theorem Wills.forsworn_cases (hstep : w.step l = some w') {u : TaskId} (hu : w'.forsworn u = true) :
    w.forsworn u = true ∨ w.forswears l = some u := by
  obtain ⟨state, -, rfl⟩ := Wills.step_eq_some.mp hstep
  cases l with
  | event n e =>
      simp only [record] at hu
      split at hu
      · rename_i hsuccess
        by_cases hne : u = .connection n
        · subst hne
          exact .inr (if_pos hsuccess)
        · exact .inl ((Function.update_of_ne hne _ _).symm.trans hu)
      · exact .inl hu
  | act t c =>
      left
      simp only [record, recordTaken, recordRouted, recordAccepted] at hu
      repeat' split at hu
      all_goals exact hu
  | fire token => exact .inl hu
  | setAccepting accept => exact .inl hu
  | setSessionExpiry secs => exact .inl hu

/-- The will of `u` is in its session, or with a timer that is cancelled. -/
def Wills.Withdrawn (w : Wills) (u : TaskId) : Prop :=
  ∀ p, w.At u p → ∃ token, p = .timer token ∧ (w.state.shared.delays token).cancelled = true

/-- A DISCONNECT with reason Success finds the will in its session or its timer cancelled,
and no other handler takes the will before it is cleared. -/
def Wills.InSession (w : Wills) (l : Label) : Prop :=
  (∀ u ∈ w.forswears l, w.Withdrawn u) ∧ ∀ u ∈ w.takes l, w.forsworn u = false

/-- What the steps of the broker preserve in any case. -/
structure Wills.Sound (w : Wills) : Prop where
  broker : Broker.Inv w.state
  locked : Locked w.state
  wills : w.Inv

theorem Wills.sound_start (config : Config) : (Wills.start config).Sound :=
  ⟨Broker.inv_start config, locked_start config, Wills.inv_start config⟩

theorem Wills.Sound.step (h : w.Sound) (hstep : w.step l = some w') : w'.Sound := by
  have hstate := Wills.state_of_step hstep
  exact ⟨h.broker.step hstate, h.locked.step h.broker hstate, h.wills.step h.broker h.locked hstep⟩

theorem Wills.Withdrawn.step {u : TaskId} (h : w.Withdrawn u) (inv : w.Inv)
    (hstep : w.step l = some w') (htakes : w.takes l ≠ some u) : w'.Withdrawn u := by
  intro p hp
  rcases inv.at_cases hstep hp with hat | hu | ⟨t, hat⟩ | ⟨token, hat, hlive⟩
  · obtain ⟨token, rfl, hcancelled⟩ := h p hat
    have htoken := inv.known token (by rw [hat.1]; exact Option.some_ne_none _)
    exact ⟨token, rfl, cancelled_of_step (Wills.state_of_step hstep) htoken hcancelled⟩
  · exact absurd hu htakes
  · obtain ⟨token, heq, -⟩ := h _ hat
    cases heq
  · obtain ⟨token', heq, hcancelled⟩ := h _ hat
    cases heq
    cases hlive.symm.trans hcancelled

/-- The will of a connection that has forsworn it stays withdrawn. -/
theorem Wills.withdrawn_of_step (inv : w.Inv) (hcond : w.InSession l)
    (h : ∀ u, w.forsworn u = true → w.Withdrawn u) (hstep : w.step l = some w') (u : TaskId)
    (hu : w'.forsworn u = true) : w'.Withdrawn u := by
  rcases Wills.forsworn_cases hstep hu with hold | hnew
  · refine (h u hold).step inv hstep fun htakes => ?_
    cases hold.symm.trans (hcond.2 u htakes)
  · refine (hcond.1 u hnew).step inv hstep fun htakes => ?_
    -- an event is not an action
    cases l <;> first | cases hnew | cases htakes

/-- Every will is routed once at most, and none after the client has withdrawn it. -/
theorem will_routed_once_unless_forsworn {config : Config} {ls : List Label} {w : Wills}
    (hcond : Along Wills.step Wills.InSession (.start config) ls)
    (hrun : run Wills.step (.start config) ls = some w) (u : TaskId) :
    w.routed u ≤ 1 ∧ (w.forsworn u = true → w.routed u = 0) := by
  obtain ⟨hsound, hwithdrawn⟩ := invariant_of_step
    (I := fun w => w.Sound ∧ ∀ u, w.forsworn u = true → w.Withdrawn u)
    (fun w l w' h hcond hstep =>
      ⟨h.1.step hstep, Wills.withdrawn_of_step h.1.wills hcond h.2 hstep⟩)
    ⟨Wills.sound_start config, fun u hu => by cases hu⟩ hcond hrun
  refine ⟨hsound.wills.once u, fun hu => ?_⟩
  by_contra hrouted
  obtain ⟨token, heq, -⟩ := hwithdrawn u hu .subscribers (Nat.pos_of_ne_zero hrouted)
  cases heq

/-- As long as no will has been taken, every DISCONNECT finds the will of its connection in
its session. -/
theorem Wills.inSession_of_untaken {config : Config} {ls : List Label}
    (h : Along Wills.step (fun w l => w.takes l = none) (.start config) ls) :
    Along Wills.step Wills.InSession (.start config) ls := by
  refine along_of_invariant (I := fun w => w.Sound ∧ ∀ u p, ¬ w.At u p)
    (fun w l w' hw htakes hstep => ?_) ⟨Wills.sound_start config, Wills.not_at_start config⟩ h
  obtain ⟨hsound, hnot⟩ := hw
  refine ⟨⟨hsound.step hstep, fun u p hp => ?_⟩, fun u _ p hp => absurd hp (hnot u p), fun u hu => ?_⟩
  · rcases hsound.wills.at_cases hstep hp with hat | hu | ⟨t, hat⟩ | ⟨token, hat, -⟩
    · exact hnot u p hat
    · cases htakes.symm.trans hu
    · exact hnot u _ hat
    · exact hnot u _ hat
  · cases htakes.symm.trans hu

def delayedWill (topic : String) : WillMessage :=
  { willOn topic with header := { WillHeader.default with willDelay := some 5 } }

/-- A client with a delayed will connects and disconnects. -/
def withdrawnLabels : List Label :=
  connectLabels 0 ((Connect.new "x").setWillMessage (delayedWill "gone")) 7 ++
    packetLabels 0 (.disconnect (.new .success)) 2

theorem forsworn_of_withdrawnLabels : ∃ w,
    run Wills.step (.start defaultConfig) withdrawnLabels = some w ∧
      w.forsworn (.connection 0) = true ∧ w.routed (.connection 0) ≤ 1 ∧
      w.routed (.connection 0) = 0 := by
  have hfacts : (run Wills.step (.start defaultConfig) withdrawnLabels).map
      (fun w => w.forsworn (.connection 0)) = some true := by decide +kernel
  obtain ⟨w, hrun, hforsworn⟩ := Option.map_eq_some_iff.mp hfacts
  obtain ⟨honce, hnever⟩ := will_routed_once_unless_forsworn
    (Wills.inSession_of_untaken (by decide +kernel)) hrun (.connection 0)
  exact ⟨w, hrun, hforsworn, honce, hnever hforsworn⟩

/-- The keep-alive of the connection expires first, so that its DISCONNECT comes while the
will waits for its delay. -/
def expiredLabels : List Label :=
  connectLabels 0 ((Connect.new "x").setWillMessage (delayedWill "gone")) 7 ++
    .event 0 .keepAliveExpired :: List.replicate 3 (.act (.connection 0) {}) ++
    packetLabels 0 (.disconnect (.new .success)) 2 ++ [.fire 0, .act (.delay 0) {}]

theorem not_routed_once_unless_forsworn :
    ¬ ∀ config ls w, run Wills.step (Wills.start config) ls = some w → ∀ u,
      w.routed u ≤ 1 ∧ (w.forsworn u = true → w.routed u = 0) := by
  have hfacts : (run Wills.step (.start defaultConfig) expiredLabels).map
      (fun w => (w.forsworn (.connection 0), w.routed (.connection 0))) = some (true, 1) := by
    decide +kernel
  intro h
  obtain ⟨w, hrun, hw⟩ := Option.map_eq_some_iff.mp hfacts
  obtain ⟨hforsworn, hrouted⟩ := Prod.mk.inj hw
  have hnever := (h defaultConfig expiredLabels w hrun (.connection 0)).2 hforsworn
  rw [hrouted] at hnever
  cases hnever

/-! ## A CONNECT without clean start -/

/-- The client id that the label accepts a CONNECT without clean start for, and the session
that it resumes or takes over. -/
def Wills.resumes (w : Wills) : Label → Option (String × Option Ref)
  | .act t _ =>
    match (w.state.tasks t).todo with
    | .enroll a target :: _ => if a.connect.cleanStart then none else some (a.sessionId, target)
    | _ => none
  | _ => none

/-- A delay task waits with a will that was taken from a session of the client. -/
def Wills.Pending (w : Wills) (client : String) (token : Token) : Prop :=
  (w.state.shared.delays token).waiting = true ∧ w.client token = some client

instance (w : Wills) (client : String) (token : Token) : Decidable (w.Pending client token) :=
  inferInstanceAs (Decidable (_ ∧ _))

/-- Every delayed will of the client whose token is not cancelled has it in the session that
the CONNECT is accepted with. -/
def Wills.Registered (w : Wills) (l : Label) : Prop :=
  ∀ x ∈ w.resumes l, ∀ token < w.state.shared.nextToken, w.Pending x.1 token →
    (w.state.shared.delays token).cancelled = false →
    x.2.bind (fun ref => (w.state.shared.sessions ref).pendingWill) = some token

instance (w : Wills) (l : Label) : Decidable (w.Registered l) :=
  inferInstanceAs (Decidable (∀ x ∈ w.resumes l, ∀ token < w.state.shared.nextToken, _ → _ → _))

/-- A will that a CONNECT has withdrawn is with a timer that is cancelled. -/
structure Wills.Cancelled (w : Wills) : Prop where
  known : ∀ token, w.client token ≠ none → token < w.state.shared.nextToken
  cancelled : ∀ token, w.resumed token = true →
    token < w.state.shared.nextToken ∧ (w.state.shared.delays token).cancelled = true

theorem Wills.client_cases (hstep : w.step l = some w') (h : w'.client token ≠ none) :
    w.client token ≠ none ∨ token < w'.state.shared.nextToken := by
  obtain ⟨state, hstate, rfl⟩ := Wills.step_eq_some.mp hstep
  rcases step_cases hstate with ⟨n, e, todo, rfl, hhandled⟩ |
    ⟨t, c, a, rest, sh, next, rfl, hacted⟩ | ⟨token', rfl, -⟩ | ⟨accept, rfl, -⟩ | ⟨secs, rfl, -, -⟩
  · left
    rwa [(Wills.event_same hhandled).2.2.2.2.2.2.1] at h
  · have htodo := hacted.todo
    cases a with
    | takeWill ref =>
        simp only [record, htodo, recordTaken] at h
        split at h
        · exact .inl h
        · rename_i will hwill
          split at h
          · exact .inl h
          · rename_i hdelay
            by_cases hne : token = w.state.shared.nextToken
            · right
              rw [Wills.nextToken_of_delayed hacted hwill hdelay, hne]
              exact Nat.lt_succ_self _
            · exact .inl (by simpa [Function.update_of_ne hne] using h)
    | route publish sender =>
        left
        simp only [record, htodo, recordRouted] at h
        split at h <;> exact h
    | enroll x target =>
        left
        simp only [record, htodo] at h
        rwa [(w.recordAccepted_same x).2.2.2.2] at h
    | _ => simpa only [record, htodo] using Or.inl h
  · exact .inl h
  · exact .inl h
  · exact .inl h

theorem Wills.resumed_cases (hstep : w.step l = some w') (h : w'.resumed token = true) :
    w.resumed token = true ∨ ∃ x ∈ w.resumes l, w.Pending x.1 token := by
  obtain ⟨state, hstate, rfl⟩ := Wills.step_eq_some.mp hstep
  rcases step_cases hstate with ⟨n, e, todo, rfl, hhandled⟩ |
    ⟨t, c, a, rest, sh, next, rfl, hacted⟩ | ⟨token', rfl, -⟩ | ⟨accept, rfl, -⟩ | ⟨secs, rfl, -, -⟩
  · left
    rwa [(Wills.event_same hhandled).2.2.2.2.2.2.2] at h
  · have htodo := hacted.todo
    cases a with
    | takeWill ref =>
        left
        simp only [record, htodo, recordTaken] at h
        repeat' split at h
        all_goals exact h
    | route publish sender =>
        left
        simp only [record, htodo, recordRouted] at h
        split at h <;> exact h
    | enroll x target =>
        simp only [record, htodo, recordAccepted] at h
        split at h
        · exact .inl h
        · rename_i hclean
          rcases (Bool.or_eq_true _ _).mp h with hold | hnew
          · exact .inl hold
          · refine .inr ⟨(x.sessionId, target), ?_, by simpa [Pending] using hnew⟩
            simp only [resumes, htodo]
            exact if_neg hclean
    | _ => simpa only [record, htodo] using Or.inl h
  · exact .inl h
  · exact .inl h
  · exact .inl h

theorem nextToken_of_step {s : State} (hstep : s.step l = some s') :
    s.shared.nextToken ≤ s'.shared.nextToken := by
  rcases step_cases hstep with ⟨n, e, todo, rfl, h⟩ | ⟨t, c, a, rest, sh, next, rfl, h⟩ |
    ⟨token', rfl, h⟩ | ⟨accept, rfl, rfl⟩ | ⟨secs, rfl, -, rfl⟩
  · rcases Shared.handle_shared h.handle with heq | ⟨ch, msg, queue, -, -, -, heq⟩
    · rw [heq]
    · rw [heq]
      exact Nat.le_refl _
  · rw [h.shared, (Shared.afterNext_same sh (s.tasks t) next).2.2.2.1]
    exact (Shared.waiting_of_performed h.performed).1
  · rw [h.shared]
  · exact Nat.le_refl _
  · exact Nat.le_refl _

/-- A CONNECT without clean start cancels the token that it finds in the session. -/
theorem Wills.cancelled_of_resumes (hstep : w.step l = some w') {x : String × Option Ref}
    (hx : x ∈ w.resumes l)
    (hpending : x.2.bind (fun ref => (w.state.shared.sessions ref).pendingWill) = some token) :
    (w'.state.shared.delays token).cancelled = true := by
  obtain ⟨state, hstate, rfl⟩ := Wills.step_eq_some.mp hstep
  cases l with
  | act t c =>
      obtain ⟨a, rest, sh, next, h⟩ := acted_of_act hstate
      have htodo := h.todo
      cases a with
      | enroll a target =>
          simp only [resumes, htodo] at hx
          split at hx
          · cases hx
          · cases hx
            obtain ⟨ref, rfl, htoken⟩ := Option.bind_eq_some_iff.mp hpending
            cases h.performed
            rw [h.shared, (Shared.afterNext_same _ _ _).2.2.1]
            show ((w.state.shared.adopt a ref).delays token).cancelled = true
            rw [(Shared.adopt_same w.state.shared a ref).2.2.1, htoken]
            simp [Shared.cancel]
      | _ =>
          simp only [resumes, htodo] at hx
          cases hx
  | _ => cases hx

theorem Wills.Cancelled.step (h : w.Cancelled) (hcond : w.Registered l)
    (hstep : w.step l = some w') : w'.Cancelled := by
  have hnext := nextToken_of_step (Wills.state_of_step hstep)
  have hstays : ∀ {token}, token < w.state.shared.nextToken →
      (w.state.shared.delays token).cancelled = true →
      (w'.state.shared.delays token).cancelled = true :=
    cancelled_of_step (Wills.state_of_step hstep)
  refine ⟨fun token htoken => ?_, fun token htoken => ?_⟩
  · rcases Wills.client_cases hstep htoken with hold | hnew
    · exact Nat.lt_of_lt_of_le (h.known token hold) hnext
    · exact hnew
  · rcases Wills.resumed_cases hstep htoken with hold | ⟨x, hx, hpending⟩
    · obtain ⟨hknown, hcancelled⟩ := h.cancelled token hold
      exact ⟨Nat.lt_of_lt_of_le hknown hnext, hstays hknown hcancelled⟩
    · have hknown := h.known token (by rw [hpending.2]; exact Option.some_ne_none _)
      refine ⟨Nat.lt_of_lt_of_le hknown hnext, ?_⟩
      cases hcancelled : (w.state.shared.delays token).cancelled with
      | true => exact hstays hknown hcancelled
      | false =>
          exact Wills.cancelled_of_resumes hstep hx (hcond x hx token hknown hpending hcancelled)

/-- No delay task publishes a will that a CONNECT for its client id has withdrawn. -/
theorem no_withdrawn_will_published {config : Config} {ls : List Label}
    (hcond : Along Wills.step Wills.Registered (.start config) ls) :
    Along Wills.step (fun w l => ∀ token, l = .fire token → w.resumed token = false)
      (.start config) ls := by
  refine along_of_invariant (I := Wills.Cancelled) (fun w l w' h hcond hstep => ?_)
    ⟨fun token h => absurd rfl h, fun token h => by cases h⟩ hcond
  refine ⟨h.step hcond hstep, fun token htoken => ?_⟩
  subst htoken
  have hstate := Wills.state_of_step hstep
  by_contra hresumed
  have hcancelled := (h.cancelled token (Bool.not_eq_false _ ▸ hresumed)).2
  cases (fired_of_fire hstate).live.symm.trans hcancelled

/-- The client comes back while its will waits for the delay. -/
def returnedLabels : List Label :=
  connectLabels 0 ((Connect.new "x").setWillMessage (delayedWill "gone")) 7 ++
    .event 0 .keepAliveExpired :: List.replicate 3 (.act (.connection 0) {}) ++
    connectLabels 1 (.new "x") 7

theorem along_returnedLabels :
    (run Wills.step (.start defaultConfig) returnedLabels).map (·.resumed 0) = some true ∧
      Along Wills.step (fun w l => ∀ token, l = .fire token → w.resumed token = false)
        (.start defaultConfig) (returnedLabels ++ [.fire 0]) :=
  ⟨by decide +kernel, no_withdrawn_will_published (by decide +kernel)⟩

/-- The CONNECT is accepted between the start of the delay task and `set_pending_will`. -/
def racingLabels : List Label :=
  connectLabels 0 ((Connect.new "x").setWillMessage (delayedWill "gone")) 7 ++
    .event 0 .keepAliveExpired :: .act (.connection 0) {} :: connectLabels 1 (.new "x") 6

theorem withdrawn_will_published :
    ¬ ∀ config ls, Along Wills.step (fun w l => ∀ token, l = .fire token → w.resumed token = false)
      (Wills.start config) ls := by
  have hfacts : (run Wills.step (.start defaultConfig) racingLabels).map
      (fun w => (w.resumed 0, (w.step (.fire 0)).isSome)) = some (true, true) := by
    decide +kernel
  intro h
  obtain ⟨w, hrun, hw⟩ := Option.map_eq_some_iff.mp hfacts
  obtain ⟨hresumed, hfires⟩ := Prod.mk.inj hw
  obtain ⟨w', hfire⟩ := Option.isSome_iff_exists.mp hfires
  have halong := ((along_append hrun).mp (h defaultConfig (racingLabels ++ [.fire 0]))).2
  cases hresumed.symm.trans ((halong w' hfire).1 0 rfl)

end

end Broker
end Vaux
