import Vaux.Broker.Takeover

/-!
# The exits of a handler

A handler that returns at the end of its stream, on a read error or after its session
has ended has deactivated its session and taken its will.  A write that fails returns
at once, without either.
-/

namespace Vaux
namespace Broker

open Wire Mqtt Machine

namespace Action

/-- The actions that are or that lead to a write, and the return. -/
def fallible : Action → Bool
  | .takeWill _ | .setPendingWill .. | .clearWill _ | .deactivate _ => false
  | a => !a.routing

/-- The end of a session has no such action before it. -/
def Before (x y : Action) : Prop := x.fallible = true → y.endsSession = false

end Action

/-- The step is not one by which a connection leaves its session behind: no write fails on
an accepted connection that is neither over nor replaced, no QoS 1 PUBLISH lacks its
packet id, and no replaced connection sends or is still handling a DISCONNECT with
reason Success. -/
def Graceful (s : State) : Label → Prop
  | .event n e =>
    (e.isSuccess = true → ¬ Replaced s.history (.connection n)) ∧
      ∀ p, e = .packet (.publish p) → p.qos = .ok .atLeastOnce → p.packetId ≠ none
  | .act t c =>
    (c.ok = false → (∃ packet rest, (s.tasks t).todo = .write packet :: rest) ∨
        (∃ rest, (s.tasks t).todo = .shutdown :: rest) →
      ∀ A, s.history.accepted t = some A → s.history.latest A.sessionId = some t →
        s.history.ended t = true) ∧
      ∀ a rest, (s.tasks t).todo = .enterPool a :: rest → s.shared.rejects a = false →
        ∀ t' A, s.history.accepted t' = some A → A.sessionId = a.sessionId →
          ∀ ref, .clearWill ref ∉ (s.tasks t').todo
  | _ => True

/-- A handler that has returned, of a connection that was accepted and not taken over, has
no session in the active map, and its will has been taken unless it sent a DISCONNECT
with reason Success. -/
def LeavesNothing (s : State) (t : TaskId) : Prop :=
  ∀ A, s.history.accepted t = some A → s.history.latest A.sessionId = some t →
    (s.tasks t).result ≠ none →
    (∀ id, s.shared.pool.active.lookup id ≠ some A.session) ∧
      (s.history.success t = true ∨ A.will = none ∨ s.history.willTaken t = true)

/-- The connection that a client id is with. -/
def Current (h : History) (t : TaskId) (A : Acceptance) : Prop :=
  h.accepted t = some A ∧ h.latest A.sessionId = some t

/-- What has become of the will of a connection. -/
def Settled (h : History) (t : TaskId) (A : Acceptance) : Prop :=
  h.success t = true ∨ A.will = none ∨ h.willTaken t = true

/-- The invariant of graceful runs. -/
structure Departs (s : State) : Prop where
  supplier : ∀ t A, Current s.history t A → s.history.supplier A.session = some t
  will : ∀ t A, Current s.history t A →
    (s.shared.sessions A.session).willMessage = A.will ∨ Settled s.history t A
  inactive : ∀ t A, Current s.history t A → s.history.ended t = true →
    .deactivate A.sessionId ∈ (s.tasks t).todo ∨ s.shared.pool.active.lookup A.sessionId = none
  taken : ∀ t A, Current s.history t A → s.history.ended t = true →
    .takeWill A.session ∈ (s.tasks t).todo ∨ Settled s.history t A
  finish : ∀ t result, .finish result ∈ (s.tasks t).todo → s.history.accepted t ≠ none →
    s.history.ended t = true
  /-- The will of a session is cleared for the last connection of the client. -/
  clear : ∀ t A, s.history.accepted t = some A → ∀ ref, .clearWill ref ∈ (s.tasks t).todo →
    s.history.latest A.sessionId = some t ∧ s.history.success t = true
  order : ∀ t, (s.tasks t).todo.Pairwise Action.Before
  returned : ∀ t, (s.tasks t).result ≠ none → s.history.ended t = true

theorem departs_start (config : Config) : Departs (.start config) := by
  refine ⟨?_, ?_, ?_, ?_, ?_, ?_, fun _ => List.Pairwise.nil, ?_⟩
  all_goals simp [State.start, History.start, Current, Task.start]

/-! ## The order of what is left to do -/

section

variable {sh sh' : Shared} {t : TaskId} {c : Choice} {a x : Action} {next : Next} {ref : Ref}
  {task : Task} {e : Event} {rest todo : List Action}

theorem endsSession_of_ends (h : x.ends = false) : x.endsSession = false := by
  cases x <;> first | rfl | cases h

theorem fallible_of_perform (hperform : sh.perform t c a = some (sh', next))
    (ha : a.fallible = false) (hx : x ∈ next.more) : x.fallible = false := by
  cases hrouting : a.routing with
  | true =>
      obtain ⟨more, rfl, hmore⟩ := Shared.routing_of_perform hperform hrouting
      have hx' := hmore x hx
      cases x <;> first | rfl | cases hx'
  | false =>
      cases a with
      | takeWill ref =>
          simp only [Shared.perform] at hperform
          split at hperform
          · have hsnd : _ = next := congrArg Prod.snd (Option.some.inj hperform)
            subst hsnd
            cases hwill : (sh.sessions ref).takeWill.1 with
            | none => simp [Shared.initiateWill, hwill, Next.more] at hx
            | some will =>
                simp only [Shared.initiateWill, hwill] at hx
                split at hx
                · cases List.mem_singleton.mp hx
                  rfl
                · cases List.mem_singleton.mp hx
                  rfl
          · cases hperform
      | setPendingWill | clearWill | deactivate =>
          simp only [Shared.perform] at hperform
          split at hperform
          · cases hperform
            cases hx
          · cases hperform
      | route | lockPool | deliver | leavePool => cases hrouting
      | _ => cases ha

theorem order_of_plain (h : ∀ x ∈ todo, x.endsSession = false) : todo.Pairwise Action.Before :=
  List.pairwise_of_forall_mem_list fun _ _ y hy _ => h y hy

theorem order_after (horder : (a :: rest).Pairwise Action.Before)
    (hperform : sh.perform t c a = some (sh', next)) :
    ((task.after rest next).todo).Pairwise Action.Before := by
  obtain ⟨hhead, htail⟩ := List.pairwise_cons.mp horder
  rcases todo_after task rest next with ⟨_, -, heq⟩ | ⟨-, heq⟩
  · rw [heq]
    exact List.Pairwise.nil
  · rw [heq, List.pairwise_append]
    refine ⟨?_, htail, fun x hx y hy hfallible => ?_⟩
    · exact order_of_plain fun y hy => endsSession_of_ends (Shared.ends_of_perform hperform hy)
    · -- an action that cannot fail leads to none that can
      cases ha : a.fallible with
      | true => exact hhead y hy ha
      | false =>
          rw [fallible_of_perform hperform ha hx] at hfallible
          cases hfallible

theorem order_return (result : Except BrokerError Unit) :
    ((task.clientSession.map sh.ending).getD [] ++ [Action.finish result]).Pairwise Action.Before := by
  cases task.clientSession with
  | none => simp [Action.Before]
  | some ref => simp [Shared.ending, Action.Before, Action.fallible, Action.endsSession]

theorem order_of_arises (harises : Shared.Arises sh task e todo) : todo.Pairwise Action.Before := by
  cases harises with
  | control msg hmsg =>
      cases msg with
      | deliver publish => exact List.pairwise_singleton _ _
      | disconnect reason =>
          cases task.clientSession with
          | none => simp [Shared.handleControl, Action.Before, Action.endsSession]
          | some ref =>
              simp only [Shared.handleControl]
              split <;> simp [Action.Before, Action.endsSession]
  | timeout ref href =>
      simp [Shared.ending, Action.Before, Action.fallible]
  | idle hnone => simp [Action.Before, Action.endsSession]
  | packet p ref todo hconnected href htodo =>
      rcases Shared.handlePacket_cases htodo with hplain | ⟨d, -, -, rfl⟩ | ⟨d, -, -, rfl⟩ |
        ⟨publish, result, -, -, -, rfl⟩
      · exact order_of_plain fun x hx => endsSession_of_ends (hplain x hx).2.1
      · simp [Action.Before, Action.fallible]
      · simp [Shared.ending, Action.Before, Action.fallible]
      · simp [Action.Before, Action.endsSession]
  | ignored p hconnected hnone => exact List.Pairwise.nil
  | preConnect p hconnected =>
      cases p with
      | connect connect =>
          simp only [Shared.handlePreConnect]
          split <;> simp [Action.Before, Action.endsSession]
      | _ => exact List.pairwise_singleton _ _
  | endOfStream => exact order_return _
  | readError => exact order_return _

end

/-! ## The history -/

section

variable {h : History} {sh : Shared} {t t' : TaskId} {a : Action} {next : Next} {ref : Ref}
  {A : Acceptance}

theorem willTaken_recordAction (htaken : h.willTaken t' = true) :
    (h.recordAction sh t a).willTaken t' = true := by
  cases a with
  | takeWill ref =>
      simp only [History.recordAction]
      split
      · rename_i supplier _ _
        by_cases ht : t' = supplier
        · subst ht
          exact Function.update_self _ _ _
        · exact (Function.update_of_ne ht _ _).trans htaken
      · exact htaken
  | enterPool y =>
      simp only [History.recordAction]
      split <;> exact htaken
  | _ => exact htaken

/-- A will that is taken is that of its supplier. -/
theorem willTaken_takeWill {will : WillMessage} (hwill : (sh.sessions ref).willMessage = some will)
    (hsupplier : h.supplier ref = some t') :
    (h.recordAction sh t (.takeWill ref)).willTaken t' = true := by
  simp [History.recordAction, hwill, hsupplier]

theorem Settled.act (hsettled : Settled h t' A) (hne : t' ≠ t ∨ ∀ y target, a ≠ .enroll y target) :
    Settled ((h.recordAction sh t a).recordNext t next) t' A := by
  rcases hsettled with hsuccess | hnone | htaken
  · left
    rw [success_recordNext, (recordAction_of_ne hne).2.2]
    exact hsuccess
  · exact .inr (.inl hnone)
  · refine .inr (.inr ?_)
    rw [willTaken_recordNext]
    exact willTaken_recordAction htaken

/-- A connection is over by a return or was so before. -/
theorem ended_cases (hne : t' ≠ t ∨ ∀ y target, a ≠ .enroll y target)
    (hended : ((h.recordAction sh t a).recordNext t next).ended t' = true) :
    h.ended t' = true ∨ t' = t ∧ ∃ result, next = .returned result := by
  have hbefore : (h.recordAction sh t a).ended t' = h.ended t' := (recordAction_of_ne hne).2.1
  cases next with
  | returned result =>
      by_cases ht : t' = t
      · exact .inr ⟨ht, result, rfl⟩
      · exact .inl (hbefore.symm.trans ((Function.update_of_ne ht _ _).symm.trans hended))
  | _ => exact .inl (hbefore.symm.trans hended)

end

/-! ## Actions -/

section

variable {s s' : State} {t t' : TaskId} {c : Choice} {a : Action} {rest : List Action}
  {sh sh' : Shared} {next : Next} {A : Acceptance} {id : String}

/-- The client id is still with a connection that does not enroll by the action. -/
theorem Current.of_act (inv : Inv s) (htodo : (s.tasks t).todo = a :: rest)
    (hcurrent : Current ((s.history.recordAction s.shared t a).recordNext t next) t' A) :
    (∃ y target, a = .enroll y target ∧ t' = t) ∨
      (t' ≠ t ∨ ∀ y target, a ≠ .enroll y target) ∧ Current s.history t' A ∧
        ∀ y, a = .enterPool y → s.shared.rejects y = false → y.sessionId ≠ A.sessionId := by
  by_cases henroll : ∃ y target, a = .enroll y target ∧ t' = t
  · exact .inl henroll
  · have hne : t' ≠ t ∨ ∀ y target, a ≠ .enroll y target := by
      by_cases ht : t' = t
      · exact .inr fun y target heq => henroll ⟨y, target, heq, ht⟩
      · exact .inl ht
    have hA := hcurrent.1
    rw [accepted_recordNext, (recordAction_of_ne hne).1] at hA
    obtain ⟨henter, hlatest⟩ := inv.latest_of_act htodo hA hcurrent.2
    exact .inr ⟨hne, ⟨hA, hlatest⟩, henter⟩

theorem lookup_deactivate_self (hperform : sh.perform t c (.deactivate id) = some (sh', next)) :
    sh'.pool.active.lookup id = none := by
  simp only [Shared.perform] at hperform
  split at hperform
  · cases hperform
    simp only [SessionPool.deactivate]
    cases hactive : sh.pool.active.lookup id with
    | none => exact hactive
    | some ref => exact AList.lookup_erase _ _
  · cases hperform

/-- A connection that enrolls is not over. -/
theorem ended_enroll {h : History} {y : Admission} {target : Option Ref}
    (hperform : sh.perform t c (.enroll y target) = some (sh', next)) :
    ((h.recordAction sh t (.enroll y target)).recordNext t next).ended t = false := by
  cases hperform
  exact Function.update_self _ _ _

section

variable (inv : Inv s) (hdeparts : Departs s) (hgraceful : Graceful s (.act t c))
  (htodo : (s.tasks t).todo = a :: rest) (hperform : s.shared.perform t c a = some (sh, next))

include hdeparts hgraceful htodo hperform in
/-- A handler that returns had its end before. -/
theorem Departs.ended_of_act (hne : t' ≠ t ∨ ∀ y target, a ≠ .enroll y target)
    (hcurrent : Current s.history t' A)
    (hended : ((s.history.recordAction s.shared t a).recordNext t next).ended t' = true) :
    s.history.ended t' = true := by
  rcases ended_cases hne hended with hbefore | ⟨rfl, result, rfl⟩
  · exact hbefore
  · rcases Shared.returned_of_perform hperform with rfl | ⟨hok, hwrite⟩
    · exact hdeparts.finish t' result (htodo ▸ List.mem_cons_self) (by simp [hcurrent.1])
    · refine hgraceful.1 hok ?_ A hcurrent.1 hcurrent.2
      rcases hwrite with ⟨packet, rfl⟩ | rfl
      · exact .inl ⟨packet, rest, htodo⟩
      · exact .inr ⟨rest, htodo⟩

include hdeparts htodo hperform in
/-- The end of a session is still to come, or it is the action. -/
theorem Departs.mem_after {x : Action} (hx : x ∈ (s.tasks t').todo) (hends : x.endsSession = true) :
    x ∈ (Function.update s.tasks t ((s.tasks t).after rest next) t').todo ∨ t' = t ∧ x = a := by
  by_cases ht : t' = t
  · subst ht
    rw [htodo, List.mem_cons] at hx
    rcases hx with rfl | hx
    · exact .inr ⟨rfl, rfl⟩
    · left
      rw [Function.update_self]
      rcases todo_after (s.tasks t') rest next with ⟨result, rfl, -⟩ | ⟨-, heq⟩
      · -- a return has no end of the session behind it
        have hfallible : a.fallible = true := by
          rcases Shared.returned_of_perform hperform with rfl | ⟨-, ⟨packet, rfl⟩ | rfl⟩ <;> rfl
        have horder := hdeparts.order t'
        rw [htodo, List.pairwise_cons] at horder
        have hplain := horder.1 x hx hfallible
        rw [hends] at hplain
        cases hplain
      · rw [heq]
        exact List.mem_append_right _ hx
  · rw [Function.update_of_ne ht]
    exact .inl hx

include inv htodo in
theorem Departs.supplier_act (hdeparts : Departs s)
    (hcurrent : Current ((s.history.recordAction s.shared t a).recordNext t next) t' A) :
    ((s.history.recordAction s.shared t a).recordNext t next).supplier A.session = some t' := by
  rw [supplier_recordNext]
  rcases hcurrent.of_act inv htodo with ⟨y, target, rfl, rfl⟩ | ⟨hne, hbefore, -⟩
  · have hA := hcurrent.1
    simp only [accepted_recordNext, History.recordAction, Function.update_self,
      Option.some.injEq] at hA
    subst hA
    exact Function.update_self _ _ _
  · refine (supplier_recordAction ?_).trans (hdeparts.supplier t' A hbefore)
    rintro y target rfl
    cases target with
    | none => exact Nat.ne_of_lt ((inv.task t').accepted A hbefore.1).1
    | some ref =>
        rintro rfl
        exact (inv.not_enroll htodo hbefore.1 hbefore.2).1 y rfl

include inv hdeparts htodo hperform in
theorem Departs.will_act
    (hcurrent : Current ((s.history.recordAction s.shared t a).recordNext t next) t' A) :
    (sh.sessions A.session).willMessage = A.will ∨
      Settled ((s.history.recordAction s.shared t a).recordNext t next) t' A := by
  have hmem : a ∈ (s.tasks t).todo := htodo ▸ List.mem_cons_self
  rcases hcurrent.of_act inv htodo with ⟨y, target, rfl, rfl⟩ | ⟨hne, hbefore, -⟩
  · left
    have htarget := ((inv.task t').holding _ hmem y target rfl).target
    have hA := hcurrent.1
    simp only [accepted_recordNext, History.recordAction, Function.update_self,
      Option.some.injEq] at hA
    subst hA
    have hwill := (lookup_enroll htarget).2
    cases hperform
    exact hwill
  · rcases hdeparts.will t' A hbefore with hwill | hsettled
    · by_cases htake : a = .takeWill A.session
      · subst htake
        right
        cases hA : A.will with
        | none => exact .inr (.inl hA)
        | some will =>
            refine .inr (.inr ?_)
            rw [willTaken_recordNext]
            exact willTaken_takeWill (hwill.trans hA) (hdeparts.supplier t' A hbefore)
      · by_cases hclear : a = .clearWill A.session
        · -- the DISCONNECT of this very connection
          subst hclear
          obtain ⟨B, hB, hsession⟩ := (inv.task t).session _ hmem A.session rfl
          obtain ⟨hlatest, hsuccess⟩ := hdeparts.clear t B hB _ hmem
          rw [inv.sessionId_eq hB hbefore.1 hsession, hbefore.2, Option.some.injEq] at hlatest
          subst hlatest
          exact .inr (Settled.act (.inl hsuccess) hne)
        · left
          have hadopt := (inv.not_enroll htodo hbefore.1 hbefore.2).1
          have hlt := ((inv.task t').accepted A hbefore.1).1
          exact (will_of_perform_ne hperform hlt htake hclear hadopt).trans hwill
    · exact .inr (hsettled.act hne)

include inv hdeparts hgraceful htodo hperform in
theorem Departs.inactive_act
    (hcurrent : Current ((s.history.recordAction s.shared t a).recordNext t next) t' A)
    (hended : ((s.history.recordAction s.shared t a).recordNext t next).ended t' = true) :
    .deactivate A.sessionId ∈ (Function.update s.tasks t ((s.tasks t).after rest next) t').todo ∨
      sh.pool.active.lookup A.sessionId = none := by
  rcases hcurrent.of_act inv htodo with ⟨y, target, rfl, rfl⟩ | ⟨hne, hbefore, henter⟩
  · rw [ended_enroll hperform] at hended
    cases hended
  · have hended' := hdeparts.ended_of_act hgraceful htodo hperform hne hbefore hended
    by_cases hdeactivate : a = .deactivate A.sessionId
    · subst hdeactivate
      exact .inr (lookup_deactivate_self hperform)
    · rcases hdeparts.inactive t' A hbefore hended' with hleft | hnone
      · rcases hdeparts.mem_after htodo hperform hleft rfl with hleft | ⟨-, heq⟩
        · exact .inl hleft
        · exact absurd heq.symm hdeactivate
      · right
        have hregister := (inv.not_enroll htodo hbefore.1 hbefore.2).2
        exact (lookup_of_perform hperform inv.sound henter hregister hdeactivate).trans hnone

include inv hdeparts hgraceful htodo hperform in
theorem Departs.taken_act
    (hcurrent : Current ((s.history.recordAction s.shared t a).recordNext t next) t' A)
    (hended : ((s.history.recordAction s.shared t a).recordNext t next).ended t' = true) :
    .takeWill A.session ∈ (Function.update s.tasks t ((s.tasks t).after rest next) t').todo ∨
      Settled ((s.history.recordAction s.shared t a).recordNext t next) t' A := by
  rcases hcurrent.of_act inv htodo with ⟨y, target, rfl, rfl⟩ | ⟨hne, hbefore, -⟩
  · rw [ended_enroll hperform] at hended
    cases hended
  · have hended' := hdeparts.ended_of_act hgraceful htodo hperform hne hbefore hended
    rcases hdeparts.taken t' A hbefore hended' with hleft | hsettled
    · rcases hdeparts.mem_after htodo hperform hleft rfl with hleft | ⟨rfl, rfl⟩
      · exact .inl hleft
      · right
        rcases hdeparts.will_act inv htodo hperform hcurrent with hwill | hsettled
        · -- the session has no will any more, so there was none
          rw [session_of_takeWill hperform, Function.update_self] at hwill
          exact .inr (.inl hwill.symm)
        · exact hsettled
    · exact .inr (hsettled.act hne)

end

theorem Departs.act (inv : Inv s) (hdeparts : Departs s) (hgraceful : Graceful s (.act t c))
    (hstep : s.act t c = some s') : Departs s' := by
  obtain ⟨a, rest, sh, next, htodo, hperform, rfl⟩ := act_cases hstep
  have hmem : a ∈ (s.tasks t).todo := htodo ▸ List.mem_cons_self
  have hafter := Shared.frame_afterNext sh (s.tasks t) next
  -- what is left of the end of a session or of the handler was left before
  have hleft : ∀ {t' : TaskId} {x : Action},
      x ∈ (Function.update s.tasks t ((s.tasks t).after rest next) t').todo → x.ends = true →
      x ∈ (s.tasks t').todo ∧ (t' ≠ t ∨ ∀ y target, a ≠ .enroll y target) := by
    intro t' x hx hends
    by_cases ht : t' = t
    · subst ht
      rw [Function.update_self] at hx
      rcases mem_todo_after hx with hx | hx
      · rw [Shared.ends_of_perform hperform hx] at hends
        cases hends
      · refine ⟨htodo ▸ List.mem_cons_of_mem a hx, .inr ?_⟩
        rintro y target rfl
        have hsingle := ((inv.task t').connecting _ hmem rfl).1
        rw [htodo] at hsingle
        cases hsingle
        cases hx
    · rw [Function.update_of_ne ht] at hx
      exact ⟨hx, .inl ht⟩
  refine ⟨?_, ?_, ?_, ?_, ?_, ?_, ?_, ?_⟩
  · exact fun t' A hcurrent => hdeparts.supplier_act inv htodo hcurrent
  · intro t' A hcurrent
    rw [Shared.sessions_afterNext]
    exact hdeparts.will_act inv htodo hperform hcurrent
  · intro t' A hcurrent hended
    rw [hafter.pool]
    exact hdeparts.inactive_act inv hgraceful htodo hperform hcurrent hended
  · exact fun t' A hcurrent hended =>
      hdeparts.taken_act inv hgraceful htodo hperform hcurrent hended
  · intro t' result hx hA
    obtain ⟨hx', hne⟩ := hleft hx rfl
    rw [accepted_recordNext, (recordAction_of_ne hne).1] at hA
    refine ended_recordNext ?_
    rw [(recordAction_of_ne hne).2.1]
    exact hdeparts.finish t' result hx' hA
  · intro t' A hA ref hx
    obtain ⟨hx', hne⟩ := hleft hx rfl
    rw [accepted_recordNext, (recordAction_of_ne hne).1] at hA
    obtain ⟨hlatest, hsuccess⟩ := hdeparts.clear t' A hA ref hx'
    refine ⟨?_, ?_⟩
    · rw [latest_of_act, hlatest]
      rintro y rfl hreject heq
      exact hgraceful.2 y rest htodo hreject t' A hA heq.symm ref hx'
    · rw [success_recordNext, (recordAction_of_ne hne).2.2]
      exact hsuccess
  · intro t'
    by_cases ht : t' = t
    · subst ht
      simp only [Function.update_self]
      exact order_after (htodo ▸ hdeparts.order t') hperform
    · simp only [Function.update_of_ne ht]
      exact hdeparts.order t'
  · intro t' hresult
    by_cases ht : t' = t
    · subst ht
      simp only [Function.update_self] at hresult
      cases next with
      | returned result => exact Function.update_self _ _ _
      | _ =>
          rw [(inv.task t').done hresult] at htodo
          cases htodo
    · simp only [Function.update_of_ne ht] at hresult
      refine ended_recordNext ?_
      rw [(recordAction_of_ne (.inl ht)).2.1]
      exact hdeparts.returned t' hresult

/-! ## Events -/

/-- A connection that waits for an event has its session. -/
theorem clientSession_of_accepted (inv : Inv s) (hnil : (s.tasks t).todo = [])
    (hresult : (s.tasks t).result = none) (hA : s.history.accepted t = some A) :
    (s.tasks t).connected = true ∧ (s.tasks t).clientSession = some A.session := by
  have hconnected : (s.tasks t).connected = true := by
    rcases (inv.task t).phase (by simp [hA]) with hphase | hphase | ⟨ref, hphase⟩
    · exact hphase
    · exact absurd hresult hphase
    · rw [hnil] at hphase
      rcases hphase with hphase | hphase <;> cases hphase
  refine ⟨hconnected, ?_⟩
  obtain ⟨ref, href⟩ := Option.ne_none_iff_exists'.mp ((inv.task t).connected hconnected)
  obtain ⟨B, hB, rfl⟩ := (inv.task t).client ref href
  rw [hA, Option.some.injEq] at hB
  rw [href, hB]

end

section

variable {sh : Shared} {task : Task} {e : Event} {todo : List Action} {ref ref' : Ref}

/-- An event that ends a connection leaves the end of its session to do. -/
theorem ending_of_arises (harises : Shared.Arises sh task e todo) (hends : e.ends = true)
    (hconnected : task.connected = true) (href : task.clientSession = some ref) :
    .deactivate (sh.sessions ref).id ∈ todo ∧ (.takeWill ref ∈ todo ∨ e.isSuccess = true) := by
  cases harises with
  | control msg hmsg => cases hends
  | timeout ref' href' =>
      cases href.symm.trans href'
      simp [Shared.ending]
  | idle hnone => cases href.symm.trans hnone
  | packet p ref' todo _ href' htodo =>
      cases href.symm.trans href'
      cases p with
      | disconnect d =>
          simp only [Shared.handlePacket] at htodo
          split at htodo
          · rename_i hreason
            cases htodo
            exact ⟨by simp, .inr (by simpa [Event.isSuccess] using hreason)⟩
          · cases htodo
            simp [Shared.ending]
      | _ => cases hends
  | ignored p _ hnone => cases href.symm.trans hnone
  | preConnect p hconnected' => cases hconnected.symm.trans hconnected'
  | endOfStream => simp [href, Shared.ending]
  | readError => simp [href, Shared.ending]

/-- An event by which a handler with a session returns. -/
theorem finish_of_arises {result : Except BrokerError Unit} (harises : Shared.Arises sh task e todo)
    (hx : .finish result ∈ todo) (hconnected : task.connected = true)
    (href : task.clientSession = some ref) :
    e.ends = true ∨ ∃ p, e = .packet (.publish p) ∧ p.qos = .ok .atLeastOnce ∧ p.packetId = none := by
  cases harises with
  | control msg hmsg =>
      cases msg with
      | deliver publish => cases List.mem_singleton.mp hx
      | disconnect reason =>
          simp only [Shared.handleControl, href] at hx
          split at hx <;> simp at hx
  | timeout ref' href' => exact .inl rfl
  | idle hnone => exact .inl rfl
  | packet p ref' todo _ href' htodo =>
      rcases Shared.handlePacket_cases htodo with hplain | ⟨d, rfl, -, -⟩ | ⟨d, rfl, -, -⟩ |
        ⟨publish, _, rfl, hqos, hnone, -⟩
      · cases (hplain _ hx).2.1
      · exact .inl rfl
      · exact .inl rfl
      · exact .inr ⟨publish, rfl, hqos, hnone⟩
  | ignored p _ hnone => cases hx
  | preConnect p hconnected' => cases hconnected.symm.trans hconnected'
  | endOfStream => exact .inl rfl
  | readError => exact .inl rfl

theorem clearWill_not_return (result : Except BrokerError Unit) :
    .clearWill ref ∉ (task.clientSession.map sh.ending).getD [] ++ [.finish result] := by
  cases task.clientSession <;> simp [Shared.ending]

/-- A will is cleared by a DISCONNECT with reason Success. -/
theorem success_of_arises (harises : Shared.Arises sh task e todo) (hx : .clearWill ref ∈ todo) :
    e.isSuccess = true := by
  cases harises with
  | control msg hmsg =>
      cases msg with
      | deliver publish => cases List.mem_singleton.mp hx
      | disconnect reason =>
          cases hclient : task.clientSession with
          | none => simp [Shared.handleControl, hclient] at hx
          | some ref' =>
              simp only [Shared.handleControl, hclient] at hx
              split at hx <;> simp at hx
  | timeout ref' href' => simp [Shared.ending] at hx
  | idle hnone => simp at hx
  | packet p ref' todo _ href' htodo =>
      rcases Shared.handlePacket_cases htodo with hplain | ⟨d, rfl, hreason, -⟩ | ⟨d, -, -, rfl⟩ |
        ⟨publish, _, -, -, -, rfl⟩
      · cases (hplain _ hx).2.1
      · simpa [Event.isSuccess] using hreason
      · simp [Shared.ending] at hx
      · simp at hx
  | ignored p _ hnone => cases hx
  | preConnect p hconnected =>
      cases p with
      | connect connect =>
          simp only [Shared.handlePreConnect] at hx
          split at hx <;> simp at hx
      | _ => cases List.mem_singleton.mp hx
  | endOfStream => exact absurd hx (clearWill_not_return _)
  | readError => exact absurd hx (clearWill_not_return _)

end

section

variable {s s' : State} {t t' : TaskId} {A : Acceptance} {e : Event} {n : Nat}

theorem Settled.event {h : History} {sh : Shared} {task : Task} (hsettled : Settled h t' A) :
    Settled (h.recordEvent sh t task e) t' A := by
  rcases hsettled with hsuccess | hsettled
  · left
    by_cases ht : t' = t
    · subst ht
      simp [History.recordEvent, hsuccess]
    · simp [History.recordEvent, ht, hsuccess]
  · exact .inr hsettled

theorem Departs.event (inv : Inv s) (hdeparts : Departs s) (hgraceful : Graceful s (.event n e))
    (hstep : s.event (.connection n) e = some s') : Departs s' := by
  obtain ⟨hnil, hresult, sh, todo, hhandle, rfl⟩ := event_cases hstep
  obtain ⟨hframe, hsessions⟩ := Shared.frame_of_handle hhandle
  have harises := Shared.arises_of_handle hhandle
  have hclient := fun {A} => clientSession_of_accepted (A := A) inv hnil hresult
  -- a connection that was over before has nothing of its end left to do
  have hover : (s.history.recordEvent s.shared (.connection n) (s.tasks (.connection n)) e).ended
      (.connection n) = true → s.history.ended (.connection n) = true ∨ e.ends = true := by
    intro hended
    simpa [History.recordEvent] using hended
  refine ⟨hdeparts.supplier, ?_, ?_, ?_, ?_, ?_, ?_, ?_⟩
  · intro t' A hcurrent
    rw [hsessions]
    exact (hdeparts.will t' A hcurrent).imp_right Settled.event
  · intro t' A hcurrent hended
    rw [hframe.pool]
    by_cases ht : t' = .connection n
    · subst ht
      obtain ⟨hconnected, href⟩ := hclient hcurrent.1
      simp only [Function.update_self]
      rcases hover hended with hended | hends
      · have hinactive := hdeparts.inactive _ A hcurrent hended
        rw [hnil] at hinactive
        exact .inr (hinactive.resolve_left List.not_mem_nil)
      · rw [← ((inv.task _).accepted A hcurrent.1).2]
        exact .inl (ending_of_arises harises hends hconnected href).1
    · simp only [Function.update_of_ne ht]
      refine hdeparts.inactive t' A hcurrent ?_
      simpa [History.recordEvent, ht] using hended
  · intro t' A hcurrent hended
    by_cases ht : t' = .connection n
    · subst ht
      obtain ⟨hconnected, href⟩ := hclient hcurrent.1
      simp only [Function.update_self]
      rcases hover hended with hended | hends
      · have htaken := hdeparts.taken _ A hcurrent hended
        rw [hnil] at htaken
        exact .inr (htaken.resolve_left List.not_mem_nil).event
      · rcases (ending_of_arises harises hends hconnected href).2 with htake | hsuccess
        · exact .inl htake
        · exact .inr (.inl (by simp [History.recordEvent, hsuccess]))
    · simp only [Function.update_of_ne ht]
      refine (hdeparts.taken t' A hcurrent ?_).imp_right Settled.event
      simpa [History.recordEvent, ht] using hended
  · intro t' result hx hA
    by_cases ht : t' = .connection n
    · subst ht
      simp only [Function.update_self] at hx
      obtain ⟨A, hA'⟩ := Option.ne_none_iff_exists'.mp hA
      obtain ⟨hconnected, href⟩ := hclient hA'
      rcases finish_of_arises harises hx hconnected href with hends | ⟨p, rfl, hqos, hnone⟩
      · simp [History.recordEvent, hends]
      · exact absurd hnone (hgraceful.2 p rfl hqos)
    · simp only [Function.update_of_ne ht] at hx
      exact (Function.update_of_ne ht _ _).trans (hdeparts.finish t' result hx hA)
  · intro t' A hA ref hx
    by_cases ht : t' = .connection n
    · subst ht
      simp only [Function.update_self] at hx
      have hsuccess := success_of_arises harises hx
      refine ⟨?_, by simp [History.recordEvent, hsuccess]⟩
      by_contra hlatest
      exact hgraceful.1 hsuccess ⟨A, hA, hlatest⟩
    · simp only [Function.update_of_ne ht] at hx
      obtain ⟨hlatest, hsuccess⟩ := hdeparts.clear t' A hA ref hx
      exact ⟨hlatest, (Function.update_of_ne ht _ _).trans hsuccess⟩
  · intro t'
    by_cases ht : t' = .connection n
    · subst ht
      simp only [Function.update_self]
      exact order_of_arises harises
    · simp only [Function.update_of_ne ht]
      exact hdeparts.order t'
  · intro t' hresult'
    by_cases ht : t' = .connection n
    · subst ht
      simp only [Function.update_self] at hresult'
      exact absurd hresult hresult'
    · simp only [Function.update_of_ne ht] at hresult'
      exact (Function.update_of_ne ht _ _).trans (hdeparts.returned t' hresult')

/-- The delayed publication of a will ends no session. -/
theorem Departs.fire (inv : Inv s) (hdeparts : Departs s) {token : Token}
    (hstep : s.fire token = some s') : Departs s' := by
  rw [fire_cases hstep]
  have hother : ∀ t' A, s.history.accepted t' = some A → t' ≠ .delay token := by
    rintro t' A hA rfl
    rw [((inv.task _).delay token rfl).1] at hA
    cases hA
  have htodo : ∀ {t' x}, t' ≠ .delay token → x ∈ (s.tasks t').todo →
      x ∈ (Function.update s.tasks (.delay token)
        { s.tasks (.delay token) with
          todo := [.route (Shared.willPublish (s.shared.delays token).will) ""] } t').todo := by
    intro t' x ht hx
    rw [Function.update_of_ne ht]
    exact hx
  refine ⟨hdeparts.supplier, hdeparts.will, ?_, ?_, ?_, ?_, ?_, ?_⟩
  · intro t' A hcurrent hended
    exact (hdeparts.inactive t' A hcurrent hended).imp_left (htodo (hother t' A hcurrent.1))
  · intro t' A hcurrent hended
    exact (hdeparts.taken t' A hcurrent hended).imp_left (htodo (hother t' A hcurrent.1))
  · intro t' result hx hA
    by_cases ht : t' = .delay token
    · subst ht
      simp at hx
    · simp only [Function.update_of_ne ht] at hx
      exact hdeparts.finish t' result hx hA
  · intro t' A hA ref hx
    simp only [Function.update_of_ne (hother t' A hA)] at hx
    exact hdeparts.clear t' A hA ref hx
  · intro t'
    by_cases ht : t' = .delay token
    · subst ht
      simp only [Function.update_self]
      exact List.pairwise_singleton _ _
    · simp only [Function.update_of_ne ht]
      exact hdeparts.order t'
  · intro t' hresult
    by_cases ht : t' = .delay token
    · subst ht
      simp only [Function.update_self] at hresult
      exact hdeparts.returned _ hresult
    · simp only [Function.update_of_ne ht] at hresult
      exact hdeparts.returned t' hresult

theorem Departs.step (inv : Inv s) (hdeparts : Departs s) {l : Label} (hgraceful : Graceful s l)
    (hstep : s.step l = some s') : Departs s' := by
  cases l with
  | event n e => exact hdeparts.event inv hgraceful hstep
  | act t c => exact hdeparts.act inv hgraceful hstep
  | fire token => exact hdeparts.fire inv hstep
  | setAccepting accept =>
      cases hstep
      exact ⟨hdeparts.supplier, hdeparts.will, hdeparts.inactive, hdeparts.taken, hdeparts.finish,
        hdeparts.clear, hdeparts.order, hdeparts.returned⟩
  | setSessionExpiry secs =>
      simp only [State.step] at hstep
      split at hstep
      · cases hstep
        exact ⟨hdeparts.supplier, hdeparts.will, hdeparts.inactive, hdeparts.taken, hdeparts.finish,
          hdeparts.clear, hdeparts.order, hdeparts.returned⟩
      · cases hstep

end

/-- In a graceful run no handler that has returned leaves its session behind. -/
theorem leavesNothing_of_graceful {config : Config} {ls : List Label} {s : State}
    (hgraceful : Along State.step Graceful (.start config) ls)
    (hrun : run State.step (.start config) ls = some s) (t : TaskId) : LeavesNothing s t := by
  obtain ⟨inv, hdeparts⟩ := invariant_of_step (I := fun s => Inv s ∧ Departs s)
    (fun s l s' h hgraceful hstep => ⟨h.1.step hstep, h.2.step h.1 hgraceful hstep⟩)
    ⟨inv_start config, departs_start config⟩ hgraceful hrun
  intro A hA hlatest hresult
  have hended := hdeparts.returned t hresult
  have hnil := (inv.task t).done hresult
  have hinactive := hdeparts.inactive t A ⟨hA, hlatest⟩ hended
  have htaken := hdeparts.taken t A ⟨hA, hlatest⟩ hended
  rw [hnil] at hinactive htaken
  refine ⟨fun id hlookup => ?_, htaken.resolve_left List.not_mem_nil⟩
  -- a session is active under its own id
  have hid := (inv.sound.active hlookup).1
  rw [((inv.task t).accepted A hA).2] at hid
  rw [← hid, hinactive.resolve_left List.not_mem_nil] at hlookup
  cases hlookup

section

variable {s s' : State} {n : Nat} {l : Label}

theorem accepted_of_single (hl : (∃ e, l = .event n e) ∨ ∃ c, l = .act (.connection n) c)
    (hother : ∀ t ≠ .connection n, s.history.accepted t = none) (hstep : s.step l = some s') :
    ∀ t ≠ .connection n, s'.history.accepted t = none := by
  intro t ht
  rcases hl with ⟨e, rfl⟩ | ⟨c, rfl⟩
  · obtain ⟨-, -, sh, todo, -, rfl⟩ := event_cases hstep
    exact hother t ht
  · obtain ⟨a, rest, sh, next, -, -, rfl⟩ := act_cases hstep
    rw [accepted_recordNext, accepted_recordAction_of_ne ht]
    exact hother t ht

/-- No connection is accepted when the only one enters the pool. -/
theorem accepted_of_enterPool {y : Admission} {rest : List Action} {t : TaskId} {A : Acceptance}
    (inv : Inv s) (hother : ∀ t ≠ .connection n, s.history.accepted t = none)
    (henter : (s.tasks (.connection n)).todo = .enterPool y :: rest) :
    s.history.accepted t ≠ some A := by
  intro hA
  by_cases ht : t = .connection n
  · subst ht
    rw [inv.accepted_none henter rfl] at hA
    cases hA
  · rw [hother t ht] at hA
    cases hA

end

/-- A connection that is accepted, and whose stream then ends. -/
def departingLabels : List Label :=
  connectLabels 0 ((Connect.new "x").setWillMessage (willOn "gone")) 7 ++
    .event 0 .endOfStream :: List.replicate 6 (.act (.connection 0) {})

theorem leavesNothing_of_graceful_endOfStream : ∃ s,
    run State.step (.start defaultConfig) departingLabels = some s ∧
    s.history.accepted (.connection 0) ≠ none ∧ (s.tasks (.connection 0)).result ≠ none ∧
    LeavesNothing s (.connection 0) := by
  have hfacts : (run State.step (.start defaultConfig) departingLabels).map (fun s =>
      ((s.history.accepted (.connection 0)).isSome, (s.tasks (.connection 0)).result.isSome)) =
      some (true, true) := by
    decide +kernel
  obtain ⟨s, hrun, hs⟩ := Option.map_eq_some_iff.mp hfacts
  simp only [Prod.mk.injEq, Option.isSome_iff_ne_none] at hs
  refine ⟨s, hrun, hs.1, hs.2, leavesNothing_of_graceful ?_ hrun _⟩
  refine along_of_invariant
    (P := fun _ l => (∃ e, l = .event 0 e ∧ e.isSuccess = false ∧ ∀ p, e ≠ .packet (.publish p)) ∨
      l = .act (.connection 0) {})
    (I := fun s => Inv s ∧ ∀ t ≠ .connection 0, s.history.accepted t = none)
    (fun s l s' h hl hstep => ?_) ⟨inv_start _, fun _ _ => rfl⟩ (along_of_forall fun l hl => ?_)
  · have hother := accepted_of_single
      (hl.imp (fun ⟨e, h, _⟩ => ⟨e, h⟩) fun h => ⟨_, h⟩) h.2 hstep
    refine ⟨⟨h.1.step hstep, hother⟩, ?_⟩
    rcases hl with ⟨e, rfl, hsuccess, hpublish⟩ | rfl
    · exact ⟨fun h => absurd h (by simp [hsuccess]), fun p h => absurd h (hpublish p)⟩
    · exact ⟨fun h => (by cases h),
        fun y rest henter _ t A hA => absurd hA (accepted_of_enterPool h.1 h.2 henter)⟩
  · simp only [departingLabels, connectLabels, packetLabels, List.cons_append, List.mem_cons,
      List.mem_append, List.mem_replicate] at hl
    rcases hl with rfl | ⟨-, rfl⟩ | rfl | ⟨-, rfl⟩
    · exact .inl ⟨_, rfl, rfl, fun p h => by cases h⟩
    · exact .inr rfl
    · exact .inl ⟨_, rfl, rfl, fun p h => by cases h⟩
    · exact .inr rfl

/-! ## A write that fails -/

/-- The PINGRESP of connection 0 cannot be written. -/
def brokenLabels : List Label :=
  connectLabels 0 ((Connect.new "x").setWillMessage (willOn "gone")) 7 ++
    packetLabels 0 (.pingRequest .default) 0 ++ [.act (.connection 0) { ok := false }]

/-- The handler has returned, and its session is active and has its will. -/
theorem not_leavesNothing_of_broken : ∃ s,
    run State.step (.start defaultConfig) brokenLabels = some s ∧
    ¬ LeavesNothing s (.connection 0) := by
  have hfacts : (run State.step (.start defaultConfig) brokenLabels).map (fun s =>
      (s.history.accepted (.connection 0), s.history.latest "x",
        (s.tasks (.connection 0)).result.isSome, s.shared.pool.getActive "x")) =
      some (some { sessionId := "x", session := 0, will := some (willOn "gone") },
        some (.connection 0), true, some 0) := by
    decide +kernel
  obtain ⟨s, hrun, hs⟩ := Option.map_eq_some_iff.mp hfacts
  simp only [Prod.mk.injEq] at hs
  obtain ⟨haccepted, hlatest, hresult, hlookup⟩ := hs
  refine ⟨s, hrun, fun hleaves => ?_⟩
  have hinactive := (hleaves _ haccepted hlatest (Option.isSome_iff_ne_none.mp hresult)).1
  exact hinactive "x" hlookup

end Broker
end Vaux
