import Vaux.Broker.Ownership

/-!
# Takeovers

A handler goes on after its connection has been replaced, and it ends its session by
the client id and through the session object, which may by then be those of the new
connection.  A new connection keeps its session and its will as long as no
replaced one ends.
-/

namespace Vaux
namespace Broker

open Wire Mqtt Machine

/-- Another connection has entered the pool for the client id of the connection. -/
def Replaced (h : History) (t : TaskId) : Prop :=
  ∃ A, h.accepted t = some A ∧ h.latest A.sessionId ≠ some t

/-- The step is not the end of a replaced connection: none has an EOF, a read error, a
keep-alive expiry or a DISCONNECT, none is still ending its session when it is replaced,
and there is no Disconnect message but that of a takeover. -/
def Orderly (s : State) : Label → Prop
  | .event n e =>
    (e.ends = true → ¬ Replaced s.history (.connection n)) ∧
      (e = .control → ∀ reason, s.shared.nextControl (s.tasks (.connection n)) =
        some (.disconnect reason) → reason = .sessionTakeOver)
  | .act t _ =>
    ∀ a rest, (s.tasks t).todo = .enterPool a :: rest → s.shared.rejects a = false →
      ∀ t' A, s.history.accepted t' = some A → A.sessionId = a.sessionId →
        ∀ x ∈ (s.tasks t').todo, x.endsSession = false
  | _ => True

/-- An accepted connection that is neither over nor replaced has its session, active and
with its will. -/
def OwnsSession (s : State) (t : TaskId) : Prop :=
  ∀ A, s.history.accepted t = some A → s.history.latest A.sessionId = some t →
    s.history.ended t = false →
    s.shared.pool.active.lookup A.sessionId = some A.session ∧
      (s.shared.sessions A.session).connected = true ∧
      (s.shared.sessions A.session).willMessage = A.will

/-- The invariant of orderly runs. -/
structure Kept (s : State) : Prop where
  lookup : ∀ t A, s.history.accepted t = some A → s.history.latest A.sessionId = some t →
    s.history.ended t = false →
    s.shared.pool.active.lookup A.sessionId = some A.session ∧
      (s.shared.sessions A.session).willMessage = A.will
  /-- Only the last connection of a client ends its session. -/
  ending : ∀ t A, s.history.accepted t = some A → ∀ x ∈ (s.tasks t).todo, x.endsSession = true →
    s.history.latest A.sessionId = some t ∧ s.history.ended t = true

theorem kept_start (config : Config) : Kept (.start config) :=
  ⟨fun _ _ h => (by cases h), fun _ _ h => by cases h⟩

section

variable {s s' : State} {t : TaskId} {c : Choice} {a : Action} {rest : List Action} {sh : Shared}
  {next : Next}

/-- A connection that enters the pool is not accepted yet. -/
theorem Inv.accepted_none (inv : Inv s) (htodo : (s.tasks t).todo = a :: rest)
    (ha : a.connecting = true) : s.history.accepted t = none :=
  ((inv.task t).connecting a (htodo ▸ List.mem_cons_self) ha).2.1

/-- The id under which a task was accepted is that of its session. -/
theorem Inv.sessionId_eq (inv : Inv s) {t' : TaskId} {A B : Acceptance}
    (hA : s.history.accepted t = some A) (hB : s.history.accepted t' = some B)
    (hsession : A.session = B.session) : A.sessionId = B.sessionId := by
  rw [← ((inv.task t).accepted A hA).2, ← ((inv.task t').accepted B hB).2, hsession]

/-- Another connection of the client has not entered the pool by this action. -/
theorem Inv.latest_of_act (inv : Inv s) (htodo : (s.tasks t).todo = a :: rest) {t' : TaskId}
    {A : Acceptance} (hA : s.history.accepted t' = some A)
    (hlatest : ((s.history.recordAction s.shared t a).recordNext t next).latest A.sessionId = some t') :
    (∀ y, a = .enterPool y → s.shared.rejects y = false → y.sessionId ≠ A.sessionId) ∧
      s.history.latest A.sessionId = some t' := by
  have henter : ∀ y, a = .enterPool y → s.shared.rejects y = false → y.sessionId ≠ A.sessionId := by
    rintro y rfl hreject heq
    rw [latest_recordNext, latest_enterPool hreject, heq, Function.update_self,
      Option.some.injEq] at hlatest
    subst hlatest
    rw [inv.accepted_none htodo rfl] at hA
    cases hA
  exact ⟨henter, (Broker.latest_of_act henter).symm.trans hlatest⟩

/-- The last connection of the client is not enrolling. -/
theorem Inv.not_enroll (inv : Inv s) (htodo : (s.tasks t).todo = a :: rest) {t' : TaskId}
    {A : Acceptance} (hA : s.history.accepted t' = some A)
    (hlatest : s.history.latest A.sessionId = some t') :
    (∀ y, a ≠ .enroll y (some A.session)) ∧ ∀ y, a = .enroll y none → y.sessionId ≠ A.sessionId := by
  have hmem : a ∈ (s.tasks t).todo := htodo ▸ List.mem_cons_self
  have hother : ∀ y target, a = .enroll y target → y.sessionId ≠ A.sessionId := by
    rintro y target rfl heq
    have hlatest' := ((inv.task t).holding _ hmem y target rfl).latest
    rw [heq, hlatest, Option.some.injEq] at hlatest'
    subst hlatest'
    rw [inv.accepted_none htodo rfl] at hA
    cases hA
  refine ⟨?_, fun y heq => hother y none heq⟩
  rintro y rfl
  have hholds := (inv.task t).holding _ hmem y (some A.session) rfl
  have hid := (inv.sound.active hholds.target).1
  rw [((inv.task t').accepted A hA).2] at hid
  exact hother y _ rfl hid.symm

/-- Nobody else touches the session of a connection that is neither over nor replaced. -/
theorem Kept.lookup_act (inv : Inv s) (hkept : Kept s) (htodo : (s.tasks t).todo = a :: rest)
    (hperform : s.shared.perform t c a = some (sh, next)) {t' : TaskId} {A : Acceptance}
    (hA : s.history.accepted t' = some A)
    (hlatest : ((s.history.recordAction s.shared t a).recordNext t next).latest A.sessionId = some t')
    (hended : s.history.ended t' = false) :
    sh.pool.active.lookup A.sessionId = some A.session ∧
      (sh.sessions A.session).willMessage = A.will := by
  have hmem : a ∈ (s.tasks t).todo := htodo ▸ List.mem_cons_self
  obtain ⟨henter, hlatest'⟩ := inv.latest_of_act htodo hA hlatest
  obtain ⟨hadopt, hregister⟩ := inv.not_enroll htodo hA hlatest'
  obtain ⟨hlookup, hwill⟩ := hkept.lookup t' A hA hlatest' hended
  -- what ends a session is the end of another connection
  have hother : ∀ B, s.history.accepted t = some B → a.endsSession = true →
      B.sessionId ≠ A.sessionId := by
    intro B hB hends heq
    obtain ⟨hlatestB, hendedB⟩ := hkept.ending t B hB a hmem hends
    rw [heq, hlatest', Option.some.injEq] at hlatestB
    rw [← hlatestB, hended] at hendedB
    cases hendedB
  have hsession : ∀ ref, a.session = some ref → a.endsSession = true → ref ≠ A.session := by
    rintro ref href hends rfl
    obtain ⟨B, hB, heq⟩ := (inv.task t).session a hmem A.session href
    exact hother B hB hends (inv.sessionId_eq hB hA heq)
  constructor
  · refine (lookup_of_perform hperform inv.sound henter hregister ?_).trans hlookup
    rintro rfl
    obtain ⟨B, hB, heq⟩ := (inv.task t).deactivate _ hmem
    exact hother B hB rfl heq
  · refine (will_of_perform_ne hperform ((inv.task t').accepted A hA).1 ?_ ?_ hadopt).trans hwill
    · rintro rfl
      exact hsession A.session rfl rfl rfl
    · rintro rfl
      exact hsession A.session rfl rfl rfl

/-- The connection that enrolls. -/
theorem lookup_enroll {y : Admission} {target : Option Ref}
    (htarget : s.shared.Target y target) :
    (s.shared.enroll y target).1.pool.active.lookup y.sessionId =
        some (target.getD s.shared.nextRef) ∧
      ((s.shared.enroll y target).1.sessions (target.getD s.shared.nextRef)).willMessage =
        y.connect.willMessage := by
  refine ⟨?_, (Shared.sessions_enroll _ y target).2⟩
  cases target with
  | none =>
      have hactive := active_register s.shared y
      exact (congrArg (AList.lookup y.sessionId) hactive).trans (AList.lookup_insert _)
  | some ref =>
      have hactive : s.shared.pool.active.lookup y.sessionId = some ref := htarget
      have hpool := (Shared.frame_adopt s.shared y ref).pool
      exact (congrArg (fun pool => pool.active.lookup y.sessionId) hpool).trans hactive

theorem Kept.act (inv : Inv s) (hkept : Kept s) (horderly : Orderly s (.act t c))
    (hstep : s.act t c = some s') : Kept s' := by
  obtain ⟨a, rest, sh, next, htodo, hperform, rfl⟩ := act_cases hstep
  have hmem : a ∈ (s.tasks t).todo := htodo ▸ List.mem_cons_self
  have hafter := Shared.frame_afterNext sh (s.tasks t) next
  constructor
  · intro t' A hA hlatest hended
    rw [hafter.pool, Shared.sessions_afterNext]
    rw [accepted_recordNext] at hA
    by_cases henroll : ∃ y target, a = .enroll y target ∧ t' = t
    · obtain ⟨y, target, rfl, rfl⟩ := henroll
      have htarget := ((inv.task t').holding _ hmem y target rfl).target
      simp only [History.recordAction, Function.update_self, Option.some.injEq] at hA
      subst hA
      have hlookup := lookup_enroll htarget
      cases hperform
      exact hlookup
    · have hne : t' ≠ t ∨ ∀ y target, a ≠ .enroll y target := by
        by_cases ht : t' = t
        · exact .inr fun y target heq => henroll ⟨y, target, heq, ht⟩
        · exact .inl ht
      rw [(recordAction_of_ne hne).1] at hA
      exact hkept.lookup_act inv htodo hperform hA hlatest (ended_of_act hne hended)
  · intro t' A hA x hx hends
    rw [accepted_recordNext] at hA
    have hold : x ∈ (s.tasks t').todo ∧ (t' ≠ t ∨ ∀ y target, a ≠ .enroll y target) := by
      by_cases ht : t' = t
      · subst ht
        simp only [Function.update_self] at hx
        have hrest := mem_rest_of_endsSession hperform hx hends
        refine ⟨htodo ▸ List.mem_cons_of_mem a hrest, .inr ?_⟩
        rintro y target rfl
        have hsingle := ((inv.task t').connecting _ hmem rfl).1
        rw [htodo] at hsingle
        cases hsingle
        cases hrest
      · simp only [Function.update_of_ne ht] at hx
        exact ⟨hx, .inl ht⟩
    obtain ⟨hx', hne⟩ := hold
    rw [(recordAction_of_ne hne).1] at hA
    obtain ⟨hlatest, hended⟩ := hkept.ending t' A hA x hx' hends
    refine ⟨?_, ended_recordNext (by rw [(recordAction_of_ne hne).2.1]; exact hended)⟩
    rw [latest_of_act, hlatest]
    rintro y rfl hreject heq
    have hplain := horderly y rest htodo hreject t' A hA heq.symm x hx'
    rw [hends] at hplain
    cases hplain

theorem Kept.event (hkept : Kept s) {n : Nat} {e : Event} (horderly : Orderly s (.event n e))
    (hstep : s.event (.connection n) e = some s') : Kept s' := by
  obtain ⟨hnil, -, sh, todo, hhandle, rfl⟩ := event_cases hstep
  obtain ⟨hframe, hsessions⟩ := Shared.frame_of_handle hhandle
  constructor
  · intro t' A hA hlatest hended
    rw [hframe.pool, hsessions]
    exact hkept.lookup t' A hA hlatest (ended_of_event hended)
  · intro t' A hA x hx hends
    by_cases ht : t' = .connection n
    · subst ht
      simp only [Function.update_self] at hx
      rcases ends_of_arises (Shared.arises_of_handle hhandle) hx hends with hover |
        ⟨rfl, reason, hcontrol, hreason⟩
      · refine ⟨?_, ?_⟩
        · by_contra hlatest
          exact horderly.1 hover ⟨A, hA, hlatest⟩
        · simp [History.recordEvent, hover]
      · exact absurd (horderly.2 rfl reason hcontrol) hreason
    · simp only [Function.update_of_ne ht] at hx
      obtain ⟨hlatest, hended⟩ := hkept.ending t' A hA x hx hends
      exact ⟨hlatest, (Function.update_of_ne ht _ _).trans hended⟩

theorem Kept.step (inv : Inv s) (hkept : Kept s) {l : Label} (horderly : Orderly s l)
    (hstep : s.step l = some s') : Kept s' := by
  cases l with
  | event n e => exact hkept.event horderly hstep
  | act t c => exact hkept.act inv horderly hstep
  | fire token =>
      rw [fire_cases hstep]
      refine ⟨hkept.lookup, fun t' A hA x hx hends => ?_⟩
      by_cases ht : t' = .delay token
      · subst ht
        simp only [Function.update_self, List.mem_singleton] at hx
        subst hx
        cases hends
      · simp only [Function.update_of_ne ht] at hx
        exact hkept.ending t' A hA x hx hends
  | setAccepting accept =>
      cases hstep
      exact ⟨hkept.lookup, hkept.ending⟩
  | setSessionExpiry secs =>
      simp only [State.step] at hstep
      split at hstep
      · cases hstep
        exact ⟨hkept.lookup, hkept.ending⟩
      · cases hstep

end

/-- In an orderly run every connection that is neither over nor replaced owns its session. -/
theorem ownsSession_of_orderly {config : Config} {ls : List Label} {s : State}
    (horderly : Along State.step Orderly (.start config) ls)
    (hrun : run State.step (.start config) ls = some s) (t : TaskId) : OwnsSession s t := by
  obtain ⟨inv, hkept⟩ := invariant_of_step (I := fun s => Inv s ∧ Kept s)
    (fun s l s' h horderly hstep => ⟨h.1.step hstep, h.2.step h.1 horderly hstep⟩)
    ⟨inv_start config, kept_start config⟩ horderly hrun
  intro A hA hlatest hended
  obtain ⟨hlookup, hwill⟩ := hkept.lookup t A hA hlatest hended
  exact ⟨hlookup, (inv.sound.active hlookup).2.1, hwill⟩

/-! ## One connection after another -/

section

variable {s s' : State} {n : Nat} {l : Label}

/-- A step of the handler of a connection, which is to connect. -/
def Connects (connect : Connect) (n : Nat) (l : Label) : Prop :=
  l = .event n (.packet (.connect connect)) ∨ ∃ c, l = .act (.connection n) c

theorem connects_of_mem {connect : Connect} {k : Nat} (hl : l ∈ connectLabels n connect k) :
    Connects connect n l := by
  rcases List.mem_cons.mp hl with rfl | hl
  · exact .inl rfl
  · exact .inr ⟨_, (List.mem_replicate.mp hl).2⟩

/-- While the other handlers have nothing to do, the one that connects is orderly. -/
theorem orderly_of_alone {connect : Connect} (inv : Inv s) (hl : Connects connect n l)
    (hothers : ∀ t ≠ .connection n, (s.tasks t).todo = []) : Orderly s l := by
  rcases hl with rfl | ⟨c, rfl⟩
  · exact ⟨fun hends => (by cases hends), fun hcontrol => by cases hcontrol⟩
  · intro y rest henter _ t A hA _ x hx
    by_cases ht : t = .connection n
    · subst ht
      rw [inv.accepted_none henter rfl] at hA
      cases hA
    · rw [hothers t ht] at hx
      cases hx

theorem others_of_connects {connect : Connect} (hl : Connects connect n l)
    (hstep : s.step l = some s') (hothers : ∀ t ≠ .connection n, (s.tasks t).todo = []) :
    ∀ t ≠ .connection n, (s'.tasks t).todo = [] := by
  intro t ht
  rcases hl with rfl | ⟨c, rfl⟩
  · obtain ⟨-, -, sh, todo, -, rfl⟩ := event_cases hstep
    exact (congrArg Task.todo (Function.update_of_ne ht _ _)).trans (hothers t ht)
  · obtain ⟨a, rest, sh, next, -, -, rfl⟩ := act_cases hstep
    exact (congrArg Task.todo (Function.update_of_ne ht _ _)).trans (hothers t ht)

/-- A connection is made while the other handlers have nothing to do. -/
theorem orderly_of_connect {connect : Connect} {k : Nat} (inv : Inv s)
    (hothers : ∀ t ≠ .connection n, (s.tasks t).todo = [])
    (hrun : run State.step s (connectLabels n connect k) = some s') :
    Along State.step Orderly s (connectLabels n connect k) ∧ Inv s' ∧
      ∀ t ≠ .connection n, (s'.tasks t).todo = [] := by
  have hconnects : Along State.step (fun _ l => Connects connect n l) s (connectLabels n connect k) :=
    along_of_forall fun l hl => connects_of_mem hl
  refine ⟨along_of_invariant (I := fun s => Inv s ∧ ∀ t ≠ .connection n, (s.tasks t).todo = [])
      (fun s l s' h hl hstep => ⟨⟨h.1.step hstep, others_of_connects hl hstep h.2⟩,
        orderly_of_alone h.1 hl h.2⟩) ⟨inv, hothers⟩ hconnects, ?_⟩
  exact invariant_of_step (I := fun s => Inv s ∧ ∀ t ≠ .connection n, (s.tasks t).todo = [])
    (fun s l s' h hl hstep => ⟨h.1.step hstep, others_of_connects hl hstep h.2⟩) ⟨inv, hothers⟩
    hconnects hrun

end

def willOn (topic : String) : WillMessage where
  header := .default
  topic := topic
  payload := []
  qos := .atMostOnce
  retain := false

/-- Connection 1 takes over the session of connection 0. -/
def takeoverLabels : List Label :=
  connectLabels 0 (.new "x") 7 ++
    connectLabels 1 ((Connect.new "x").setWillMessage (willOn "gone")) 10

theorem ownsSession_of_orderly_takeover : ∃ s,
    run State.step (.start defaultConfig) takeoverLabels = some s ∧
      s.history.accepted (.connection 1) =
        some { sessionId := "x", session := 0, will := some (willOn "gone") } ∧
      s.history.latest "x" = some (.connection 1) ∧ s.history.ended (.connection 1) = false ∧
      Replaced s.history (.connection 0) ∧ OwnsSession s (.connection 1) := by
  have hfacts : (run State.step (.start defaultConfig) takeoverLabels).map (fun s =>
      (s.history.accepted (.connection 0), s.history.accepted (.connection 1),
        s.history.latest "x", s.history.ended (.connection 1))) =
      some (some { sessionId := "x", session := 0, will := none },
        some { sessionId := "x", session := 0, will := some (willOn "gone") },
        some (.connection 1), false) := by
    decide +kernel
  have hfirst : (run State.step (.start defaultConfig) (connectLabels 0 (.new "x") 7)).map
      (fun s => (s.tasks (.connection 0)).todo.isEmpty) = some true := by
    decide +kernel
  obtain ⟨s, hrun, hs⟩ := Option.map_eq_some_iff.mp hfacts
  simp only [Prod.mk.injEq] at hs
  obtain ⟨hzero, hone, hlatest, hended⟩ := hs
  obtain ⟨s₀, hrun₀, htodo⟩ := Option.map_eq_some_iff.mp hfirst
  obtain ⟨s₀', hrun₀', hrun₁⟩ := run_append_eq_some.mp hrun
  cases hrun₀.symm.trans hrun₀'
  obtain ⟨horderly₀, inv, hothers⟩ := orderly_of_connect (inv_start defaultConfig) (fun _ _ => rfl) hrun₀
  have hidle : ∀ t ≠ .connection 1, (s₀.tasks t).todo = [] := by
    intro t _
    by_cases ht : t = .connection 0
    · rw [ht]
      exact List.isEmpty_iff.mp htodo
    · exact hothers t ht
  have horderly : Along State.step Orderly (.start defaultConfig) takeoverLabels :=
    (along_append hrun₀).mpr ⟨horderly₀, (orderly_of_connect inv hidle hrun₁).1⟩
  refine ⟨s, hrun, hone, hlatest, hended, ⟨_, hzero, ?_⟩, ownsSession_of_orderly horderly hrun _⟩
  rw [hlatest]
  decide

/-! ## The end of a replaced connection -/

/-- Connection 1 takes over the session of connection 0, whose stream then ends. -/
def replacedLabels : List Label :=
  takeoverLabels ++ .event 0 .endOfStream :: List.replicate 5 (.act (.connection 0) {})

/-- The handler of connection 0 publishes the will of connection 1 and deactivates its
session. -/
theorem not_ownsSession_of_replaced : ∃ s,
    run State.step (.start defaultConfig) replacedLabels = some s ∧
    ¬ OwnsSession s (.connection 1) := by
  have hfacts : (run State.step (.start defaultConfig) replacedLabels).map (fun s =>
      (s.history.accepted (.connection 1), s.history.latest "x", s.history.ended (.connection 1),
        s.shared.pool.getActive "x")) =
      some (some { sessionId := "x", session := 0, will := some (willOn "gone") },
        some (.connection 1), false, none) := by
    decide +kernel
  obtain ⟨s, hrun, hs⟩ := Option.map_eq_some_iff.mp hfacts
  simp only [Prod.mk.injEq] at hs
  obtain ⟨haccepted, hlatest, hended, hlookup⟩ := hs
  refine ⟨s, hrun, fun howns => ?_⟩
  have hactive := (howns _ haccepted hlatest hended).1
  cases hlookup.symm.trans hactive

end Broker
end Vaux
