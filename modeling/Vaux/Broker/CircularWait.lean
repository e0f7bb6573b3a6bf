import Vaux.Broker.Locks

/-!
# Waiting

The lock of the pool, the locks of the sessions and the control channels as what tasks
wait for.  A takeover sends to the old session under the lock of the pool and the read
lock of that session; if the channel is full it waits for the handler of the old session,
which may be waiting for either lock.
-/

namespace Vaux
namespace Broker

open Wire Mqtt Machine

/-! ## Who waits for whom -/

namespace Action

/-- The action takes the write lock of the pool. -/
def writesPool : Action → Bool
  | .enterPool _ | .deactivate _ => true
  | _ => false

/-- The action takes the read lock of the pool. -/
def readsPool : Action → Bool
  | .negotiate _ | .lockPool => true
  | _ => false

/-- The session whose write lock the action takes on its own. -/
def locksSession : Action → Option Ref
  | .grantExpiry ref _ | .openSession ref | .track ref _ _ | .takeWill ref | .setPendingWill ref _
  | .clearWill ref | .acknowledge ref _ => some ref
  | _ => none

end Action

/-- A channel that is open and has no room. -/
def Channel.full (ch : Channel) : Bool := !ch.closed && ch.capacity ≤ ch.queue.length

namespace State

/-- The task has the receiver of the session's channel, or is about to take it. -/
def Drains (s : State) (t : TaskId) (ref : Ref) : Prop :=
  (s.tasks t).sessionControl = some (s.shared.sessions ref).control ∨
    (s.shared.sessions ref).receiver = true ∧ .openSession ref ∈ (s.tasks t).todo

/-- The next action of `t` has to wait for `t'`. -/
inductive WaitsFor (s : State) (t t' : TaskId) : Prop where
  | poolWrite (a : Action) (rest : List Action) (htodo : (s.tasks t).todo = a :: rest)
      (ha : a.writesPool = true)
      (hheld : s.shared.poolWriter = some t' ∨ t' ∈ s.shared.poolReaders)
  | poolRead (a : Action) (rest : List Action) (htodo : (s.tasks t).todo = a :: rest)
      (ha : a.readsPool = true) (hheld : s.shared.poolWriter = some t')
  | session (a : Action) (rest : List Action) (ref : Ref) (x : Admission) (target : Option Ref)
      (rest' : List Action) (htodo : (s.tasks t).todo = a :: rest) (ha : a.locksSession = some ref)
      (hsending : s.shared.sending = some ref)
      (hheld : (s.tasks t').todo = .disconnectOld ref x target :: rest')
  | channel (ref : Ref) (x : Admission) (target : Option Ref) (rest : List Action)
      (htodo : (s.tasks t).todo = .disconnectOld ref x target :: rest)
      (hfull : (s.shared.channels (s.shared.sessions ref).control).full = true)
      (hdrains : s.Drains t' ref)

/-- Some tasks wait for each other in a circle. -/
def CircularWait (s : State) : Prop := ∃ t, Relation.TransGen s.WaitsFor t t

end State

/-- A takeover that the task starts finds room. -/
def State.roomy (s : State) (t : TaskId) : Bool :=
  match (s.tasks t).todo with
  | .lockOld ref _ _ :: _ => !(s.shared.channels (s.shared.sessions ref).control).full
  | _ => true

/-- No takeover starts to send to a channel that is full. -/
def Roomy (s : State) : Label → Prop
  | .act t _ => s.roomy t = true
  | _ => True

instance (s : State) : ∀ l, Decidable (Roomy s l)
  | .act t _ => inferInstanceAs (Decidable (s.roomy t = true))
  | .event .. | .fire _ | .setAccepting _ | .setSessionExpiry _ => isTrue trivial

/-! ## A task that waits -/

section

variable {s s' : State} {t t' : TaskId}

theorem poolFree_eq_false (h : s.shared.poolWriter = some t' ∨ t' ∈ s.shared.poolReaders) :
    s.shared.poolFree = false := by
  rw [Bool.eq_false_iff]
  intro hfree
  obtain ⟨hwriter, hreaders⟩ := Bool.and_eq_true _ _ ▸ hfree
  rw [Option.isNone_iff_eq_none] at hwriter
  rw [List.isEmpty_iff] at hreaders
  rcases h with h | h
  · cases hwriter.symm.trans h
  · rw [hreaders] at h
    cases h

/-- The relation is about the machine: a task that waits cannot act. -/
theorem act_eq_none_of_waitsFor (h : s.WaitsFor t t') (c : Choice) : s.act t c = none := by
  have hnone : ∀ a rest, (s.tasks t).todo = a :: rest → s.shared.perform t c a = none →
      s.act t c = none := by
    intro a rest htodo hperform
    rw [State.act, htodo]
    simp only [hperform, Option.map_none]
  cases h with
  | poolWrite a rest htodo ha hheld =>
      refine hnone a rest htodo ?_
      cases a with
      | enterPool | deactivate =>
          simp [Shared.perform, Shared.enterPool, poolFree_eq_false hheld]
      | _ => cases ha
  | poolRead a rest htodo ha hheld =>
      refine hnone a rest htodo ?_
      cases a with
      | negotiate | lockPool => simp [Shared.perform, hheld]
      | _ => cases ha
  | session a rest ref x target rest' htodo ha hsending _ =>
      have hwritable : s.shared.writable ref = false := by simp [Shared.writable, hsending]
      refine hnone a rest htodo ?_
      cases a with
      | grantExpiry | openSession | track | takeWill | setPendingWill | clearWill | acknowledge =>
          cases ha
          simp [Shared.perform, hwritable]
      | _ => cases ha
  | channel ref x target rest htodo hfull _ =>
      refine hnone _ rest htodo ?_
      obtain ⟨hopen, hle⟩ := Bool.and_eq_true _ _ ▸ hfull
      simp only [Bool.not_eq_true', decide_eq_true_eq] at hopen hle
      simp [Shared.perform, Shared.disconnectOld, Shared.trySend, hopen, Nat.not_lt.mpr hle]

end

/-! ## Channels -/

namespace Shared

section

variable {sh sh' : Shared} {t : TaskId} {c : Choice} {a : Action} {next : Next}

theorem control_setConnected (sessions : Sessions) (ref ref' : Ref) (connected : Bool) :
    (Function.update sessions ref ((sessions ref).setConnected connected) ref').control =
      (sessions ref').control := by
  by_cases h : ref' = ref
  · subst h
    rw [Function.update_self]
    rfl
  · rw [Function.update_of_ne h]

theorem control_setSession {ref : Ref} {session : Session}
    (h : session.control = (sh.sessions ref).control) (ref' : Ref) :
    ((sh.setSession ref session).sessions ref').control = (sh.sessions ref').control := by
  by_cases hne : ref' = ref
  · subst hne
    simpa [setSession]
  · simp [setSession, hne]

/-- A connection that has entered the pool takes over or enrolls. -/
theorem choose_next (sh : Shared) (a : Admission) :
    (∃ ref target, (sh.choose a).2 = .lockOld ref a target) ∨
      ∃ target, (sh.choose a).2 = .enroll a target := by
  unfold choose
  split
  · split
    · simp only
      split
      · exact .inl ⟨_, _, rfl⟩
      · exact .inr ⟨_, rfl⟩
    · exact .inr ⟨_, rfl⟩
  · split
    · exact .inr ⟨_, rfl⟩
    · split
      · exact .inl ⟨_, _, rfl⟩
      · exact .inr ⟨_, rfl⟩

theorem control_choose (sh : Shared) (a : Admission) (ref : Ref) :
    (sh.choose a).1.channels = sh.channels ∧
      ((sh.choose a).1.sessions ref).control = (sh.sessions ref).control := by
  rcases choose_cases sh a with ⟨_, pool, -, -, heq, -⟩ | ⟨ref', pool, sessions, hactivate, heq, -⟩ |
    ⟨ref', -, heq, -⟩ | ⟨-, -, heq, -⟩
  · rw [heq]
    exact ⟨rfl, rfl⟩
  · rw [heq]
    refine ⟨rfl, ?_⟩
    unfold SessionPool.activate at hactivate
    split at hactivate
    · cases hactivate
      exact control_setConnected _ _ _ _
    · cases hactivate
  · rw [heq]
    exact ⟨rfl, rfl⟩
  · rw [heq]
    exact ⟨rfl, rfl⟩

/-- The channels are left alone by what neither holds the write lock of the pool nor
delivers. -/
theorem channels_of_performed (h : Performed sh t c a sh' next) (hholds : a.holds = none)
    (hdelivers : a.delivers = false) :
    sh'.channels = sh.channels ∧ ∀ ref, (sh'.sessions ref).control = (sh.sessions ref).control := by
  have hset : ∀ ref session, session.control = (sh.sessions ref).control →
      (sh.setSession ref session).channels = sh.channels ∧
        ∀ ref', ((sh.setSession ref session).sessions ref').control = (sh.sessions ref').control :=
    fun ref session hcontrol => ⟨rfl, control_setSession hcontrol⟩
  cases h with
  | lockOld | oldClosed | oldSent | settle | register | adopt => cases hholds
  | deliver => cases hdelivers
  | enter x _ _ => exact ⟨(control_choose sh x 0).1, fun ref => (control_choose sh x ref).2⟩
  | grantExpiry ref expiry _ => exact hset ref _ rfl
  | openSession ref _ _ => exact hset ref _ rfl
  | track ref packetId publish _ => exact hset ref _ rfl
  | noWill ref _ _ => exact hset ref _ rfl
  | publishWill ref will _ _ _ => exact hset ref _ rfl
  | delayWill ref will _ _ _ => exact hset ref _ rfl
  | clearWill ref _ => exact hset ref _ rfl
  | acknowledge ref packetId _ => exact hset ref _ rfl
  | setPendingWill ref token _ =>
      have hcancel : (sh.cancel (sh.sessions ref).pendingWill).sessions = sh.sessions :=
        sessions_cancel _
      refine ⟨?_, fun ref' => ?_⟩
      · cases (sh.sessions ref).pendingWill <;> rfl
      · rw [control_setSession (by rw [hcancel]; rfl), hcancel]
  | deactivate sessionId _ =>
      refine ⟨rfl, fun ref => ?_⟩
      simp only [SessionPool.deactivate]
      split
      · exact control_setConnected _ _ _ _
      · rfl
  | _ => exact ⟨rfl, fun _ => rfl⟩

theorem full_afterNext (task : Task) (next : Next) {ch : ChannelId}
    (h : (((sh.afterNext task next).channels ch).full) = true) : (sh.channels ch).full = true := by
  cases next with
  | returned result =>
      cases hcontrol : task.sessionControl with
      | none => simpa [afterNext, close, hcontrol] using h
      | some ch' =>
          simp only [afterNext, close, hcontrol, setChannel] at h
          by_cases hne : ch = ch'
          · subst hne
            rw [Function.update_self] at h
            cases h
          · rwa [Function.update_of_ne hne] at h
  | _ => exact h

end

end Shared

/-! ## Takeovers that do not wait -/

/-- A takeover that is about to send finds room. -/
def Roomed (s : State) : Prop :=
  ∀ t ref x target rest, (s.tasks t).todo = .disconnectOld ref x target :: rest →
    (s.shared.channels (s.shared.sessions ref).control).full = false

section

variable {s s' : State} {t : TaskId} {c : Choice}

/-- A task other than the one with the lock of the pool. -/
theorem Locked.quiet_of_writer (hl : Locked s) (inv : Inv s) {t' : TaskId}
    (hwriter : s.shared.poolWriter = some t') (hne : t ≠ t') {a : Action} {rest : List Action}
    (htodo : (s.tasks t).todo = a :: rest) : a.holds = none ∧ a.delivers = false := by
  constructor
  · rw [← Option.not_isSome_iff_eq_none]
    intro hsome
    obtain ⟨⟨x, target⟩, hholds⟩ := Option.isSome_iff_exists.mp hsome
    have hholding := (inv.task t).holding a (htodo ▸ List.mem_cons_self) x target hholds
    exact hne (Option.some.inj (hholding.writer.symm.trans hwriter))
  · have hnone : t ∉ s.shared.poolReaders := by
      rw [hl.exclusive (by rw [hwriter]; exact Option.some_ne_none _)]
      exact List.not_mem_nil
    have houtside := hl.outside t hnone
    rw [htodo] at houtside
    rcases houtside with ⟨todo', heq, -⟩ | hplain
    · cases heq
      rfl
    · have ha := hplain a List.mem_cons_self
      cases a with
      | deliver => cases ha
      | _ => rfl

/-- Only the start of a takeover is followed by its send. -/
theorem disconnectOld_of_performed {sh sh' : Shared} {a : Action} {next : Next} {ref : Ref}
    {x : Admission} {target : Option Ref} (h : Shared.Performed sh t c a sh' next)
    (hmem : .disconnectOld ref x target ∈ next.more) :
    a = .lockOld ref x target ∧ sh' = { sh with sending := some ref } := by
  cases h with
  | lockOld ref' x' target' =>
      cases List.mem_singleton.mp hmem
      exact ⟨rfl, rfl⟩
  | enter x' _ _ =>
      have hchoose := List.mem_singleton.mp hmem
      rcases Shared.choose_next sh x' with ⟨ref', target', heq⟩ | ⟨target', heq⟩
      · cases hchoose.trans heq
      · cases hchoose.trans heq
  | openSession ref' _ _ =>
      rcases List.mem_append.mp hmem with hmem | hmem
      · obtain ⟨⟨packetId, publish⟩, -, hmem⟩ := List.mem_flatMap.mp hmem
        simp at hmem
      · cases List.mem_singleton.mp hmem
  | route publish sender subscribers _ => simp [Next.more] at hmem
  | _ => simp [Next.more] at hmem

theorem Roomed.act (hroomed : Roomed s) (hl : Locked s) (inv : Inv s) (hroomy : Roomy s (.act t c))
    {a : Action} {rest : List Action} {sh : Shared} {next : Next}
    (h : Acted s t c s' a rest sh next) : Roomed s' := by
  obtain ⟨htodo, -, hperformed, hshared, hself, hothers, -⟩ := h
  intro t' ref x target rest' htodo'
  have hsessions : s'.shared.sessions = sh.sessions := by
    rw [hshared, Shared.sessions_afterNext]
  rw [hsessions, Bool.eq_false_iff]
  intro hfull
  rw [hshared] at hfull
  have hfull' := Shared.full_afterNext _ _ hfull
  by_cases hne : t' = t
  · subst hne
    rw [hself] at htodo'
    rcases mem_todo_after (htodo' ▸ List.mem_cons_self) with hmem | hmem
    · obtain ⟨rfl, rfl⟩ := disconnectOld_of_performed hperformed hmem
      simp only [Roomy, State.roomy, htodo, Bool.not_eq_true'] at hroomy
      exact Bool.eq_false_iff.mp hroomy hfull'
    · cases (inv.task t').rest_connecting htodo hmem
  · rw [hothers t' hne] at htodo'
    have hholding := (inv.task t').holding _ (htodo' ▸ List.mem_cons_self) x target rfl
    obtain ⟨hholds, hdelivers⟩ := hl.quiet_of_writer inv hholding.writer (Ne.symm hne) htodo
    obtain ⟨hchannels, hcontrol⟩ := Shared.channels_of_performed hperformed hholds hdelivers
    rw [hchannels, hcontrol] at hfull'
    exact Bool.eq_false_iff.mp (hroomed t' ref x target rest' htodo') hfull'

theorem Roomed.event (hroomed : Roomed s) {e : Event} {todo : List Action}
    (h : Handled s t e s' todo) : Roomed s' := by
  obtain ⟨-, -, hhandle, hself, hothers, -⟩ := h
  intro t' ref x target rest' htodo'
  have hold : (s.tasks t').todo = .disconnectOld ref x target :: rest' := by
    by_cases hne : t' = t
    · subst hne
      rw [hself] at htodo'
      have hmem : .disconnectOld ref x target ∈ todo := by
        rw [show todo = _ from htodo']
        exact List.mem_cons_self
      rcases serves_of_arises (Shared.arises_of_handle hhandle) with ⟨connect, rfl, -⟩ | hserves
      · cases List.mem_singleton.mp hmem
      · cases (hserves _ hmem).connecting
    · rwa [hothers t' hne] at htodo'
  have hroom := hroomed t' ref x target rest' hold
  rcases Shared.handle_shared hhandle with heq | ⟨ch, msg, queue, -, -, hqueue, heq⟩
  · rw [heq]
    exact hroom
  · rw [heq, Bool.eq_false_iff]
    intro hfull
    refine Bool.eq_false_iff.mp hroom ?_
    by_cases hne : (s.shared.sessions ref).control = ch
    · simp only [Shared.setChannel, hne, Function.update_self, Channel.full] at hfull ⊢
      rw [hqueue, List.length_cons]
      simp only [Bool.and_eq_true, decide_eq_true_eq] at hfull ⊢
      exact ⟨hfull.1, hfull.2.trans (Nat.le_succ _)⟩
    · simpa only [Shared.setChannel, Function.update_of_ne hne] using hfull

theorem Roomed.step (hroomed : Roomed s) (hl : Locked s) (inv : Inv s) {l : Label}
    (hroomy : Roomy s l) (hstep : s.step l = some s') : Roomed s' := by
  rcases step_cases hstep with ⟨n, e, todo, -, h⟩ | ⟨t, c, a, rest, sh, next, rfl, h⟩ |
    ⟨token, -, h⟩ | ⟨accept, -, rfl⟩ | ⟨secs, -, -, rfl⟩
  · exact hroomed.event h
  · exact hroomed.act hl inv hroomy h
  · intro t' ref x target rest' htodo'
    rw [h.shared]
    by_cases hne : t' = .delay token
    · subst hne
      rw [h.self] at htodo'
      cases htodo'
    · rw [h.others t' hne] at htodo'
      exact hroomed t' ref x target rest' htodo'
  · exact hroomed
  · exact hroomed

/-- Under the lock of the pool nothing waits but the send of a takeover. -/
theorem waits_of_holds {x : Action} (h : x.holds.isSome = true) :
    x.writesPool = false ∧ x.readsPool = false ∧ x.locksSession = none := by
  cases x with
  | lockOld | disconnectOld | settle | enroll => exact ⟨rfl, rfl, rfl⟩
  | _ => cases h

/-- What others wait for does not wait. -/
theorem Roomed.not_waitsFor (hroomed : Roomed s) (hl : Locked s) (inv : Inv s) {t' t'' : TaskId}
    (h : s.WaitsFor t t') : ¬ s.WaitsFor t' t'' := by
  have hwriter : s.shared.poolWriter = some t' → ¬ s.WaitsFor t' t'' := by
    intro hheld hwaits
    obtain ⟨x, hx, hholds⟩ := hl.writer t' hheld
    obtain ⟨hwrites, hreads, hlocks⟩ := waits_of_holds hholds
    cases hwaits with
    | poolWrite a rest htodo ha _ =>
        cases hx.symm.trans htodo
        cases ha.symm.trans hwrites
    | poolRead a rest htodo ha _ =>
        cases hx.symm.trans htodo
        cases ha.symm.trans hreads
    | session a rest ref y target rest' htodo ha _ _ =>
        cases hx.symm.trans htodo
        cases ha.symm.trans hlocks
    | channel ref y target rest htodo hfull _ =>
        exact Bool.eq_false_iff.mp (hroomed t' ref y target rest htodo) hfull
  have hreader : t' ∈ s.shared.poolReaders → ¬ s.WaitsFor t' t'' := by
    intro hmem hwaits
    have hreading := hl.reading t' hmem
    have hhead : ∀ a rest, (s.tasks t').todo = a :: rest → a.writesPool = false ∧
        a.readsPool = false ∧ a.locksSession = none ∧ a.holds = none := by
      intro a rest htodo
      rw [htodo] at hreading
      rcases hreading.cases with rfl | ⟨hdelivers, -⟩
      · exact ⟨rfl, rfl, rfl, rfl⟩
      · cases a with
        | deliver => exact ⟨rfl, rfl, rfl, rfl⟩
        | _ => cases hdelivers
    cases hwaits with
    | poolWrite a rest htodo ha _ => cases ha.symm.trans (hhead a rest htodo).1
    | poolRead a rest htodo ha _ => cases ha.symm.trans (hhead a rest htodo).2.1
    | session a rest ref y target rest' htodo ha _ _ =>
        cases ha.symm.trans (hhead a rest htodo).2.2.1
    | channel ref y target rest htodo _ _ => cases (hhead _ rest htodo).2.2.2
  cases h with
  | poolWrite a rest _ _ hheld => exact hheld.elim hwriter hreader
  | poolRead a rest _ _ hheld => exact hwriter hheld
  | session a rest ref x target rest' _ _ _ hheld =>
      exact hwriter ((inv.task t').holding _ (hheld ▸ List.mem_cons_self) x target rfl).writer
  | channel ref x target rest htodo hfull _ =>
      exact absurd hfull (Bool.eq_false_iff.mp (hroomed t ref x target rest htodo))

end

/-- No tasks wait for each other as long as no takeover starts to send to a channel that is
full. -/
theorem not_circularWait_of_roomy {config : Config} {ls : List Label} {s : State}
    (hroomy : Along State.step Roomy (.start config) ls)
    (hrun : run State.step (.start config) ls = some s) : ¬ s.CircularWait := by
  obtain ⟨inv, hl, hroomed⟩ : Inv s ∧ Locked s ∧ Roomed s := by
    refine invariant_of_step (I := fun s => Inv s ∧ Locked s ∧ Roomed s) ?_
      ⟨inv_start config, locked_start config, fun t ref x target rest htodo => by cases htodo⟩
      hroomy hrun
    rintro s l s' ⟨inv, hl, hroomed⟩ hl' hstep
    exact ⟨inv.step hstep, hl.step inv hstep, hroomed.step hl inv hl' hstep⟩
  rintro ⟨t, hcircle⟩
  obtain ⟨t', hfirst, hrest⟩ := Relation.TransGen.head'_iff.mp hcircle
  rcases Relation.ReflTransGen.cases_head hrest with rfl | ⟨t'', hsecond, -⟩
  · exact hroomed.not_waitsFor hl inv hfirst hfirst
  · exact hroomed.not_waitsFor hl inv hfirst hsecond

/-- A connection is taken over while its channel is empty. -/
theorem not_circularWait_of_roomy_takeover : ∃ s,
    run State.step (.start defaultConfig)
      (connectLabels 0 (.new "x") 7 ++ connectLabels 1 (.new "x") 10) = some s ∧
      ¬ s.CircularWait := by
  obtain ⟨s, hrun⟩ := Option.isSome_iff_exists.mp (show (run State.step (.start defaultConfig)
    (connectLabels 0 (.new "x") 7 ++ connectLabels 1 (.new "x") 10)).isSome = true by decide +kernel)
  exact ⟨s, hrun, not_circularWait_of_roomy (by decide +kernel) hrun⟩

/-! ## A takeover that waits for a handler which waits for it -/

/-- A channel for one message. -/
def narrowConfig : Config :=
  { defaultConfig with sessionChannelSize := 1, sessionChannelSize_pos := by decide }

/-- The channel of connection 0 is full, its handler is about to route a publish, and
connection 2 takes over. -/
def deadlockLabels : List Label :=
  connectLabels 0 (.new "x") 7 ++ subscribeLabels 0 "a" .atMostOnce ++ connectLabels 1 (.new "y") 7 ++
    publishLabels 1 "a" .atMostOnce none 4 ++ publishLabels 0 "b" .atMostOnce none 1 ++
    connectLabels 2 (.new "x") 3

/-- The session that the task is about to disconnect. -/
def Task.disconnects (task : Task) : Option Ref :=
  match task.todo with
  | .disconnectOld ref _ _ :: _ => some ref
  | _ => none

theorem Task.todo_of_disconnects {task : Task} {ref : Ref} (h : task.disconnects = some ref) :
    ∃ x target rest, task.todo = .disconnectOld ref x target :: rest := by
  unfold Task.disconnects at h
  split at h
  · rename_i htodo
    cases h
    exact ⟨_, _, _, htodo⟩
  · cases h

theorem circularWait_of_full : ∃ s,
    run State.step (.start narrowConfig) deadlockLabels = some s ∧ s.CircularWait := by
  have hfacts : (run State.step (.start narrowConfig) deadlockLabels).map (fun s =>
      ((s.tasks (.connection 2)).disconnects,
        (s.shared.channels (s.shared.sessions 0).control).full,
        decide ((s.tasks (.connection 0)).sessionControl = some (s.shared.sessions 0).control),
        (s.tasks (.connection 0)).todo.head?.map Action.readsPool, s.shared.poolWriter)) =
      some (some 0, true, true, some true, some (.connection 2)) := by
    decide +kernel
  obtain ⟨s, hrun, hs⟩ := Option.map_eq_some_iff.mp hfacts
  simp only [Prod.mk.injEq, decide_eq_true_eq, Option.map_eq_some_iff] at hs
  obtain ⟨hdisconnects, hfull, hdrains, ⟨a, hhead, ha⟩, hwriter⟩ := hs
  obtain ⟨x, target, rest, htodo⟩ := Task.todo_of_disconnects hdisconnects
  obtain ⟨rest', htodo'⟩ := List.head?_eq_some_iff.mp hhead
  have hsends : s.WaitsFor (.connection 2) (.connection 0) :=
    .channel 0 x target rest htodo hfull (.inl hdrains)
  have hroutes : s.WaitsFor (.connection 0) (.connection 2) := .poolRead a rest' htodo' ha hwriter
  exact ⟨s, hrun, .connection 2, .tail (.single hsends) hroutes⟩

end Broker
end Vaux
