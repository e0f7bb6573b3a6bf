import Vaux.Broker.Effects

/-!
# Invariants of the broker

What holds in every reachable state: the pool is sound and within its limit, the
connection that holds the lock of the pool may enroll, and what a task has left to do
belongs to the session it was accepted with.
-/

namespace Vaux
namespace Broker

open Wire Mqtt Machine

/-! ## Inverting steps -/

section

variable {s s' : State} {t : TaskId} {c : Choice} {e : Event}

theorem act_cases (h : s.act t c = some s') :
    ∃ a rest shared next, (s.tasks t).todo = a :: rest ∧
      s.shared.perform t c a = some (shared, next) ∧
      s' =
        { shared := shared.afterNext (s.tasks t) next
          tasks := Function.update s.tasks t ((s.tasks t).after rest next)
          history := (s.history.recordAction s.shared t a).recordNext t next } := by
  unfold State.act at h
  split at h
  · cases h
  · rename_i a rest htodo
    obtain ⟨⟨shared, next⟩, hperform, rfl⟩ := Option.map_eq_some_iff.mp h
    exact ⟨a, rest, shared, next, htodo, hperform, rfl⟩

theorem event_cases (h : s.event t e = some s') :
    (s.tasks t).todo = [] ∧ (s.tasks t).result = none ∧ ∃ shared todo,
      s.shared.handle (s.tasks t) e = some (shared, todo) ∧
      s' =
        { shared
          tasks := Function.update s.tasks t { s.tasks t with todo }
          history := s.history.recordEvent s.shared t (s.tasks t) e } := by
  unfold State.event at h
  split at h
  · rename_i hready
    rw [Bool.and_eq_true, List.isEmpty_iff, Option.isNone_iff_eq_none] at hready
    obtain ⟨⟨shared, todo⟩, hhandle, rfl⟩ := Option.map_eq_some_iff.mp h
    exact ⟨hready.1, hready.2, shared, todo, hhandle, rfl⟩
  · cases h

theorem fire_cases {token : Token} (h : s.fire token = some s') :
    s' =
      { s with
        shared :=
          { s.shared with
            delays := Function.update s.shared.delays token
              { s.shared.delays token with waiting := false } }
        tasks := Function.update s.tasks (.delay token)
          { s.tasks (.delay token) with
            todo := [.route (Shared.willPublish (s.shared.delays token).will) ""] } } := by
  unfold State.fire at h
  simp only at h
  split at h
  · cases h
    rfl
  · cases h

end

/-! ## The invariant -/

/-- What a connection may rely on when it enrolls: a new session has a free id and a free
place, and another one is active. -/
def Shared.Target (sh : Shared) (a : Admission) : Option Ref → Prop
  | none =>
    a.sessionId ∉ sh.pool.active ∧ a.sessionId ∉ sh.pool.inactive ∧
      ∀ m, sh.config.maxActiveSessions = some m → sh.pool.active.entries.length < m.toNat
  | some ref => sh.pool.active.lookup a.sessionId = some ref

structure Holds (sh : Shared) (h : History) (t : TaskId) (a : Admission) (target : Option Ref) :
    Prop where
  writer : sh.poolWriter = some t
  latest : h.latest a.sessionId = some t
  target : sh.Target a target

/-- What is left to do belongs to the session the task was accepted with. -/
structure TaskInv (sh : Shared) (h : History) (t : TaskId) (task : Task) : Prop where
  /-- Up to the end of `handle_connect` there is one action at a time. -/
  connecting : ∀ x ∈ task.todo, x.connecting = true →
    task.todo = [x] ∧ h.accepted t = none ∧ ∃ n, t = .connection n
  holding : ∀ x ∈ task.todo, ∀ a target, x.holds = some (a, target) → Holds sh h t a target
  accepted : ∀ A, h.accepted t = some A →
    A.session < sh.nextRef ∧ (sh.sessions A.session).id = A.sessionId
  session : ∀ x ∈ task.todo, ∀ ref, x.session = some ref →
    ∃ A, h.accepted t = some A ∧ A.session = ref
  deactivate : ∀ id, .deactivate id ∈ task.todo → ∃ A, h.accepted t = some A ∧ A.sessionId = id
  client : ∀ ref, task.clientSession = some ref → ∃ A, h.accepted t = some A ∧ A.session = ref
  connected : task.connected = true → task.clientSession ≠ none
  phase : h.accepted t ≠ none → task.connected = true ∨ task.result ≠ none ∨
    ∃ ref, .openSession ref ∈ task.todo ∨ .acceptSession ref ∈ task.todo
  done : task.result ≠ none → task.todo = []
  /-- The delayed publication of a will does nothing but route. -/
  delay : ∀ token, t = .delay token →
    h.accepted t = none ∧ task.result = none ∧ ∀ x ∈ task.todo, x.routing = true

structure Inv (s : State) : Prop where
  sound : s.shared.pool.Sound s.shared.sessions s.shared.nextRef
  capacity : ∀ m, s.shared.config.maxActiveSessions = some m →
    s.shared.pool.active.entries.length ≤ m.toNat
  task : ∀ t, TaskInv s.shared s.history t (s.tasks t)

theorem inv_start (config : Config) : Inv (.start config) := by
  refine ⟨SessionPool.sound_new _ _ _ _, fun m _ => Nat.zero_le _, fun t => ?_⟩
  refine ⟨?_, ?_, ?_, ?_, ?_, ?_, ?_, ?_, fun _ => rfl, ?_⟩
  all_goals simp [State.start, Task.start, History.start]

theorem connecting_of_holds {x : Action} {p : Admission × Option Ref} (h : x.holds = some p) :
    x.connecting = true := by
  cases x <;> first | rfl | cases h

theorem session_of_holds {x : Action} {p : Admission × Option Ref} (h : x.holds = some p) :
    x.session = none := by
  cases x <;> first | rfl | cases h

/-! ## The tasks that do not act -/

section

variable {sh sh' : Shared} {h h' : History} {t : TaskId} {task : Task}

/-- The shared state moves on under a task. -/
theorem TaskInv.mono (inv : TaskInv sh h t task) (hnext : sh.nextRef ≤ sh'.nextRef)
    (hid : ∀ ref < sh.nextRef, (sh'.sessions ref).id = (sh.sessions ref).id)
    (haccepted : h'.accepted t = h.accepted t)
    (hholds : ∀ a target, Holds sh h t a target → Holds sh' h' t a target) :
    TaskInv sh' h' t task := by
  refine ⟨?_, ?_, ?_, ?_, ?_, ?_, inv.connected, ?_, inv.done, ?_⟩
  · rw [haccepted]
    exact inv.connecting
  · exact fun x hx a target hholds' => hholds a target (inv.holding x hx a target hholds')
  · intro A hA
    obtain ⟨hlt, hA'⟩ := inv.accepted A (haccepted ▸ hA)
    exact ⟨Nat.lt_of_lt_of_le hlt hnext, (hid _ hlt).trans hA'⟩
  · rw [haccepted]
    exact inv.session
  · rw [haccepted]
    exact inv.deactivate
  · rw [haccepted]
    exact inv.client
  · rw [haccepted]
    exact inv.phase
  · rw [haccepted]
    exact inv.delay

theorem Shared.Frame.holds {a : Admission} {target : Option Ref} (hframe : sh.Frame sh')
    (hlatest : h'.latest = h.latest) (hholds : Holds sh h t a target) : Holds sh' h' t a target := by
  refine ⟨hframe.poolWriter.trans hholds.writer, hlatest ▸ hholds.latest, ?_⟩
  have htarget := hholds.target
  cases target with
  | none =>
      obtain ⟨hactive, hinactive, hslack⟩ := htarget
      refine ⟨hframe.pool ▸ hactive, hframe.pool ▸ hinactive, ?_⟩
      rw [hframe.config, hframe.pool]
      exact hslack
  | some ref =>
      rw [Shared.Target, hframe.pool]
      exact htarget

theorem TaskInv.frame (inv : TaskInv sh h t task) (hframe : sh.Frame sh')
    (haccepted : h'.accepted t = h.accepted t) (hlatest : h'.latest = h.latest) :
    TaskInv sh' h' t task :=
  inv.mono hframe.nextRef.ge (fun ref _ => hframe.id ref) haccepted
    fun _ _ hholds => hframe.holds hlatest hholds

end

/-! ## The history -/

section

variable {h : History} {sh : Shared} {t t' : TaskId} {a : Action} {next : Next}

theorem accepted_recordNext : (h.recordNext t next).accepted = h.accepted := by
  cases next <;> rfl

theorem latest_recordNext : (h.recordNext t next).latest = h.latest := by
  cases next <;> rfl

theorem accepted_recordAction (ha : ∀ x target, a ≠ .enroll x target) :
    (h.recordAction sh t a).accepted = h.accepted := by
  cases a with
  | enroll x target => exact absurd rfl (ha x target)
  | enterPool x =>
      simp only [History.recordAction]
      split <;> rfl
  | takeWill ref =>
      simp only [History.recordAction]
      split <;> rfl
  | _ => rfl

theorem accepted_recordAction_of_ne (hne : t' ≠ t) :
    (h.recordAction sh t a).accepted t' = h.accepted t' := by
  cases a with
  | enroll x target => exact Function.update_of_ne hne _ _
  | _ => rw [accepted_recordAction (fun _ _ heq => by cases heq)]

theorem latest_recordAction (ha : ∀ x, a ≠ .enterPool x) :
    (h.recordAction sh t a).latest = h.latest := by
  cases a with
  | enterPool x => exact absurd rfl (ha x)
  | takeWill ref =>
      simp only [History.recordAction]
      split <;> rfl
  | _ => rfl

end

theorem Shared.frame_afterNext (sh : Shared) (task : Task) (next : Next) :
    sh.Frame (sh.afterNext task next) := by
  cases next with
  | returned result => exact frame_close _
  | _ => exact .refl _

theorem Shared.sessions_afterNext {sh : Shared} {task : Task} {next : Next} :
    (sh.afterNext task next).sessions = sh.sessions := by
  cases next with
  | returned result => exact sessions_close _
  | _ => rfl

/-! ## The task that acts -/

section

variable {sh sh' : Shared} {h h' : History} {t : TaskId} {task : Task} {a : Action}
  {rest : List Action} {c : Choice} {next : Next}

theorem todo_after (task : Task) (rest : List Action) (next : Next) :
    (∃ result, next = .returned result ∧ (task.after rest next).todo = []) ∨
      (∀ result, next ≠ .returned result) ∧ (task.after rest next).todo = next.more ++ rest := by
  cases next with
  | returned result => exact .inl ⟨result, rfl, rfl⟩
  | _ => exact .inr ⟨fun _ heq => (by cases heq), rfl⟩

theorem mem_todo_after {x : Action} (hx : x ∈ (task.after rest next).todo) :
    x ∈ next.more ∨ x ∈ rest := by
  rcases todo_after task rest next with ⟨_, -, heq⟩ | ⟨-, heq⟩
  · rw [heq] at hx
    cases hx
  · rw [heq] at hx
    exact List.mem_append.mp hx

/-- Behind the action at hand there is none of `handle_connect`. -/
theorem TaskInv.rest_connecting (inv : TaskInv sh h t task) (htodo : task.todo = a :: rest) {x : Action}
    (hx : x ∈ rest) : x.connecting = false := by
  rw [Bool.eq_false_iff]
  intro hconnecting
  obtain ⟨hsingle, -⟩ := inv.connecting x (htodo ▸ List.mem_cons_of_mem a hx) hconnecting
  rw [hsingle] at htodo
  cases htodo
  cases hx

/-- An action behind `handle_connect`. -/
theorem TaskInv.after (inv : TaskInv sh h t task) (htodo : task.todo = a :: rest)
    (hperform : sh.perform t c a = some (sh', next)) (ha : a.connecting = false)
    (haccepted : h'.accepted t = h.accepted t) :
    TaskInv (sh'.afterNext task next) h' t (task.after rest next) := by
  have hmem : a ∈ task.todo := htodo ▸ List.mem_cons_self
  have hrest : ∀ {x}, x ∈ rest → x ∈ task.todo := fun hx => htodo ▸ List.mem_cons_of_mem a hx
  have hconnecting : ∀ x ∈ (task.after rest next).todo, x.connecting = false := by
    intro x hx
    rcases mem_todo_after hx with hx | hx
    · exact (Shared.follows_of_perform hperform ha hx).connecting
    · exact inv.rest_connecting htodo hx
  obtain ⟨hnext, hid⟩ := Shared.id_of_perform hperform
  have hafter := Shared.frame_afterNext sh' task next
  refine ⟨?_, ?_, ?_, ?_, ?_, ?_, ?_, ?_, ?_, ?_⟩
  · intro x hx hconnecting'
    rw [hconnecting x hx] at hconnecting'
    cases hconnecting'
  · intro x hx a' target hholds
    have hconnecting' := connecting_of_holds hholds
    rw [hconnecting x hx] at hconnecting'
    cases hconnecting'
  · intro A hA
    obtain ⟨hlt, hA'⟩ := inv.accepted A (haccepted ▸ hA)
    refine ⟨?_, ?_⟩
    · rw [hafter.nextRef]
      exact Nat.lt_of_lt_of_le hlt hnext
    · rw [hafter.id, hid _ hlt, hA']
  · intro x hx ref href
    rw [haccepted]
    rcases mem_todo_after hx with hx | hx
    · rcases (Shared.follows_of_perform hperform ha hx).session with hnone | hsame
      · rw [hnone] at href
        cases href
      · exact inv.session a hmem ref (hsame ▸ href)
    · exact inv.session x (hrest hx) ref href
  · intro id hx
    rw [haccepted]
    rcases mem_todo_after hx with hx | hx
    · cases (Shared.follows_of_perform hperform ha hx).ends
    · exact inv.deactivate id (hrest hx)
  · intro ref href
    rw [haccepted]
    cases next with
    | accepted ref' =>
        cases href
        exact inv.session a hmem ref (by rw [Shared.accepted_of_perform hperform]; rfl)
    | _ => exact inv.client ref href
  · cases next with
    | accepted ref => exact fun _ h => by cases h
    | _ => exact inv.connected
  · rw [haccepted]
    intro hA
    rcases todo_after task rest next with ⟨result, rfl, -⟩ | ⟨hreturned, heq⟩
    · exact .inr (.inl (by simp [Task.after]))
    · rcases inv.phase hA with hconnected | hresult | ⟨ref, hmem⟩
      · left
        cases next <;> first | exact hconnected | rfl
      · rw [inv.done hresult] at htodo
        cases htodo
      · rw [htodo, List.mem_cons, List.mem_cons] at hmem
        rcases hmem with (rfl | hopen) | rfl | haccept
        · refine .inr (.inr ⟨ref, .inr ?_⟩)
          rw [heq]
          exact List.mem_append_left _ (Shared.accept_of_open hperform)
        · exact .inr (.inr ⟨ref, .inl (heq ▸ List.mem_append_right _ hopen)⟩)
        · cases hperform
          exact .inl rfl
        · exact .inr (.inr ⟨ref, .inr (heq ▸ List.mem_append_right _ haccept)⟩)
  · intro hresult
    rcases todo_after task rest next with ⟨result, rfl, hnil⟩ | ⟨hreturned, -⟩
    · exact hnil
    · have hdone : task.result ≠ none := by
        cases next with
        | returned result => exact absurd rfl (hreturned result)
        | _ => exact hresult
      rw [inv.done hdone] at htodo
      cases htodo
  · intro token ht
    obtain ⟨hA, hresult, hrouting⟩ := inv.delay token ht
    obtain ⟨more, rfl, hmore⟩ := Shared.routing_of_perform hperform (hrouting a hmem)
    refine ⟨haccepted.trans hA, hresult, fun x hx => ?_⟩
    rcases mem_todo_after hx with hx | hx
    · exact hmore x hx
    · exact hrouting x (hrest hx)

/-- An action of `handle_connect` that does not enroll. -/
theorem TaskInv.connect {more : List Action} (inv : TaskInv sh h t task)
    (htodo : task.todo = a :: rest) (ha : a.connecting = true)
    (haccepted : h'.accepted t = h.accepted t)
    (hmore : ∀ x ∈ more, x.session = none ∧ x.ends = false ∧ (x.connecting = true → more = [x]))
    (hholds : ∀ x ∈ more, ∀ a' target, x.holds = some (a', target) → Holds sh' h' t a' target) :
    TaskInv sh' h' t (task.after rest (.go more)) := by
  obtain ⟨hsingle, hnone, hconnection⟩ := inv.connecting a (htodo ▸ List.mem_cons_self) ha
  rw [htodo] at hsingle
  cases hsingle
  rw [← haccepted] at hnone
  have heq : (task.after [] (.go more)).todo = more := List.append_nil more
  refine ⟨?_, ?_, ?_, ?_, ?_, ?_, ?_, ?_, ?_, ?_⟩
  · rw [heq]
    exact fun x hx hconnecting => ⟨(hmore x hx).2.2 hconnecting, hnone, hconnection⟩
  · rw [heq]
    exact hholds
  · intro A hA
    rw [hnone] at hA
    cases hA
  · rw [heq]
    intro x hx ref href
    rw [(hmore x hx).1] at href
    cases href
  · rw [heq]
    intro id hx
    cases (hmore _ hx).2.1
  · rw [haccepted]
    exact inv.client
  · exact inv.connected
  · exact fun hA => absurd hnone hA
  · intro hresult
    rw [inv.done hresult] at htodo
    cases htodo
  · rintro token rfl
    obtain ⟨n, hn⟩ := hconnection
    cases hn

/-- `handle_connect` has a session. -/
theorem TaskInv.enroll {a : Admission} {target : Option Ref} (inv : TaskInv sh h t task)
    (sound : sh.pool.Sound sh.sessions sh.nextRef) (htodo : task.todo = .enroll a target :: rest) :
    TaskInv (sh.enroll a target).1 (h.recordAction sh t (.enroll a target)) t
      (task.after rest (sh.enroll a target).2) := by
  have hmem : .enroll a target ∈ task.todo := htodo ▸ List.mem_cons_self
  obtain ⟨hsingle, hnone, hconnection⟩ := inv.connecting _ hmem rfl
  rw [htodo] at hsingle
  cases hsingle
  have htarget := (inv.holding _ hmem a target rfl).target
  let ref := target.getD sh.nextRef
  have haccepted : (h.recordAction sh t (.enroll a target)).accepted t =
      some { sessionId := a.sessionId, session := ref, will := a.connect.willMessage } :=
    Function.update_self _ _ _
  have hnext : ∃ ack, (sh.enroll a target).2 = .go [.grantExpiry ref a.sessionExpiry,
      .write (.connAck ack), .openSession ref] := by
    cases target with
    | none => exact ⟨_, rfl⟩
    | some target => exact ⟨_, rfl⟩
  obtain ⟨ack, hnext⟩ := hnext
  rw [hnext]
  have heq : (task.after [] (.go [.grantExpiry ref a.sessionExpiry, .write (.connAck ack),
    .openSession ref])).todo = [.grantExpiry ref a.sessionExpiry, .write (.connAck ack),
    .openSession ref] := rfl
  refine ⟨?_, ?_, ?_, ?_, ?_, ?_, ?_, ?_, ?_, ?_⟩
  · simp [heq, Action.connecting]
  · simp [heq, Action.holds]
  · intro A hA
    rw [haccepted] at hA
    cases hA
    cases target with
    | none =>
        refine ⟨Nat.lt_of_lt_of_eq (Nat.lt_succ_self _)
          ((Shared.nextRef_enroll sh a none).2 rfl).symm, ?_⟩
        simp only [Shared.enroll, Shared.sessions_register, ref, Option.getD_none,
          Function.update_self]
        rfl
    | some target =>
        obtain ⟨hid, -, hlt⟩ := sound.active htarget
        exact ⟨Nat.lt_of_lt_of_le hlt (Shared.nextRef_enroll sh a (some target)).1,
          ((Shared.frame_adopt _ a _).id target).trans hid⟩
  · simp [heq, haccepted, Action.session]
  · simp [heq]
  · intro ref' href'
    obtain ⟨A, hA, -⟩ := inv.client ref' href'
    rw [hnone] at hA
    cases hA
  · exact inv.connected
  · exact fun _ => .inr (.inr ⟨ref, .inl (by simp [heq])⟩)
  · intro hresult
    rw [inv.done hresult] at htodo
    cases htodo
  · rintro token rfl
    obtain ⟨n, hn⟩ := hconnection
    cases hn

end

/-! ## The pool -/

section

variable {sh sh' : Shared} {h : History} {t : TaskId} {c : Choice} {a : Action} {next : Next}

def Shared.Bounded (sh : Shared) : Prop :=
  ∀ m, sh.config.maxActiveSessions = some m → sh.pool.active.entries.length ≤ m.toNat

theorem Shared.Frame.bounded (hframe : sh.Frame sh') (hbounded : sh.Bounded) : sh'.Bounded := by
  rw [Shared.Bounded, hframe.config, hframe.pool]
  exact hbounded

theorem Shared.Frame.sound (hframe : sh.Frame sh') (sound : sh.pool.Sound sh.sessions sh.nextRef) :
    sh'.pool.Sound sh'.sessions sh'.nextRef := by
  rw [hframe.pool, hframe.nextRef]
  exact sound.congr (Nat.le_refl _) fun ref _ => ⟨hframe.id ref, hframe.connected ref⟩

/-- The counter is exact below the limit. -/
theorem slack_of_not_rejects (sound : sh.pool.Sound sh.sessions sh.nextRef) (hbounded : sh.Bounded)
    {x : Admission} (hactive : sh.pool.getActive x.sessionId = none) (hreject : sh.rejects x = false)
    (m : UInt32) (hm : sh.config.maxActiveSessions = some m) :
    sh.pool.active.entries.length < m.toNat := by
  have hle := hbounded m hm
  have hcapacity : sh.pool.atCapacity sh.config.maxActiveSessions = false := by
    simpa [Shared.rejects, hactive] using hreject
  rw [hm] at hcapacity
  have hlt : sh.pool.activeSessions < m := by
    simpa [SessionPool.atCapacity] using hcapacity
  have hcount : sh.pool.activeSessions.toNat = sh.pool.active.entries.length := by
    rw [sound.activeCount, UInt32.toNat_ofNat']
    have := m.toNat_lt
    exact Nat.mod_eq_of_lt (by omega)
  have := UInt32.lt_iff_toNat_lt.mp hlt
  omega

theorem active_of_activate {pool pool' : SessionPool} {sessions sessions' : Sessions} {id : String}
    {ref : Ref} (h : pool.activate sessions id = some (ref, pool', sessions')) :
    pool.inactive.lookup id = some ref ∧
      pool'.active = pool.active.insert (sessions ref).id ref := by
  unfold SessionPool.activate at h
  cases hlookup : pool.inactive.lookup id with
  | none => simp [hlookup] at h
  | some found =>
      simp only [hlookup, Option.some.injEq, Prod.mk.injEq] at h
      obtain ⟨rfl, rfl, -⟩ := h
      exact ⟨rfl, rfl⟩

theorem lookup_none_of_activate {pool : SessionPool} {sessions : Sessions} {id : String}
    (h : pool.activate sessions id = none) : pool.inactive.lookup id = none := by
  unfold SessionPool.activate at h
  split at h
  · cases h
  · assumption

/-- The place of the client after a clean start. -/
theorem target_of_remove (sound : sh.pool.Sound sh.sessions sh.nextRef) (hbounded : sh.Bounded)
    {x : Admission} (hreject : sh.rejects x = false) {existing : Option Ref} {pool : SessionPool}
    (hremove : sh.pool.remove x.sessionId = (existing, pool)) :
    { sh with pool }.Bounded ∧ { sh with pool }.Target x none := by
  unfold SessionPool.remove at hremove
  cases hactive : sh.pool.active.lookup x.sessionId with
  | some ref =>
      simp only [hactive] at hremove
      cases hremove
      have hmem := mem_of_lookup hactive
      have hlength := length_erase hmem
      refine ⟨fun m hm => ?_, ?_, sound.disjoint _ hmem, fun m hm => ?_⟩
      · have := hbounded m hm
        simp only [SessionPool.decrementActive]
        omega
      · rw [SessionPool.decrementActive, AList.mem_erase]
        exact fun h => h.1 rfl
      · have := hbounded m hm
        simp only [SessionPool.decrementActive]
        omega
  | none =>
      have hnone : x.sessionId ∉ sh.pool.active := AList.lookup_eq_none.mp hactive
      have hslack := slack_of_not_rejects sound hbounded hactive hreject
      cases hinactive : sh.pool.inactive.lookup x.sessionId with
      | some ref =>
          simp only [hactive, hinactive] at hremove
          cases hremove
          refine ⟨hbounded, hnone, ?_, hslack⟩
          rw [SessionPool.decrementInactive, AList.mem_erase]
          exact fun h => h.1 rfl
      | none =>
          simp only [hactive, hinactive] at hremove
          cases hremove
          exact ⟨hbounded, hnone, AList.lookup_eq_none.mp hinactive, hslack⟩

/-- The pool when a connection has chosen its session. -/
theorem choose_inv (sound : sh.pool.Sound sh.sessions sh.nextRef) (hbounded : sh.Bounded)
    {x : Admission} (hreject : sh.rejects x = false) :
    (sh.choose x).1.pool.Sound (sh.choose x).1.sessions (sh.choose x).1.nextRef ∧
      (sh.choose x).1.Bounded ∧
      ∃ target, (sh.choose x).2.holds = some (x, target) ∧ (sh.choose x).1.Target x target := by
  rcases Shared.choose_cases sh x with ⟨existing, pool, -, hremove, heq, hholds⟩ |
    ⟨ref, pool, sessions, hactivate, heq, hholds⟩ | ⟨ref, hactive, heq, hholds⟩ |
    ⟨hactivate, hactive, heq, hholds⟩
  · obtain ⟨hbounded', htarget⟩ := target_of_remove sound hbounded hreject hremove
    have hsound := sound.remove x.sessionId
    rw [hremove] at hsound
    rw [heq]
    exact ⟨hsound, hbounded', none, hholds, htarget⟩
  · rw [heq]
    have hsound := sound.activate hactivate
    obtain ⟨hinactive, hactive⟩ := active_of_activate hactivate
    obtain ⟨hid, -, -⟩ := sound.inactive hinactive
    rw [hid] at hactive
    have hnot : x.sessionId ∉ sh.pool.active := fun hmem =>
      sound.disjoint _ hmem (mem_of_lookup hinactive)
    refine ⟨hsound, fun m hm => ?_, some ref, hholds, ?_⟩
    · have hslack := slack_of_not_rejects sound hbounded (AList.lookup_eq_none.mpr hnot) hreject m hm
      simp only [hactive, length_insert hnot]
      exact hslack
    · simp only [Shared.Target, hactive]
      exact AList.lookup_insert _
  · rw [heq]
    exact ⟨sound, hbounded, some ref, hholds, hactive⟩
  · rw [heq]
    refine ⟨sound, hbounded, none, hholds, AList.lookup_eq_none.mp hactive,
      AList.lookup_eq_none.mp (lookup_none_of_activate hactivate), ?_⟩
    exact slack_of_not_rejects sound hbounded hactive hreject

theorem register_inv (sound : sh.pool.Sound sh.sessions sh.nextRef) {x : Admission}
    (htarget : sh.Target x none) :
    (sh.register x).pool.Sound (sh.register x).sessions (sh.register x).nextRef ∧
      (sh.register x).Bounded := by
  obtain ⟨hactive, hinactive, hslack⟩ := htarget
  have hsession : (sh.register x).sessions sh.nextRef = (Session.new x.sessionId
      x.connect.willMessage x.keepAlive sh.nextChannel).setConnected true := by
    rw [Shared.sessions_register]
    exact Function.update_self _ _ _
  have hold : sh.pool.Sound (sh.register x).sessions (sh.nextRef + 1) := by
    refine sound.congr (Nat.le_succ _) fun ref href => ?_
    rw [Shared.sessions_register, Function.update_of_ne (Nat.ne_of_lt href)]
    exact ⟨rfl, rfl⟩
  have hadd : sh.pool.add (sh.register x).sessions sh.nextRef = (sh.register x).pool := rfl
  refine ⟨?_, fun m hm => ?_⟩
  · rw [← hadd]
    exact hold.add (by rw [hsession]; rfl) (by rw [hsession]; exact hactive)
      (by rw [hsession]; exact hinactive) (Nat.lt_succ_self _)
  · have hlength : (sh.pool.active.insert x.sessionId sh.nextRef).entries.length = _ :=
      length_insert hactive
    have hlt := hslack m hm
    rw [← hadd, SessionPool.add, hsession]
    change (sh.pool.active.insert x.sessionId sh.nextRef).entries.length ≤ m.toNat
    omega

theorem pool_of_perform (hperform : sh.perform t c a = some (sh', next))
    (sound : sh.pool.Sound sh.sessions sh.nextRef) (hbounded : sh.Bounded)
    (hholds : ∀ x target, a = .enroll x target → sh.Target x target) :
    sh'.pool.Sound sh'.sessions sh'.nextRef ∧ sh'.Bounded := by
  by_cases ha : a.changesPool
  · cases a with
    | enterPool x =>
        obtain ⟨-, ⟨-, rfl, -⟩ | ⟨hreject, rfl, -⟩⟩ := Shared.enterPool_cases hperform
        · exact ⟨sound, hbounded⟩
        · obtain ⟨hsound, hbounded', -⟩ := choose_inv sound hbounded hreject
          exact ⟨hsound, hbounded'⟩
    | enroll x target =>
        have htarget := hholds x target rfl
        cases hperform
        cases target with
        | none => exact register_inv sound htarget
        | some ref =>
            have hframe := Shared.frame_adopt sh x ref
            exact ⟨hframe.sound sound, hframe.bounded hbounded⟩
    | deactivate id =>
        simp only [Shared.perform] at hperform
        split at hperform
        · cases hperform
          refine ⟨sound.deactivate, fun m hm => ?_⟩
          have hle := hbounded m hm
          simp only [SessionPool.deactivate]
          split
          · rename_i ref hlookup
            have hlength := length_erase (mem_of_lookup hlookup)
            simp only [SessionPool.decrementActive]
            omega
          · exact hle
        · cases hperform
    | _ => cases ha
  · have hframe := Shared.frame_of_perform hperform (by simpa using ha)
    exact ⟨hframe.sound sound, hframe.bounded hbounded⟩

theorem poolWriter_of_poolFree (hfree : sh.poolFree = true) : sh.poolWriter = none := by
  rw [Shared.poolFree, Bool.and_eq_true, Option.isNone_iff_eq_none] at hfree
  exact hfree.1

/-- Nobody but the task itself changes what it holds. -/
theorem Holds.of_perform {t' : TaskId} {x : Admission} {target : Option Ref}
    (hperform : sh.perform t c a = some (sh', next)) (hne : t' ≠ t)
    (henroll : ∀ y target', a = .enroll y target' → sh.poolWriter = some t)
    (hholds : Holds sh h t' x target) : Holds sh' (h.recordAction sh t a) t' x target := by
  by_cases ha : a.changesPool
  · have hwriter := hholds.writer
    cases a with
    | enterPool y =>
        rw [poolWriter_of_poolFree (Shared.enterPool_cases hperform).1] at hwriter
        cases hwriter
    | enroll y target' =>
        rw [henroll y target' rfl] at hwriter
        cases hwriter
        exact absurd rfl hne
    | deactivate id =>
        simp only [Shared.perform] at hperform
        split at hperform
        · rename_i hfree
          rw [poolWriter_of_poolFree hfree] at hwriter
          cases hwriter
        · cases hperform
    | _ => cases ha
  · have hframe := Shared.frame_of_perform hperform (by simpa using ha)
    refine hframe.holds (latest_recordAction fun y heq => ?_) hholds
    subst heq
    exact ha rfl

end

/-! ## Steps -/

section

variable {s s' : State} {t : TaskId} {c : Choice} {e : Event}

/-- The acting task, by what it is about to do. -/
theorem Inv.task_act (inv : Inv s) {a : Action} {rest : List Action} {sh : Shared} {next : Next}
    (htodo : (s.tasks t).todo = a :: rest) (hperform : s.shared.perform t c a = some (sh, next)) :
    TaskInv (sh.afterNext (s.tasks t) next)
      ((s.history.recordAction s.shared t a).recordNext t next) t ((s.tasks t).after rest next) := by
  have htask := inv.task t
  have hmem : a ∈ (s.tasks t).todo := htodo ▸ List.mem_cons_self
  -- a step under the lock that goes on to one other
  have hgo : ∀ {x x' : Action} {p : Admission × Option Ref}, (s.tasks t).todo = x :: rest →
      x.holds = some p → x'.holds = some p → x'.session = none → x'.ends = false →
      s.shared.Frame sh → TaskInv sh s.history t ((s.tasks t).after rest (.go [x'])) := by
    intro x x' p hx hp hp' hsession hends hframe
    have hx' : x ∈ (s.tasks t).todo := hx ▸ List.mem_cons_self
    refine htask.connect hx (connecting_of_holds hp) rfl ?_ ?_
    · intro y hy
      cases List.mem_singleton.mp hy
      exact ⟨hsession, hends, fun _ => rfl⟩
    · intro y hy a' target hy'
      cases List.mem_singleton.mp hy
      rw [hp'] at hy'
      cases hy'
      exact hframe.holds rfl (htask.holding x hx' a' target hp)
  cases ha : a.connecting with
  | false =>
      refine htask.after htodo hperform ha ?_
      rw [accepted_recordNext, accepted_recordAction fun x target heq => ?_]
      subst heq
      cases ha
  | true =>
      cases a with
      | negotiate connect =>
          simp only [Shared.perform] at hperform
          split at hperform
          · cases hperform
            refine htask.connect htodo rfl rfl ?_ ?_
            · intro x hx
              cases List.mem_singleton.mp hx
              exact ⟨rfl, rfl, fun _ => rfl⟩
            · intro x hx a' target hx'
              cases List.mem_singleton.mp hx
              cases hx'
          · cases hperform
      | enterPool x =>
          obtain ⟨-, ⟨hreject, rfl, rfl⟩ | ⟨hreject, rfl, rfl⟩⟩ := Shared.enterPool_cases hperform
          · refine htask.connect htodo rfl ?_ ?_ ?_
            · rw [accepted_recordNext, accepted_recordAction fun _ _ heq => by cases heq]
            · intro y hy
              simp only [List.mem_cons, List.not_mem_nil, or_false] at hy
              rcases hy with rfl | rfl <;> exact ⟨rfl, rfl, fun h => by cases h⟩
            · intro y hy a' target hy'
              simp only [List.mem_cons, List.not_mem_nil, or_false] at hy
              rcases hy with rfl | rfl <;> cases hy'
          · obtain ⟨-, -, target, hholds, htarget⟩ := choose_inv inv.sound inv.capacity hreject
            have hlatest : (s.history.recordAction s.shared t (.enterPool x)).latest x.sessionId =
                some t := by
              simp only [History.recordAction, hreject]
              exact Function.update_self _ _ _
            refine htask.connect htodo rfl ?_ ?_ ?_
            · rw [accepted_recordNext, accepted_recordAction fun _ _ heq => by cases heq]
            · intro y hy
              cases List.mem_singleton.mp hy
              exact ⟨session_of_holds hholds, Shared.ends_of_holds hholds, fun _ => rfl⟩
            · intro y hy a' target' hy'
              cases List.mem_singleton.mp hy
              rw [hholds] at hy'
              cases hy'
              exact ⟨rfl, hlatest, htarget⟩
      | lockOld ref x target =>
          have hframe := Shared.frame_of_perform hperform rfl
          cases hperform
          exact hgo htodo rfl rfl rfl rfl hframe
      | disconnectOld ref x target =>
          have hframe := Shared.frame_of_perform hperform rfl
          obtain ⟨sent, -, heq⟩ := Option.map_eq_some_iff.mp hperform
          cases heq
          exact hgo htodo rfl rfl rfl rfl hframe
      | settle x target =>
          cases hperform
          exact hgo htodo rfl rfl rfl rfl (.refl _)
      | enroll x target =>
          have henroll := htask.enroll inv.sound htodo
          cases hperform
          exact henroll
      | _ => cases ha

theorem Inv.act (inv : Inv s) (hstep : s.act t c = some s') : Inv s' := by
  obtain ⟨a, rest, sh, next, htodo, hperform, rfl⟩ := act_cases hstep
  have hmem : a ∈ (s.tasks t).todo := htodo ▸ List.mem_cons_self
  have hafter := Shared.frame_afterNext sh (s.tasks t) next
  obtain ⟨hsound, hbounded⟩ := pool_of_perform hperform inv.sound inv.capacity (by
    rintro x target rfl
    exact ((inv.task t).holding _ hmem x target rfl).target)
  refine ⟨hafter.sound hsound, hafter.bounded hbounded, fun t' => ?_⟩
  by_cases ht : t' = t
  · subst ht
    simp only [Function.update_self]
    exact inv.task_act htodo hperform
  · simp only [Function.update_of_ne ht]
    obtain ⟨hnext, hid⟩ := Shared.id_of_perform hperform
    have hother : TaskInv sh (s.history.recordAction s.shared t a) t' (s.tasks t') := by
      refine (inv.task t').mono hnext hid (accepted_recordAction_of_ne ht) fun x target hholds => ?_
      refine hholds.of_perform hperform ht ?_
      rintro y target' rfl
      exact ((inv.task t).holding _ hmem y target' rfl).writer
    exact hother.frame hafter (congrFun accepted_recordNext t') latest_recordNext

/-- An action for the session of the connection. -/
structure Serves (sh : Shared) (task : Task) (x : Action) : Prop where
  connecting : x.connecting = false
  session : ∀ ref, x.session = some ref → task.clientSession = some ref
  deactivate : ∀ id, x = .deactivate id →
    ∃ ref, task.clientSession = some ref ∧ (sh.sessions ref).id = id

section

variable {sh : Shared} {task : Task} {todo : List Action} {ref : Ref}

theorem serves_of_plain {x : Action} (hconnecting : x.connecting = false) (hends : x.ends = false)
    (hsession : x.session = none ∨ x.session = task.clientSession) : Serves sh task x := by
  refine ⟨hconnecting, fun ref href => ?_, fun id heq => ?_⟩
  · rcases hsession with hnone | hsame
    · rw [hnone] at href
      cases href
    · exact hsame ▸ href
  · subst heq
    cases hends

theorem serves_finish (result : Except BrokerError Unit) : Serves sh task (.finish result) :=
  ⟨rfl, fun _ h => (by cases h), fun _ h => by cases h⟩

theorem serves_deactivate (href : task.clientSession = some ref) :
    Serves sh task (.deactivate (sh.sessions ref).id) := by
  refine ⟨rfl, fun _ h => (by cases h), fun id h => ?_⟩
  cases h
  exact ⟨ref, href, rfl⟩

theorem serves_ending (href : task.clientSession = some ref) :
    ∀ x ∈ sh.ending ref, Serves sh task x := by
  intro x hx
  simp only [Shared.ending, List.mem_cons, List.not_mem_nil, or_false] at hx
  rcases hx with rfl | rfl
  · exact ⟨rfl, fun ref' h => href.trans h, fun id h => by cases h⟩
  · exact serves_deactivate href

/-- An ending with the return of the handler behind it. -/
theorem serves_return (result : Except BrokerError Unit) :
    ∀ x ∈ (task.clientSession.map sh.ending).getD [] ++ [.finish result], Serves sh task x := by
  intro x hx
  rcases List.mem_append.mp hx with hx | hx
  · cases hclient : task.clientSession with
    | none => simp [hclient] at hx
    | some ref =>
        refine serves_ending hclient x ?_
        simpa [hclient] using hx
  · cases List.mem_singleton.mp hx
    exact serves_finish result

theorem serves_control (msg : SessionControl) :
    ∀ x ∈ sh.handleControl task.clientSession msg, Serves sh task x := by
  intro x hx
  cases msg with
  | deliver publish =>
      cases List.mem_singleton.mp hx
      exact serves_of_plain rfl rfl (.inl rfl)
  | disconnect reason =>
      cases hclient : task.clientSession with
      | none =>
          simp only [Shared.handleControl, hclient, List.mem_cons, List.not_mem_nil, or_false] at hx
          rcases hx with rfl | rfl
          · exact serves_of_plain rfl rfl (.inl rfl)
          · exact serves_finish _
      | some ref =>
          simp only [Shared.handleControl, hclient] at hx
          rcases List.mem_append.mp hx with hx | hx
          · split at hx
            · cases hx
            · cases List.mem_singleton.mp hx
              exact serves_deactivate hclient
          · cases List.mem_singleton.mp hx
            exact serves_of_plain rfl rfl (.inl rfl)

theorem serves_packet {p : Packet} (href : task.clientSession = some ref)
    (htodo : sh.handlePacket ref p = some todo) : ∀ x ∈ todo, Serves sh task x := by
  intro x hx
  rcases Shared.handlePacket_cases htodo with hplain | ⟨d, -, -, rfl⟩ | ⟨d, -, -, rfl⟩ |
    ⟨publish, result, -, -, -, rfl⟩
  · obtain ⟨hconnecting, hends, hsession⟩ := hplain x hx
    exact serves_of_plain hconnecting hends (href ▸ hsession)
  · simp only [List.mem_cons, List.not_mem_nil, or_false] at hx
    rcases hx with rfl | rfl
    · exact ⟨rfl, fun ref' h => href.trans h, fun id h => by cases h⟩
    · exact serves_deactivate href
  · exact serves_ending href x hx
  · simp only [List.mem_cons, List.not_mem_nil, or_false] at hx
    rcases hx with rfl | rfl
    · exact serves_of_plain rfl rfl (.inl rfl)
    · exact serves_finish result

/-- What an event leaves to do: a CONNECT, or what serves the session. -/
theorem serves_of_arises (harises : Shared.Arises sh task e todo) :
    (∃ connect, todo = [.negotiate connect] ∧ task.connected = false) ∨
      ∀ x ∈ todo, Serves sh task x := by
  cases harises with
  | control msg hmsg => exact .inr (serves_control msg)
  | timeout ref href => exact .inr (serves_ending href)
  | idle hnone =>
      right
      intro x hx
      simp only [List.mem_cons, List.not_mem_nil, or_false] at hx
      rcases hx with rfl | rfl
      · exact serves_of_plain rfl rfl (.inl rfl)
      · exact serves_finish _
  | packet p ref todo hconnected href htodo => exact .inr (serves_packet href htodo)
  | ignored p hconnected hnone => exact .inr fun x hx => by cases hx
  | preConnect p hconnected =>
      have hplain : ∀ x ∈ sh.handlePreConnect p, (∀ connect, x ≠ .negotiate connect) →
          Serves sh task x := by
        intro x hx hne
        cases p with
        | connect connect =>
            simp only [Shared.handlePreConnect] at hx
            split at hx
            · exact absurd (List.mem_singleton.mp hx) (hne connect)
            · simp only [List.mem_cons, List.not_mem_nil, or_false] at hx
              rcases hx with rfl | rfl <;> exact serves_of_plain rfl rfl (.inl rfl)
        | _ =>
            cases List.mem_singleton.mp hx
            exact serves_of_plain rfl rfl (.inl rfl)
      by_cases hconnect : ∃ connect, sh.handlePreConnect p = [.negotiate connect]
      · obtain ⟨connect, heq⟩ := hconnect
        exact .inl ⟨connect, heq, hconnected⟩
      · right
        intro x hx
        refine hplain x hx ?_
        rintro connect rfl
        refine hconnect ⟨connect, ?_⟩
        cases p with
        | connect connect' =>
            simp only [Shared.handlePreConnect] at hx ⊢
            split at hx
            · cases List.mem_singleton.mp hx
              rename_i haccept
              rw [if_pos haccept]
            · simp at hx
        | _ => cases List.mem_singleton.mp hx
  | endOfStream => exact .inr (serves_return _)
  | readError => exact .inr (serves_return _)

end

theorem Inv.event (inv : Inv s) {n : Nat} (hstep : s.event (.connection n) e = some s') : Inv s' := by
  obtain ⟨hnil, hresult, sh, todo, hhandle, rfl⟩ := event_cases hstep
  obtain ⟨hframe, hsessions⟩ := Shared.frame_of_handle hhandle
  refine ⟨hframe.sound inv.sound, hframe.bounded inv.capacity, fun t => ?_⟩
  have hother : TaskInv sh (s.history.recordEvent s.shared (.connection n) (s.tasks (.connection n)) e)
      t (s.tasks t) := (inv.task t).frame hframe rfl rfl
  by_cases ht : t = .connection n
  · subst ht
    simp only [Function.update_self]
    rcases serves_of_arises (Shared.arises_of_handle hhandle) with ⟨connect, rfl, hconnected⟩ | hserves
    · -- a CONNECT on a connection that has no session
      have hnone : s.history.accepted (.connection n) = none := by
        by_contra hA
        rcases (inv.task _).phase hA with hphase | hphase | ⟨ref, hphase⟩
        · rw [hconnected] at hphase
          cases hphase
        · exact hphase hresult
        · rw [hnil] at hphase
          rcases hphase with hphase | hphase <;> cases hphase
      refine ⟨?_, ?_, hother.accepted, ?_, ?_, hother.client, hother.connected, fun hA => absurd hnone hA,
        fun h => absurd hresult h, fun _ h => by cases h⟩
      · intro x hx _
        cases List.mem_singleton.mp hx
        exact ⟨rfl, hnone, n, rfl⟩
      · intro x hx a target hholds
        cases List.mem_singleton.mp hx
        cases hholds
      · intro x hx ref href
        cases List.mem_singleton.mp hx
        cases href
      · intro id hx
        cases List.mem_singleton.mp hx
    · refine ⟨?_, ?_, hother.accepted, ?_, ?_, hother.client, hother.connected, ?_, fun h => absurd hresult h,
        fun _ h => by cases h⟩
      · intro x hx hconnecting
        rw [(hserves x hx).connecting] at hconnecting
        cases hconnecting
      · intro x hx a target hholds
        have hconnecting := connecting_of_holds hholds
        rw [(hserves x hx).connecting] at hconnecting
        cases hconnecting
      · intro x hx ref href
        exact hother.client ref ((hserves x hx).session ref href)
      · intro id hx
        obtain ⟨ref, href, rfl⟩ := (hserves _ hx).deactivate id rfl
        obtain ⟨A, hA, rfl⟩ := hother.client ref href
        exact ⟨A, hA, ((inv.task _).accepted A hA).2.symm⟩
      · intro hA
        rcases hother.phase hA with hphase | hphase | ⟨ref, hphase⟩
        · exact .inl hphase
        · exact absurd hresult hphase
        · rw [hnil] at hphase
          rcases hphase with hphase | hphase <;> cases hphase
  · simp only [Function.update_of_ne ht]
    exact hother

/-- The delayed publication of a will has no session. -/
theorem Inv.fire (inv : Inv s) {token : Token} (hstep : s.fire token = some s') : Inv s' := by
  rw [fire_cases hstep]
  have hframe : s.shared.Frame
      { s.shared with
        delays := Function.update s.shared.delays token
          { s.shared.delays token with waiting := false } } :=
    Shared.frame_of_sessions rfl rfl rfl rfl rfl
  refine ⟨hframe.sound inv.sound, hframe.bounded inv.capacity, fun t => ?_⟩
  have hother : TaskInv _ s.history t (s.tasks t) := (inv.task t).frame hframe rfl rfl
  by_cases ht : t = .delay token
  · subst ht
    simp only [Function.update_self]
    obtain ⟨hnone, hresult, -⟩ := hother.delay token rfl
    refine ⟨?_, ?_, hother.accepted, ?_, ?_, hother.client, hother.connected, fun hA => absurd hnone hA,
      fun h => absurd hresult h, fun _ _ => ⟨hnone, hresult, ?_⟩⟩
    all_goals simp [Action.connecting, Action.holds, Action.session, Action.routing]
  · simp only [Function.update_of_ne ht]
    exact hother

theorem Inv.setSessionExpiry (inv : Inv s) (hfree : s.shared.poolFree = true) (secs : Nat) :
    Inv { s with shared := { s.shared with pool := s.shared.pool.setSessionExpiry secs } } := by
  refine ⟨inv.sound.setSessionExpiry secs, inv.capacity, fun t => ?_⟩
  refine (inv.task t).mono (Nat.le_refl _) (fun _ _ => rfl) rfl fun a target hholds => ?_
  have hwriter := hholds.writer
  rw [poolWriter_of_poolFree hfree] at hwriter
  cases hwriter

theorem Inv.step (inv : Inv s) {l : Label} (hstep : s.step l = some s') : Inv s' := by
  cases l with
  | event n e => exact inv.event hstep
  | act t c => exact inv.act hstep
  | fire token => exact inv.fire hstep
  | setAccepting accept =>
      cases hstep
      have hframe : s.shared.Frame { s.shared with acceptConnections := accept } :=
        Shared.frame_of_sessions rfl rfl rfl rfl rfl
      exact ⟨inv.sound, inv.capacity, fun t => (inv.task t).frame hframe rfl rfl⟩
  | setSessionExpiry secs =>
      simp only [State.step] at hstep
      split at hstep
      · rename_i hfree
        cases hstep
        exact inv.setSessionExpiry hfree secs
      · cases hstep

theorem inv_of_run {config : Config} {ls : List Label}
    (hrun : run State.step (.start config) ls = some s) : Inv s :=
  invariant (fun _ _ _ inv hstep => inv.step hstep) (inv_start config) hrun

end

end Broker
end Vaux
