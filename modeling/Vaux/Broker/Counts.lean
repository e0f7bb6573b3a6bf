import Vaux.Broker.Invariant

/-!
# The counters of the pool

In every reachable state the counters are the numbers of entries modulo `2 ^ 32`, and the
limit on active sessions is kept.  The counters have 32 bits and the maps have no bound,
so with `2 ^ 32` active sessions the counter is zero.
-/

namespace Vaux
namespace Broker

open Wire Mqtt Machine

/-- Both maps have fewer than `2 ^ 32` entries. -/
def SessionPool.Small (pool : SessionPool) : Prop :=
  pool.active.entries.length < 2 ^ 32 ∧ pool.inactive.entries.length < 2 ^ 32

/-- What the pool is to look like between any two steps. -/
structure SessionPool.Consistent (pool : SessionPool) (sessions : Sessions) (max : Option UInt32) :
    Prop where
  activeSessions : pool.activeSessions.toNat = pool.active.entries.length % 2 ^ 32
  inactiveSessions : pool.inactiveSessions.toNat = pool.inactive.entries.length % 2 ^ 32
  disjoint : ∀ id, ¬ (id ∈ pool.active ∧ id ∈ pool.inactive)
  active : ∀ id ref, pool.active.lookup id = some ref →
    (sessions ref).connected = true ∧ (sessions ref).id = id
  inactive : ∀ id ref, pool.inactive.lookup id = some ref →
    (sessions ref).connected = false ∧ (sessions ref).id = id
  limit : ∀ m, max = some m → pool.active.entries.length ≤ m.toNat ∧ pool.activeSessions ≤ m

/-! ## The configuration is fixed -/

section

variable {s s' : State} {sh sh' : Shared} {t : TaskId} {c : Choice} {a : Action} {next : Next}

theorem config_of_perform (h : sh.perform t c a = some (sh', next)) : sh'.config = sh.config := by
  by_cases ha : a.changesPool
  · cases a with
    | enterPool x =>
        obtain ⟨-, ⟨-, rfl, -⟩ | ⟨-, rfl, -⟩⟩ := Shared.enterPool_cases h
        · rfl
        · rcases Shared.choose_cases sh x with ⟨_, _, -, -, heq, -⟩ | ⟨_, _, _, -, heq, -⟩ |
            ⟨_, -, heq, -⟩ | ⟨-, -, heq, -⟩
          all_goals simp only [heq]
    | enroll x target =>
        cases h
        cases target with
        | none => rfl
        | some ref => exact (Shared.frame_adopt _ x _).config
    | deactivate id =>
        simp only [Shared.perform] at h
        split at h
        · cases h
          rfl
        · cases h
    | _ => cases ha
  · exact (Shared.frame_of_perform h (by simpa using ha)).config

theorem config_of_step {l : Label} (hstep : s.step l = some s') :
    s'.shared.config = s.shared.config := by
  cases l with
  | event n e =>
      obtain ⟨-, -, sh, todo, hhandle, rfl⟩ := event_cases hstep
      exact (Shared.frame_of_handle hhandle).1.config
  | act t c =>
      obtain ⟨a, rest, sh, next, -, hperform, rfl⟩ := act_cases hstep
      exact (Shared.frame_afterNext _ _ _).config.trans (config_of_perform hperform)
  | fire token => rw [fire_cases hstep]
  | setAccepting accept =>
      cases hstep
      rfl
  | setSessionExpiry secs =>
      simp only [State.step] at hstep
      split at hstep
      · cases hstep
        rfl
      · cases hstep

end

/-! ## Underflow -/

section

variable {s s' : State} {sh sh' : Shared} {t : TaskId} {c : Choice} {a : Action} {next : Next}
  {pool : SessionPool} {sessions : Sessions} {nextRef : Ref} {id : String}

theorem count_ne_zero {m : AList fun _ : String => Ref} {count : UInt32} {ref : Ref}
    (hcount : count = UInt32.ofNat m.entries.length) (hlookup : m.lookup id = some ref)
    (hsmall : m.entries.length < 2 ^ 32) : count ≠ 0 := by
  intro hzero
  have hpos := length_erase (mem_of_lookup hlookup)
  have hnat : count.toNat = m.entries.length := by
    rw [hcount, UInt32.toNat_ofNat']
    exact Nat.mod_eq_of_lt hsmall
  rw [hzero] at hnat
  simp at hnat
  omega

theorem underflow_remove (sound : pool.Sound sessions nextRef) (hsmall : pool.Small)
    (h : pool.underflow = false) (id : String) : (pool.remove id).2.underflow = false := by
  unfold SessionPool.remove
  cases hactive : pool.active.lookup id with
  | some ref =>
      simp [SessionPool.decrementActive, h, count_ne_zero sound.activeCount hactive hsmall.1]
  | none =>
      cases hinactive : pool.inactive.lookup id with
      | some ref =>
          simp [SessionPool.decrementInactive, h,
            count_ne_zero sound.inactiveCount hinactive hsmall.2]
      | none => exact h

theorem underflow_activate (sound : pool.Sound sessions nextRef) (hsmall : pool.Small)
    (h : pool.underflow = false) {ref : Ref} {pool' : SessionPool} {sessions' : Sessions}
    (hrun : pool.activate sessions id = some (ref, pool', sessions')) : pool'.underflow = false := by
  unfold SessionPool.activate at hrun
  cases hinactive : pool.inactive.lookup id with
  | none => simp [hinactive] at hrun
  | some found =>
      simp only [hinactive, Option.some.injEq, Prod.mk.injEq] at hrun
      obtain ⟨-, rfl, -⟩ := hrun
      simp [SessionPool.decrementInactive, h, count_ne_zero sound.inactiveCount hinactive hsmall.2]

theorem underflow_deactivate (sound : pool.Sound sessions nextRef) (hsmall : pool.Small)
    (h : pool.underflow = false) : (pool.deactivate sessions id).1.underflow = false := by
  unfold SessionPool.deactivate
  cases hactive : pool.active.lookup id with
  | none => exact h
  | some ref =>
      simp [SessionPool.decrementActive, h, count_ne_zero sound.activeCount hactive hsmall.1]

theorem underflow_choose (sound : sh.pool.Sound sh.sessions sh.nextRef) (hsmall : sh.pool.Small)
    (h : sh.pool.underflow = false) (x : Admission) : (sh.choose x).1.pool.underflow = false := by
  rcases Shared.choose_cases sh x with ⟨_, pool, -, hremove, heq, -⟩ |
    ⟨ref, pool, sessions, hactivate, heq, -⟩ | ⟨_, -, heq, -⟩ | ⟨-, -, heq, -⟩
  · have hunder := underflow_remove sound hsmall h x.sessionId
    rw [hremove] at hunder
    rw [heq]
    exact hunder
  · rw [heq]
    exact underflow_activate sound hsmall h hactivate
  · rw [heq]
    exact h
  · rw [heq]
    exact h

theorem underflow_of_perform (hperform : sh.perform t c a = some (sh', next))
    (sound : sh.pool.Sound sh.sessions sh.nextRef) (hsmall : sh.pool.Small)
    (h : sh.pool.underflow = false) : sh'.pool.underflow = false := by
  by_cases ha : a.changesPool
  · cases a with
    | enterPool x =>
        obtain ⟨-, ⟨-, rfl, -⟩ | ⟨-, rfl, -⟩⟩ := Shared.enterPool_cases hperform
        · exact h
        · exact underflow_choose sound hsmall h x
    | enroll x target =>
        cases hperform
        cases target with
        | none =>
            have hadd : (sh.register x).pool.underflow = sh.pool.underflow := by
              simp only [Shared.register, SessionPool.add]
              split <;> rfl
            exact hadd.trans h
        | some ref => exact (congrArg SessionPool.underflow (Shared.frame_adopt _ x _).pool).trans h
    | deactivate id =>
        simp only [Shared.perform] at hperform
        split at hperform
        · cases hperform
          exact underflow_deactivate sound hsmall h
        · cases hperform
    | _ => cases ha
  · exact (congrArg SessionPool.underflow
      (Shared.frame_of_perform hperform (by simpa using ha)).pool).trans h

theorem underflow_of_step (inv : Inv s) (hsmall : s.shared.pool.Small)
    (h : s.shared.pool.underflow = false) {l : Label} (hstep : s.step l = some s') :
    s'.shared.pool.underflow = false := by
  cases l with
  | event n e =>
      obtain ⟨-, -, sh, todo, hhandle, rfl⟩ := event_cases hstep
      exact (congrArg SessionPool.underflow (Shared.frame_of_handle hhandle).1.pool).trans h
  | act t c =>
      obtain ⟨a, rest, sh, next, -, hperform, rfl⟩ := act_cases hstep
      exact (congrArg SessionPool.underflow (Shared.frame_afterNext _ _ _).pool).trans
        (underflow_of_perform hperform inv.sound hsmall h)
  | fire token =>
      rw [fire_cases hstep]
      exact h
  | setAccepting accept =>
      cases hstep
      exact h
  | setSessionExpiry secs =>
      simp only [State.step] at hstep
      split at hstep
      · cases hstep
        exact h
      · cases hstep

end

/-! ## Every reachable state -/

/-- The pool after any interleaving of connects, endings and commands. -/
theorem consistent_of_run {config : Config} {ls : List Label} {s : State}
    (hrun : run State.step (.start config) ls = some s) :
    s.shared.pool.Consistent s.shared.sessions config.maxActiveSessions ∧
      (s.shared.pool.Small →
        s.shared.pool.activeSessions.toNat = s.shared.pool.active.entries.length ∧
        s.shared.pool.inactiveSessions.toNat = s.shared.pool.inactive.entries.length) ∧
      (Along State.step (fun s _ => s.shared.pool.Small) (.start config) ls →
        s.shared.pool.underflow = false) := by
  have inv := inv_of_run hrun
  have hconfig : s.shared.config = config :=
    invariant (I := fun s => s.shared.config = config)
      (fun _ _ _ h hstep => (config_of_step hstep).trans h) rfl hrun
  have hactive : s.shared.pool.activeSessions.toNat = s.shared.pool.active.entries.length % 2 ^ 32 := by
    rw [inv.sound.activeCount, UInt32.toNat_ofNat']
  have hinactive :
      s.shared.pool.inactiveSessions.toNat = s.shared.pool.inactive.entries.length % 2 ^ 32 := by
    rw [inv.sound.inactiveCount, UInt32.toNat_ofNat']
  refine ⟨⟨hactive, hinactive, ?_, ?_, ?_, ?_⟩, ?_, ?_⟩
  · exact fun id h => inv.sound.disjoint id h.1 h.2
  · intro id ref hlookup
    obtain ⟨hid, hconnected, -⟩ := inv.sound.active hlookup
    exact ⟨hconnected, hid⟩
  · intro id ref hlookup
    obtain ⟨hid, hconnected, -⟩ := inv.sound.inactive hlookup
    exact ⟨hconnected, hid⟩
  · intro m hm
    have hle := inv.capacity m (hconfig ▸ hm)
    refine ⟨hle, UInt32.le_iff_toNat_le.mpr ?_⟩
    rw [hactive]
    exact (Nat.mod_le _ _).trans hle
  · rintro ⟨hactive', hinactive'⟩
    exact ⟨hactive.trans (Nat.mod_eq_of_lt hactive'), hinactive.trans (Nat.mod_eq_of_lt hinactive')⟩
  · intro hsmall
    refine (invariant_of_step (I := fun s => Inv s ∧ s.shared.pool.underflow = false)
      (fun s l s' h hsmall hstep => ?_) ⟨inv_start config, rfl⟩ hsmall hrun).2
    exact ⟨h.1.step hstep, underflow_of_step h.1 hsmall h.2 hstep⟩

theorem consistent_of_run_takeover : ∃ s,
    run State.step (.start defaultConfig)
      (connectLabels 0 (.new "x") 7 ++ connectLabels 1 (.new "x") 10) = some s ∧
    s.shared.pool.Consistent s.shared.sessions none := by
  obtain ⟨s, hrun⟩ := Option.isSome_iff_exists.mp (show (run State.step (.start defaultConfig)
    (connectLabels 0 (.new "x") 7 ++ connectLabels 1 (.new "x") 10)).isSome = true by decide +kernel)
  exact ⟨s, hrun, (consistent_of_run hrun).1⟩

/-! ## More sessions than the counter can count -/

/-- The connections from `n` on have not started, and their ids are free. -/
structure Ready (n : Nat) (s : State) : Prop where
  config : s.shared.config.maxActiveSessions = none
  accept : s.shared.acceptConnections = true
  free : s.shared.poolFree = true
  length : s.shared.pool.active.entries.length = n
  active : ∀ k ≥ n, unary k ∉ s.shared.pool.active
  inactive : ∀ k ≥ n, unary k ∉ s.shared.pool.inactive
  task : ∀ k ≥ n, s.tasks (.connection k) = .start

/-- A CONNECT without a client id, and what its handler does up to the enrolment. -/
def anonymousLabels (n : Nat) : List Label :=
  [.event n (.packet (.connect (.new ""))), .act (.connection n) { uuid := unary n },
    .act (.connection n) {}, .act (.connection n) {}]

/-- One action, as far as the others can tell. -/
theorem act_go {s : State} {t : TaskId} {c : Choice} {a : Action} {sh : Shared}
    {more : List Action} (htodo : (s.tasks t).todo = [a])
    (hperform : s.shared.perform t c a = some (sh, .go more)) :
    ∃ s', s.step (.act t c) = some s' ∧ s'.shared = sh ∧ (s'.tasks t).todo = more ∧
      ∀ t' ≠ t, s'.tasks t' = s.tasks t' := by
  have hact : s.act t c = some
      { shared := sh
        tasks := Function.update s.tasks t ((s.tasks t).after [] (.go more))
        history := s.history.recordAction s.shared t a } := by
    unfold State.act
    rw [htodo]
    simp only [hperform, Option.map_some]
    rfl
  refine ⟨_, hact, rfl, ?_, fun t' ht' => Function.update_of_ne ht' _ _⟩
  simp only [Function.update_self]
  exact List.append_nil more

theorem Ready.connect {n : Nat} {s : State} (h : Ready n s) :
    ∃ s', run State.step s (anonymousLabels n) = some s' ∧ Ready (n + 1) s' := by
  let t : TaskId := .connection n
  let a := negotiate s.shared.pool (.new "") (unary n)
  have hclean : a.connect.cleanStart = false := by
    change (Connect.new "").cleanStart = false
    decide
  have hactive : s.shared.pool.getActive a.sessionId = none :=
    AList.lookup_eq_none.mpr (h.active n (Nat.le_refl n))
  have hinactive : s.shared.pool.inactive.lookup a.sessionId = none :=
    AList.lookup_eq_none.mpr (h.inactive n (Nat.le_refl n))
  have hreject : s.shared.rejects a = false := by
    simp [Shared.rejects, h.config, SessionPool.atCapacity]
  have hchoose : s.shared.choose a = (s.shared, .enroll a none) := by
    simp only [Shared.choose, hclean, SessionPool.activate, hinactive, hactive]
    rfl
  -- the CONNECT is read
  obtain ⟨s₁, hstep₁, hsh₁, htodo₁, hother₁⟩ : ∃ s', s.step (.event n (.packet (.connect (.new "")))) =
      some s' ∧ s'.shared = s.shared ∧ (s'.tasks t).todo = [.negotiate (.new "")] ∧
        ∀ t' ≠ t, s'.tasks t' = s.tasks t' := by
    have hevent : s.step (.event n (.packet (.connect (.new "")))) = some
        { s with
          tasks := Function.update s.tasks t { Task.start with todo := [.negotiate (.new "")] }
          history := s.history.recordEvent s.shared t .start (.packet (.connect (.new ""))) } := by
      simp only [State.step, State.event, h.task n (Nat.le_refl n), Shared.handle,
        Shared.handlePreConnect, h.accept, Task.start]
      rfl
    exact ⟨_, hevent, rfl, by simp only [Function.update_self],
      fun t' ht' => Function.update_of_ne ht' _ _⟩
  -- its admission is settled, the pool is entered, the session is enrolled
  have hnegotiate : s₁.shared.perform t { uuid := unary n } (.negotiate (.new "")) =
      some (s.shared, .go [.enterPool a]) := by
    rw [hsh₁]
    simp only [Shared.perform, poolWriter_of_poolFree h.free]
    rfl
  obtain ⟨s₂, hstep₂, hsh₂, htodo₂, hother₂⟩ := act_go htodo₁ hnegotiate
  have henter : s₂.shared.perform t {} (.enterPool a) =
      some ({ s.shared with poolWriter := some t }, .go [.enroll a none]) := by
    rw [hsh₂]
    simp only [Shared.perform, Shared.enterPool, h.free, hreject, hchoose]
    rfl
  obtain ⟨s₃, hstep₃, hsh₃, htodo₃, hother₃⟩ := act_go htodo₂ henter
  obtain ⟨s₄, hstep₄, hsh₄, -, hother₄⟩ := act_go (c := {}) htodo₃ (by
    rw [hsh₃]
    rfl)
  have hpool : s₄.shared.pool =
      { s.shared.pool with
        activeSessions := s.shared.pool.activeSessions + 1
        active := s.shared.pool.active.insert (unary n) s.shared.nextRef } := by
    rw [hsh₄]
    simp only [Shared.register, Shared.setSession, SessionPool.add,
      Function.update_self]
    rfl
  refine ⟨s₄, ?_, ?_⟩
  · exact run_cons_eq_some.mpr ⟨s₁, hstep₁, run_cons_eq_some.mpr ⟨s₂, hstep₂,
      run_cons_eq_some.mpr ⟨s₃, hstep₃, run_cons_eq_some.mpr ⟨s₄, hstep₄, run_nil⟩⟩⟩⟩
  · have hne : ∀ k ≥ n + 1, unary k ≠ unary n := by
      intro k hk heq
      have := unary_injective heq
      omega
    refine ⟨?_, ?_, ?_, ?_, ?_, ?_, ?_⟩
    · rw [hsh₄]
      exact h.config
    · rw [hsh₄]
      exact h.accept
    · have hfree := h.free
      rw [Shared.poolFree, Bool.and_eq_true] at hfree
      rw [hsh₄]
      exact hfree.2
    · rw [hpool]
      simp only [length_insert (h.active n (Nat.le_refl n)), h.length]
    · intro k hk
      rw [hpool]
      simp only [AList.mem_insert]
      rintro (heq | hmem)
      · exact hne k hk heq
      · exact h.active k (Nat.le_of_succ_le hk) hmem
    · intro k hk
      rw [hpool]
      exact h.inactive k (Nat.le_of_succ_le hk)
    · intro k hk
      have hk' : TaskId.connection k ≠ .connection n := by
        intro heq
        have hkn : k = n := by injection heq
        omega
      rw [hother₄ _ hk', hother₃ _ hk', hother₂ _ hk', hother₁ _ hk']
      exact h.task k (Nat.le_of_succ_le hk)

theorem ready_start : Ready 0 (.start defaultConfig) :=
  ⟨rfl, rfl, rfl, rfl, fun _ _ => AList.notMem_empty _, fun _ _ => AList.notMem_empty _, fun _ _ => rfl⟩

theorem exists_ready (n : Nat) :
    ∃ ls s, run State.step (.start defaultConfig) ls = some s ∧ Ready n s := by
  induction n with
  | zero => exact ⟨[], _, rfl, ready_start⟩
  | succ n ih =>
      obtain ⟨ls, s, hrun, hready⟩ := ih
      obtain ⟨s', hconnect, hready'⟩ := hready.connect
      exact ⟨ls ++ anonymousLabels n, s', run_append_eq_some.mpr ⟨s, hrun, hconnect⟩, hready'⟩

/-- After `2 ^ 32` connects the counter says that there is no active session. -/
theorem activeSessions_wraps : ¬ ∀ ls s, run State.step (.start defaultConfig) ls = some s →
    s.shared.pool.activeSessions.toNat = s.shared.pool.active.entries.length := by
  intro hall
  obtain ⟨ls, s, hrun, hready⟩ := exists_ready (2 ^ 32)
  have hcount := hall ls s hrun
  rw [(inv_of_run hrun).sound.activeCount, hready.length, UInt32.toNat_ofNat'] at hcount
  omega

end Broker
end Vaux
