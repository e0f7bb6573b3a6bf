import Vaux.Broker.Invariant

/-!
# Who changes the session of a client

The entry of a client id is changed by a connection that enters the pool for it or
enrolls in it, and by a deactivation.  A will is changed by a connection that enrolls
with its session, and by the end of one that was accepted with it.
-/

namespace Vaux
namespace Broker

open Wire Mqtt Machine

/-- The actions by which a connection ends its session. -/
def Action.endsSession : Action → Bool
  | .takeWill _ | .clearWill _ | .deactivate _ => true
  | _ => false

theorem Action.ends_of_endsSession {x : Action} (h : x.endsSession = true) : x.ends = true := by
  cases x <;> first | rfl | cases h

section

variable {sh sh' : Shared} {h : History} {t t' : TaskId} {c : Choice} {a x : Action} {next : Next}
  {rest : List Action} {id : String} {ref : Ref} {s : State}

/-! ## The history -/

/-- The history of a task that does not enroll. -/
theorem recordAction_of_ne (hne : t' ≠ t ∨ ∀ y target, a ≠ .enroll y target) :
    (h.recordAction sh t a).accepted t' = h.accepted t' ∧
      (h.recordAction sh t a).ended t' = h.ended t' ∧
      (h.recordAction sh t a).success t' = h.success t' := by
  cases a with
  | enroll y target =>
      have ht : t' ≠ t := hne.resolve_right fun h => h y target rfl
      exact ⟨Function.update_of_ne ht _ _, Function.update_of_ne ht _ _, Function.update_of_ne ht _ _⟩
  | enterPool x =>
      simp only [History.recordAction]
      split <;> exact ⟨rfl, rfl, rfl⟩
  | takeWill ref =>
      simp only [History.recordAction]
      split <;> exact ⟨rfl, rfl, rfl⟩
  | _ => exact ⟨rfl, rfl, rfl⟩

theorem supplier_recordAction (hne : ∀ y target, a = .enroll y target → ref ≠ target.getD sh.nextRef) :
    (h.recordAction sh t a).supplier ref = h.supplier ref := by
  cases a with
  | enroll y target => exact Function.update_of_ne (hne y target rfl) _ _
  | enterPool y =>
      simp only [History.recordAction]
      split <;> rfl
  | takeWill ref =>
      simp only [History.recordAction]
      split <;> rfl
  | _ => rfl

theorem success_recordNext : (h.recordNext t next).success = h.success := by
  cases next <;> rfl

theorem supplier_recordNext : (h.recordNext t next).supplier = h.supplier := by
  cases next <;> rfl

theorem willTaken_recordNext : (h.recordNext t next).willTaken = h.willTaken := by
  cases next <;> rfl

theorem ended_recordNext (hended : h.ended t' = true) : (h.recordNext t next).ended t' = true := by
  cases next with
  | returned result =>
      by_cases ht : t' = t
      · subst ht
        exact Function.update_self _ _ _
      · exact (Function.update_of_ne ht _ _).trans hended
  | _ => exact hended

/-- A connection that is not over after a step was not over before it. -/
theorem ended_of_act (hne : t' ≠ t ∨ ∀ y target, a ≠ .enroll y target)
    (hended : ((h.recordAction sh t a).recordNext t next).ended t' = false) : h.ended t' = false := by
  rw [Bool.eq_false_iff] at hended ⊢
  intro htrue
  refine hended (ended_recordNext ?_)
  rw [(recordAction_of_ne hne).2.1]
  exact htrue

theorem ended_of_event {task : Task} {e : Event}
    (hended : (h.recordEvent sh t task e).ended t' = false) : h.ended t' = false := by
  by_cases ht : t' = t
  · subst ht
    have hupdate : (h.ended t' || e.ends) = false := by
      simpa [History.recordEvent] using hended
    exact (Bool.or_eq_false_iff.mp hupdate).1
  · simpa [History.recordEvent, ht] using hended

theorem latest_enterPool {y : Admission} (hreject : sh.rejects y = false) :
    (h.recordAction sh t (.enterPool y)).latest = Function.update h.latest y.sessionId (some t) := by
  simp [History.recordAction, hreject]

/-- Who entered last is changed by an entry for that id only. -/
theorem latest_of_act (hne : ∀ y, a = .enterPool y → sh.rejects y = false → y.sessionId ≠ id) :
    ((h.recordAction sh t a).recordNext t next).latest id = h.latest id := by
  rw [latest_recordNext]
  cases a with
  | enterPool y =>
      cases hreject : sh.rejects y with
      | true => simp [History.recordAction, hreject]
      | false =>
          rw [latest_enterPool hreject]
          exact Function.update_of_ne (hne y rfl hreject).symm _ _
  | _ => rw [latest_recordAction fun y heq => by cases heq]

/-! ## The entry of a client -/

theorem lookup_remove_ne (pool : SessionPool) {id' : String} (hne : id ≠ id') :
    (pool.remove id').2.active.lookup id = pool.active.lookup id := by
  unfold SessionPool.remove
  cases hactive : pool.active.lookup id' with
  | some ref => exact AList.lookup_erase_ne hne
  | none => cases hinactive : pool.inactive.lookup id' <;> rfl

theorem lookup_choose_ne {y : Admission} (sound : sh.pool.Sound sh.sessions sh.nextRef)
    (hne : id ≠ y.sessionId) : (sh.choose y).1.pool.active.lookup id = sh.pool.active.lookup id := by
  rcases Shared.choose_cases sh y with ⟨_, pool, -, hremove, heq, -⟩ |
    ⟨ref, pool, sessions, hactivate, heq, -⟩ | ⟨_, -, heq, -⟩ | ⟨-, -, heq, -⟩
  · have hlookup := lookup_remove_ne sh.pool hne
    rw [hremove] at hlookup
    rw [heq]
    exact hlookup
  · obtain ⟨hinactive, hactive⟩ := active_of_activate hactivate
    obtain ⟨hid, -, -⟩ := sound.inactive hinactive
    rw [heq, hactive, hid]
    exact AList.lookup_insert_ne hne
  · rw [heq]
  · rw [heq]

theorem active_register (sh : Shared) (y : Admission) :
    (sh.register y).pool.active = sh.pool.active.insert y.sessionId sh.nextRef := by
  simp only [Shared.register, Shared.setSession, SessionPool.add, Function.update_self]
  rfl

theorem lookup_deactivate_ne {pool : SessionPool} {sessions : Sessions} {id' : String}
    (hne : id ≠ id') :
    (pool.deactivate sessions id').1.active.lookup id = pool.active.lookup id := by
  unfold SessionPool.deactivate
  cases hactive : pool.active.lookup id' with
  | some ref => exact AList.lookup_erase_ne hne
  | none => rfl

theorem lookup_of_perform (hperform : sh.perform t c a = some (sh', next))
    (sound : sh.pool.Sound sh.sessions sh.nextRef)
    (henter : ∀ y, a = .enterPool y → sh.rejects y = false → y.sessionId ≠ id)
    (henroll : ∀ y, a = .enroll y none → y.sessionId ≠ id) (hdeactivate : a ≠ .deactivate id) :
    sh'.pool.active.lookup id = sh.pool.active.lookup id := by
  by_cases ha : a.changesPool
  · cases a with
    | enterPool y =>
        obtain ⟨-, ⟨-, rfl, -⟩ | ⟨hreject, rfl, -⟩⟩ := Shared.enterPool_cases hperform
        · rfl
        · exact lookup_choose_ne sound (henter y rfl hreject).symm
    | enroll y target =>
        cases hperform
        cases target with
        | none =>
            have hactive := active_register sh y
            exact (congrArg (AList.lookup id) hactive).trans
              (AList.lookup_insert_ne (henroll y rfl).symm)
        | some ref =>
            exact congrArg (fun pool => pool.active.lookup id) (Shared.frame_adopt _ y _).pool
    | deactivate id' =>
        simp only [Shared.perform] at hperform
        split at hperform
        · cases hperform
          refine lookup_deactivate_ne ?_
          rintro rfl
          exact hdeactivate rfl
        · cases hperform
    | _ => cases ha
  · rw [(Shared.frame_of_perform hperform (by simpa using ha)).pool]

/-! ## The will of a session -/

theorem session_of_takeWill (hperform : sh.perform t c (.takeWill ref) = some (sh', next)) :
    sh'.sessions = Function.update sh.sessions ref (sh.sessions ref).takeWill.2 := by
  simp only [Shared.perform] at hperform
  split at hperform
  · have hfst : _ = sh' := congrArg Prod.fst (Option.some.inj hperform)
    rw [← hfst]
    exact (Shared.frame_initiateWill _ _ _).2
  · cases hperform

theorem session_of_clearWill (hperform : sh.perform t c (.clearWill ref) = some (sh', next)) :
    sh'.sessions = Function.update sh.sessions ref (sh.sessions ref).clearWill := by
  simp only [Shared.perform] at hperform
  split at hperform
  · cases hperform
    rfl
  · cases hperform

theorem will_of_perform_ne (hperform : sh.perform t c a = some (sh', next)) (hlt : ref < sh.nextRef)
    (htake : a ≠ .takeWill ref) (hclear : a ≠ .clearWill ref)
    (henroll : ∀ y, a ≠ .enroll y (some ref)) :
    (sh'.sessions ref).willMessage = (sh.sessions ref).willMessage := by
  by_cases ha : a.changesWill
  · cases a with
    | takeWill ref' =>
        have hne : ref ≠ ref' := by
          rintro rfl
          exact htake rfl
        rw [session_of_takeWill hperform, Function.update_of_ne hne]
    | clearWill ref' =>
        have hne : ref ≠ ref' := by
          rintro rfl
          exact hclear rfl
        rw [session_of_clearWill hperform, Function.update_of_ne hne]
    | enroll y target =>
        cases hperform
        have hne : ref ≠ target.getD sh.nextRef := by
          cases target with
          | none => exact Nat.ne_of_lt hlt
          | some ref' =>
              rintro rfl
              exact henroll y rfl
        exact congrArg Session.willMessage ((Shared.sessions_enroll sh y target).1 ref hne)
    | _ => cases ha
  · exact Shared.will_of_perform hperform (by simpa using ha) ref

/-! ## What is left to do -/

/-- The end of a session stays where the event has put it. -/
theorem mem_rest_of_endsSession (hperform : sh.perform t c a = some (sh', next)) {task : Task}
    (hx : x ∈ (task.after rest next).todo) (hends : x.endsSession = true) : x ∈ rest := by
  rcases mem_todo_after hx with hx | hx
  · have hends' := Action.ends_of_endsSession hends
    rw [Shared.ends_of_perform hperform hx] at hends'
    cases hends'
  · exact hx

/-- An event that ends the session of its connection. -/
theorem ends_of_arises {task : Task} {e : Event} {todo : List Action}
    (harises : Shared.Arises sh task e todo) (hx : x ∈ todo) (hends : x.endsSession = true) :
    e.ends = true ∨ e = .control ∧
      ∃ reason, sh.nextControl task = some (.disconnect reason) ∧ reason ≠ .sessionTakeOver := by
  cases harises with
  | control msg hmsg =>
      right
      cases msg with
      | deliver publish =>
          cases List.mem_singleton.mp hx
          cases hends
      | disconnect reason =>
          refine ⟨rfl, reason, hmsg, ?_⟩
          rintro rfl
          cases hclient : task.clientSession with
          | none =>
              simp only [Shared.handleControl, hclient, List.mem_cons, List.not_mem_nil,
                or_false] at hx
              rcases hx with rfl | rfl <;> cases hends
          | some ref =>
              simp only [Shared.handleControl, hclient, if_true, List.nil_append,
                List.mem_singleton] at hx
              subst hx
              cases hends
  | timeout ref href => exact .inl rfl
  | idle hnone => exact .inl rfl
  | packet p ref todo hconnected href htodo =>
      left
      rcases Shared.handlePacket_cases htodo with hplain | ⟨d, rfl, -, -⟩ | ⟨d, rfl, -, -⟩ |
        ⟨publish, result, -, -, -, rfl⟩
      · have hends' := Action.ends_of_endsSession hends
        rw [(hplain x hx).2.1] at hends'
        cases hends'
      · rfl
      · rfl
      · simp only [List.mem_cons, List.not_mem_nil, or_false] at hx
        rcases hx with rfl | rfl <;> cases hends
  | ignored p hconnected hnone => cases hx
  | preConnect p hconnected =>
      cases p with
      | connect connect =>
          simp only [Shared.handlePreConnect] at hx
          split at hx
          · cases List.mem_singleton.mp hx
            cases hends
          · simp only [List.mem_cons, List.not_mem_nil, or_false] at hx
            rcases hx with rfl | rfl <;> cases hends
      | _ =>
          cases List.mem_singleton.mp hx
          cases hends
  | endOfStream => exact .inl rfl
  | readError => exact .inl rfl

end

end Broker
end Vaux
