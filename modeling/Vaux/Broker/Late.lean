import Vaux.Broker.Invariant

/-!
# Packets after the end of a session

The loop of `handle_client` goes on after a DISCONNECT, a keep-alive expiry and a
Disconnect message, and its variables stay as they are.  A packet that arrives then is
handled as before; what changes nothing is a packet that is only answered.
-/

namespace Vaux
namespace Broker

open Wire Mqtt Machine

/-- The packets for which `handle_packet` does more than write to the stream. -/
def altering : Packet → Bool
  | .subscribe _ | .unsubscribe _ | .publish _ | .pubAck _ | .disconnect _ => true
  | _ => false

/-- The actions on the stream. -/
def Action.answers : Action → Bool
  | .write _ | .shutdown => true
  | _ => false

/-- No packet that the handler acts on arrives after the end of the session: none of the
above on a connection that was accepted, no CONNECT that is let in on another. -/
def Quiet (s : State) : Label → Prop
  | .event n (.packet p) =>
    s.history.closed (.connection n) = true →
      if (s.tasks (.connection n)).connected then altering p = false
      else s.shared.acceptConnections = true → ∀ connect, p ≠ .connect connect
  | _ => True

/-- A packet after the end of the session leaves the broker as it is, but for its own receiver
that a handler drops when it returns, and nothing is routed for it. -/
def Ignored (s : State) : Label → Prop
  | .event n (.packet p) =>
    s.history.closed (.connection n) = true →
      ∀ s', s.step (.event n (.packet p)) = some s' → s'.shared = s.shared
  | .act t c =>
    s.history.late t = true → ∀ s', s.step (.act t c) = some s' →
      (s'.shared = s.shared ∨ s'.shared = s.shared.close (s.tasks t).sessionControl) ∧
        ∀ a rest, (s.tasks t).todo = a :: rest → a.routing = false
  | _ => True

/-- The invariant of quiet runs: a late packet is only answered. -/
structure Answers (s : State) : Prop where
  answers : ∀ t, s.history.late t = true → ∀ x ∈ (s.tasks t).todo, x.answers = true
  delay : ∀ token, s.history.late (.delay token) = false

theorem answers_start (config : Config) : Answers (.start config) :=
  ⟨fun _ _ _ hx => (by cases hx), fun _ => rfl⟩

section

variable {s s' : State} {t : TaskId} {c : Choice} {sh sh' : Shared} {h : History} {a : Action}
  {next : Next} {task : Task} {p : Packet} {todo : List Action} {n : Nat}

theorem late_recordAction : (h.recordAction sh t a).late = h.late := by
  cases a with
  | enterPool y =>
      simp only [History.recordAction]
      split <;> rfl
  | takeWill ref =>
      simp only [History.recordAction]
      split <;> rfl
  | _ => rfl

theorem late_recordNext : (h.recordNext t next).late = h.late := by
  cases next <;> rfl

theorem shared_of_packet (hhandle : sh.handle task (.packet p) = some (sh', todo)) : sh' = sh := by
  simp only [Shared.handle] at hhandle
  split at hhandle
  · split at hhandle
    · obtain ⟨todo, -, heq⟩ := Option.map_eq_some_iff.mp hhandle
      cases heq
      rfl
    · cases hhandle
      rfl
  · cases hhandle
    rfl

theorem perform_of_answers (hperform : sh.perform t c a = some (sh', next)) (ha : a.answers = true) :
    a.routing = false ∧ sh' = sh ∧ next.more = [] := by
  cases a with
  | write | shutdown =>
      cases hperform
      cases c.ok <;> exact ⟨rfl, rfl, rfl⟩
  | _ => cases ha

/-- What is not altering is answered, if anything. -/
theorem answers_of_packet (hhandle : sh.handle task (.packet p) = some (sh', todo))
    (hquiet : if task.connected then altering p = false
      else sh.acceptConnections = true → ∀ connect, p ≠ .connect connect) :
    ∀ x ∈ todo, x.answers = true := by
  simp only [Shared.handle] at hhandle
  split at hhandle
  · rename_i hconnected
    rw [if_pos hconnected] at hquiet
    split at hhandle
    · obtain ⟨todo', htodo, heq⟩ := Option.map_eq_some_iff.mp hhandle
      cases heq
      cases p with
      | subscribe | unsubscribe | publish | pubAck | disconnect => cases hquiet
      | _ =>
          cases htodo
          simp [Action.answers]
    · cases hhandle
      simp
  · rename_i hconnected
    rw [if_neg hconnected] at hquiet
    cases hhandle
    cases p with
    | connect connect =>
        have haccept : ¬ sh.acceptConnections = true := fun haccept => hquiet haccept connect rfl
        simp [Shared.handlePreConnect, haccept, Action.answers]
    | _ => simp [Shared.handlePreConnect, Action.answers]

theorem Answers.event (hanswers : Answers s) {e : Event} (hquiet : Quiet s (.event n e))
    (hstep : s.event (.connection n) e = some s') : Answers s' ∧ Ignored s (.event n e) := by
  obtain ⟨hnil, -, sh, todo, hhandle, rfl⟩ := event_cases hstep
  refine ⟨⟨?_, fun token => ?_⟩, ?_⟩
  · intro t hlate x hx
    by_cases ht : t = .connection n
    · subst ht
      simp only [Function.update_self] at hx
      have hlate' : (e.isPacket && s.history.closed (.connection n)) = true := by
        simpa [History.recordEvent] using hlate
      rw [Bool.and_eq_true] at hlate'
      cases e with
      | packet p => exact answers_of_packet hhandle (hquiet hlate'.2) x hx
      | _ => cases hlate'.1
    · simp only [Function.update_of_ne ht] at hx
      refine hanswers.answers t ?_ x hx
      simpa [History.recordEvent, ht] using hlate
  · simpa [History.recordEvent] using hanswers.delay token
  · cases e with
    | packet p =>
        intro _ s' hstep'
        cases hstep.symm.trans hstep'
        exact shared_of_packet hhandle
    | _ => trivial

theorem Answers.act (hanswers : Answers s) (hstep : s.act t c = some s') :
    Answers s' ∧ Ignored s (.act t c) := by
  obtain ⟨a, rest, sh, next, htodo, hperform, rfl⟩ := act_cases hstep
  have hmem : a ∈ (s.tasks t).todo := htodo ▸ List.mem_cons_self
  have hlate_eq : ((s.history.recordAction s.shared t a).recordNext t next).late = s.history.late := by
    rw [late_recordNext, late_recordAction]
  refine ⟨⟨?_, fun token => ?_⟩, fun hlate s' hstep' => ?_⟩
  · intro t' hlate x hx
    rw [hlate_eq] at hlate
    by_cases ht : t' = t
    · subst ht
      simp only [Function.update_self] at hx
      obtain ⟨-, -, hmore⟩ := perform_of_answers hperform (hanswers.answers t' hlate a hmem)
      rcases mem_todo_after hx with hx | hx
      · rw [hmore] at hx
        cases hx
      · exact hanswers.answers t' hlate x (htodo ▸ List.mem_cons_of_mem _ hx)
    · simp only [Function.update_of_ne ht] at hx
      exact hanswers.answers t' hlate x hx
  · rw [hlate_eq]
    exact hanswers.delay token
  · cases hstep.symm.trans hstep'
    obtain ⟨hrouting, rfl, -⟩ := perform_of_answers hperform (hanswers.answers t hlate a hmem)
    refine ⟨?_, fun a' rest' htodo' => ?_⟩
    · cases next with
      | returned result => exact .inr rfl
      | _ => exact .inl rfl
    · cases htodo.symm.trans htodo'
      exact hrouting

theorem Answers.fire (hanswers : Answers s) {token : Token} (hstep : s.fire token = some s') :
    Answers s' := by
  rw [fire_cases hstep]
  refine ⟨fun t hlate x hx => ?_, hanswers.delay⟩
  have ht : t ≠ .delay token := by
    rintro rfl
    rw [hanswers.delay token] at hlate
    cases hlate
  simp only [Function.update_of_ne ht] at hx
  exact hanswers.answers t hlate x hx

theorem Answers.step (hanswers : Answers s) {l : Label} (hquiet : Quiet s l)
    (hstep : s.step l = some s') : Answers s' ∧ Ignored s l := by
  cases l with
  | event n e => exact hanswers.event hquiet hstep
  | act t c => exact hanswers.act hstep
  | fire token => exact ⟨hanswers.fire hstep, trivial⟩
  | setAccepting accept =>
      cases hstep
      exact ⟨⟨hanswers.answers, hanswers.delay⟩, trivial⟩
  | setSessionExpiry secs =>
      simp only [State.step] at hstep
      split at hstep
      · cases hstep
        exact ⟨⟨hanswers.answers, hanswers.delay⟩, trivial⟩
      · cases hstep

end

/-- In a quiet run every packet after the end of a session is ignored. -/
theorem ignored_of_quiet {config : Config} {ls : List Label}
    (hquiet : Along State.step Quiet (.start config) ls) :
    Along State.step Ignored (.start config) ls :=
  along_of_invariant (fun _ _ _ hanswers hquiet hstep => hanswers.step hquiet hstep)
    (answers_start config) hquiet

/-- A keep-alive expiry on connection 0, and then a PINGREQ. -/
def pingLabels : List Label :=
  .event 0 (.packet (.connect (.new "x"))) ::
    (List.replicate 7 (.act (.connection 0) {}) ++
      .event 0 .keepAliveExpired :: List.replicate 2 (.act (.connection 0) {}) ++
      packetLabels 0 (.pingRequest .default) 1)

theorem ignored_of_quiet_ping : ∃ s,
    run State.step (.start defaultConfig) pingLabels = some s ∧
    s.history.late (.connection 0) = true ∧
    Along State.step Ignored (.start defaultConfig) pingLabels := by
  have hfacts : (run State.step (.start defaultConfig) pingLabels).map
      (fun s => s.history.late (.connection 0)) = some true := by
    decide +kernel
  obtain ⟨s, hrun, hlate⟩ := Option.map_eq_some_iff.mp hfacts
  refine ⟨s, hrun, hlate, ignored_of_quiet fun s₁ _ => ⟨fun hclosed => (by cases hclosed), ?_⟩⟩
  refine along_of_invariant
    (P := fun _ l => (∃ c, l = .act (.connection 0) c) ∨ l = .event 0 .keepAliveExpired ∨
      l = .event 0 (.packet (.pingRequest .default)))
    (I := fun _ => True) (fun s l s' _ hl _ => ⟨trivial, ?_⟩) trivial (along_of_forall fun l hl => ?_)
  · rcases hl with ⟨c, rfl⟩ | rfl | rfl
    · trivial
    · trivial
    · intro _
      split
      · rfl
      · exact fun _ _ h => by cases h
  · simp only [packetLabels, List.mem_append, List.mem_cons, List.mem_replicate] at hl
    rcases hl with (⟨-, rfl⟩ | rfl | ⟨-, rfl⟩) | rfl | ⟨-, rfl⟩
    · exact .inl ⟨_, rfl⟩
    · exact .inr (.inl rfl)
    · exact .inl ⟨_, rfl⟩
    · exact .inr (.inr rfl)
    · exact .inl ⟨_, rfl⟩

/-! ## A late SUBSCRIBE -/

/-- A DISCONNECT on connection 0, and then a SUBSCRIBE. -/
def lateLabels : List Label :=
  connectLabels 0 (.new "x") 7 ++ packetLabels 0 (.disconnect (.new .success)) 2 ++
    packetLabels 0 (.subscribe { Subscribe.default with filter := [.new "a" .atMostOnce] }) 0

/-- The SUBSCRIBE is carried out. -/
theorem not_ignored_of_late : ¬ Along State.step Ignored (.start defaultConfig)
    (lateLabels ++ [.act (.connection 0) {}]) := by
  have hfacts : (run State.step (.start defaultConfig) lateLabels).map (fun s =>
      (s.history.late (.connection 0), (s.shared.tree.matchingSubscribers "a").map List.length,
        (s.act (.connection 0) {}).map fun s' =>
          (s'.shared.tree.matchingSubscribers "a").map List.length)) =
      some (true, some 0, some (some 1)) := by
    decide +kernel
  obtain ⟨s, hrun, hs⟩ := Option.map_eq_some_iff.mp hfacts
  simp only [Prod.mk.injEq] at hs
  obtain ⟨hlate, hbefore, hafter⟩ := hs
  obtain ⟨s', hstep, hafter⟩ := Option.map_eq_some_iff.mp hafter
  intro halong
  obtain ⟨hignored, -⟩ := ((along_append hrun).mp halong).2 s' hstep
  obtain ⟨hshared, -⟩ := hignored hlate s' hstep
  have htree : s'.shared.tree = s.shared.tree := by
    rcases hshared with heq | heq
    · rw [heq]
    · rw [heq]
      cases (s.tasks (.connection 0)).sessionControl <;> rfl
  rw [htree, hbefore] at hafter
  cases hafter

end Broker
end Vaux
