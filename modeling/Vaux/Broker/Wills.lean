import Vaux.Broker.Locks
import Vaux.Broker.Ownership

/-!
# Where a will is

The will of an accepted CONNECT is in its session until a handler takes it.  The handler
routes it at once, or leaves it to a delay task that routes it when its timer runs out.
The machine of this module is the broker with a history of the wills, each of which goes
by the connection that supplied it.
-/

namespace Vaux
namespace Broker

open Wire Mqtt Machine

structure Wills where
  state : State
  /-- The connection whose will a delay task has. -/
  scheduled : Token → Option TaskId
  /-- The client id of the session that it was taken from. -/
  client : Token → Option String
  /-- The connection whose will the task is about to route. -/
  carried : TaskId → Option TaskId
  /-- How often the will of a connection has been routed. -/
  routed : TaskId → Nat
  /-- The connection has sent a DISCONNECT with reason Success before its will was routed. -/
  forsworn : TaskId → Bool
  /-- A CONNECT without clean start for the client id was accepted before the timer ran out. -/
  resumed : Token → Bool

namespace Wills

def start (config : Config) : Wills where
  state := .start config
  scheduled := fun _ => none
  client := fun _ => none
  carried := fun _ => none
  routed := fun _ => 0
  forsworn := fun _ => false
  resumed := fun _ => false

/-- A will that the task `t` takes from a session. -/
def recordTaken (w : Wills) (t : TaskId) (ref : Ref) : Wills :=
  match (w.state.shared.sessions ref).willMessage with
  | none => w
  | some will =>
    if will.header.willDelay.getD 0 = 0 then
      { w with carried := Function.update w.carried t (w.state.history.supplier ref) }
    else
      { w with
        scheduled := Function.update w.scheduled w.state.shared.nextToken
          (w.state.history.supplier ref)
        client := Function.update w.client w.state.shared.nextToken
          (some (w.state.shared.sessions ref).id) }

/-- A publish that the task `t` routes. -/
def recordRouted (w : Wills) (t : TaskId) : Wills :=
  match w.carried t with
  | none => w
  | some u =>
    { w with
      carried := Function.update w.carried t none
      routed := Function.update w.routed u (w.routed u + 1) }

/-- A CONNECT that is accepted. -/
def recordAccepted (w : Wills) (a : Admission) : Wills :=
  if a.connect.cleanStart then w
  else
    { w with
      resumed := fun token =>
        w.resumed token ||
          ((w.state.shared.delays token).waiting && w.client token = some a.sessionId) }

def record (w : Wills) : Label → Wills
  | .act t _ =>
    match (w.state.tasks t).todo with
    | .takeWill ref :: _ => w.recordTaken t ref
    | .route .. :: _ => w.recordRouted t
    | .enroll a _ :: _ => w.recordAccepted a
    | _ => w
  | .fire token =>
    { w with carried := Function.update w.carried (.delay token) (w.scheduled token) }
  | .event n e =>
    if e.isSuccess && (w.state.tasks (.connection n)).connected && w.routed (.connection n) = 0 then
      { w with forsworn := Function.update w.forsworn (.connection n) true }
    else w
  | _ => w

def step (w : Wills) (l : Label) : Option Wills :=
  (w.state.step l).map fun state => { w.record l with state }

end Wills

/-! ## Places -/

/-- Where a will is that has been taken. -/
inductive Place where
  | timer (token : Token)
  | task (t : TaskId)
  | subscribers

/-- The will of the connection `u` is there. -/
def Wills.At (w : Wills) (u : TaskId) : Place → Prop
  | .timer token => w.scheduled token = some u ∧ (w.state.shared.delays token).waiting = true
  | .task t => w.carried t = some u
  | .subscribers => 0 < w.routed u

/-- A will is at one place, or in the session that its connection was accepted with. -/
structure Wills.Inv (w : Wills) : Prop where
  supplied : ∀ ref u, w.state.history.supplier ref = some u →
    ∃ A, w.state.history.accepted u = some A ∧ A.session = ref
  placed : ∀ u p, w.At u p → w.state.history.accepted u ≠ none
  held : ∀ ref u, w.state.history.supplier ref = some u →
    (w.state.shared.sessions ref).willMessage ≠ none → ∀ p, ¬ w.At u p
  unique : ∀ u p p', w.At u p → w.At u p' → p = p'
  once : ∀ u, w.routed u ≤ 1
  known : ∀ token, w.scheduled token ≠ none → token < w.state.shared.nextToken
  head : ∀ t, w.carried t ≠ none →
    ∃ publish sender rest, (w.state.tasks t).todo = .route publish sender :: rest

theorem Wills.not_at_start (config : Config) (u : TaskId) (p : Place) :
    ¬ (Wills.start config).At u p := by
  intro h
  cases p with
  | timer token => cases h.1
  | task t => cases h
  | subscribers => exact absurd h (Nat.lt_irrefl 0)

theorem Wills.inv_start (config : Config) : (Wills.start config).Inv := by
  have hnot := Wills.not_at_start config
  refine ⟨fun ref u h => ?_, fun u p h => absurd h (hnot u p), fun _ _ _ _ p => hnot _ p,
    fun u p _ h => absurd h (hnot u p), fun _ => Nat.zero_le _, fun token h => absurd rfl h,
    fun t h => absurd rfl h⟩
  cases h

/-! ## Steps that leave the wills where they are -/

section

variable {w w' : Wills} {t : TaskId} {c : Choice} {l : Label}

/-- No session gets a will. -/
structure Wills.Same (w w' : Wills) : Prop where
  supplier : w'.state.history.supplier = w.state.history.supplier
  accepted : w'.state.history.accepted = w.state.history.accepted
  will : ∀ ref, (w'.state.shared.sessions ref).willMessage ≠ none →
    (w.state.shared.sessions ref).willMessage ≠ none

/-- What the invariant says of timers and tasks. -/
structure Wills.Runs (w : Wills) : Prop where
  once : ∀ u, w.routed u ≤ 1
  known : ∀ token, w.scheduled token ≠ none → token < w.state.shared.nextToken
  head : ∀ t, w.carried t ≠ none →
    ∃ publish sender rest, (w.state.tasks t).todo = .route publish sender :: rest

theorem Wills.Inv.stay (inv : w.Inv) (hsame : w.Same w') (hruns : w'.Runs)
    (hat : ∀ u p, w'.At u p → w.At u p) : w'.Inv where
  supplied := by
    rw [hsame.supplier, hsame.accepted]
    exact inv.supplied
  placed u p h := by
    rw [hsame.accepted]
    exact inv.placed u p (hat u p h)
  held ref u href hwill p h := by
    rw [hsame.supplier] at href
    exact inv.held ref u href (hsame.will ref hwill) p (hat u p h)
  unique u p p' h h' := inv.unique u p p' (hat u p h) (hat u p' h')
  once := hruns.once
  known := hruns.known
  head := hruns.head

/-- The will of `u` moves to `p₀`. -/
theorem Wills.Inv.move (inv : w.Inv) (p₀ : Place) (hsame : w.Same w') (hruns : w'.Runs) {u : TaskId}
    (haccepted : w.state.history.accepted u ≠ none)
    (hgone : ∀ ref, w.state.history.supplier ref = some u →
      (w'.state.shared.sessions ref).willMessage = none)
    (hat : ∀ u' p, w'.At u' p → u' = u ∧ p = p₀ ∨ u' ≠ u ∧ w.At u' p) : w'.Inv where
  supplied := by
    rw [hsame.supplier, hsame.accepted]
    exact inv.supplied
  placed u' p h := by
    rw [hsame.accepted]
    rcases hat u' p h with ⟨rfl, -⟩ | ⟨-, h⟩
    · exact haccepted
    · exact inv.placed u' p h
  held ref u' href hwill p h := by
    rw [hsame.supplier] at href
    rcases hat u' p h with ⟨rfl, -⟩ | ⟨-, h⟩
    · exact hwill (hgone ref href)
    · exact inv.held ref u' href (hsame.will ref hwill) p h
  unique u' p p' h h' := by
    rcases hat u' p h with ⟨rfl, rfl⟩ | ⟨hne, h⟩
    · rcases hat u' p' h' with ⟨-, rfl⟩ | ⟨hne, -⟩
      · rfl
      · exact absurd rfl hne
    · rcases hat u' p' h' with ⟨rfl, -⟩ | ⟨-, h'⟩
      · exact absurd rfl hne
      · exact inv.unique u' p p' h h'
  once := hruns.once
  known := hruns.known
  head := hruns.head

theorem Wills.step_eq_some :
    w.step l = some w' ↔ ∃ state, w.state.step l = some state ∧ w' = { w.record l with state } := by
  rw [Wills.step, Option.map_eq_some_iff]
  exact exists_congr fun state => and_congr_right fun _ => eq_comm

theorem Wills.state_of_step (hstep : w.step l = some w') : w.state.step l = some w'.state := by
  obtain ⟨state, hstate, rfl⟩ := Wills.step_eq_some.mp hstep
  exact hstate

/-- A task that is not routing has no will to route. -/
theorem Wills.Inv.carried_eq_none (inv : w.Inv)
    (h : ∀ publish sender rest, (w.state.tasks t).todo ≠ .route publish sender :: rest) :
    w.carried t = none := by
  by_contra hsome
  obtain ⟨publish, sender, rest, htodo⟩ := inv.head t hsome
  exact h publish sender rest htodo

/-- What an event leaves as it is. -/
theorem Wills.event_same {n : Nat} {e : Event} {s' : State} {todo : List Action}
    (h : Handled w.state (.connection n) e s' todo) :
    s'.shared.sessions = w.state.shared.sessions ∧ s'.shared.delays = w.state.shared.delays ∧
      s'.shared.nextToken = w.state.shared.nextToken ∧
      (w.record (.event n e)).scheduled = w.scheduled ∧
      (w.record (.event n e)).carried = w.carried ∧ (w.record (.event n e)).routed = w.routed ∧
      (w.record (.event n e)).client = w.client ∧ (w.record (.event n e)).resumed = w.resumed := by
  have hshared : s'.shared.sessions = w.state.shared.sessions ∧
      s'.shared.delays = w.state.shared.delays ∧ s'.shared.nextToken = w.state.shared.nextToken := by
    rcases Shared.handle_shared h.handle with heq | ⟨ch, msg, queue, -, -, -, heq⟩
    · rw [heq]
      exact ⟨rfl, rfl, rfl⟩
    · rw [heq]
      exact ⟨rfl, rfl, rfl⟩
  obtain ⟨hsessions, hdelays, hnext⟩ := hshared
  refine ⟨hsessions, hdelays, hnext, ?_⟩
  simp only [record]
  split <;> exact ⟨rfl, rfl, rfl, rfl, rfl⟩

theorem Wills.at_of_event {n : Nat} {e : Event} {s' : State} {todo : List Action}
    (h : Handled w.state (.connection n) e s' todo) {u : TaskId} {p : Place}
    (hp : Wills.At { w.record (.event n e) with state := s' } u p) : w.At u p := by
  obtain ⟨-, hdelays, -, hscheduled, hcarried, hrouted, -, -⟩ := Wills.event_same h
  cases p with
  | timer token => simpa only [At, hscheduled, hdelays] using hp
  | task t => simpa only [At, hcarried] using hp
  | subscribers => simpa only [At, hrouted] using hp

theorem Wills.Inv.event (inv : w.Inv) {n : Nat} {e : Event} {s' : State} {todo : List Action}
    (h : Handled w.state (.connection n) e s' todo) :
    Wills.Inv { w.record (.event n e) with state := s' } := by
  obtain ⟨hsessions, -, hnext, hscheduled, hcarried, hrouted, -, -⟩ := Wills.event_same h
  refine inv.stay ⟨?_, ?_, ?_⟩ ⟨?_, ?_, fun t ht => ?_⟩ fun u p hp => Wills.at_of_event h hp
  · rw [h.history]
    rfl
  · rw [h.history]
    rfl
  · rw [hsessions]
    exact fun _ => id
  · rw [hrouted]
    exact inv.once
  · rw [hscheduled, hnext]
    exact inv.known
  · rw [hcarried] at ht
    obtain ⟨publish, sender, rest, htodo⟩ := inv.head t ht
    have hne : t ≠ .connection n := by
      rintro rfl
      rw [h.ready] at htodo
      cases htodo
    exact ⟨publish, sender, rest, by rw [h.others t hne]; exact htodo⟩

variable {s' : State} {a : Action} {rest : List Action} {sh : Shared} {next : Next}

/-- The sessions and the history behind an action that accepts no connection. -/
theorem Wills.same_of_acted (h : Acted w.state t c s' a rest sh next)
    (ha : ∀ x target, a ≠ .enroll x target) (hw' : w'.state = s') : w.Same w' := by
  subst hw'
  refine ⟨?_, ?_, fun ref hwill => ?_⟩
  · rw [h.history, supplier_recordNext]
    funext ref
    exact supplier_recordAction fun x target heq => absurd heq (ha x target)
  · rw [h.history, accepted_recordNext, accepted_recordAction ha]
  · rw [h.shared, Shared.sessions_afterNext] at hwill
    by_cases hchanges : a.changesWill = true
    · cases a with
      | takeWill ref' =>
          rw [session_of_takeWill h.perform] at hwill
          by_cases hne : ref = ref'
          · subst hne
            rw [Function.update_self] at hwill
            exact absurd rfl hwill
          · rwa [Function.update_of_ne hne] at hwill
      | clearWill ref' =>
          rw [session_of_clearWill h.perform] at hwill
          by_cases hne : ref = ref'
          · subst hne
            rw [Function.update_self] at hwill
            exact absurd rfl hwill
          · rwa [Function.update_of_ne hne] at hwill
      | enroll x target => exact absurd rfl (ha x target)
      | _ => cases hchanges
    · rwa [Shared.will_of_perform h.perform (Bool.eq_false_iff.mpr hchanges)] at hwill

/-- The timers behind an action. -/
theorem Wills.timers_of_acted (h : Acted w.state t c s' a rest sh next) :
    w.state.shared.nextToken ≤ s'.shared.nextToken ∧
      ∀ token < w.state.shared.nextToken,
        (s'.shared.delays token).waiting = (w.state.shared.delays token).waiting := by
  obtain ⟨-, -, hdelays, hnext, -⟩ := Shared.afterNext_same sh (w.state.tasks t) next
  rw [← h.shared] at hdelays hnext
  obtain ⟨hle, -, hwaiting⟩ := Shared.waiting_of_performed h.performed
  rw [hnext, hdelays]
  exact ⟨hle, fun token htoken => hwaiting token (.inl (Nat.ne_of_lt htoken))⟩

/-- The tasks other than the one that acts are still about to route. -/
theorem Wills.Inv.head_of_acted (inv : w.Inv) (h : Acted w.state t c s' a rest sh next)
    (hroute : w.carried t = none) (t' : TaskId) (ht' : w.carried t' ≠ none) :
    ∃ publish sender rest, (s'.tasks t').todo = .route publish sender :: rest := by
  obtain ⟨publish, sender, rest', htodo⟩ := inv.head t' ht'
  have hne : t' ≠ t := by
    rintro rfl
    exact ht' hroute
  exact ⟨publish, sender, rest', by rw [h.others t' hne]; exact htodo⟩

/-- What an action does not move stays where it was. -/
theorem Wills.Inv.at_of_acted (inv : w.Inv) {u : TaskId} {p : Place} (hp : w'.At u p)
    (h : Acted w.state t c s' a rest sh next) (hstate : w'.state = s')
    (hscheduled : ∀ token, w'.scheduled token = some u → w.scheduled token = some u)
    (hcarried : ∀ t', w'.carried t' = some u → w.carried t' = some u)
    (hrouted : 0 < w'.routed u → 0 < w.routed u) : w.At u p := by
  obtain ⟨-, hwaiting⟩ := Wills.timers_of_acted h
  cases p with
  | timer token =>
      obtain ⟨hu, hwait⟩ := hp
      have hu' := hscheduled token hu
      rw [hstate, hwaiting token (inv.known token (by rw [hu']; exact Option.some_ne_none _))] at hwait
      exact ⟨hu', hwait⟩
  | task t' => exact hcarried t' hp
  | subscribers => exact hrouted hp

/-- An action that moves no will and accepts no connection. -/
theorem Wills.Inv.act_plain (inv : w.Inv) (h : Acted w.state t c s' a rest sh next)
    (henroll : ∀ x target, a ≠ .enroll x target) (hroute : w.carried t = none)
    (hstate : w'.state = s') (hscheduled : w'.scheduled = w.scheduled)
    (hcarried : w'.carried = w.carried) (hrouted : w'.routed = w.routed) : w'.Inv := by
  obtain ⟨hnext, -⟩ := Wills.timers_of_acted h
  refine inv.stay (Wills.same_of_acted h henroll hstate)
    ⟨hrouted ▸ inv.once, fun token htoken => ?_, fun t' ht' => ?_⟩ fun u p hp => ?_
  · rw [hscheduled] at htoken
    rw [hstate]
    exact Nat.lt_of_lt_of_le (inv.known token htoken) hnext
  · rw [hcarried] at ht'
    rw [hstate]
    exact inv.head_of_acted h hroute t' ht'
  · exact inv.at_of_acted hp h hstate (fun _ => hscheduled ▸ id) (fun _ => hcarried ▸ id)
      (hrouted ▸ id)

/-! ## Steps that move a will -/

/-- Two sessions of one supplier are the same. -/
theorem Wills.Inv.supplier_inj (inv : w.Inv) {ref ref' : Ref} {u : TaskId}
    (h : w.state.history.supplier ref = some u) (h' : w.state.history.supplier ref' = some u) :
    ref = ref' := by
  obtain ⟨A, hA, rfl⟩ := inv.supplied ref u h
  obtain ⟨B, hB, rfl⟩ := inv.supplied ref' u h'
  rw [hA] at hB
  cases hB
  rfl

/-- A will that is taken leaves its session without one. -/
theorem Wills.Inv.gone_of_taken (inv : w.Inv) {ref : Ref} {u : TaskId}
    (h : Acted w.state t c s' (.takeWill ref) rest sh next)
    (hu : w.state.history.supplier ref = some u) (ref' : Ref)
    (href' : w.state.history.supplier ref' = some u) :
    (s'.shared.sessions ref').willMessage = none := by
  cases inv.supplier_inj hu href'
  rw [h.shared, Shared.sessions_afterNext, session_of_takeWill h.perform, Function.update_self]
  rfl

section

variable {ref : Ref} {will : WillMessage} {u : TaskId}

/-- The handler that has taken a will goes on to route it. -/
theorem Wills.Inv.act_routes (inv : w.Inv) (h : Acted w.state t c s' (.takeWill ref) rest sh next)
    (hcarried : w.carried t = none) (hwill : (w.state.shared.sessions ref).willMessage = some will)
    (hdelay : will.header.willDelay.getD 0 = 0) (hu : w.state.history.supplier ref = some u) :
    Wills.Inv { w with carried := Function.update w.carried t (some u), state := s' } := by
  obtain ⟨A, hA, -⟩ := inv.supplied ref u hu
  obtain ⟨hnext, hwaiting⟩ := Wills.timers_of_acted h
  have hheld := inv.held ref u hu (by rw [hwill]; exact Option.some_ne_none _)
  have hroutes : next = .go [.route (Shared.willPublish will) ""] := by
    cases h.performed with
    | noWill _ _ hnone => cases hnone.symm.trans hwill
    | publishWill _ will' _ hwill' _ =>
        cases hwill'.symm.trans hwill
        rfl
    | delayWill _ will' _ hwill' hdelay' =>
        cases hwill'.symm.trans hwill
        exact absurd hdelay hdelay'
  refine inv.move (.task t) (Wills.same_of_acted h (fun _ _ heq => by cases heq) rfl)
    ⟨inv.once, fun token htoken => ?_, fun t' ht' => ?_⟩ (by rw [hA]; exact Option.some_ne_none A)
    (inv.gone_of_taken h hu) fun u' p hp => ?_
  · exact Nat.lt_of_lt_of_le (inv.known token htoken) hnext
  · by_cases hne : t' = t
    · subst hne
      exact ⟨Shared.willPublish will, "", rest, by rw [h.self, hroutes]; rfl⟩
    · exact inv.head_of_acted h hcarried t' (by simpa [Function.update_of_ne hne] using ht')
  · -- only the new place is new, and the will was at none before
    have hold : w.At u' p → u' = u ∧ p = .task t ∨ u' ≠ u ∧ w.At u' p := by
      exact fun hat => .inr ⟨fun heq => hheld p (heq ▸ hat), hat⟩
    cases p with
    | timer token =>
        have htoken := inv.known token (by rw [show w.scheduled token = _ from hp.1]; exact Option.some_ne_none _)
        exact hold ⟨hp.1, (hwaiting token htoken).symm.trans hp.2⟩
    | task t' =>
        by_cases hne : t' = t
        · subst hne
          have hu' : u = u' := by simpa [At] using hp
          exact .inl ⟨hu'.symm, rfl⟩
        · exact hold ((Function.update_of_ne hne _ _).symm.trans hp)
    | subscribers => exact hold hp

theorem Wills.nextToken_of_delayed (h : Acted w.state t c s' (.takeWill ref) rest sh next)
    (hwill : (w.state.shared.sessions ref).willMessage = some will)
    (hdelay : will.header.willDelay.getD 0 ≠ 0) :
    s'.shared.nextToken = w.state.shared.nextToken + 1 := by
  obtain ⟨-, -, -, hnext, -⟩ := Shared.afterNext_same sh (w.state.tasks t) next
  rw [h.shared, hnext]
  cases h.performed with
  | noWill _ _ hnone => cases hnone.symm.trans hwill
  | publishWill _ will' _ hwill' hdelay' =>
      cases hwill'.symm.trans hwill
      exact absurd hdelay' hdelay
  | delayWill _ will' _ _ _ => rfl

/-- The will is left to a delay task. -/
theorem Wills.Inv.act_delays (inv : w.Inv) (h : Acted w.state t c s' (.takeWill ref) rest sh next)
    (hcarried : w.carried t = none) (hwill : (w.state.shared.sessions ref).willMessage = some will)
    (hdelay : will.header.willDelay.getD 0 ≠ 0) (hu : w.state.history.supplier ref = some u)
    (client : Token → Option String) :
    Wills.Inv
      { w with
        scheduled := Function.update w.scheduled w.state.shared.nextToken (some u)
        client
        state := s' } := by
  obtain ⟨A, hA, -⟩ := inv.supplied ref u hu
  obtain ⟨hnext, hwaiting⟩ := Wills.timers_of_acted h
  have hheld := inv.held ref u hu (by rw [hwill]; exact Option.some_ne_none _)
  have hnextToken := Wills.nextToken_of_delayed h hwill hdelay
  refine inv.move (.timer w.state.shared.nextToken)
    (Wills.same_of_acted h (fun _ _ heq => by cases heq) rfl)
    ⟨inv.once, fun token htoken => ?_, inv.head_of_acted h hcarried⟩
    (by rw [hA]; exact Option.some_ne_none A) (inv.gone_of_taken h hu) fun u' p hp => ?_
  · by_cases hne : token = w.state.shared.nextToken
    · rw [hne, hnextToken]
      exact Nat.lt_succ_self _
    · exact Nat.lt_of_lt_of_le
        (inv.known token (by simpa [Function.update_of_ne hne] using htoken)) hnext
  · have hold : w.At u' p → u' = u ∧ p = .timer w.state.shared.nextToken ∨ u' ≠ u ∧ w.At u' p := by
      exact fun hat => .inr ⟨fun heq => hheld p (heq ▸ hat), hat⟩
    cases p with
    | timer token =>
        obtain ⟨hscheduled, hwait⟩ := hp
        by_cases hne : token = w.state.shared.nextToken
        · subst hne
          have hu' : u = u' := by simpa using hscheduled
          exact .inl ⟨hu'.symm, rfl⟩
        · have hscheduled' : w.scheduled token = some u' :=
            (Function.update_of_ne hne _ _).symm.trans hscheduled
          have htoken := inv.known token (by rw [hscheduled']; exact Option.some_ne_none _)
          exact hold ⟨hscheduled', (hwaiting token htoken).symm.trans hwait⟩
    | task t' => exact hold hp
    | subscribers => exact hold hp

theorem Wills.Inv.act_taken (inv : w.Inv)
    (h : Acted w.state t c s' (.takeWill ref) rest sh next) :
    Wills.Inv { w.recordTaken t ref with state := s' } := by
  have hcarried : w.carried t = none := by
    refine inv.carried_eq_none fun publish sender rest htodo => ?_
    rw [h.todo] at htodo
    cases htodo
  have henroll : ∀ x target, Action.takeWill ref ≠ .enroll x target := fun _ _ heq => by cases heq
  unfold recordTaken
  cases hwill : (w.state.shared.sessions ref).willMessage with
  | none => exact inv.act_plain h henroll hcarried rfl rfl rfl rfl
  | some will =>
      by_cases hdelay : will.header.willDelay.getD 0 = 0
      · simp only [if_pos hdelay]
        cases hu : w.state.history.supplier ref with
        | none =>
            refine inv.act_plain h henroll hcarried rfl rfl ?_ rfl
            exact Function.update_eq_self_iff.mpr hcarried.symm
        | some u => exact inv.act_routes h hcarried hwill hdelay hu
      · simp only [if_neg hdelay]
        cases hu : w.state.history.supplier ref with
        | none =>
            refine inv.act_plain h henroll hcarried rfl ?_ rfl rfl
            refine Function.update_eq_self_iff.mpr ?_
            by_contra hsome
            exact absurd (inv.known _ (Ne.symm hsome)) (Nat.lt_irrefl _)
        | some u => exact inv.act_delays h hcarried hwill hdelay hu _

/-- The will that a task carries reaches the subscribers. -/
theorem Wills.Inv.act_routed (inv : w.Inv) {publish : Publish} {sender : String}
    (h : Acted w.state t c s' (.route publish sender) rest sh next) :
    Wills.Inv { w.recordRouted t with state := s' } := by
  have henroll : ∀ x target, Action.route publish sender ≠ .enroll x target :=
    fun _ _ heq => by cases heq
  unfold recordRouted
  cases hu : w.carried t with
  | none => exact inv.act_plain h henroll hu rfl rfl rfl rfl
  | some u =>
      obtain ⟨hnext, hwaiting⟩ := Wills.timers_of_acted h
      have hat : w.At u (.task t) := hu
      have hnone : ¬ 0 < w.routed u := by
        intro hpos
        cases inv.unique u (.task t) .subscribers hat hpos
      have hsame : w.Same { w with state := s' } := Wills.same_of_acted h henroll rfl
      refine inv.move .subscribers ⟨hsame.supplier, hsame.accepted, hsame.will⟩
        ⟨fun u' => ?_, fun token htoken => ?_, fun t' ht' => ?_⟩ (inv.placed u _ hat)
        (fun ref href => ?_) fun u' p hp => ?_
      · by_cases hne : u' = u
        · subst hne
          simp only [Function.update_self]
          omega
        · simp only [Function.update_of_ne hne]
          exact inv.once u'
      · exact Nat.lt_of_lt_of_le (inv.known token htoken) hnext
      · have hne : t' ≠ t := by
          rintro rfl
          simp at ht'
        obtain ⟨publish', sender', rest', htodo⟩ :=
          inv.head t' (by simpa [Function.update_of_ne hne] using ht')
        exact ⟨publish', sender', rest', by rw [h.others t' hne]; exact htodo⟩
      · by_contra hwill
        exact inv.held ref u href (hsame.will ref hwill) _ hat
      · have hold : ∀ p, w.At u' p → p ≠ .task t → u' ≠ u ∧ w.At u' p := by
          refine fun p hat' hne => ⟨fun heq => hne ?_, hat'⟩
          exact inv.unique u p (.task t) (heq ▸ hat') hat
        cases p with
        | timer token =>
            have htoken := inv.known token (by rw [show w.scheduled token = _ from hp.1]; exact Option.some_ne_none _)
            exact .inr (hold _ ⟨hp.1, (hwaiting token htoken).symm.trans hp.2⟩ (by simp))
        | task t' =>
            have hne : t' ≠ t := by
              rintro rfl
              simp [At] at hp
            exact .inr (hold _ (by simpa [At, Function.update_of_ne hne] using hp) (by simpa using hne))
        | subscribers =>
            by_cases hne : u' = u
            · exact .inl ⟨hne, rfl⟩
            · exact .inr ⟨hne, by simpa [At, Function.update_of_ne hne] using hp⟩

/-- A connection that is accepted supplies the will of its session. -/
theorem Wills.Inv.act_enroll (inv : w.Inv) (binv : Broker.Inv w.state) {x : Admission}
    {target : Option Ref} (h : Acted w.state t c s' (.enroll x target) rest sh next)
    (hstate : w'.state = s') (hscheduled : w'.scheduled = w.scheduled)
    (hcarried : w'.carried = w.carried) (hrouted : w'.routed = w.routed) : w'.Inv := by
  subst hstate
  have hnone : w.state.history.accepted t = none :=
    ((binv.task t).connecting _ (h.todo ▸ List.mem_cons_self) rfl).2.1
  obtain ⟨hnext, -⟩ := Wills.timers_of_acted h
  have hroute : w.carried t = none := by
    refine inv.carried_eq_none fun publish sender rest htodo => ?_
    rw [h.todo] at htodo
    cases htodo
  have hat : ∀ u p, w'.At u p → w.At u p := fun u p hp =>
    inv.at_of_acted hp h rfl (fun _ => hscheduled ▸ id) (fun _ => hcarried ▸ id) (hrouted ▸ id)
  have hnot : ∀ p, ¬ w.At t p := fun p hp => inv.placed t p hp hnone
  have haccepted : ∀ u, u ≠ t → w'.state.history.accepted u = w.state.history.accepted u := by
    intro u hne
    rw [h.history, accepted_recordNext]
    exact Function.update_of_ne hne _ _
  have haccepted' : ∃ A, w'.state.history.accepted t = some A ∧
      A.session = target.getD w.state.shared.nextRef := by
    rw [h.history, accepted_recordNext]
    exact ⟨_, Function.update_self .., rfl⟩
  have hsupplier : ∀ ref u, w'.state.history.supplier ref = some u →
      ref = target.getD w.state.shared.nextRef ∧ u = t ∨
        ref ≠ target.getD w.state.shared.nextRef ∧ w.state.history.supplier ref = some u := by
    intro ref u hu
    rw [h.history, supplier_recordNext] at hu
    by_cases href : ref = target.getD w.state.shared.nextRef
    · subst href
      simp only [History.recordAction, Function.update_self, Option.some.injEq] at hu
      exact .inl ⟨rfl, hu.symm⟩
    · simp only [History.recordAction, Function.update_of_ne href] at hu
      exact .inr ⟨href, hu⟩
  have hwill : ∀ ref, ref ≠ target.getD w.state.shared.nextRef →
      w'.state.shared.sessions ref = w.state.shared.sessions ref := by
    intro ref href
    rw [h.shared, Shared.sessions_afterNext]
    have hperform := h.perform
    cases hperform
    exact (Shared.sessions_enroll w.state.shared x target).1 ref href
  refine ⟨fun ref u hu => ?_, fun u p hp => ?_, fun ref u hu hsome p hp => ?_,
    fun u p p' hp hp' => inv.unique u p p' (hat u p hp) (hat u p' hp'), hrouted ▸ inv.once,
    fun token htoken => ?_, fun t' ht' => ?_⟩
  · rcases hsupplier ref u hu with ⟨rfl, rfl⟩ | ⟨-, hu⟩
    · exact haccepted'
    · obtain ⟨A, hA, hsession⟩ := inv.supplied ref u hu
      have hne : u ≠ t := by
        rintro rfl
        cases hnone.symm.trans hA
      exact ⟨A, (haccepted u hne).trans hA, hsession⟩
  · have hne : u ≠ t := by
      rintro rfl
      exact hnot p (hat u p hp)
    rw [haccepted u hne]
    exact inv.placed u p (hat u p hp)
  · rcases hsupplier ref u hu with ⟨rfl, rfl⟩ | ⟨href, hu⟩
    · exact hnot p (hat u p hp)
    · rw [hwill ref href] at hsome
      exact inv.held ref u hu hsome p (hat u p hp)
  · rw [hscheduled] at htoken
    exact Nat.lt_of_lt_of_le (inv.known token htoken) hnext
  · rw [hcarried] at ht'
    exact inv.head_of_acted h hroute t' ht'

/-- What was somewhere else before is still there, and the timer is not running any more. -/
theorem Wills.at_cases_fire {token : Token} (h : Fired w.state token s') {p : Place}
    (hp : Wills.At { w.record (.fire token) with state := s' } u p) :
    w.scheduled token = some u ∧ p = .task (.delay token) ∨ w.At u p ∧ p ≠ .timer token := by
  cases p with
  | timer token' =>
      obtain ⟨hu, hwait⟩ := hp
      by_cases hne : token' = token
      · subst hne
        simp [h.shared] at hwait
      · rw [h.shared] at hwait
        simp only [Function.update_of_ne hne] at hwait
        exact .inr ⟨⟨hu, hwait⟩, by simpa using hne⟩
  | task t' =>
      by_cases hne : t' = .delay token
      · subst hne
        exact .inl ⟨by simpa [At, record] using hp, rfl⟩
      · exact .inr ⟨by simpa [At, record, Function.update_of_ne hne] using hp, by simp⟩
  | subscribers => exact .inr ⟨hp, by simp⟩

/-- The timer of a delay task runs out. -/
theorem Wills.Inv.fire (inv : w.Inv) (hl : Locked w.state) {token : Token}
    (h : Fired w.state token s') :
    Wills.Inv { w.record (.fire token) with state := s' } := by
  have hidle := hl.timer token (.inr h.waiting)
  have hcarried : w.carried (.delay token) = none := by
    refine inv.carried_eq_none fun publish sender rest htodo => ?_
    rw [hidle] at htodo
    cases htodo
  have hsame : w.Same { w.record (.fire token) with state := s' } := by
    refine ⟨?_, ?_, ?_⟩
    · rw [h.history]
    · rw [h.history]
    · rw [h.shared]
      exact fun _ => id
  have hruns : Wills.Runs { w.record (.fire token) with state := s' } := by
    refine ⟨inv.once, ?_, fun t' ht' => ?_⟩
    · rw [h.shared]
      exact inv.known
    · by_cases hne : t' = .delay token
      · subst hne
        exact ⟨_, "", [], by rw [h.self]⟩
      · obtain ⟨publish, sender, rest, htodo⟩ :=
          inv.head t' (by simpa [record, Function.update_of_ne hne] using ht')
        exact ⟨publish, sender, rest, by rw [h.others t' hne]; exact htodo⟩
  cases hu : w.scheduled token with
  | none =>
      refine inv.stay hsame hruns fun u p hp => ?_
      rcases Wills.at_cases_fire h hp with ⟨hu', -⟩ | ⟨hold, -⟩
      · cases hu.symm.trans hu'
      · exact hold
  | some u =>
      have hbefore : w.At u (.timer token) := ⟨hu, h.waiting⟩
      refine inv.move (.task (.delay token)) hsame hruns (inv.placed u _ hbefore)
        (fun ref href => ?_) fun u' p hp => ?_
      · by_contra hwill
        exact inv.held ref u href (hsame.will ref hwill) _ hbefore
      · rcases Wills.at_cases_fire h hp with ⟨hu', rfl⟩ | ⟨hold, hne⟩
        · exact .inl ⟨(Option.some.inj (hu.symm.trans hu')).symm, rfl⟩
        · refine .inr ⟨fun heq => hne ?_, hold⟩
          exact inv.unique u p (.timer token) (heq ▸ hold) hbefore

theorem Wills.Inv.act (inv : w.Inv) (binv : Broker.Inv w.state)
    (h : Acted w.state t c s' a rest sh next) :
    Wills.Inv { w.record (.act t c) with state := s' } := by
  have hplain : (∀ x target, a ≠ .enroll x target) → (∀ publish sender, a ≠ .route publish sender) →
      w.record (.act t c) = w → Wills.Inv { w.record (.act t c) with state := s' } := by
    intro henroll hroute hrecord
    rw [hrecord]
    refine inv.act_plain h henroll (inv.carried_eq_none fun publish sender rest htodo => ?_)
      rfl rfl rfl rfl
    rw [h.todo] at htodo
    exact hroute publish sender (List.cons.inj htodo).1
  have htodo := h.todo
  cases a with
  | takeWill ref =>
      simp only [record, htodo]
      exact inv.act_taken h
  | route publish sender =>
      simp only [record, htodo]
      exact inv.act_routed h
  | enroll x target =>
      simp only [record, htodo]
      refine inv.act_enroll binv h rfl ?_ ?_ ?_ <;> simp only [recordAccepted] <;> split <;> rfl
  | _ =>
      exact hplain (fun _ _ heq => by cases heq) (fun _ _ heq => by cases heq)
        (by simp only [record, htodo])

theorem Wills.Inv.step (inv : w.Inv) (binv : Broker.Inv w.state) (hl : Locked w.state)
    (hstep : w.step l = some w') : w'.Inv := by
  obtain ⟨state, hstate, rfl⟩ := Wills.step_eq_some.mp hstep
  rcases step_cases hstate with ⟨n, e, todo, rfl, h⟩ | ⟨t, c, a, rest, sh, next, rfl, h⟩ |
    ⟨token, rfl, h⟩ | ⟨accept, rfl, rfl⟩ | ⟨secs, rfl, -, rfl⟩
  · exact inv.event h
  · exact inv.act binv h
  · exact inv.fire hl h
  · exact inv.stay ⟨rfl, rfl, fun _ => id⟩ ⟨inv.once, inv.known, inv.head⟩ fun u p hp => by
      cases p <;> exact hp
  · exact inv.stay ⟨rfl, rfl, fun _ => id⟩ ⟨inv.once, inv.known, inv.head⟩ fun u p hp => by
      cases p <;> exact hp

end

end

end Broker
end Vaux
