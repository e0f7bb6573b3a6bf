import Vaux.Broker.ManyFilters

/-!
# Publishes arrive in order

A connection handles one PUBLISH after the other, and what it hands over to a session goes to
the end of the channel of the session.  A publish that finds one subscription of a client is
handed over to it once.
-/

namespace Vaux
namespace Broker

open Wire Mqtt Machine

namespace Action

/-- The action delivers to the client, or looks up whom to deliver to. -/
def leadsTo (id : String) : Action → Bool
  | .route .. => true
  | .deliver _ _ sub => sub.sessionId = id
  | _ => false

/-- The actions of a PUBLISH. -/
def publishing : Action → Bool
  | .write _ | .finish _ => true
  | a => a.routing

end Action

/-- The number of the publish if it is from `A`. -/
def Placed.numberOf (e : Placed) (A : TaskId) : Option Nat :=
  e.source.bind fun (t, k) => if t = A then some k else none

namespace Traffic

/-- The numbers of the publishes of `A` in the list of a channel. -/
def numbers (w : Traffic) (A : TaskId) (ch : ChannelId) : List Nat :=
  (w.placed ch).filterMap (·.numberOf A)

/-- The places of their packet identifiers. -/
def serials (w : Traffic) (A : TaskId) (ch : ChannelId) : List Nat :=
  ((w.placed ch).filter fun e => (e.numberOf A).isSome).filterMap (·.serial)

/-- The publish of `A` that the label looks up in the tree. -/
def looksUp (w : Traffic) (A : TaskId) : Label → Option Publish
  | .act t _ =>
    match (w.state.tasks t).todo with
    | .route publish _ :: _ => if t = A ∧ (w.current A).isSome then some publish else none
    | _ => none
  | _ => none

/-- What `A` publishes has no wildcards and matches one subscription of the client. -/
def Single (A : TaskId) (id : String) (w : Traffic) (l : Label) : Prop :=
  ∀ publish ∈ w.looksUp A l, Plain (segments publish.topicName) ∧
    ((w.table.matchingSubscribers publish.topicName).filter (·.sessionId = id)).length = 1

/-- The indices of the nodes fit in 32 bits when `A` looks up a publish. -/
def Fits (A : TaskId) (w : Traffic) (l : Label) : Prop :=
  ∀ publish ∈ w.looksUp A l, w.state.shared.tree.nodeCount ≤ 2 ^ 32

instance (topic : List String) : Decidable (Plain topic) :=
  inferInstanceAs (Decidable (∀ s ∈ topic, _ ∧ _))

instance (A : TaskId) (id : String) (w : Traffic) (l : Label) : Decidable (w.Single A id l) :=
  inferInstanceAs (Decidable (∀ publish ∈ w.looksUp A l, _ ∧ _))

instance (A : TaskId) (w : Traffic) (l : Label) : Decidable (w.Fits A l) :=
  inferInstanceAs (Decidable (∀ publish ∈ w.looksUp A l, _))

/-- The publishes of `A` are in the channel in the order in which `A` has sent them and each
of them once at most, and their identifiers were assigned in that order.  What the list has of
the channel is in the channel. -/
structure Ordered (w : Traffic) (A : TaskId) (ch : ChannelId) : Prop where
  numbers : (w.numbers A ch).Pairwise (· < ·)
  serials : (w.serials A ch).Pairwise (· < ·)
  given : ∀ e ∈ w.placed ch, ∀ k ∈ e.serial, ∃ id, w.assigned[k]? = some id ∧
    e.message.packetId = some id
  queue : ∃ received, (w.placed ch).map (·.message) = received ++ w.state.shared.publishes ch

/-! ## The invariant -/

/-- What the connection `n` still has to do for the client with its publish, and what the
channels of the client have of it. -/
structure Orderly (w : Traffic) (n : Nat) (id : String) : Prop where
  last : ∀ k, w.current (.connection n) = some k → k + 1 = w.sent (.connection n)
  below : ∀ ch, ∀ m ∈ w.numbers (.connection n) ch, m < w.sent (.connection n)
  publishing : w.current (.connection n) ≠ none →
    ∀ x ∈ (w.state.tasks (.connection n)).todo, x.publishing = true
  left : w.current (.connection n) ≠ none →
    (w.state.tasks (.connection n)).todo.countP (Action.leadsTo id) ≤ 1
  ahead : ∀ k, w.current (.connection n) = some k →
    0 < (w.state.tasks (.connection n)).todo.countP (Action.leadsTo id) →
    ∀ ch, w.client ch = some id → ∀ m ∈ w.numbers (.connection n) ch, m < k
  sorted : ∀ ch, w.client ch = some id → (w.numbers (.connection n) ch).Pairwise (· < ·)

theorem orderly_start (config : Config) (n : Nat) (id : String) :
    (Traffic.start config).Orderly n id := by
  refine ⟨fun k h => ?_, fun ch m h => ?_, fun h => absurd rfl h, fun h => absurd rfl h,
    fun k h => ?_, fun ch _ => List.Pairwise.nil⟩
  · cases h
  · cases h
  · cases h

section

variable {w w' : Traffic} {t A : TaskId} {c : Choice} {l : Label} {s' : State} {a : Action}
  {rest : List Action} {sh : Shared} {next : Next} {ch : ChannelId} {n : Nat} {id : String}

theorem numberOf_entry (w : Traffic) (t A : TaskId) (out : Publish) :
    (w.entry t out).numberOf A = if t = A then w.current A else none := by
  show ((w.current t).map (t, ·)).bind _ = _
  by_cases heq : t = A
  · subst heq
    rw [if_pos rfl]
    cases w.current t <;> simp
  · rw [if_neg heq]
    cases w.current t <;> simp [heq]

/-- A step adds to the numbers of a channel what `A` hands over to its session. -/
theorem numbers_of_step (hfiled : w.Filed) (binv : Broker.Inv w.state) (hstep : w.step l = some w')
    (A : TaskId) (ch : ChannelId) :
    w'.numbers A ch = w.numbers A ch ∨
      ∃ c publish sender, ∃ sub : Subscriber, ∃ rest k, l = .act A c ∧
        (w.state.tasks A).todo = .deliver publish sender sub :: rest ∧ w.current A = some k ∧
        w.client ch = some sub.sessionId ∧ w'.numbers A ch = w.numbers A ch ++ [k] := by
  obtain ⟨state, hstate, rfl⟩ := step_eq_some.mp hstep
  rcases step_cases hstate with ⟨n, e, todo, rfl, hhandled⟩ |
    ⟨t, c, a, rest, sh, next, rfl, hacted⟩ | ⟨token, rfl, hfired⟩ | ⟨accept, rfl, rfl⟩ |
    ⟨secs, rfl, -, rfl⟩
  · left
    simp only [numbers, record, (w.recordEvent_same (.connection n) e).2.2]
  · have hrecord : w.record (.act t c) = w.recordAction t a := by
      simp only [record, hacted.todo]
    cases a with
    | deliver publish sender sub =>
        simp only [numbers, hrecord, recordAction]
        cases hacted.performed with
        | deliver _ _ _ _ hdeliver =>
            rcases Shared.deliver_cases hdeliver with
              ⟨hnone, -⟩ | ⟨ref, out, target, hsome, hactive, hover, -⟩
            · exact .inl (by simp only [hnone])
            · simp only [hsome, placed_recordHandOver, List.filterMap_append]
              obtain ⟨hid, -, hlt⟩ := binv.sound.active hactive
              by_cases hadded : w.state.shared.roomy target.control ∧ ch = target.control
              · have hclient := hfiled.owner ref hlt
                rw [hid, ← (packetId_of_handOver hover).1, ← hadded.2] at hclient
                rw [added, if_pos hadded, List.filterMap_cons, numberOf_entry]
                by_cases heq : t = A
                · subst heq
                  rw [if_pos rfl]
                  cases hcurrent : w.current t with
                  | none => exact .inl (List.append_nil _)
                  | some k =>
                      exact .inr ⟨c, publish, sender, sub, rest, k, rfl, hacted.todo, rfl, hclient, rfl⟩
                · rw [if_neg heq]
                  exact .inl (List.append_nil _)
              · rw [added, if_neg hadded]
                exact .inl (List.append_nil _)
    | _ =>
        left
        simp only [numbers, hrecord, recordAction]
  · exact .inl rfl
  · exact .inl rfl
  · exact .inl rfl

/-- A channel keeps its client, and a new one has nothing in its list. -/
theorem client_of_step (hfiled : w.Filed) (hstep : w.step l = some w')
    (hclient : w'.client ch = some id) :
    w.client ch = some id ∨ w.placed ch = [] ∧ ∃ t c x target rest, l = .act t c ∧
      (w.state.tasks t).todo = .enroll x target :: rest := by
  obtain ⟨state, hstate, rfl⟩ := step_eq_some.mp hstep
  rcases step_cases hstate with ⟨n, e, todo, rfl, hhandled⟩ |
    ⟨t, c, a, rest, sh, next, rfl, hacted⟩ | ⟨token, rfl, hfired⟩ | ⟨accept, rfl, rfl⟩ |
    ⟨secs, rfl, -, rfl⟩
  · left
    simpa only [record, (w.recordEvent_same (.connection n) e).1] using hclient
  · simp only [record, hacted.todo] at hclient
    cases a with
    | deliver publish sender sub =>
        left
        simp only [recordAction] at hclient
        split at hclient <;> exact hclient
    | enroll x target =>
        by_cases hne : ch = w.state.shared.nextChannel
        · subst hne
          exact .inr ⟨(hfiled.fresh _ (Nat.le_refl _)).1, t, c, x, target, rest, rfl, hacted.todo⟩
        · exact .inl ((Function.update_of_ne hne _ _).symm.trans hclient)
    | _ => exact .inl hclient
  · exact .inl hclient
  · exact .inl hclient
  · exact .inl hclient

/-- The publisher is at the same publish, unless it has an event. -/
theorem current_of_step (hstep : w.step l = some w') (hl : ∀ e, l ≠ .event n e) :
    w'.current (.connection n) = w.current (.connection n) ∧
      w'.sent (.connection n) = w.sent (.connection n) := by
  obtain ⟨state, hstate, rfl⟩ := step_eq_some.mp hstep
  cases l with
  | event n' e =>
      have hne : TaskId.connection n ≠ .connection n' := by
        rintro heq
        cases heq
        exact hl e rfl
      simp only [record, recordEvent]
      split
      · exact ⟨Function.update_of_ne hne _ _, Function.update_of_ne hne _ _⟩
      · exact ⟨Function.update_of_ne hne _ _, rfl⟩
  | act t c =>
      simp only [record]
      split
      · rename_i a rest htodo
        cases a with
        | deliver publish sender sub =>
            simp only [recordAction]
            split <;> exact ⟨rfl, rfl⟩
        | _ => exact ⟨rfl, rfl⟩
      · exact ⟨rfl, rfl⟩
  | _ => exact ⟨rfl, rfl⟩

/-! ## What the publisher has left to do -/

/-- The subscribers that are found for a publish have the client among them once. -/
theorem countP_found (hrep : w.state.shared.tree.Represents w.table) {publish : Publish}
    {found : List Subscriber} (hplain : Plain (segments publish.topicName))
    (hfound : w.state.shared.tree.matchingSubscribers publish.topicName = some found)
    (sender id : String) :
    (Action.lockPool :: found.map (Action.deliver publish sender) ++ [Action.leavePool]).countP
        (Action.leadsTo id) =
      ((w.table.matchingSubscribers publish.topicName).filter (·.sessionId = id)).length := by
  have hperm := hrep.perm_matchingSubscribers hplain hfound
  rw [← (hperm.filter _).length_eq, ← List.countP_eq_length_filter]
  simp [List.countP_append, List.countP_map, Action.leadsTo, Function.comp_def]

theorem todo_of_acted {s : State}
    (hacted : Acted s t c s' a rest sh next) (ha : a.publishing = true) :
    (∃ publish sender found, a = .route publish sender ∧
        s.shared.tree.matchingSubscribers publish.topicName = some found ∧
        (s'.tasks t).todo =
          .lockPool :: found.map (.deliver publish sender) ++ [.leavePool] ++ rest) ∨
      (∀ publish sender, a ≠ .route publish sender) ∧
        ((s'.tasks t).todo = rest ∨ (s'.tasks t).todo = []) := by
  rw [hacted.self]
  cases hacted.performed with
  | route publish sender found hfound => exact .inl ⟨publish, sender, found, rfl, hfound, rfl⟩
  | write | lockPool | leavePool | deliver => exact .inr ⟨fun _ _ heq => (by cases heq), .inl rfl⟩
  | writeFails | finish => exact .inr ⟨fun _ _ heq => (by cases heq), .inr rfl⟩
  | _ => cases ha

/-- Handling a publish does not lead to the client more often than before, and a delivery
to it was one of the ways. -/
structure Onward (w w' : Traffic) (n : Nat) (id : String) (l : Label) : Prop where
  publishing : ∀ x ∈ (w'.state.tasks (.connection n)).todo, x.publishing = true
  count : (w'.state.tasks (.connection n)).todo.countP (Action.leadsTo id) ≤
    (w.state.tasks (.connection n)).todo.countP (Action.leadsTo id)
  deliver : ∀ c publish sender, ∀ sub : Subscriber, ∀ rest, l = .act (.connection n) c →
    (w.state.tasks (.connection n)).todo = .deliver publish sender sub :: rest →
    sub.sessionId = id →
    (w'.state.tasks (.connection n)).todo.countP (Action.leadsTo id) <
      (w.state.tasks (.connection n)).todo.countP (Action.leadsTo id)

theorem Orderly.onward (h : w.Orderly n id) (hsingle : w.Single (.connection n) id l)
    (hrep : ∀ publish ∈ w.looksUp (.connection n) l, w.state.shared.tree.Represents w.table)
    (hstep : w.step l = some w') (hl : ∀ e, l ≠ .event n e)
    (hcurrent : w.current (.connection n) ≠ none) : w.Onward w' n id l := by
  have hsame : w'.state.tasks (.connection n) = w.state.tasks (.connection n) →
      (∀ c, l ≠ .act (.connection n) c) → w.Onward w' n id l := by
    intro htasks hact
    refine ⟨?_, ?_, fun c _ _ _ _ heq => absurd heq (hact c)⟩
    · rw [htasks]
      exact h.publishing hcurrent
    · rw [htasks]
  rcases step_cases (state_of_step hstep) with ⟨n', e, todo, rfl, hhandled⟩ |
    ⟨t, c, a, rest, sh, next, rfl, hacted⟩ | ⟨token, rfl, hfired⟩ | ⟨accept, rfl, heq⟩ |
    ⟨secs, rfl, -, heq⟩
  · refine hsame (hhandled.others _ ?_) (fun c heq => by cases heq)
    rintro heq
    cases heq
    exact hl e rfl
  · by_cases hne : TaskId.connection n = t
    · subst hne
      have htodo := hacted.todo
      have hpublishing := h.publishing hcurrent
      rw [htodo] at hpublishing
      obtain ⟨ha, hrest⟩ := List.forall_mem_cons.mp hpublishing
      rcases todo_of_acted hacted ha with ⟨publish, sender, found, rfl, hfound, htodo'⟩ |
        ⟨hroute, htodo'⟩
      · have hlooksUp : w.looksUp (.connection n) (.act (.connection n) c) = some publish := by
          simp only [looksUp, htodo]
          exact if_pos ⟨trivial, Option.isSome_iff_ne_none.mpr hcurrent⟩
        obtain ⟨hplain, hone⟩ := hsingle publish hlooksUp
        have hcount := countP_found (hrep publish hlooksUp) hplain hfound sender id
        rw [hone] at hcount
        refine ⟨fun x hx => ?_, ?_, fun _ _ _ _ _ _ heq => by rw [htodo] at heq; cases heq⟩
        · rw [htodo'] at hx
          rcases List.mem_append.mp hx with hx | hx
          · have hcases : x = .lockPool ∨ (∃ sub ∈ found, .deliver publish sender sub = x) ∨
                x = .leavePool := by
              simpa using hx
            rcases hcases with rfl | ⟨sub, -, rfl⟩ | rfl <;> rfl
          · exact hrest x hx
        · rw [htodo', htodo, List.countP_append, hcount, List.countP_cons, Nat.add_comm]
          exact Nat.le_refl _
      · have hle : (w'.state.tasks (.connection n)).todo.countP (Action.leadsTo id) ≤
            rest.countP (Action.leadsTo id) := by
          rcases htodo' with heq | heq
          · rw [heq]
          · rw [heq]
            exact Nat.zero_le _
        refine ⟨fun x hx => ?_, ?_, fun _ publish sender sub rest' _ heq hid => ?_⟩
        · rcases htodo' with heq | heq
          · exact hrest x (heq ▸ hx)
          · rw [heq] at hx
            cases hx
        · rw [htodo, List.countP_cons]
          exact hle.trans (Nat.le_add_right _ _)
        · rw [htodo] at heq
          cases heq
          rw [htodo, List.countP_cons, if_pos (by simpa [Action.leadsTo] using hid)]
          exact Nat.lt_succ_of_le hle
    · refine hsame (hacted.others _ hne) (fun c heq => hne ?_)
      cases heq
      rfl
  · exact hsame (hfired.others _ (fun heq => by cases heq)) (fun c heq => by cases heq)
  · exact hsame (by rw [heq]) (fun c heq => by cases heq)
  · exact hsame (by rw [heq]) (fun c heq => by cases heq)

/-- What a PUBLISH leaves to do. -/
theorem todo_of_publish {sh sh' : Shared} {task : Task} {e : Event} {todo : List Action}
    (h : sh.handle task e = some (sh', todo)) (he : e.isPublish = true) (id : String) :
    (∀ x ∈ todo, x.publishing = true) ∧ todo.countP (Action.leadsTo id) ≤ 1 := by
  cases e with
  | packet p =>
      cases p with
      | publish p =>
          cases Shared.arises_of_handle h with
          | packet _ ref _ _ _ htodo =>
              simp only [Shared.handlePacket, Shared.handlePublish] at htodo
              split at htodo
              · split at htodo
                · cases htodo
                  simp [Action.publishing, Action.routing, Action.leadsTo]
                · cases htodo
                  simp [Action.publishing, Action.leadsTo]
              · cases htodo
                simp [Action.publishing, Action.routing, Action.leadsTo]
              · cases htodo
          | ignored => exact ⟨List.forall_mem_nil _, Nat.zero_le _⟩
          | preConnect => simp [Shared.handlePreConnect, Action.publishing, Action.leadsTo]
      | _ => cases he
  | _ => cases he

/-- An event puts the connection at its next publish, or at none. -/
theorem Orderly.event (h : w.Orderly n id) {e : Event} {todo : List Action}
    (hhandled : Handled w.state (.connection n) e s' todo)
    (hnumbers : ∀ ch, w'.numbers (.connection n) ch = w.numbers (.connection n) ch)
    (hclient : w'.client = w.client) (hstate : w'.state = s')
    (hsent : w'.sent = (w.recordEvent (.connection n) e).sent)
    (hcurrent : w'.current = (w.recordEvent (.connection n) e).current) : w'.Orderly n id := by
  subst hstate
  unfold recordEvent at hsent hcurrent
  cases he : e.isPublish with
  | true =>
      rw [if_pos he] at hsent hcurrent
      have hsent' : w'.sent (.connection n) = w.sent (.connection n) + 1 := by
        rw [hsent]
        exact Function.update_self ..
      have hcurrent' : w'.current (.connection n) = some (w.sent (.connection n)) := by
        rw [hcurrent]
        exact Function.update_self ..
      obtain ⟨hpublishing, hcount⟩ := todo_of_publish hhandled.handle he id
      refine ⟨fun k hk => ?_, fun ch m hm => ?_, fun _ => ?_, fun _ => ?_, fun k hk _ ch _ m hm => ?_,
        fun ch hch => ?_⟩
      · rw [hcurrent'] at hk
        cases hk
        exact hsent'.symm
      · rw [hnumbers] at hm
        rw [hsent']
        exact Nat.lt_succ_of_lt (h.below ch m hm)
      · rw [hhandled.self]
        exact hpublishing
      · rw [hhandled.self]
        exact hcount
      · rw [hcurrent'] at hk
        cases hk
        rw [hnumbers] at hm
        exact h.below ch m hm
      · rw [hclient] at hch
        rw [hnumbers]
        exact h.sorted ch hch
  | false =>
      rw [if_neg (by rw [he]; decide)] at hsent hcurrent
      have hcurrent' : w'.current (.connection n) = none := by
        rw [hcurrent]
        exact Function.update_self ..
      refine ⟨fun k hk => ?_, fun ch m hm => ?_, fun hne => absurd hcurrent' hne,
        fun hne => absurd hcurrent' hne, fun k hk => ?_, fun ch hch => ?_⟩
      · rw [hcurrent'] at hk
        cases hk
      · rw [hnumbers] at hm
        rw [hsent]
        exact h.below ch m hm
      · rw [hcurrent'] at hk
        cases hk
      · rw [hclient] at hch
        rw [hnumbers]
        exact h.sorted ch hch

theorem Orderly.step (h : w.Orderly n id) (hfiled : w.Filed) (binv : Broker.Inv w.state)
    (hsingle : w.Single (.connection n) id l)
    (hrep : ∀ publish ∈ w.looksUp (.connection n) l, w.state.shared.tree.Represents w.table)
    (hstep : w.step l = some w') : w'.Orderly n id := by
  by_cases hevent : ∃ e, l = .event n e
  · obtain ⟨e, rfl⟩ := hevent
    obtain ⟨state, hstate, rfl⟩ := step_eq_some.mp hstep
    obtain ⟨todo, hhandled⟩ := handled_of_event hstate
    obtain ⟨hclient, -, hplaced⟩ := w.recordEvent_same (.connection n) e
    exact h.event hhandled (fun ch => by simp only [numbers, record, hplaced]) hclient rfl rfl rfl
  · have hl : ∀ e, l ≠ .event n e := fun e heq => hevent ⟨e, heq⟩
    obtain ⟨hcurrent, hsent⟩ := current_of_step hstep hl
    have hnumbers := numbers_of_step hfiled binv hstep (.connection n)
    -- a channel that is new has no numbers, and none are added to it
    have hclient : ∀ ch, w'.client ch = some id →
        w.client ch = some id ∨ w'.numbers (.connection n) ch = [] := by
      intro ch hch
      rcases client_of_step hfiled hstep hch with hold | ⟨hplaced, t, c, x, target, rest, rfl, htodo⟩
      · exact .inl hold
      · right
        rcases hnumbers ch with hsame | ⟨c', publish, sender, sub, rest', k, heq, htodo', -, -, -⟩
        · rw [hsame, numbers, hplaced]
          rfl
        · cases heq
          rw [htodo] at htodo'
          cases htodo'
    refine ⟨?_, fun ch m hm => ?_, fun hne => ?_, fun hne => ?_, fun k hk hcount ch hch m hm => ?_,
      fun ch hch => ?_⟩
    · rw [hcurrent, hsent]
      exact h.last
    · rw [hsent]
      rcases hnumbers ch with hsame | ⟨-, -, -, -, -, k, -, -, hk, -, hadded⟩
      · rw [hsame] at hm
        exact h.below ch m hm
      · rw [hadded] at hm
        rcases List.mem_append.mp hm with hm | hm
        · exact h.below ch m hm
        · rw [List.mem_singleton.mp hm, ← h.last k hk]
          exact Nat.lt_succ_self k
    · rw [hcurrent] at hne
      exact (h.onward hsingle hrep hstep hl hne).publishing
    · rw [hcurrent] at hne
      exact (h.onward hsingle hrep hstep hl hne).count.trans (h.left hne)
    · rw [hcurrent] at hk
      have hne : w.current (.connection n) ≠ none := by
        rw [hk]
        exact Option.some_ne_none k
      have honward := h.onward hsingle hrep hstep hl hne
      have hcount' := Nat.lt_of_lt_of_le hcount honward.count
      rcases hclient ch hch with hold | hnil
      · rcases hnumbers ch with hsame | ⟨c, publish, sender, sub, rest, k', rfl, htodo, hk', hsub, -⟩
        · rw [hsame] at hm
          exact h.ahead k hk hcount' ch hold m hm
        · -- after a delivery to the client nothing leads to it any more
          have hid : sub.sessionId = id := Option.some.inj (hsub.symm.trans hold)
          have hless := honward.deliver c publish sender sub rest rfl htodo hid
          have hone := h.left hne
          omega
      · rw [hnil] at hm
        cases hm
    · rcases hclient ch hch with hold | hnil
      · rcases hnumbers ch with hsame | ⟨c, publish, sender, sub, rest, k, rfl, htodo, hk, hsub, hadded⟩
        · rw [hsame]
          exact h.sorted ch hold
        · have hid : sub.sessionId = id := Option.some.inj (hsub.symm.trans hold)
          have hpos : 0 < (w.state.tasks (.connection n)).todo.countP (Action.leadsTo id) := by
            rw [htodo, List.countP_cons, if_pos (by simpa [Action.leadsTo] using hid)]
            exact Nat.succ_pos _
          rw [hadded]
          refine List.pairwise_append.mpr ⟨h.sorted ch hold, List.pairwise_singleton _ k, ?_⟩
          intro m hm k' hk'
          rw [List.mem_singleton.mp hk']
          exact h.ahead k hk hpos ch hold m hm
      · rw [hnil]
        exact List.Pairwise.nil

theorem Orderly.ordered (h : w.Orderly n id) (hfiled : w.Filed) (hch : w.client ch = some id) :
    w.Ordered (.connection n) ch := by
  refine ⟨h.sorted ch hch, ?_, hfiled.given ch, hfiled.queue ch ?_⟩
  · exact (hfiled.serial ch).sublist (List.filter_sublist.filterMap _)
  · by_contra hge
    have hnone := (hfiled.fresh ch (Nat.le_of_not_lt hge)).2
    rw [hch] at hnone
    cases hnone

structure Inv (w : Traffic) (n : Nat) (id : String) : Prop where
  broker : Broker.Inv w.state
  represents : w.state.shared.tree.nodeCount ≤ 2 ^ 32 → w.state.shared.tree.Represents w.table
  filed : w.Filed
  orderly : w.Orderly n id

theorem inv_start (config : Config) (n : Nat) (id : String) : (Traffic.start config).Inv n id :=
  ⟨Broker.inv_start config, fun _ => TopicTree.represents_new, filed_start config,
    orderly_start config n id⟩

theorem Inv.step (inv : w.Inv n id) (hsingle : w.Single (.connection n) id l)
    (hfits : w.Fits (.connection n) l) (hstep : w.step l = some w') : w'.Inv n id := by
  have hstate := state_of_step hstep
  refine ⟨inv.broker.step hstate, fun hle => ?_, inv.filed.step inv.broker hstep, ?_⟩
  · rw [table_of_step hstep]
    exact represents_of_step inv.represents hstate hle
  · exact inv.orderly.step inv.filed inv.broker hsingle
      (fun publish hp => inv.represents (hfits publish hp)) hstep

/-- The publishes of a connection are placed in order in the channels of a client of which
they match one subscription. -/
theorem ordered_of_single {config : Config} {ls : List Label} {w : Traffic} {n : Nat} {id : String}
    (hsingle : Along Traffic.step (Single (.connection n) id) (.start config) ls)
    (hfits : Along Traffic.step (Fits (.connection n)) (.start config) ls)
    (hrun : run Traffic.step (.start config) ls = some w) (ch : ChannelId)
    (hch : w.client ch = some id) : w.Ordered (.connection n) ch := by
  have inv := invariant_of_step (I := fun w => w.Inv n id)
    (P := fun w l => w.Single (.connection n) id l ∧ w.Fits (.connection n) l)
    (fun _ _ _ inv hcond hstep => inv.step hcond.1 hcond.2 hstep) (inv_start config n id)
    (hsingle.and hfits) hrun
  exact inv.orderly.ordered inv.filed hch

end

/-- Two publishes to one subscriber. -/
def orderedLabels : List Label :=
  connectLabels 0 (.new "y") 7 ++ connectLabels 1 (.new "x") 7 ++
    subscribeLabels 1 "a" .atLeastOnce ++ publishLabels 0 "a" .atLeastOnce (some 7) 5 ++
    publishLabels 0 "a" .atMostOnce none 4

theorem ordered_of_orderedLabels : ∃ w,
    run Traffic.step (.start defaultConfig) orderedLabels = some w ∧
      w.numbers (.connection 0) 1 = [0, 1] ∧ w.Ordered (.connection 0) 1 := by
  have hfacts : (run Traffic.step (.start defaultConfig) orderedLabels).map
      (fun w => (w.numbers (.connection 0) 1, w.client 1)) = some ([0, 1], some "x") := by
    decide +kernel
  obtain ⟨w, hrun, hw⟩ := Option.map_eq_some_iff.mp hfacts
  obtain ⟨hnumbers, hclient⟩ := Prod.mk.inj hw
  exact ⟨w, hrun, hnumbers, ordered_of_single (by decide +kernel) (by decide +kernel) hrun 1 hclient⟩

/-! ## More nodes than indices -/

theorem single_of_ne {w : Traffic} {l : Label} {A : TaskId} (id : String) (h : ∀ c, l ≠ .act A c) :
    w.Single A id l := by
  intro publish hp
  cases l with
  | act t c =>
      simp only [looksUp] at hp
      split at hp
      · split at hp
        · rename_i heq
          exact absurd (congrArg (Label.act · c) heq.1) (h c)
        · cases hp
      · cases hp
  | _ => cases hp

theorem single_of_looksUpOnly {w : Traffic} {n : Nat} {topic id : String} {table : Subscriptions}
    (h : LooksUpOnly n topic table w) (hplain : Plain (segments topic))
    (hone : ((table.matchingSubscribers topic).filter (·.sessionId = id)).length = 1) (l : Label) :
    w.Single (.connection n) id l := by
  intro publish hp
  cases l with
  | act t c =>
      simp only [looksUp] at hp
      split at hp
      · rename_i publish' sender rest htodo
        split at hp
        · rename_i heq
          cases hp
          rw [heq.1] at htodo
          rw [h.2 _ _ _ htodo, h.1]
          exact ⟨hplain, hone⟩
        · cases hp
      · cases hp
  | _ => cases hp

/-- The publisher is connection 0, the subscriber connection 1. -/
def fewLabels : List Label :=
  connectLabels 0 (.new "y") 7 ++ connectLabels 1 (.new "x") 7 ++
    subscribeLabels 1 "k" .atMostOnce ++ subscribeLabels 1 "p" .atMostOnce

/-- What the few labels leave for the others. -/
structure Few (w : Traffic) : Prop where
  publisher : (w.state.tasks (.connection 0)).idle 0
  subscriber : (w.state.tasks (.connection 1)).idle 1
  tree : w.state.shared.tree.Crowded ⟨"x", .atMostOnce, false⟩ 0
  table : ((w.table.matchingSubscribers "k").filter (·.sessionId = "x")).length = 1
  session : (w.state.shared.sessions 1).id = "x"
  control : (w.state.shared.sessions 1).control = 1
  active : w.state.shared.pool.getActive "x" = some 1
  writer : w.state.shared.poolWriter = none
  channel : (w.state.shared.channels 1).closed = false
  room : (w.state.shared.channels 1).queue.length + 1 < (w.state.shared.channels 1).capacity
  client : w.client 1 = some "x"

theorem idle_of_facts {task : Task} {ref : Ref}
    (h : (task.todo.isEmpty, task.result.isNone, task.connected, task.clientSession) =
      (true, true, true, some ref)) : task.idle ref := by
  simp only [Prod.mk.injEq, List.isEmpty_iff, Option.isNone_iff_eq_none] at h
  exact h

theorem exists_few : ∃ w, run Traffic.step (.start defaultConfig) fewLabels = some w ∧ w.Few := by
  let facts (task : Task) :=
    (task.todo.isEmpty, task.result.isNone, task.connected, task.clientSession)
  have htasks : (run Traffic.step (.start defaultConfig) fewLabels).map (fun w =>
      (facts (w.state.tasks (.connection 0)), facts (w.state.tasks (.connection 1)))) =
      some ((true, true, true, some 0), (true, true, true, some 1)) := by
    decide +kernel
  have htree : (run Traffic.step (.start defaultConfig) fewLabels).map (·.state.shared.tree.data) =
      some [([⟨"p", 2⟩, ⟨"k", 1⟩], [], []), ([], [⟨"x", .atMostOnce, false⟩], []),
        ([], [⟨"x", .atMostOnce, false⟩], [])] := by
    decide +kernel
  have hsessions : (run Traffic.step (.start defaultConfig) fewLabels).map (fun w =>
      (((w.table.matchingSubscribers "k").filter (·.sessionId = "x")).length,
        (w.state.shared.sessions 1).id, (w.state.shared.sessions 1).control,
        w.state.shared.pool.getActive "x", w.state.shared.poolWriter.isNone)) =
      some (1, "x", 1, some 1, true) := by
    decide +kernel
  have hchannels : (run Traffic.step (.start defaultConfig) fewLabels).map (fun w =>
      ((w.state.shared.channels 1).closed, (w.state.shared.channels 1).queue.length,
        (w.state.shared.channels 1).capacity, w.client 1)) = some (false, 0, 10, some "x") := by
    decide +kernel
  obtain ⟨w, hrun, hw⟩ := Option.map_eq_some_iff.mp htasks
  rw [hrun] at htree hsessions hchannels
  simp only [Option.map_some, Option.some.injEq] at htree hsessions hchannels
  simp only [Prod.mk.injEq] at hsessions hchannels
  obtain ⟨hpublisher, hsubscriber⟩ := Prod.mk.inj hw
  obtain ⟨htable, hsession, hcontrol, hactive, hwriter⟩ := hsessions
  obtain ⟨hchannel, hqueue, hcapacity, hclient⟩ := hchannels
  refine ⟨w, hrun, idle_of_facts hpublisher, idle_of_facts hsubscriber,
    TopicTree.crowded_of_data htree, htable, hsession, hcontrol, hactive,
    Option.isNone_iff_eq_none.mp hwriter, hchannel, ?_, hclient⟩
  rw [hqueue, hcapacity]
  decide

/-- A client with one subscription to the topic has a publish twice in its channel once its
others have used up the indices. -/
theorem not_ordered_of_crowded : ¬ ∀ config ls w n id ch,
    Along Traffic.step (Single (.connection n) id) (.start config) ls →
    run Traffic.step (.start config) ls = some w → w.client ch = some id →
    w.Ordered (.connection n) ch := by
  intro hall
  obtain ⟨m, hm⟩ : ∃ m, m + 3 = 2 ^ 32 := ⟨4294967293, by decide⟩
  obtain ⟨w, hrun, few⟩ := exists_few
  obtain ⟨w₁, hrun₁, haside, hfound, htable⟩ := exists_crowded few.subscriber few.tree
    (by rw [few.session]) hm
  obtain ⟨tree, hshared⟩ := haside.shared
  have hplain : Plain (segments "k") := by decide +kernel
  have hcontrol : (w₁.state.shared.sessions 1).control = 1 := by
    rw [hshared]
    exact few.control
  have hidle : (w₁.state.tasks (.connection 0)).idle 0 := by
    rw [haside.tasks]
    exact few.publisher
  obtain ⟨w₂, e, k, hrun₂, halong, hsource, hclient, hplaced⟩ := exists_placed_twice 1 hidle
    hfound rfl rfl (by rw [hshared]; exact few.active) (by rw [hshared]; exact few.writer)
    (by rw [hcontrol, hshared]; exact few.channel) (by rw [hcontrol, hshared]; exact few.room)
  rw [hcontrol] at hplaced
  -- no label but the last ones is of the publisher
  have hsingle : Along Traffic.step (Single (.connection 0) "x") (.start defaultConfig)
      (fewLabels ++ ((fillLabels 1 m ++ subscribeLabels 1 "p/#" .atMostOnce) ++
        publishLabels 0 "k" .atMostOnce none 4)) := by
    refine (along_append hrun).mpr ⟨by decide +kernel, (along_append hrun₁).mpr ⟨?_, ?_⟩⟩
    · refine (along_of_forall fun l hl => ?_).mono fun w l hl => single_of_ne "x" hl
      have hother : ∀ (p : Packet) (j : Nat), l ∈ packetLabels 1 p j → ∀ c, l ≠ .act (.connection 0) c := by
        intro p j hl c heq
        subst heq
        rcases List.mem_cons.mp hl with heq | hl
        · cases heq
        · cases List.eq_of_mem_replicate hl
      rcases List.mem_append.mp hl with hl | hl
      · obtain ⟨j, -, hl⟩ := List.mem_flatMap.mp hl
        exact hother _ _ hl
      · exact hother _ _ hl
    · refine halong.mono fun v l hv => single_of_looksUpOnly hv hplain ?_ l
      rw [htable]
      exact few.table
  have hordered := hall defaultConfig _ w₂ 0 "x" 1 hsingle
    (run_append_eq_some.mpr ⟨w, hrun, run_append_eq_some.mpr ⟨w₁, hrun₁, hrun₂⟩⟩)
    (by rw [hclient, haside.client]; exact few.client)
  have hnumber : e.numberOf (.connection 0) = some k := by
    rw [Placed.numberOf, hsource]
    rfl
  have hnumbers := hordered.numbers
  rw [numbers, hplaced, List.filterMap_append] at hnumbers
  simp only [List.filterMap_cons, hnumber, List.filterMap_nil] at hnumbers
  have htwice := (List.pairwise_append.mp hnumbers).2.1
  exact Nat.lt_irrefl k (List.rel_of_pairwise_cons htwice (List.mem_singleton_self k))

end Traffic

end Broker
end Vaux
