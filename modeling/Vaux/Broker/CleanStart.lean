import Vaux.Broker.Registry

/-!
# What a clean start leaves

A CONNECT with clean start takes the session of the client out of the pool and makes a new
one.  It does not touch the tree, whose subscribers go by the client id, so what was
subscribed to under the id before is delivered to the new session.  The machine of this
module is the broker with the table of its subscriptions and with the filters that each new
session has subscribed to itself.
-/

namespace Vaux
namespace Broker

open Wire Mqtt Machine

/-! ## The session of a client -/

namespace SessionPool

/-- The session of the client in either map. -/
def find (self : SessionPool) (sessionId : String) : Option Ref :=
  (self.active.lookup sessionId).or (self.inactive.lookup sessionId)

section

variable {pool pool' : SessionPool} {sessions sessions' : Sessions} {nextRef : Ref}
  {id id' : String} {ref : Ref}

theorem find_of_getActive (h : pool.getActive id = some ref) : pool.find id = some ref := by
  unfold find
  unfold getActive at h
  rw [h]
  rfl

theorem Sound.find_lt (h : pool.Sound sessions nextRef) (hfind : pool.find id = some ref) :
    ref < nextRef := by
  rcases Option.or_eq_some_iff.mp hfind with hactive | ⟨-, hinactive⟩
  · exact (h.active hactive).2.2
  · exact (h.inactive hinactive).2.2

/-- Another client keeps its session, and the client has none. -/
theorem Sound.find_remove (h : pool.Sound sessions nextRef) (id id' : String) :
    (pool.remove id).2.find id' = pool.find id' ∨ (pool.remove id).2.find id' = none := by
  by_cases hne : id' = id
  · subst hne
    right
    unfold SessionPool.remove
    cases hactive : pool.active.lookup id' with
    | some ref =>
        have hinactive : pool.inactive.lookup id' = none :=
          AList.lookup_eq_none.mpr (h.disjoint id' (mem_of_lookup hactive))
        simp [find, decrementActive, hinactive]
    | none =>
        cases hinactive : pool.inactive.lookup id' with
        | some ref => simp [find, decrementInactive, hactive]
        | none => simp [find, hactive, hinactive]
  · left
    unfold SessionPool.remove
    cases hactive : pool.active.lookup id with
    | some ref => simp [find, decrementActive, AList.lookup_erase_ne hne]
    | none =>
        cases hinactive : pool.inactive.lookup id with
        | some ref => simp [find, decrementInactive, AList.lookup_erase_ne hne]
        | none => rfl

theorem Sound.find_activate (h : pool.Sound sessions nextRef)
    (hrun : pool.activate sessions id = some (ref, pool', sessions')) (id' : String) :
    pool'.find id' = pool.find id' := by
  unfold SessionPool.activate at hrun
  cases hlookup : pool.inactive.lookup id with
  | none => simp [hlookup] at hrun
  | some found =>
      simp only [hlookup, Option.some.injEq, Prod.mk.injEq] at hrun
      obtain ⟨rfl, rfl, rfl⟩ := hrun
      obtain ⟨rfl, -, -⟩ := h.inactive hlookup
      have hactive : pool.active.lookup (sessions found).id = none :=
        AList.lookup_eq_none.mpr fun hmem => h.disjoint _ hmem (mem_of_lookup hlookup)
      by_cases hne : id' = (sessions found).id
      · subst hne
        simp [find, decrementInactive, Session.setConnected, hactive, hlookup]
      · simp [find, decrementInactive, Session.setConnected, AList.lookup_erase_ne hne,
          AList.lookup_insert_ne hne]

theorem Sound.find_deactivate (h : pool.Sound sessions nextRef) (id id' : String) :
    (pool.deactivate sessions id).1.find id' = pool.find id' := by
  unfold SessionPool.deactivate
  cases hlookup : pool.active.lookup id with
  | none => rfl
  | some found =>
      obtain ⟨rfl, -, -⟩ := h.active hlookup
      by_cases hne : id' = (sessions found).id
      · subst hne
        simp [find, decrementActive, Session.setConnected, hlookup]
      · simp [find, decrementActive, Session.setConnected, AList.lookup_erase_ne hne,
          AList.lookup_insert_ne hne]

end

end SessionPool

namespace Shared

variable {sh sh' : Shared} {t : TaskId} {c : Choice} {a : Action} {next : Next}

/-- A client keeps its session or has none, unless it gets a new one. -/
theorem find_of_performed (h : Performed sh t c a sh' next)
    (hsound : sh.pool.Sound sh.sessions sh.nextRef) (id : String) :
    sh'.pool.find id = sh.pool.find id ∨ sh'.pool.find id = none ∨
      ∃ x, a = .enroll x none ∧ id = x.sessionId ∧ sh'.pool.find id = some sh.nextRef := by
  cases h with
  | enter x _ _ =>
      show (sh.choose x).1.pool.find id = _ ∨ (sh.choose x).1.pool.find id = none ∨ _
      unfold choose
      split
      · have hremove := hsound.find_remove x.sessionId id
        split
        · rename_i existing pool heq
          rw [heq] at hremove
          exact hremove.imp_right .inl
        · rename_i pool heq
          rw [heq] at hremove
          exact hremove.imp_right .inl
      · split
        · rename_i ref pool sessions heq
          exact .inl (hsound.find_activate heq id)
        · split <;> exact .inl rfl
  | register x =>
      by_cases hid : id = x.sessionId
      · refine .inr (.inr ⟨x, rfl, hid, ?_⟩)
        subst hid
        simp [register, SessionPool.add, SessionPool.find, setSession, newChannel, setChannel,
          Session.setConnected, Session.new]
      · left
        simp [register, SessionPool.add, SessionPool.find, setSession, newChannel, setChannel,
          Session.setConnected, Session.new, AList.lookup_insert_ne hid]
  | adopt x ref => exact .inl (congrArg (·.find id) (frame_adopt sh x ref).pool)
  | setPendingWill ref token _ => exact .inl (by cases (sh.sessions ref).pendingWill <;> rfl)
  | deactivate sessionId _ => exact .inl (hsound.find_deactivate sessionId id)
  | deliver publish sender sub _ hdeliver =>
      exact .inl (by cases delivered_of_deliver hdeliver <;> rfl)
  | _ => exact .inl rfl

end Shared

/-! ## A tree without filters -/

namespace TopicTree

theorem matchingSubscribers_new (topic : String) : TopicTree.new.matchingSubscribers topic = some [] := by
  unfold matchingSubscribers
  cases hsegments : segments topic with
  | nil => exact absurd hsegments (segments_ne_nil topic)
  | cons s rest => rfl

theorem perform_new {call : SubscriptionCall} {t : TopicTree} {out : Option Bool}
    (h : TopicTree.new.perform call = some (t, out)) : t = .new ∨ 1 < t.nodeCount := by
  cases call with
  | subscribe f sessionId qos noLocal =>
      right
      obtain ⟨after, hsubscribe, heq⟩ := Option.map_eq_some_iff.mp h
      cases heq
      obtain ⟨⟨grown, idx⟩, hensure, hmodify⟩ := Option.bind_eq_some_iff.mp hsubscribe
      show 1 < t.nodes.length
      rw [length_modifyNode hmodify]
      cases hsegments : segments f with
      | nil => exact absurd hsegments (segments_ne_nil f)
      | cons s rest =>
          rw [hsegments] at hensure
          have hgrown : (TopicTree.new.grown rootNode s).ensureFrom (UInt32.ofNat 1) rest =
              some (grown, idx) := hensure
          exact (length_grown .new rootNode s).ge.trans (length_le_of_ensureFrom hgrown)
  | unsubscribe f sessionId =>
      left
      cases hsegments : segments f with
      | nil => exact absurd hsegments (segments_ne_nil f)
      | cons s rest =>
          simp only [TopicTree.perform, TopicTree.unsubscribe, hsegments] at h
          cases h
          rfl
  | unsubscribeAll sessionId =>
      cases h
      exact .inl rfl

theorem performAll_new {calls : List SubscriptionCall} {t : TopicTree} {outs : List (Option Bool)}
    (h : TopicTree.new.performAll calls = some (t, outs)) : t = .new ∨ 1 < t.nodeCount := by
  induction calls generalizing outs with
  | nil =>
      cases h
      exact .inl rfl
  | cons call calls ih =>
      obtain ⟨after, out, outs', hcall, hcalls, -⟩ := performAll_cons.mp h
      rcases perform_new hcall with rfl | hlt
      · exact ih hcalls
      · exact .inr (Nat.lt_of_lt_of_le hlt (length_le_of_performAll hcalls))

end TopicTree

namespace Subscriptions

section

variable {m : Subscriptions} {f sessionId id : String}

theorem isSome_subscribes {filters : List SubscriptionFilter}
    (h : ((m.performAll
      (filters.map fun g => .subscribe g.filter sessionId g.qos g.noLocal)).1.lookup
        (f, id)).isSome = true) :
    (m.lookup (f, id)).isSome = true ∨ sessionId = id ∧ f ∈ filters.map (·.filter) := by
  induction filters generalizing m with
  | nil => exact .inl h
  | cons g filters ih =>
      rcases ih h with hfirst | ⟨hid, hf⟩
      · by_cases hkey : (f, id) = (g.filter, sessionId)
        · cases hkey
          exact .inr ⟨rfl, List.mem_cons_self⟩
        · left
          simpa only [perform, AList.lookup_insert_ne hkey] using hfirst
      · exact .inr ⟨hid, List.mem_cons_of_mem _ hf⟩

theorem isSome_unsubscribes {topics : List String}
    (h : ((m.performAll (topics.map fun topic => .unsubscribe topic sessionId)).1.lookup
      (f, id)).isSome = true) : (m.lookup (f, id)).isSome = true := by
  induction topics generalizing m with
  | nil => exact h
  | cons topic topics ih =>
      have hfirst := ih h
      by_cases hkey : (f, id) = (topic, sessionId)
      · rw [hkey] at hfirst
        simp at hfirst
      · simpa only [perform, AList.lookup_erase_ne hkey] using hfirst

end

end Subscriptions

/-! ## New sessions -/

structure Renewed where
  state : State
  /-- The subscriptions as the packets of the clients have made them. -/
  table : Subscriptions
  /-- What a session that a clean start has made has subscribed to. -/
  own : Ref → Option (List String)

namespace Renewed

def start (config : Config) : Renewed where
  state := .start config
  table := ∅
  own := fun _ => none

def record (r : Renewed) : Label → Ref → Option (List String)
  | .act t _ =>
    match (r.state.tasks t).todo with
    | .enroll a none :: _ =>
      Function.update r.own r.state.shared.nextRef (if a.connect.cleanStart then some [] else none)
    | .subscribe _ p :: _ =>
      match (r.state.tasks t).clientSession with
      | some ref => Function.update r.own ref ((r.own ref).map (· ++ p.filter.map (·.filter)))
      | none => r.own
    | _ => r.own
  | _ => r.own

def step (r : Renewed) (l : Label) : Option Renewed :=
  (r.state.step l).map fun state =>
    { state, table := (r.table.performAll (r.state.calls l)).1, own := r.record l }

/-- The client id that the label accepts a CONNECT with clean start for. -/
def renews (r : Renewed) : Label → Option String
  | .act t _ =>
    match (r.state.tasks t).todo with
    | .enroll a none :: _ => if a.connect.cleanStart then some a.sessionId else none
    | _ => none
  | _ => none

/-- The SUBSCRIBE that the label handles, its client id and the session of the connection. -/
def subscribes (r : Renewed) : Label → Option (String × Subscribe × Option Ref)
  | .act t _ =>
    match (r.state.tasks t).todo with
    | .subscribe sessionId p :: _ => some (sessionId, p, (r.state.tasks t).clientSession)
    | _ => none
  | _ => none

/-- The task has a publish to deliver to the client. -/
def InFlight (r : Renewed) (id : String) (publish : Publish) : Prop :=
  ∃ t sender, ∃ sub : Subscriber,
    .deliver publish sender sub ∈ (r.state.tasks t).todo ∧ sub.sessionId = id

/-- A clean start finds no subscription of the client and no publish on the way to it, and a
SUBSCRIBE under its id comes from the connection of the new session, or for what that has
subscribed to already. -/
structure Clean (r : Renewed) (l : Label) : Prop where
  nodes : r.state.shared.tree.nodeCount ≤ 2 ^ 32
  unsubscribed : ∀ id ∈ r.renews l, ∀ e ∈ r.table.entries, e.1.2 ≠ id
  quiet : ∀ id ∈ r.renews l, ∀ publish, ¬ r.InFlight id publish
  owner : ∀ x ∈ r.subscribes l, ∀ ref ∈ r.state.shared.pool.find x.1, ∀ filters ∈ r.own ref,
    x.2.2 = some ref ∨ ∀ f ∈ x.2.1.filter, f.filter ∈ filters

/-- The publish that the label hands over to a session. -/
def delivers (r : Renewed) : Label → Option (Publish × Ref)
  | .act t _ =>
    match (r.state.tasks t).todo with
    | .deliver publish sender sub :: _ =>
      if sub.noLocal ∧ sub.sessionId = sender then none
      else (r.state.shared.pool.getActive sub.sessionId).map (publish, ·)
    | _ => none
  | _ => none

/-- The tree has no subscription of a client with a new session but those that the session
has made, and nothing else is delivered to it. -/
structure Forgotten (r : Renewed) (l : Label) : Prop where
  tree : ∀ id ref filters, r.state.shared.pool.getActive id = some ref → r.own ref = some filters →
    ∀ f, r.state.shared.tree.HasSubscription f id → f ∈ filters
  delivery : ∀ x ∈ r.delivers l, ∀ filters, r.own x.2 = some filters →
    ∃ f ∈ filters, filterFinds (segments f) (segments x.1.topicName) = true

/-! ## The invariant -/

structure Inv (r : Renewed) : Prop where
  broker : Broker.Inv r.state
  represents : r.state.shared.tree.nodeCount ≤ 2 ^ 32 → r.state.shared.tree.Represents r.table
  table : ∀ id ref filters, r.state.shared.pool.find id = some ref → r.own ref = some filters →
    ∀ f, (r.table.lookup (f, id)).isSome = true → f ∈ filters
  flight : ∀ id ref filters, r.state.shared.pool.find id = some ref → r.own ref = some filters →
    ∀ publish, r.InFlight id publish →
    ∃ f ∈ filters, filterFinds (segments f) (segments publish.topicName) = true

theorem inv_start (config : Config) : (Renewed.start config).Inv := by
  refine ⟨Broker.inv_start config, fun _ => TopicTree.represents_new, fun _ _ _ _ h => ?_,
    fun _ _ _ _ h => ?_⟩
  · cases h
  · cases h

section

variable {r r' : Renewed} {l : Label} {id f : String} {ref : Ref} {filters : List String}

theorem step_eq_some :
    r.step l = some r' ↔ ∃ state, r.state.step l = some state ∧
      r' = { state, table := (r.table.performAll (r.state.calls l)).1, own := r.record l } := by
  rw [step, Option.map_eq_some_iff]
  exact exists_congr fun state => and_congr_right fun _ => eq_comm

/-- A subscription was in the table before or is made by the SUBSCRIBE at hand. -/
theorem table_cases
    (h : ((r.table.performAll (r.state.calls l)).1.lookup (f, id)).isSome = true) :
    (r.table.lookup (f, id)).isSome = true ∨
      ∃ p clientSession, r.subscribes l = some (id, p, clientSession) ∧
        f ∈ p.filter.map (·.filter) := by
  cases l with
  | act t c =>
      cases htodo : (r.state.tasks t).todo with
      | nil =>
          simp only [State.calls, htodo] at h
          exact .inl h
      | cons a rest =>
          simp only [State.calls, htodo] at h
          cases a with
          | subscribe sessionId p =>
              rcases Subscriptions.isSome_subscribes h with hold | ⟨rfl, hf⟩
              · exact .inl hold
              · exact .inr ⟨p, (r.state.tasks t).clientSession, by simp only [subscribes, htodo], hf⟩
          | unsubscribe sessionId p => exact .inl (Subscriptions.isSome_unsubscribes h)
          | _ => exact .inl h
  | _ => exact .inl h

/-- What a new session has subscribed to grows with the SUBSCRIBEs of its connections. -/
theorem own_cases (h : r.record l ref = some filters) (hlt : ref < r.state.shared.nextRef) :
    ∃ before, r.own ref = some before ∧ (∀ g ∈ before, g ∈ filters) ∧
      ∀ id p, r.subscribes l = some (id, p, some ref) → ∀ g ∈ p.filter, g.filter ∈ filters := by
  have hplain : r.own ref = some filters → (∀ id p, r.subscribes l ≠ some (id, p, some ref)) →
      ∃ before, r.own ref = some before ∧ (∀ g ∈ before, g ∈ filters) ∧
        ∀ id p, r.subscribes l = some (id, p, some ref) → ∀ g ∈ p.filter, g.filter ∈ filters :=
    fun hown hnot => ⟨filters, hown, fun _ => id, fun id p heq => absurd heq (hnot id p)⟩
  cases l with
  | act t c =>
      cases htodo : (r.state.tasks t).todo with
      | nil =>
          simp only [record, htodo] at h
          exact hplain h fun id p => by simp [subscribes, htodo]
      | cons a rest =>
          cases a with
          | subscribe sessionId p =>
              simp only [record, htodo] at h
              cases hclient : (r.state.tasks t).clientSession with
              | none =>
                  rw [hclient] at h
                  exact hplain h fun id p => by simp [subscribes, htodo, hclient]
              | some client =>
                  rw [hclient] at h
                  by_cases hne : ref = client
                  · subst hne
                    simp only [Function.update_self, Option.map_eq_some_iff] at h
                    obtain ⟨before, hbefore, rfl⟩ := h
                    refine ⟨before, hbefore, fun g hg => List.mem_append_left _ hg, ?_⟩
                    intro id p' heq g hg
                    simp only [subscribes, htodo, hclient, Option.some.injEq, Prod.mk.injEq] at heq
                    obtain ⟨-, rfl, -⟩ := heq
                    exact List.mem_append_right _ (List.mem_map_of_mem hg)
                  · simp only [Function.update_of_ne hne] at h
                    refine hplain h fun id p => ?_
                    simp [subscribes, htodo, hclient, Ne.symm hne]
          | enroll x target =>
              refine hplain ?_ fun id p => by simp [subscribes, htodo]
              cases target with
              | some _ => simpa only [record, htodo] using h
              | none =>
                  simpa only [record, htodo, Function.update_of_ne (Nat.ne_of_lt hlt)] using h
          | _ => exact hplain (by simpa only [record, htodo] using h) fun id p => by simp [subscribes, htodo]
  | _ => exact hplain h fun id p heq => by cases heq

/-- A client with a new session had it before, or a clean start makes it. -/
theorem find_cases (inv : Broker.Inv r.state) {state : State} (hstep : r.state.step l = some state)
    (hfind : state.shared.pool.find id = some ref) (hown : r.record l ref = some filters) :
    r.state.shared.pool.find id = some ref ∧ ref < r.state.shared.nextRef ∨
      r.renews l = some id ∧ r.state.calls l = [] := by
  have hold : state.shared.pool.find id = r.state.shared.pool.find id →
      r.state.shared.pool.find id = some ref ∧ ref < r.state.shared.nextRef := by
    intro hsame
    rw [hsame] at hfind
    exact ⟨hfind, inv.sound.find_lt hfind⟩
  rcases step_cases hstep with ⟨n, e, todo, rfl, h⟩ | ⟨t, c, a, rest, sh, next, rfl, h⟩ |
    ⟨token, rfl, h⟩ | ⟨accept, rfl, rfl⟩ | ⟨secs, rfl, -, rfl⟩
  · left
    apply hold
    rw [(Shared.frame_of_handle h.handle).1.pool]
  · have hpool : state.shared.pool = sh.pool := by
      rw [h.shared]
      exact (Shared.frame_afterNext sh (r.state.tasks t) next).pool
    rcases Shared.find_of_performed h.performed inv.sound id with hsame | hnone | ⟨x, rfl, rfl, hnew⟩
    · exact .inl (hold (by rw [hpool, hsame]))
    · rw [hpool, hnone] at hfind
      cases hfind
    · rw [hpool, hnew] at hfind
      cases hfind
      right
      simp only [record, h.todo, Function.update_self] at hown
      split at hown
      · rename_i hclean
        refine ⟨?_, by simp only [State.calls, h.todo]; rfl⟩
        simp only [renews, h.todo]
        exact if_pos hclean
      · cases hown
  · left
    apply hold
    rw [h.shared]
  · exact .inl (hold rfl)
  · exact .inl (hold rfl)

theorem Inv.step (inv : r.Inv) (hclean : r.Clean l) (hstep : r.step l = some r') : r'.Inv := by
  obtain ⟨state, hstate, rfl⟩ := step_eq_some.mp hstep
  refine ⟨inv.broker.step hstate, represents_of_step inv.represents hstate, ?_, ?_⟩
  · intro id ref filters hfind hown f hlookup
    rcases find_cases inv.broker hstate hfind hown with ⟨hfind, hlt⟩ | ⟨hrenews, hcalls⟩
    · obtain ⟨before, hbefore, hle, hnew⟩ := own_cases hown hlt
      rcases table_cases hlookup with hold | ⟨p, clientSession, hsubscribes, hf⟩
      · exact hle f (inv.table id ref before hfind hbefore f hold)
      · obtain ⟨g, hg, rfl⟩ := List.mem_map.mp hf
        rcases hclean.owner _ hsubscribes ref hfind before hbefore with howner | hall
        · cases howner
          exact hnew id p hsubscribes g hg
        · exact hle _ (hall g hg)
    · simp only [hcalls] at hlookup
      obtain ⟨opts, hopts⟩ := Option.isSome_iff_exists.mp hlookup
      exact absurd rfl (hclean.unsubscribed id hrenews _ (AList.mem_lookup_iff.mp hopts))
  · intro id ref filters hfind hown publish hflight
    obtain ⟨t, sender, sub, hmem, hid⟩ := hflight
    rcases find_cases inv.broker hstate hfind hown with ⟨hfind, hlt⟩ | ⟨hrenews, -⟩
    · obtain ⟨before, hbefore, hle, -⟩ := own_cases hown hlt
      rcases deliver_of_step hstate hmem with hold | ⟨-, -, found, -, -, hfound, hsub⟩
      · obtain ⟨f, hf, hfinds⟩ :=
          inv.flight id ref before hfind hbefore publish ⟨t, sender, sub, hold, hid⟩
        exact ⟨f, hle f hf, hfinds⟩
      · obtain ⟨f, hlookup, hfinds⟩ :=
          (inv.represents hclean.nodes).mem_matchingSubscribers hfound hsub
        rw [hid] at hlookup
        exact ⟨f, hle f (inv.table id ref before hfind hbefore f (by rw [hlookup]; rfl)), hfinds⟩
    · rcases deliver_of_step hstate hmem with hold | ⟨c, rest, found, rfl, htodo, -, -⟩
      · exact absurd ⟨t, sender, sub, hold, hid⟩ (hclean.quiet id hrenews publish)
      · -- a step that routes accepts no connection
        simp only [renews, htodo] at hrenews
        cases hrenews

theorem Inv.forgotten (inv : r.Inv) (hclean : r.Clean l) : r.Forgotten l := by
  refine ⟨fun id ref filters hactive hown f hsub => ?_, fun x hx filters hown => ?_⟩
  · exact inv.table id ref filters (SessionPool.find_of_getActive hactive) hown f
      ((inv.represents hclean.nodes).isSome_of_hasSubscription hsub)
  · cases l with
    | act t c =>
        cases htodo : (r.state.tasks t).todo with
        | nil =>
            simp only [delivers, htodo] at hx
            cases hx
        | cons a rest =>
            simp only [delivers, htodo] at hx
            cases a with
            | deliver publish sender sub =>
                simp only at hx
                split at hx
                · cases hx
                · obtain ⟨ref, hactive, rfl⟩ := Option.map_eq_some_iff.mp hx
                  refine inv.flight _ ref filters (SessionPool.find_of_getActive hactive) hown publish ?_
                  exact ⟨t, sender, sub, by rw [htodo]; exact List.mem_cons_self, rfl⟩
            | _ => cases hx
    | _ => cases hx

/-- Nothing reaches the session of a clean start but what it has subscribed to. -/
theorem forgotten_of_clean {config : Config} {ls : List Label}
    (hclean : Along Renewed.step Renewed.Clean (.start config) ls) :
    Along Renewed.step Renewed.Forgotten (.start config) ls :=
  along_of_invariant (I := Renewed.Inv)
    (fun _ _ _ inv hclean hstep => ⟨inv.step hclean hstep, inv.forgotten hclean⟩)
    (inv_start config) hclean

end

/-! ## Before the first subscription -/

section

variable {r r' : Renewed} {l : Label}

/-- Nothing is on the way before someone has subscribed. -/
structure Bare (r : Renewed) : Prop where
  root : 1 ≤ r.state.shared.tree.nodeCount
  tree : r.state.shared.tree.nodeCount = 1 → r.state.shared.tree = .new
  quiet : r.state.shared.tree.nodeCount = 1 → ∀ id publish, ¬ r.InFlight id publish

theorem bare_start (config : Config) : (Renewed.start config).Bare := by
  refine ⟨Nat.le_refl 1, fun _ => rfl, fun _ id publish h => ?_⟩
  obtain ⟨t, sender, sub, hmem, -⟩ := h
  cases hmem

theorem Bare.step (h : r.Bare) (hstep : r.step l = some r') : r'.Bare := by
  obtain ⟨state, hstate, rfl⟩ := step_eq_some.mp hstep
  have hbefore : state.shared.tree.nodeCount = 1 →
      r.state.shared.tree.nodeCount = 1 ∧ r.state.shared.tree = .new ∧
        state.shared.tree = .new := by
    intro hcount
    obtain ⟨outs, hcalls⟩ := performAll_of_step hstate
    have hle := nodeCount_of_step hstate
    rw [hcount] at hle
    -- a tree has its root
    have hone : r.state.shared.tree.nodeCount = 1 := Nat.le_antisymm hle h.root
    rw [h.tree hone] at hcalls
    rcases TopicTree.performAll_new hcalls with hnew | hlt
    · exact ⟨hone, h.tree hone, hnew⟩
    · rw [hcount] at hlt
      exact absurd hlt (Nat.lt_irrefl 1)
  refine ⟨h.root.trans (nodeCount_of_step hstate), fun hcount => (hbefore hcount).2.2,
    fun hcount id publish hflight => ?_⟩
  obtain ⟨hone, hnew, -⟩ := hbefore hcount
  obtain ⟨t, sender, sub, hmem, hid⟩ := hflight
  rcases deliver_of_step hstate hmem with hold | ⟨-, -, found, -, -, hfound, hsub⟩
  · exact h.quiet hone id publish ⟨t, sender, sub, hold, hid⟩
  · rw [hnew, TopicTree.matchingSubscribers_new] at hfound
    cases hfound
    cases hsub

/-- What `Clean` says of a step, but for the publishes on the way. -/
def Checked (r : Renewed) (l : Label) : Prop :=
  r.state.shared.tree.nodeCount ≤ 2 ^ 32 ∧
    (∀ id ∈ r.renews l, ∀ e ∈ r.table.entries, e.1.2 ≠ id) ∧
    ∀ x ∈ r.subscribes l, ∀ ref ∈ r.state.shared.pool.find x.1, ∀ filters ∈ r.own ref,
      x.2.2 = some ref ∨ ∀ f ∈ x.2.1.filter, f.filter ∈ filters

instance (r : Renewed) (l : Label) : Decidable (r.Checked l) :=
  inferInstanceAs (Decidable (_ ∧ _ ∧ ∀ x ∈ r.subscribes l, ∀ ref ∈ r.state.shared.pool.find x.1,
    ∀ filters ∈ r.own ref, _ ∨ _))

/-- Clean starts before the first subscription find nothing on the way. -/
theorem clean_of_checked {config : Config} {ls : List Label}
    (h : Along Renewed.step
      (fun r l => r.Checked l ∧ (r.renews l = none ∨ r.state.shared.tree.nodeCount = 1))
      (.start config) ls) : Along Renewed.step Renewed.Clean (.start config) ls := by
  refine along_of_invariant (I := Renewed.Bare) (fun r l r' hbare hchecked hstep => ?_)
    (bare_start config) h
  obtain ⟨⟨hnodes, hunsubscribed, howner⟩, hrenews⟩ := hchecked
  refine ⟨hbare.step hstep, hnodes, hunsubscribed, fun id hid publish => ?_, howner⟩
  rcases hrenews with hnone | hone
  · cases hnone.symm.trans hid
  · exact hbare.quiet hone id publish

end

/-- A client subscribes after a clean start, and another one publishes. -/
def renewedLabels : List Label :=
  connectLabels 0 ((Connect.new "x").setCleanStart true) 7 ++ subscribeLabels 0 "a" .atMostOnce ++
    connectLabels 1 (.new "y") 7 ++ publishLabels 1 "a" .atMostOnce none 4

theorem along_renewedLabels :
    (run Renewed.step (.start defaultConfig) renewedLabels).map
        (fun r => (r.state.shared.channels 0).queue.length) = some 1 ∧
      Along Renewed.step Renewed.Forgotten (.start defaultConfig) renewedLabels :=
  ⟨by decide +kernel, forgotten_of_clean (clean_of_checked (by decide +kernel))⟩

/-- The client has subscribed before the clean start. -/
def remainingLabels : List Label :=
  connectLabels 0 (.new "x") 7 ++ subscribeLabels 0 "a" .atMostOnce ++
    connectLabels 1 ((Connect.new "x").setCleanStart true) 10 ++ connectLabels 2 (.new "y") 7 ++
    publishLabels 2 "a" .atMostOnce none 2

theorem not_forgotten_of_remaining :
    ¬ ∀ config ls, Along Renewed.step Renewed.Forgotten (Renewed.start config) ls := by
  have hfacts : (run Renewed.step (.start defaultConfig) remainingLabels).map
      (fun r => ((r.delivers (.act (.connection 2) {})).map fun x => (x.2, r.own x.2),
        (r.step (.act (.connection 2) {})).isSome)) = some (some (1, some []), true) := by
    decide +kernel
  intro h
  obtain ⟨r, hrun, hr⟩ := Option.map_eq_some_iff.mp hfacts
  obtain ⟨hdelivers, hsome⟩ := Prod.mk.inj hr
  obtain ⟨⟨publish, ref⟩, hx, heq⟩ := Option.map_eq_some_iff.mp hdelivers
  obtain ⟨-, hown⟩ := Prod.mk.inj heq
  obtain ⟨r', hstep⟩ := Option.isSome_iff_exists.mp hsome
  have halong := ((along_append hrun).mp
    (h defaultConfig (remainingLabels ++ [.act (.connection 2) {}]))).2
  obtain ⟨f, hf, -⟩ := (halong r' hstep).1.delivery _ hx [] hown
  cases hf

end Renewed

end Broker
end Vaux
