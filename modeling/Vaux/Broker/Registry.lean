import Vaux.Broker.Locks
import Vaux.Broker.Subscriptions

/-!
# The subscriptions of the running broker

The tree of the broker is the table that the SUBSCRIBE and UNSUBSCRIBE packets make, as long
as its nodes can be named by 32 bits.  What it finds for a topic then belongs to an entry of
the table, for a topic with wildcards too.
-/

namespace Vaux
namespace Broker

open Wire Mqtt Machine

/-! ## Topics with wildcards -/

/-- The filters that `collect_matches` finds for a topic: wildcards in the topic are compared
as any other segment. -/
def filterFinds : List String → List String → Bool
  | [], [] => true
  | [], _ :: _ => false
  | segment :: rest, topic =>
    segment = "#" && rest = [] ||
      match topic with
      | [] => false
      | t :: topic => (segment = "+" || segment = t) && filterFinds rest topic

/-- For a topic without wildcards these are the filters that match it. -/
theorem filterFinds_eq_filterMatches {topic : List String} (ht : Plain topic) (f : List String) :
    filterFinds f topic = filterMatches f topic := by
  induction f generalizing topic with
  | nil => cases topic <;> rfl
  | cons segment rest ih =>
      cases topic with
      | nil =>
          by_cases hsegment : segment = "#"
          · simp [filterFinds, filterMatches, hsegment]
          · simp [filterFinds, filterMatches, hsegment]
      | cons t topic =>
          obtain ⟨⟨-, hhash⟩, htail⟩ := List.forall_mem_cons.mp ht
          by_cases hsegment : segment = "#"
          · subst hsegment
            simp [filterFinds, filterMatches, hhash.symm]
          · simp [filterFinds, filterMatches, hsegment, ih htail]

theorem filterFinds_hash (topic : List String) : filterFinds ["#"] topic = true := by
  simp [filterFinds]

theorem filterFinds_cons {segment t : String} {f topic : List String}
    (hsegment : segment = "+" ∨ segment = t) (h : filterFinds f topic = true) :
    filterFinds (segment :: f) (t :: topic) = true := by
  rcases hsegment with rfl | rfl <;> simp [filterFinds, h]

/-- The filters looked into below `p` go on from it with a filter that finds the topic, or
are `p` itself where it ends in `#`. -/
theorem finds_of_mem_visits {p q topic : List String} (h : q ∈ visits p topic) :
    ∃ f, q = p ++ f ∧ (filterFinds f topic = true ∨ f = [] ∧ p.getLastD "" = "#") := by
  induction topic generalizing p with
  | nil =>
      simp only [visits, List.mem_cons, List.not_mem_nil, or_false] at h
      rcases h with rfl | rfl
      · exact ⟨[], (List.append_nil q).symm, .inl rfl⟩
      · exact ⟨["#"], rfl, .inl (filterFinds_hash [])⟩
  | cons s topic ih =>
      -- a filter below a child goes on with the segment of the child
      have hbelow : ∀ segment, segment = "+" ∨ segment = s → q ∈ visits (p ++ [segment]) topic →
          ∃ f, q = p ++ f ∧
            (filterFinds f (s :: topic) = true ∨ f = [] ∧ p.getLastD "" = "#") := by
        intro segment hsegment hq
        obtain ⟨f, rfl, hfinds⟩ := ih hq
        refine ⟨segment :: f, (List.append_cons p segment f).symm, .inl ?_⟩
        rcases hfinds with hfinds | ⟨rfl, hlast⟩
        · exact filterFinds_cons hsegment hfinds
        · have hhash : segment = "#" := by simpa using hlast
          rw [hhash]
          exact filterFinds_hash _
      simp only [visits, List.mem_append, List.mem_singleton] at h
      rcases h with ((h | h) | h) | rfl
      · split at h
        · exact ⟨[], by rw [List.mem_singleton.mp h, List.append_nil], .inr ⟨rfl, ‹_›⟩⟩
        · cases h
      · exact hbelow s (.inr rfl) h
      · exact hbelow "+" (.inl rfl) h
      · exact ⟨["#"], rfl, .inl (filterFinds_hash _)⟩

namespace TopicTree

section

variable {t t' : TopicTree} {paths : List (List String)} {content : List String → List Subscriber}
  {p : List String} {i : UInt32} {node : TopicNode} {m : Subscriptions} {x : Subscriber}

/-- What is found from a node on is found at a filter below it, or at the node itself where
its path ends in `#`. -/
theorem Rep.mem_collectMatches (h : t.Rep paths content) (hp : paths[i.toNat]? = some p)
    {topic : List String} {found : List Subscriber} (hfound : t.collectMatches i topic = some found)
    (hx : x ∈ found) :
    ∃ f, x ∈ content (p ++ f) ∧
      (filterFinds f topic = true ∨ f = [] ∧ p.getLastD "" = "#") := by
  rw [← collectFrom_map, h.collectFrom hp, Option.map_some, List.map_flatMap] at hfound
  cases hfound
  obtain ⟨q, hq, hx⟩ := List.mem_flatMap.mp hx
  obtain ⟨f, rfl, hfinds⟩ := finds_of_mem_visits hq
  refine ⟨f, ?_, hfinds⟩
  simpa [tagged, Function.comp_def] using hx

/-! ## The tree and the table -/

/-- The tree has the subscriptions of the table. -/
def Represents (t : TopicTree) (m : Subscriptions) : Prop :=
  ∃ paths content, t.Rep paths content ∧ Stores content m

theorem represents_new : TopicTree.new.Represents ∅ :=
  ⟨[[]], fun _ => [], rep_new, stores_empty⟩

theorem Represents.performAll (h : t.Represents m) {calls : List SubscriptionCall}
    {outs : List (Option Bool)} (hrun : t.performAll calls = some (t', outs))
    (hle : t'.nodeCount ≤ 2 ^ 32) : t'.Represents (m.performAll calls).1 := by
  obtain ⟨paths, content, hrep, hstores⟩ := h
  obtain ⟨paths', content', hrep', hstores', -⟩ := hrep.performAll hrun hle hstores
  exact ⟨paths', content', hrep', hstores'⟩

/-- A subscriber that is found for a topic has a subscription that finds it. -/
theorem Represents.mem_matchingSubscribers (h : t.Represents m) {topic : String}
    {found : List Subscriber} (hfound : t.matchingSubscribers topic = some found) (hx : x ∈ found) :
    ∃ f, m.lookup (f, x.sessionId) = some (x.qos, x.noLocal) ∧
      filterFinds (segments f) (segments topic) = true := by
  obtain ⟨paths, content, hrep, hstores⟩ := h
  obtain ⟨q, hq, hfinds⟩ := hrep.mem_collectMatches (i := rootNode) hrep.root hfound hx
  obtain ⟨f, hf, hlookup⟩ := (hstores.mem _ _).mp hq
  rw [List.nil_append] at hf
  subst hf
  refine ⟨f, hlookup, hfinds.resolve_right ?_⟩
  rintro ⟨-, hlast⟩
  exact absurd hlast (by decide)

/-- For a topic without wildcards the tree finds each matching subscription once. -/
theorem Represents.perm_matchingSubscribers (h : t.Represents m) {topic : String}
    (ht : Plain (segments topic)) {found : List Subscriber}
    (hfound : t.matchingSubscribers topic = some found) : found.Perm (m.matchingSubscribers topic) := by
  obtain ⟨paths, content, hrep, hstores⟩ := h
  have hcollect := hrep.collectMatches (i := rootNode) hrep.root (by decide) ht
  cases hfound.symm.trans hcollect
  exact hstores.perm ht

/-- The tree has a subscription of the session to the filter. -/
def HasSubscription (t : TopicTree) (filter sessionId : String) : Prop :=
  ∃ idx node, t.findPath (segments filter) = some (some idx) ∧ t.nodes[idx.toNat]? = some node ∧
    ∃ x ∈ node.list ((segments filter).getLastD ""), x.sessionId = sessionId

theorem Represents.isSome_of_hasSubscription (h : t.Represents m) {filter sessionId : String}
    (hsub : t.HasSubscription filter sessionId) : (m.lookup (filter, sessionId)).isSome = true := by
  obtain ⟨paths, content, hrep, hstores⟩ := h
  obtain ⟨idx, node, hfind, hnode, x, hx, hid⟩ := hsub
  rcases hrep.findFrom (i := rootNode) hrep.root (segments filter) with
    ⟨j, hsome, hidx⟩ | ⟨hnone, -⟩
  · cases hfind.symm.trans hsome
    rw [List.nil_append] at hidx
    rw [(hrep.list hnode hidx).1] at hx
    exact hstores.isSome.mpr ⟨x, hx, hid⟩
  · cases hfind.symm.trans hnone

end

end TopicTree

/-! ## Steps -/

/-- The calls that an action makes to the tree. -/
def Action.calls : Action → List SubscriptionCall
  | .subscribe sessionId p => p.filter.map fun f => .subscribe f.filter sessionId f.qos f.noLocal
  | .unsubscribe sessionId p => p.topics.map fun topic => .unsubscribe topic sessionId
  | _ => []

/-- The calls that a step makes to the tree. -/
def State.calls (s : State) : Label → List SubscriptionCall
  | .act t _ =>
    match (s.tasks t).todo with
    | a :: _ => a.calls
    | [] => []
  | _ => []

namespace Shared

section

variable {sh sh' : Shared} {t : TaskId} {c : Choice} {a : Action} {next : Next}

theorem performAll_of_subscribeAll {sessionId : String} {tree tree' : TopicTree}
    {filters : List SubscriptionFilter} (h : subscribeAll sessionId tree filters = some tree') :
    ∃ outs, tree.performAll
      (filters.map fun f => .subscribe f.filter sessionId f.qos f.noLocal) = some (tree', outs) := by
  induction filters generalizing tree with
  | nil =>
      cases h
      exact ⟨[], rfl⟩
  | cons filter filters ih =>
      obtain ⟨after, hsubscribe, hrest⟩ := Option.bind_eq_some_iff.mp h
      obtain ⟨outs, houts⟩ := ih hrest
      refine ⟨none :: outs, TopicTree.performAll_cons.mpr ⟨after, none, outs, ?_, houts, rfl⟩⟩
      simp only [TopicTree.perform, hsubscribe, Option.map_some]

theorem performAll_of_unsubscribeAll {sessionId : String} {tree tree' : TopicTree}
    {topics : List String} {reasons : List Reason}
    (h : unsubscribeAll sessionId tree topics = some (tree', reasons)) :
    ∃ outs, tree.performAll (topics.map fun topic => .unsubscribe topic sessionId) =
      some (tree', outs) := by
  induction topics generalizing tree reasons with
  | nil =>
      cases h
      exact ⟨[], rfl⟩
  | cons topic topics ih =>
      obtain ⟨⟨after, removed⟩, hunsubscribe, hrest⟩ := Option.bind_eq_some_iff.mp h
      obtain ⟨⟨after', reasons'⟩, hrest', heq⟩ := Option.bind_eq_some_iff.mp hrest
      cases heq
      obtain ⟨outs, houts⟩ := ih hrest'
      refine ⟨some removed :: outs,
        TopicTree.performAll_cons.mpr ⟨after, some removed, outs, ?_, houts, rfl⟩⟩
      simp only [TopicTree.perform, hunsubscribe, Option.map_some]

theorem delivered_tree {publish : Publish} {sender : String} {sub : Subscriber}
    (h : Delivered sh publish sender sub sh') : sh'.tree = sh.tree := by
  cases h <;> rfl

theorem choose_tree (sh : Shared) (a : Admission) : (sh.choose a).1.tree = sh.tree := by
  rcases choose_cases sh a with ⟨_, pool, -, -, heq, -⟩ | ⟨ref, pool, sessions, -, heq, -⟩ |
    ⟨ref, -, heq, -⟩ | ⟨-, -, heq, -⟩
  all_goals rw [heq]

theorem performAll_of_performed (h : Performed sh t c a sh' next) :
    ∃ outs, sh.tree.performAll a.calls = some (sh'.tree, outs) := by
  have hsame : a.calls = [] → sh'.tree = sh.tree →
      ∃ outs, sh.tree.performAll a.calls = some (sh'.tree, outs) := by
    intro hcalls htree
    rw [hcalls, htree]
    exact ⟨[], rfl⟩
  cases h with
  | subscribe sessionId p tree hsubscribe => exact performAll_of_subscribeAll hsubscribe
  | unsubscribe sessionId p tree reasons hunsubscribe =>
      exact performAll_of_unsubscribeAll hunsubscribe
  | enter x _ _ => exact hsame rfl (choose_tree sh x)
  | deliver publish sender sub _ hdeliver =>
      exact hsame rfl (delivered_tree (delivered_of_deliver hdeliver))
  | adopt x ref => exact hsame rfl (adopt_same sh x ref).2.2.2
  | setPendingWill ref token _ =>
      refine hsame rfl ?_
      cases (sh.sessions ref).pendingWill <;> rfl
  | _ => exact hsame rfl rfl

/-- Deliveries come from the subscribers that are found for a publish. -/
theorem deliver_of_performed (h : Performed sh t c a sh' next) {publish : Publish} {sender : String}
    {sub : Subscriber} (hx : .deliver publish sender sub ∈ next.more) :
    ∃ found, a = .route publish sender ∧
      sh.tree.matchingSubscribers publish.topicName = some found ∧ sub ∈ found := by
  cases ha : a.inPool with
  | true =>
      cases h with
      | lockPool | leavePool | deliver => cases hx
      | _ => cases ha
  | false =>
      rcases inPool_of_performed h ha with hmore | ⟨publish', sender', -, rfl, -⟩
      · cases hmore _ hx
      · cases h with
        | route _ _ found hfound =>
            have hroute : ∃ sub' ∈ found, Action.deliver publish' sender' sub' = .deliver publish sender sub := by
              simpa [Next.more] using hx
            obtain ⟨sub', hsub', heq⟩ := hroute
            cases heq
            exact ⟨found, rfl, hfound, hsub'⟩

end

end Shared

section

variable {s s' : State} {l : Label} {m : Subscriptions}

theorem performAll_of_step (hstep : s.step l = some s') :
    ∃ outs, s.shared.tree.performAll (s.calls l) = some (s'.shared.tree, outs) := by
  rcases step_cases hstep with ⟨n, e, todo, rfl, h⟩ | ⟨t, c, a, rest, sh, next, rfl, h⟩ |
    ⟨token, rfl, h⟩ | ⟨accept, rfl, rfl⟩ | ⟨secs, rfl, -, rfl⟩
  · rcases Shared.handle_shared h.handle with heq | ⟨ch, msg, queue, -, -, -, heq⟩
    · rw [heq]
      exact ⟨[], rfl⟩
    · rw [heq]
      exact ⟨[], rfl⟩
  · rw [h.shared, (Shared.afterNext_same sh (s.tasks t) next).2.2.2.2]
    simp only [State.calls, h.todo]
    exact Shared.performAll_of_performed h.performed
  · rw [h.shared]
    exact ⟨[], rfl⟩
  · exact ⟨[], rfl⟩
  · exact ⟨[], rfl⟩

theorem nodeCount_of_step (hstep : s.step l = some s') :
    s.shared.tree.nodeCount ≤ s'.shared.tree.nodeCount := by
  obtain ⟨outs, hcalls⟩ := performAll_of_step hstep
  exact TopicTree.length_le_of_performAll hcalls

/-- The table keeps up with the tree. -/
theorem represents_of_step
    (h : s.shared.tree.nodeCount ≤ 2 ^ 32 → s.shared.tree.Represents m)
    (hstep : s.step l = some s') (hle : s'.shared.tree.nodeCount ≤ 2 ^ 32) :
    s'.shared.tree.Represents (m.performAll (s.calls l)).1 := by
  obtain ⟨outs, hcalls⟩ := performAll_of_step hstep
  exact (h ((nodeCount_of_step hstep).trans hle)).performAll hcalls hle

/-- A delivery that a task has left was there before, or comes from the subscribers that the
step finds. -/
theorem deliver_of_step (hstep : s.step l = some s') {t : TaskId} {publish : Publish}
    {sender : String} {sub : Subscriber} (hx : .deliver publish sender sub ∈ (s'.tasks t).todo) :
    .deliver publish sender sub ∈ (s.tasks t).todo ∨
      ∃ c rest found, l = .act t c ∧ (s.tasks t).todo = .route publish sender :: rest ∧
        s.shared.tree.matchingSubscribers publish.topicName = some found ∧ sub ∈ found := by
  have hother : ∀ t', (t ≠ t' → s'.tasks t = s.tasks t) → t ≠ t' →
      .deliver publish sender sub ∈ (s.tasks t).todo := fun t' h hne => h hne ▸ hx
  rcases step_cases hstep with ⟨n, e, todo, rfl, h⟩ | ⟨t', c, a, rest, sh, next, rfl, h⟩ |
    ⟨token, rfl, h⟩ | ⟨accept, rfl, rfl⟩ | ⟨secs, rfl, -, rfl⟩
  · by_cases hne : t = .connection n
    · subst hne
      rw [h.self] at hx
      cases Shared.inPool_of_arises (Shared.arises_of_handle h.handle) _ hx
    · exact .inl (hother _ (h.others t) hne)
  · by_cases hne : t = t'
    · subst hne
      rw [h.self] at hx
      rcases mem_todo_after hx with hmore | hrest
      · obtain ⟨found, rfl, hfound, hsub⟩ := Shared.deliver_of_performed h.performed hmore
        exact .inr ⟨c, rest, found, rfl, h.todo, hfound, hsub⟩
      · rw [h.todo]
        exact .inl (List.mem_cons_of_mem _ hrest)
    · exact .inl (hother _ (h.others t) hne)
  · by_cases hne : t = .delay token
    · subst hne
      rw [h.self] at hx
      simp at hx
    · exact .inl (hother _ (h.others t) hne)
  · exact .inl hx
  · exact .inl hx

end

end Broker
end Vaux
