import Vaux.Broker.Subscriptions

/-!
# Once for each subscription

How often `matching_subscribers` returns a subscription.  A topic is not validated, so it
can have segments `+` and `#` of its own.  The filter with `+` at such a segment is the
child for the segment and the child for `+` at once, and one that ends in `#` there is
looked into from above and from within.
-/

namespace Vaux
namespace Broker

open Mqtt

/-- `collect_matches` comes to the filter: as `filterMatches`, but a `#` before the end
stands for the segment `#`. -/
def reaches : List String → List String → Bool
  | [], [] => true
  | [], _ :: _ => false
  | segment :: rest, topic =>
    (segment = "#" && rest = []) ||
      match topic with
      | [] => false
      | t :: topic => (segment = "+" || segment = t) && reaches rest topic

/-- The topic has `+` where the filter has it, or `#` where the filter ends in it. -/
def MeetsWildcard (filter topic : List String) : Prop :=
  ∃ i : Nat, (filter[i]? = some "+" ∧ topic[i]? = some "+") ∨
    (filter[i]? = some "#" ∧ filter.length = i + 1 ∧ topic[i]? = some "#")

/-- In how many ways `collect_matches` comes from a node to what is below it by `filter`;
`hash` tells whether the node is one of a segment `#`. -/
def ways (hash : Bool) : List String → List String → Nat
  | filter, [] => (if filter = [] then 1 else 0) + (if filter = ["#"] then 1 else 0)
  | [], _ :: _ => if hash then 1 else 0
  | segment :: filter, t :: topic =>
    (if segment = t then ways (t = "#") filter topic else 0) +
      (if segment = "+" then ways false filter topic else 0) +
      (if segment = "#" ∧ filter = [] then 1 else 0)

theorem count_visits_of_ne {p f topic : List String} {s s' : String} (h : s ≠ s') :
    (visits (p ++ [s]) topic).count (p ++ s' :: f) = 0 := by
  rw [List.count_eq_zero]
  intro hmem
  obtain ⟨g, hg⟩ := prefix_of_mem_visits hmem
  rw [List.append_assoc, List.append_cancel_left_eq, List.singleton_append, List.cons.injEq] at hg
  exact h hg.1

theorem count_visits_self {p topic : List String} {s : String} :
    (visits (p ++ [s]) topic).count p = 0 := by
  rw [List.count_eq_zero]
  intro hmem
  have hle := (prefix_of_mem_visits hmem).length_le
  rw [List.length_append, List.length_singleton] at hle
  omega

theorem count_visits (p f topic : List String) :
    (visits p topic).count (p ++ f) = ways (p.getLastD "" = "#") f topic := by
  induction topic generalizing p f with
  | nil =>
      simp only [visits, ways, List.count_cons, List.count_nil, beq_iff_eq, Nat.zero_add,
        List.append_cancel_left_eq, List.self_eq_append_right, eq_comm (a := ["#"])]
      exact Nat.add_comm _ _
  | cons s topic ih =>
      cases f with
      | nil =>
          rw [List.append_nil, visits, ways]
          simp only [List.count_append, count_visits_self]
          split <;> simp_all
      | cons s' f =>
          have hbelow : ∀ u : String, (visits (p ++ [u]) topic).count (p ++ s' :: f) =
              if s' = u then ways (u = "#") f topic else 0 := by
            intro u
            split
            · rename_i h
              subst h
              have := ih (p ++ [s']) f
              simpa using this
            · rename_i h
              exact count_visits_of_ne (Ne.symm h)
          rw [visits, ways]
          have hself : (if p.getLastD "" = "#" then [p] else []).count (p ++ s' :: f) = 0 := by
            split <;> simp
          have hhash : [p ++ ["#"]].count (p ++ s' :: f) = if s' = "#" ∧ f = [] then 1 else 0 := by
            rw [List.count_singleton]
            simp [eq_comm (a := "#"), eq_comm (a := ([] : List String))]
          simp only [List.count_append, hbelow, hself, hhash, Nat.zero_add]
          simp

/-- What `hash` is matters only at the node itself. -/
theorem ways_hash {hash hash' : Bool} {s : String} {filter topic : List String} :
    ways hash (s :: filter) topic = ways hash' (s :: filter) topic := by
  cases topic <;> rfl

theorem ways_cons_ne {hash : Bool} {s t : String} {filter topic : List String} (hfilter : filter ≠ []) :
    ways hash (s :: filter) (t :: topic) =
      (if s = t then ways false filter topic else 0) +
        (if s = "+" then ways false filter topic else 0) := by
  obtain ⟨s', filter, rfl⟩ := List.exists_cons_of_ne_nil hfilter
  simp only [ways, reduceCtorEq, and_false, if_false, Nat.add_zero]
  rw [ways_hash]

theorem ways_single {hash : Bool} {s t : String} {topic : List String} :
    ways hash [s] (t :: topic) =
      (if s = t ∧ (topic = [] ∨ t = "#") then 1 else 0) + (if s = "+" ∧ topic = [] then 1 else 0) +
        (if s = "#" then 1 else 0) := by
  cases topic <;> simp [ways, ite_and]

theorem reaches_single {s t : String} {topic : List String} :
    reaches [s] (t :: topic) = true ↔ s = "#" ∨ (s = "+" ∨ s = t) ∧ topic = [] := by
  cases topic <;> simp [reaches]

theorem reaches_cons_ne {s t : String} {filter topic : List String} (hfilter : filter ≠ []) :
    reaches (s :: filter) (t :: topic) = true ↔
      (s = "+" ∨ s = t) ∧ reaches filter topic = true := by
  simp [reaches, hfilter]

/-- The filters `collect_matches` comes to. -/
theorem ways_pos_iff (filter topic : List String) :
    0 < ways false filter topic ↔ reaches filter topic = true := by
  induction topic generalizing filter with
  | nil =>
      rcases filter with _ | ⟨s, filter⟩
      · simp [ways, reaches]
      · by_cases h : s = "#" ∧ filter = [] <;> simp [ways, reaches, h]
  | cons t topic ih =>
      rcases filter with _ | ⟨s, filter⟩
      · simp [ways, reaches]
      · by_cases hfilter : filter = []
        · subst hfilter
          rw [ways_single, reaches_single]
          by_cases hhash : s = "#" <;> by_cases hplus : s = "+" <;> by_cases ht : s = t <;>
            by_cases htopic : topic = [] <;> simp_all
        · rw [ways_cons_ne hfilter, reaches_cons_ne hfilter, ← ih]
          grind

theorem meetsWildcard_cons {s t : String} {filter topic : List String} :
    MeetsWildcard (s :: filter) (t :: topic) ↔
      (s = "+" ∧ t = "+") ∨ (s = "#" ∧ filter = [] ∧ t = "#") ∨ MeetsWildcard filter topic := by
  constructor
  · rintro ⟨i, h⟩
    cases i with
    | zero =>
        rw [← or_assoc]
        exact .inl (by simpa using h)
    | succ i => exact .inr (.inr ⟨i, by simpa using h⟩)
  · rintro (⟨rfl, rfl⟩ | ⟨rfl, rfl, rfl⟩ | ⟨i, h⟩)
    · exact ⟨0, by simp⟩
    · exact ⟨0, by simp⟩
    · exact ⟨i + 1, by simpa using h⟩

theorem not_meetsWildcard_nil (filter : List String) : ¬ MeetsWildcard filter [] := by
  rintro ⟨i, h⟩
  simp at h

theorem not_meetsWildcard_of_nil (topic : List String) : ¬ MeetsWildcard [] topic := by
  rintro ⟨i, h⟩
  simp at h

/-- There is more than one way to a filter exactly if the topic meets a wildcard of it. -/
theorem ways_le_one_iff (filter topic : List String) :
    ways false filter topic ≤ 1 ↔
      ¬ (reaches filter topic = true ∧ MeetsWildcard filter topic) := by
  induction topic generalizing filter with
  | nil =>
      simp only [not_meetsWildcard_nil, and_false, not_false_eq_true, iff_true]
      rcases filter with _ | ⟨s, filter⟩
      · simp [ways]
      · simp only [ways]
        split <;> split <;> simp_all
  | cons t topic ih =>
      rcases filter with _ | ⟨s, filter⟩
      · simp [ways, not_meetsWildcard_of_nil]
      · by_cases hfilter : filter = []
        · subst hfilter
          rw [ways_single, reaches_single, meetsWildcard_cons]
          simp only [not_meetsWildcard_of_nil, or_false, true_and]
          grind
        · have hpos := ways_pos_iff filter topic
          rw [ways_cons_ne hfilter, reaches_cons_ne hfilter, meetsWildcard_cons]
          have hle := ih filter
          grind

/-- Lists put together with the names of their sources repeat nothing exactly if no source
that has anything is named twice. -/
theorem nodup_flatMap_named {α β γ : Type*} [BEq α] [LawfulBEq α] {name : α → γ} {g : α → List β}
    (hg : ∀ a, (g a).Nodup) {l : List α}
    (hname : ∀ a ∈ l, ∀ a' ∈ l, g a ≠ [] → g a' ≠ [] → name a = name a' → a = a') :
    (l.flatMap fun a => (g a).map (Prod.mk (name a))).Nodup ↔ ∀ a, g a ≠ [] → l.count a ≤ 1 := by
  induction l with
  | nil => simp
  | cons c l ih =>
      have htail := ih fun a ha a' ha' =>
        hname a (List.mem_cons_of_mem c ha) a' (List.mem_cons_of_mem c ha')
      have hfirst : ((g c).map (Prod.mk (name c))).Nodup :=
        (hg c).map fun _ _ h => (Prod.mk.inj h).2
      rw [List.flatMap_cons, List.nodup_append]
      simp only [hfirst, true_and, htail]
      constructor
      · rintro ⟨hcount, hdisjoint⟩ a ha
        by_cases hca : c = a
        · subst hca
          have hnot : c ∉ l := by
            intro hmem
            obtain ⟨b, hb⟩ := List.exists_mem_of_ne_nil _ ha
            have hin := List.mem_map_of_mem (f := Prod.mk (name c)) hb
            exact hdisjoint _ hin _ (List.mem_flatMap.mpr ⟨c, hmem, hin⟩) rfl
          rw [List.count_cons_self, List.count_eq_zero_of_not_mem hnot]
        · rw [List.count_cons_of_ne hca]
          exact hcount a ha
      · intro hcount
        refine ⟨fun a ha => (List.count_le_count_cons).trans (hcount a ha), ?_⟩
        rintro x hx y hy rfl
        obtain ⟨b, hb, rfl⟩ := List.mem_map.mp hx
        obtain ⟨a, ha, hab⟩ := List.mem_flatMap.mp hy
        obtain ⟨b', hb', heq⟩ := List.mem_map.mp hab
        obtain ⟨hnames, rfl⟩ := Prod.mk.inj heq
        have hc := hname a (List.mem_cons_of_mem c ha) c List.mem_cons_self
          (List.ne_nil_of_mem hb') (List.ne_nil_of_mem hb) hnames
        subst hc
        have hle := hcount a (List.ne_nil_of_mem hb)
        rw [List.count_cons_self] at hle
        have hpos := List.count_pos_iff.mpr ha
        omega

namespace TopicTree

/-- `matching_subscribers` returns each subscription at most once, that is each entry of a
session in the list of a filter's node. -/
def ReturnsOnce (t : TopicTree) (topic : String) : Prop :=
  ∃ found, t.collectFrom rootNode (segments topic) = some found ∧
    t.matchingSubscribers topic = some (found.map Prod.snd) ∧
    (found.map fun e => (e.1, e.2.sessionId)).Nodup

/-- Each subscription is returned at most once exactly if the topic meets no wildcard of a
filter that `collect_matches` comes to. -/
theorem returnsOnce_iff {calls : List SubscriptionCall} {t : TopicTree}
    {outs : List (Option Bool)} (hrun : TopicTree.new.performAll calls = some (t, outs))
    (hle : t.nodeCount ≤ 2 ^ 32) (topic : String) :
    t.ReturnsOnce topic ↔
      ∀ f sessionId, (f, sessionId) ∈ (Subscriptions.performAll ∅ calls).1 →
        ¬ (reaches (segments f) (segments topic) = true ∧
          MeetsWildcard (segments f) (segments topic)) := by
  obtain ⟨paths, content, hrep, hstores, -⟩ := rep_new.performAll hrun hle stores_empty
  have hfound := hrep.collectFrom (i := rootNode) hrep.root (segments topic)
  have hkeys : ((visits [] (segments topic)).flatMap (tagged paths content)).map
        (fun e => (e.1, e.2.sessionId)) =
      (visits [] (segments topic)).flatMap fun q =>
        ((content q).map (·.sessionId)).map (Prod.mk (indexOf paths q)) := by
    simp [List.map_flatMap, tagged, Function.comp_def]
  have hmem : ∀ q, (content q).map (·.sessionId) ≠ [] → q ∈ paths := by
    intro q hq
    by_contra hnot
    exact hq (by rw [hrep.absent q hnot, List.map_nil])
  have hname : ∀ q ∈ visits [] (segments topic), ∀ q' ∈ visits [] (segments topic),
      (content q).map (·.sessionId) ≠ [] → (content q').map (·.sessionId) ≠ [] →
      indexOf paths q = indexOf paths q' → q = q' := by
    rintro q - q' - hq hq' heq
    exact hrep.indexOf_injOn (hmem q hq) (hmem q' hq') heq
  have honce : t.ReturnsOnce topic ↔
      ∀ q, (content q).map (·.sessionId) ≠ [] → (visits [] (segments topic)).count q ≤ 1 := by
    unfold ReturnsOnce
    simp only [matchingSubscribers, ← collectFrom_map, hfound, Option.map_some, Option.some.injEq,
      exists_eq_left', true_and, hkeys]
    exact nodup_flatMap_named hstores.nodup hname
  rw [honce]
  have hcount : ∀ q, (visits [] (segments topic)).count q = ways false q (segments topic) := by
    intro q
    simpa using count_visits [] q (segments topic)
  simp only [hcount, ways_le_one_iff]
  constructor
  · intro h f sessionId hentry
    obtain ⟨⟨qos, noLocal⟩, hlookup⟩ :=
      Option.isSome_iff_exists.mp (AList.lookup_isSome.mpr hentry)
    have hx : ({ sessionId, qos, noLocal } : Subscriber) ∈ content (segments f) :=
      hstores.mem_segments.mpr hlookup
    exact h (segments f) (by simpa using List.ne_nil_of_mem hx)
  · intro h q hq
    obtain ⟨sessionId, hsession⟩ := List.exists_mem_of_ne_nil _ hq
    obtain ⟨x, hx, rfl⟩ := List.mem_map.mp hsession
    obtain ⟨f, rfl, hlookup⟩ := (hstores.mem q x).mp hx
    exact h f x.sessionId (AList.lookup_isSome.mp (by rw [hlookup]; rfl))

/-- A `+` of the topic where the filter ends in `#`. -/
theorem returnsOnce_of_hash_filter :
    ∃ t outs, TopicTree.new.performAll [.subscribe "a/#" "s" .atMostOnce false] = some (t, outs) ∧
      t.ReturnsOnce "a/+" := by
  obtain ⟨t, outs, hrun⟩ := closed_new.performAll [.subscribe "a/#" "s" .atMostOnce false]
  have hcount : (TopicTree.new.performAll [.subscribe "a/#" "s" .atMostOnce false]).map
      (·.1.nodeCount) = some 3 := by decide +kernel
  simp only [hrun, Option.map_some, Option.some.injEq] at hcount
  refine ⟨t, outs, hrun, (returnsOnce_iff hrun (by omega) "a/+").mpr ?_⟩
  rintro f sessionId hentry ⟨-, hmeets⟩
  have hf : f = "a/#" := by
    simp only [Subscriptions.performAll, Subscriptions.perform, AList.mem_insert] at hentry
    rcases hentry with heq | hmem
    · exact (Prod.mk.inj heq).1
    · exact absurd hmem (AList.notMem_empty _)
  have hfilter : segments "a/#" = ["a", "#"] := by decide +kernel
  have htopic : segments "a/+" = ["a", "+"] := by decide +kernel
  rw [hf, hfilter, htopic, meetsWildcard_cons, meetsWildcard_cons] at hmeets
  simp [not_meetsWildcard_nil] at hmeets

/-- The topic `+` with a subscription to the filter `+`. -/
theorem returned_twice :
    ¬ ∀ calls t outs, TopicTree.new.performAll calls = some (t, outs) →
      ∀ topic, t.ReturnsOnce topic := by
  intro h
  obtain ⟨t, outs, hrun⟩ := closed_new.performAll [.subscribe "+" "s" .atMostOnce false]
  have htwice : (TopicTree.new.performAll [.subscribe "+" "s" .atMostOnce false]).bind
      (fun r => r.1.collectFrom rootNode (segments "+")) =
        some [(1, ⟨"s", .atMostOnce, false⟩), (1, ⟨"s", .atMostOnce, false⟩)] := by decide +kernel
  rw [hrun, Option.bind_some] at htwice
  obtain ⟨found, hfound, -, hnodup⟩ := h _ t outs hrun "+"
  cases hfound.symm.trans htwice
  simp at hnodup

end TopicTree

end Broker
end Vaux
