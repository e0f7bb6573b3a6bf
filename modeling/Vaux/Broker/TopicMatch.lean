import Vaux.Broker.TopicPaths

/-!
# Matching

`collect_matches` goes through the nodes of the filters that match a topic, and each of
them once if the topic itself has no wildcard.
-/

namespace Vaux
namespace Broker

open Mqtt

/-- `+` matches one segment, a final `#` any number of segments, a `#` elsewhere nothing,
and any other segment itself. -/
def filterMatches : List String → List String → Bool
  | [], [] => true
  | [], _ :: _ => false
  | segment :: rest, topic =>
    if segment = "#" then rest = []
    else
      match topic with
      | [] => false
      | t :: topic => (segment = "+" || segment = t) && filterMatches rest topic

/-- A topic without wildcards. -/
def Plain (topic : List String) : Prop := ∀ s ∈ topic, s ≠ "+" ∧ s ≠ "#"

/-- The filters below `p` that match `topic`, in the order of `collect_matches`. -/
def candidates (p : List String) : List String → List (List String)
  | [] => [p, p ++ ["#"]]
  | s :: rest => candidates (p ++ [s]) rest ++ candidates (p ++ ["+"]) rest ++ [p ++ ["#"]]

theorem filterMatches_nil (f : List String) : filterMatches f [] = true ↔ f = [] ∨ f = ["#"] := by
  cases f with
  | nil => simp [filterMatches]
  | cons s f =>
      by_cases hs : s = "#"
      · simp [filterMatches, hs]
      · simp [filterMatches, hs]

theorem filterMatches_cons {f : List String} {t : String} {topic : List String} (ht : t ≠ "#") :
    filterMatches f (t :: topic) = true ↔
      f = ["#"] ∨ ∃ f', (f = t :: f' ∨ f = "+" :: f') ∧ filterMatches f' topic = true := by
  cases f with
  | nil => simp [filterMatches]
  | cons s f =>
      by_cases hs : s = "#"
      · subst hs
        simp [filterMatches, ht.symm]
      · simp only [filterMatches, hs, if_false, Bool.and_eq_true, Bool.or_eq_true, decide_eq_true_eq,
          List.cons.injEq, false_and, false_or]
        constructor
        · rintro ⟨rfl | rfl, hmatch⟩
          · exact ⟨f, .inr ⟨rfl, rfl⟩, hmatch⟩
          · exact ⟨f, .inl ⟨rfl, rfl⟩, hmatch⟩
        · rintro ⟨f', ⟨rfl, rfl⟩ | ⟨rfl, rfl⟩, hmatch⟩
          · exact ⟨.inr rfl, hmatch⟩
          · exact ⟨.inl rfl, hmatch⟩

theorem mem_candidates {p q topic : List String} (ht : Plain topic) :
    q ∈ candidates p topic ↔ ∃ f, q = p ++ f ∧ filterMatches f topic = true := by
  induction topic generalizing p with
  | nil =>
      simp only [candidates, List.mem_cons, List.not_mem_nil, or_false, filterMatches_nil]
      constructor
      · rintro (rfl | rfl)
        · exact ⟨[], by simp⟩
        · exact ⟨["#"], by simp⟩
      · rintro ⟨f, rfl, rfl | rfl⟩
        · exact .inl (List.append_nil p)
        · exact .inr rfl
  | cons t topic ih =>
      obtain ⟨⟨-, hhash⟩, htail⟩ := List.forall_mem_cons.mp ht
      simp only [candidates, List.mem_append, List.mem_singleton, ih htail, filterMatches_cons hhash]
      constructor
      · rintro ((⟨f, rfl, hf⟩ | ⟨f, rfl, hf⟩) | rfl)
        · exact ⟨t :: f, by simp, .inr ⟨f, .inl rfl, hf⟩⟩
        · exact ⟨"+" :: f, by simp, .inr ⟨f, .inr rfl, hf⟩⟩
        · exact ⟨["#"], rfl, .inl rfl⟩
      · rintro ⟨f, rfl, rfl | ⟨f', rfl | rfl, hf⟩⟩
        · exact .inr rfl
        · exact .inl (.inl ⟨f', by simp, hf⟩)
        · exact .inl (.inr ⟨f', by simp, hf⟩)

theorem nodup_candidates {topic : List String} (ht : Plain topic) (p : List String) :
    (candidates p topic).Nodup := by
  induction topic generalizing p with
  | nil => simp [candidates]
  | cons t topic ih =>
      obtain ⟨⟨hplus, hhash⟩, htail⟩ := List.forall_mem_cons.mp ht
      refine List.nodup_append.mpr ⟨List.nodup_append.mpr ⟨ih htail _, ih htail _, ?_⟩,
        List.nodup_singleton _, ?_⟩
      · -- the two branches differ in the segment below `p`
        intro q hq q' hq' heq
        obtain ⟨f, rfl, -⟩ := (mem_candidates htail).mp hq
        obtain ⟨f', rfl, -⟩ := (mem_candidates htail).mp hq'
        simp only [List.append_assoc, List.singleton_append] at heq
        exact hplus (List.cons.inj (List.append_cancel_left heq)).1
      · -- neither of them has `#` there
        intro q hq q' hq' heq
        rw [List.mem_singleton] at hq'
        subst hq' heq
        rcases List.mem_append.mp hq with hq | hq
        · obtain ⟨f, heq, -⟩ := (mem_candidates htail).mp hq
          simp only [List.append_assoc, List.singleton_append] at heq
          exact hhash (List.cons.inj (List.append_cancel_left heq)).1.symm
        · obtain ⟨f, heq, -⟩ := (mem_candidates htail).mp hq
          simp only [List.append_assoc, List.singleton_append] at heq
          exact absurd (List.cons.inj (List.append_cancel_left heq)).1 (by decide)

/-- The filters `collect_matches` looks into at and below `p`, each as often as it does: the
topic may have wildcards of its own. -/
def visits (p : List String) : List String → List (List String)
  | [] => [p, p ++ ["#"]]
  | s :: rest =>
    (if p.getLastD "" = "#" then [p] else []) ++ visits (p ++ [s]) rest ++
      visits (p ++ ["+"]) rest ++ [p ++ ["#"]]

theorem prefix_of_mem_visits {p q topic : List String} (h : q ∈ visits p topic) : p <+: q := by
  induction topic generalizing p with
  | nil =>
      simp only [visits, List.mem_cons, List.not_mem_nil, or_false] at h
      rcases h with rfl | rfl
      · exact List.prefix_refl _
      · exact List.prefix_append _ _
  | cons s topic ih =>
      simp only [visits, List.mem_append, List.mem_singleton] at h
      rcases h with ((h | h) | h) | rfl
      · split at h
        · rw [List.mem_singleton.mp h]
        · cases h
      · exact (List.prefix_append _ _).trans (ih h)
      · exact (List.prefix_append _ _).trans (ih h)
      · exact List.prefix_append _ _

theorem visits_of_plain {topic : List String} (ht : Plain topic) {p : List String}
    (hlast : p.getLastD "" ≠ "#") : visits p topic = candidates p topic := by
  induction topic generalizing p with
  | nil => rfl
  | cons s topic ih =>
      obtain ⟨⟨-, hhash⟩, htail⟩ := List.forall_mem_cons.mp ht
      rw [visits, candidates, if_neg hlast, ih htail (by simpa using hhash), ih htail (by simp),
        List.nil_append]

/-! ## What the tree collects -/

namespace TopicTree

/-- `hash_node.wildcard_subscribers`, with the index of the node. -/
def hashFrom (self : TopicTree) (node : TopicNode) : Option (List (UInt32 × Subscriber)) :=
  match node.children.lookup "#" with
  | none => some []
  | some hashIdx =>
    (self.nodes[hashIdx.toNat]?).map fun node => node.wildcardSubscribers.map (Prod.mk hashIdx)

/-- `collect_matches`, with the index of the node each subscriber is found at. -/
def collectFrom (self : TopicTree) (nodeIdx : UInt32) :
    List String → Option (List (UInt32 × Subscriber))
  | [] => do
    let node ← self.nodes[nodeIdx.toNat]?
    let hash ← self.hashFrom node
    some ((node.wildcardSubscribers ++ node.subscribers).map (Prod.mk nodeIdx) ++ hash)
  | segment :: rest => do
    let node ← self.nodes[nodeIdx.toNat]?
    let exact ← match node.children.lookup segment with
      | some child => collectFrom self child rest
      | none => some []
    let plus ← match node.children.lookup "+" with
      | some child => collectFrom self child rest
      | none => some []
    let hash ← self.hashFrom node
    some (node.wildcardSubscribers.map (Prod.mk nodeIdx) ++ exact ++ plus ++ hash)

section

variable {t : TopicTree} {paths : List (List String)} {content : List String → List Subscriber}
  {p : List String} {i : UInt32} {node : TopicNode}

theorem hashFrom_map (t : TopicTree) (node : TopicNode) :
    (t.hashFrom node).map (List.map Prod.snd) = t.hashSubscribers node := by
  unfold hashFrom TopicTree.hashSubscribers
  cases node.children.lookup "#" with
  | none => rfl
  | some idx => cases t.nodes[idx.toNat]? <;> simp [Function.comp_def]

theorem collectFrom_map (t : TopicTree) (i : UInt32) (topic : List String) :
    (t.collectFrom i topic).map (List.map Prod.snd) = t.collectMatches i topic := by
  induction topic generalizing i with
  | nil =>
      simp only [collectFrom, TopicTree.collectMatches, Option.bind_eq_bind]
      cases t.nodes[i.toNat]? with
      | none => rfl
      | some node =>
          simp only [Option.bind_some, ← hashFrom_map]
          cases t.hashFrom node <;> simp [Function.comp_def]
  | cons s topic ih =>
      simp only [collectFrom, TopicTree.collectMatches, Option.bind_eq_bind, ← ih]
      cases t.nodes[i.toNat]? with
      | none => rfl
      | some node =>
          have hjoin : ∀ (exact plus hash : Option (List (UInt32 × Subscriber))),
              (exact.bind fun exact => plus.bind fun plus => hash.bind fun hash =>
                some (node.wildcardSubscribers.map (Prod.mk i) ++ exact ++ plus ++ hash)).map
                  (List.map Prod.snd) =
              (exact.map (List.map Prod.snd)).bind fun exact =>
                (plus.map (List.map Prod.snd)).bind fun plus =>
                  (hash.map (List.map Prod.snd)).bind fun hash =>
                    some (node.wildcardSubscribers ++ exact ++ plus ++ hash) := by
            intro exact plus hash
            cases exact <;> cases plus <;> cases hash <;> simp [Function.comp_def]
          simp only [Option.bind_some, ← hashFrom_map]
          cases node.children.lookup s with
          | none =>
              cases node.children.lookup "+" with
              | none => exact hjoin (some []) (some []) _
              | some plus => exact hjoin (some []) (t.collectFrom plus topic) _
          | some child =>
              cases node.children.lookup "+" with
              | none => exact hjoin (t.collectFrom child topic) (some []) _
              | some plus => exact hjoin (t.collectFrom child topic) (t.collectFrom plus topic) _

/-- The index of the node of a path. -/
def indexOf (paths : List (List String)) (p : List String) : UInt32 := UInt32.ofNat (paths.idxOf p)

/-- The subscribers of a path, each with the index of the node of the path. -/
def tagged (paths : List (List String)) (content : List String → List Subscriber)
    (p : List String) : List (UInt32 × Subscriber) :=
  (content p).map (Prod.mk (indexOf paths p))

theorem Rep.indexOf (h : t.Rep paths content) (hp : paths[i.toNat]? = some p) :
    indexOf paths p = i := by
  obtain ⟨hi, rfl⟩ := List.getElem?_eq_some_iff.mp hp
  rw [TopicTree.indexOf, h.nodup.idxOf_getElem, UInt32.ofNat_toNat]

theorem Rep.indexOf_injOn (h : t.Rep paths content) {p q : List String} (hp : p ∈ paths)
    (hq : q ∈ paths) (heq : TopicTree.indexOf paths p = TopicTree.indexOf paths q) : p = q := by
  have hbound : ∀ {p}, p ∈ paths → (TopicTree.indexOf paths p).toNat = paths.idxOf p := by
    intro p hp
    have hlt := List.idxOf_lt_length_of_mem hp
    have hle := h.le
    rw [h.length] at hlt
    rw [TopicTree.indexOf, UInt32.toNat_ofNat']
    omega
  have hidx := congrArg UInt32.toNat heq
  rw [hbound hp, hbound hq] at hidx
  exact (List.idxOf_inj hp).mp hidx

theorem Rep.tagged_absent (h : t.Rep paths content) (hp : p ∉ paths) :
    tagged paths content p = [] := by
  rw [tagged, h.absent p hp, List.map_nil]

/-- One of the two lists of a node is that of its path, the other is empty. -/
theorem Rep.lists (h : t.Rep paths content) (hnode : t.nodes[i.toNat]? = some node)
    (hp : paths[i.toNat]? = some p) :
    node.wildcardSubscribers ++ node.subscribers = content p ∧
      node.wildcardSubscribers = if p.getLastD "" = "#" then content p else [] := by
  obtain ⟨hlist, hother⟩ := h.list hnode hp
  unfold TopicNode.list at hlist
  unfold TopicNode.other at hother
  split at hlist <;> simp_all

theorem Rep.hashFrom (h : t.Rep paths content) (hnode : t.nodes[i.toNat]? = some node)
    (hp : paths[i.toNat]? = some p) :
    t.hashFrom node = some (tagged paths content (p ++ ["#"])) := by
  unfold TopicTree.hashFrom
  cases hlookup : node.children.lookup "#" with
  | none => rw [h.tagged_absent ((h.lookup_none hnode hp).mp hlookup)]
  | some j =>
      have hj := (h.child hnode hp "#" j).mp hlookup
      obtain ⟨child, hchild⟩ := h.node hj
      have hwild := (h.lists hchild hj).2
      simp only [hchild, Option.map_some, tagged, h.indexOf hj, hwild]
      simp

theorem Rep.flatMap_absent (h : t.Rep paths content) (hp : p ∉ paths) (topic : List String) :
    (visits p topic).flatMap (tagged paths content) = [] := by
  rw [List.flatMap_eq_nil_iff]
  intro q hq
  obtain ⟨f, rfl⟩ := prefix_of_mem_visits hq
  exact h.tagged_absent fun hmem => hp (h.closed_append hmem)

/-- What `collect_matches` finds below the child at one segment. -/
def below (t : TopicTree) (node : TopicNode) (s : String) (topic : List String) :
    Option (List (UInt32 × Subscriber)) :=
  match node.children.lookup s with
  | some child => t.collectFrom child topic
  | none => some []

theorem collectFrom_cons (hnode : t.nodes[i.toNat]? = some node) (s : String)
    (topic : List String) :
    t.collectFrom i (s :: topic) =
      (t.below node s topic).bind fun exact =>
        (t.below node "+" topic).bind fun plus =>
          (t.hashFrom node).bind fun hash =>
            some (node.wildcardSubscribers.map (Prod.mk i) ++ exact ++ plus ++ hash) := by
  simp only [TopicTree.collectFrom, hnode, Option.bind_eq_bind, Option.bind_some, below]
  cases node.children.lookup s <;> cases node.children.lookup "+" <;> rfl

theorem Rep.below (h : t.Rep paths content) (hnode : t.nodes[i.toNat]? = some node)
    (hp : paths[i.toNat]? = some p) (s : String) (topic : List String)
    (hchild : ∀ {j : UInt32}, paths[j.toNat]? = some (p ++ [s]) →
      t.collectFrom j topic = some ((visits (p ++ [s]) topic).flatMap (tagged paths content))) :
    t.below node s topic = some ((visits (p ++ [s]) topic).flatMap (tagged paths content)) := by
  unfold TopicTree.below
  cases hlookup : node.children.lookup s with
  | none => rw [h.flatMap_absent ((h.lookup_none hnode hp).mp hlookup)]
  | some j => exact hchild ((h.child hnode hp s j).mp hlookup)

theorem Rep.collectFrom (h : t.Rep paths content) (hp : paths[i.toNat]? = some p)
    (topic : List String) :
    t.collectFrom i topic = some ((visits p topic).flatMap (tagged paths content)) := by
  induction topic generalizing i p with
  | nil =>
      obtain ⟨node, hnode⟩ := h.node hp
      obtain ⟨hlists, -⟩ := h.lists hnode hp
      simp only [TopicTree.collectFrom, hnode, Option.bind_eq_bind, Option.bind_some,
        h.hashFrom hnode hp, hlists, visits]
      rw [← h.indexOf hp]
      simp [tagged]
  | cons s topic ih =>
      obtain ⟨node, hnode⟩ := h.node hp
      obtain ⟨-, hwild⟩ := h.lists hnode hp
      have hexact := h.below hnode hp s topic ih
      have hplus := h.below hnode hp "+" topic ih
      rw [collectFrom_cons hnode, hexact, hplus, h.hashFrom hnode hp, hwild, visits, ← h.indexOf hp]
      split <;> simp [tagged]

theorem Rep.collectMatches (h : t.Rep paths content) (hp : paths[i.toNat]? = some p)
    (hlast : p.getLastD "" ≠ "#") {topic : List String} (ht : Plain topic) :
    t.collectMatches i topic = some ((candidates p topic).flatMap content) := by
  rw [← collectFrom_map, h.collectFrom hp, visits_of_plain ht hlast, Option.map_some,
    List.map_flatMap]
  simp [tagged, Function.comp_def]

end

end TopicTree

end Broker
end Vaux
