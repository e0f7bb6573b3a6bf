import Vaux.Broker.Subscriptions

/-!
# The links of the topic tree

The nodes of the tree name each other by index.  While the indices do not run out, every
edge leads to a later node, which names the edge by its parent and segment, and every node
but the root is at the end of one edge.
-/

namespace Vaux
namespace Broker

open Mqtt

/-- The lists of a node. -/
structure TopicNode.Tidy (node : TopicNode) : Prop where
  subscribers : (node.subscribers.map (·.sessionId)).Nodup
  wildcardSubscribers : (node.wildcardSubscribers.map (·.sessionId)).Nodup
  hash : node.wildcardSubscribers ≠ [] → node.segment = "#"
  plain : node.subscribers ≠ [] → node.segment ≠ "#"

namespace TopicTree

/-- The node at `i` has the node at `j` as its child under the segment `s`. -/
def Edge (t : TopicTree) (i : Nat) (s : String) (j : Nat) : Prop :=
  ∃ (node : TopicNode) (k : UInt32),
    t.nodes[i]? = some node ∧ node.children.lookup s = some k ∧ k.toNat = j

structure Linked (t : TopicTree) : Prop where
  root : 0 < t.nodes.length
  child : ∀ {i : Nat} {s : String} {j : Nat}, t.Edge i s j →
    i < j ∧ ∃ child, t.nodes[j]? = some child ∧ child.parent.toNat = i ∧ child.segment = s
  edge : ∀ {j : Nat} {child : TopicNode}, 0 < j → t.nodes[j]? = some child →
    t.Edge child.parent.toNat child.segment j
  tidy : ∀ {i : Nat} {node : TopicNode}, t.nodes[i]? = some node → node.Tidy

section

variable {t t' : TopicTree} {i idx : UInt32} {s : String}

/-- Only the root is not a child, and no node is a child twice. -/
theorem Linked.existsUnique_parent (h : t.Linked) {j : Nat} (hpos : 0 < j)
    (hj : j < t.nodes.length) : ∃! i, ∃ s, t.Edge i s j := by
  have hnode := List.getElem?_eq_getElem hj
  refine ⟨_, ⟨_, h.edge hpos hnode⟩, ?_⟩
  rintro i ⟨s, hedge⟩
  obtain ⟨-, child, hchild, hparent, -⟩ := h.child hedge
  cases hnode.symm.trans hchild
  exact hparent.symm

theorem Linked.closed (h : t.Linked) : t.Closed := by
  refine ⟨h.root, fun {k node s j} hnode hlookup => ?_⟩
  obtain ⟨-, child, hchild, -⟩ := h.child ⟨node, j, hnode, hlookup, rfl⟩
  exact (List.getElem?_eq_some_iff.mp hchild).1

theorem linked_new : TopicTree.new.Linked := by
  have hnode : ∀ {k : Nat} {node : TopicNode}, TopicTree.new.nodes[k]? = some node →
      k = 0 ∧ node = .new 0 "" := by
    intro k node h
    simpa [TopicTree.new, List.getElem?_singleton, eq_comm] using h
  refine ⟨by decide, ?_, ?_, ?_⟩
  · rintro i s j ⟨node, k, hi, hlookup, -⟩
    obtain ⟨-, rfl⟩ := hnode hi
    cases hlookup
  · intro j child hpos hj
    obtain ⟨rfl, -⟩ := hnode hj
    exact absurd hpos (Nat.lt_irrefl 0)
  · intro k node hk
    obtain ⟨-, rfl⟩ := hnode hk
    exact ⟨List.nodup_nil, List.nodup_nil, absurd rfl, absurd rfl⟩

/-! ## Changes to the lists -/

/-- A change to the lists of the nodes leaves the links. -/
theorem Linked.mapNodes (h : t.Linked) {f : Nat → TopicNode → TopicNode}
    (hnodes : ∀ k, t'.nodes[k]? = (t.nodes[k]?).map (f k))
    (hlinks : ∀ k node, (f k node).parent = node.parent ∧ (f k node).segment = node.segment ∧
      (f k node).children = node.children)
    (htidy : ∀ k node, t.nodes[k]? = some node → (f k node).Tidy) : t'.Linked := by
  have hedge : ∀ {i : Nat} {s : String} {j : Nat}, t'.Edge i s j ↔ t.Edge i s j := by
    intro i s j
    simp only [Edge, hnodes, Option.map_eq_some_iff]
    constructor
    · rintro ⟨_, k, ⟨node, hnode, rfl⟩, hlookup, hk⟩
      rw [(hlinks i node).2.2] at hlookup
      exact ⟨node, k, hnode, hlookup, hk⟩
    · rintro ⟨node, k, hnode, hlookup, hk⟩
      refine ⟨_, k, ⟨node, hnode, rfl⟩, ?_, hk⟩
      rwa [(hlinks i node).2.2]
  refine ⟨?_, ?_, ?_, ?_⟩
  · obtain ⟨node, hnode⟩ : ∃ node, t.nodes[0]? = some node := ⟨_, List.getElem?_eq_getElem h.root⟩
    have hroot := hnodes 0
    rw [hnode] at hroot
    exact (List.getElem?_eq_some_iff.mp hroot).1
  · intro i s j hij
    obtain ⟨hlt, child, hchild, hparent, hsegment⟩ := h.child (hedge.mp hij)
    refine ⟨hlt, f j child, by rw [hnodes, hchild, Option.map_some], ?_, ?_⟩
    · rw [(hlinks j child).1, hparent]
    · rw [(hlinks j child).2.1, hsegment]
  · intro j child hpos hj
    rw [hnodes, Option.map_eq_some_iff] at hj
    obtain ⟨node, hnode, rfl⟩ := hj
    rw [hedge, (hlinks j node).1, (hlinks j node).2.1]
    exact h.edge hpos hnode
  · intro k node hk
    rw [hnodes, Option.map_eq_some_iff] at hk
    obtain ⟨node, hnode, rfl⟩ := hk
    exact htidy k node hnode

/-- The list that a subscription with the last segment `last` is kept in, in a node of that
segment. -/
theorem tidy_modifyList {node : TopicNode} (h : node.Tidy) {f : List Subscriber → List Subscriber}
    (hf : ∀ list : List Subscriber, (list.map (·.sessionId)).Nodup →
      ((f list).map (·.sessionId)).Nodup) :
    (node.modifyList node.segment f).Tidy := by
  unfold TopicNode.modifyList
  split
  · rename_i hhash
    exact ⟨h.subscribers, hf _ h.wildcardSubscribers, fun _ => hhash, h.plain⟩
  · rename_i hplain
    exact ⟨hf _ h.subscribers, h.wildcardSubscribers, h.hash, fun _ => hplain⟩

theorem Linked.modifyNode (h : t.Linked) {node : TopicNode} (hnode : t.nodes[idx.toNat]? = some node)
    {f : List Subscriber → List Subscriber} (hf : ∀ list : List Subscriber,
      (list.map (·.sessionId)).Nodup → ((f list).map (·.sessionId)).Nodup)
    (hrun : t.modifyNode idx (fun node' => node'.modifyList node.segment f) = some t') :
    t'.Linked := by
  obtain ⟨hidx, -⟩ := List.getElem?_eq_some_iff.mp hnode
  rw [TopicTree.modifyNode, if_pos hidx] at hrun
  cases hrun
  refine h.mapNodes (f := fun k node' =>
    if idx.toNat = k then node'.modifyList node.segment f else node') (fun k => ?_) ?_ ?_
  · exact List.getElem?_modify _ _ _ _
  · intro k node'
    unfold TopicNode.modifyList
    split
    · split <;> exact ⟨rfl, rfl, rfl⟩
    · exact ⟨rfl, rfl, rfl⟩
  · intro k node' hk
    split
    · rename_i heq
      subst heq
      cases hnode.symm.trans hk
      exact tidy_modifyList (h.tidy hk) hf
    · exact h.tidy hk

theorem Linked.unsubscribeAll (h : t.Linked) (sessionId : String) :
    (t.unsubscribeAll sessionId).Linked := by
  refine h.mapNodes (f := fun _ node =>
    { node with
      subscribers := retain node.subscribers sessionId
      wildcardSubscribers := retain node.wildcardSubscribers sessionId })
    (fun k => List.getElem?_map) (fun _ _ => ⟨rfl, rfl, rfl⟩) fun k node hk => ?_
  have htidy := h.tidy hk
  have hnil : ∀ {list : List Subscriber}, retain list sessionId ≠ [] → list ≠ [] := by
    rintro list hne rfl
    exact hne rfl
  exact ⟨nodup_retain htidy.subscribers, nodup_retain htidy.wildcardSubscribers,
    fun hne => htidy.hash (hnil hne), fun hne => htidy.plain (hnil hne)⟩

/-! ## A new leaf -/

theorem getElem?_grown_of {k : Nat} {node : TopicNode} (hnode : t.nodes[k]? = some node) :
    (t.grown i s).nodes[k]? = some (if i.toNat = k then
      { node with children := node.children.insert s (UInt32.ofNat t.nodes.length) } else node) := by
  obtain ⟨hk, -⟩ := List.getElem?_eq_some_iff.mp hnode
  rw [grown, List.getElem?_modify, List.getElem?_append_left hk, hnode]
  rfl

theorem getElem?_grown_leaf (hi : i.toNat < t.nodes.length) :
    (t.grown i s).nodes[t.nodes.length]? = some (.new i s) := by
  rw [grown, List.getElem?_modify, List.getElem?_concat_length, Option.map_eq_map, Option.map_some,
    if_neg hi.ne]

/-- The leaf is at the end of the one new edge. -/
theorem edge_grown {node : TopicNode} (hnode : t.nodes[i.toNat]? = some node)
    (hnone : node.children.lookup s = none) (hlt : t.nodes.length < 2 ^ 32) {a b : Nat}
    {s' : String} : (t.grown i s).Edge a s' b ↔
      t.Edge a s' b ∨ a = i.toNat ∧ s' = s ∧ b = t.nodes.length := by
  obtain ⟨hi, -⟩ := List.getElem?_eq_some_iff.mp hnode
  have hidx : (UInt32.ofNat t.nodes.length).toNat = t.nodes.length := by
    rw [UInt32.toNat_ofNat']
    exact Nat.mod_eq_of_lt hlt
  constructor
  · rintro ⟨node', k, hnode', hlookup, rfl⟩
    obtain ⟨old, hold, -, rfl⟩ | ⟨rfl, rfl⟩ := getElem?_grown hi hnode'
    · by_cases ha : i.toNat = a
      · rw [if_pos ha] at hlookup
        by_cases hs : s' = s
        · subst hs
          rw [AList.lookup_insert, Option.some.injEq] at hlookup
          subst hlookup
          exact .inr ⟨ha.symm, rfl, hidx⟩
        · rw [AList.lookup_insert_ne hs] at hlookup
          exact .inl ⟨old, k, hold, hlookup, rfl⟩
      · rw [if_neg ha] at hlookup
        exact .inl ⟨old, k, hold, hlookup, rfl⟩
    · cases hlookup
  · rintro (⟨old, k, hold, hlookup, rfl⟩ | ⟨rfl, rfl, rfl⟩)
    · refine ⟨_, k, getElem?_grown_of hold, ?_, rfl⟩
      split
      · rename_i ha
        subst ha
        cases hnode.symm.trans hold
        have hs : s' ≠ s := by
          rintro rfl
          cases hnone.symm.trans hlookup
        rw [AList.lookup_insert_ne hs, hlookup]
      · exact hlookup
    · refine ⟨_, _, getElem?_grown_of hnode, ?_, hidx⟩
      rw [if_pos rfl, AList.lookup_insert]

theorem Linked.grow (h : t.Linked) {node : TopicNode} (hnode : t.nodes[i.toNat]? = some node)
    (hnone : node.children.lookup s = none) (hlt : t.nodes.length < 2 ^ 32) :
    (t.grown i s).Linked := by
  obtain ⟨hi, -⟩ := List.getElem?_eq_some_iff.mp hnode
  have hleaf := getElem?_grown_leaf (s := s) hi
  refine ⟨?_, ?_, ?_, ?_⟩
  · rw [length_grown]
    exact Nat.succ_pos _
  · intro a s' b hedge
    obtain hold | ⟨rfl, rfl, rfl⟩ := (edge_grown hnode hnone hlt).mp hedge
    · obtain ⟨hab, child, hchild, hparent, hsegment⟩ := h.child hold
      refine ⟨hab, _, getElem?_grown_of hchild, ?_, ?_⟩
      · split <;> exact hparent
      · split <;> exact hsegment
    · exact ⟨hi, _, hleaf, rfl, rfl⟩
  · intro j child hpos hj
    rw [edge_grown hnode hnone hlt]
    obtain ⟨old, hold, -, rfl⟩ | ⟨rfl, rfl⟩ := getElem?_grown hi hj
    · have hedge := h.edge hpos hold
      left
      split <;> exact hedge
    · exact .inr ⟨rfl, rfl, rfl⟩
  · intro k node' hk
    obtain ⟨old, hold, -, rfl⟩ | ⟨rfl, rfl⟩ := getElem?_grown hi hk
    · have htidy := h.tidy hold
      split <;> exact ⟨htidy.subscribers, htidy.wildcardSubscribers, htidy.hash, htidy.plain⟩
    · exact ⟨List.nodup_nil, List.nodup_nil, absurd rfl, absurd rfl⟩

/-! ## The calls -/

/-- The node that is found or made for a path has the last segment of the path. -/
theorem Linked.ensureFrom (h : t.Linked) {segs : List String} {node : TopicNode}
    (hnode : t.nodes[i.toNat]? = some node) (hrun : t.ensureFrom i segs = some (t', idx))
    (hlt : t'.nodes.length < 2 ^ 32) :
    t'.Linked ∧ ∃ node', t'.nodes[idx.toNat]? = some node' ∧
      node'.segment = segs.getLastD node.segment := by
  induction segs generalizing t i node with
  | nil =>
      cases hrun
      exact ⟨h, node, hnode, rfl⟩
  | cons s segs ih =>
      rw [ensureFrom_cons hnode] at hrun
      cases hlookup : node.children.lookup s with
      | some k =>
          rw [hlookup] at hrun
          obtain ⟨-, child, hchild, -, rfl⟩ := h.child ⟨node, k, hnode, hlookup, rfl⟩
          rw [List.getLastD_cons]
          exact ih h hchild hrun
      | none =>
          rw [hlookup] at hrun
          have hgrown := length_le_of_ensureFrom hrun
          rw [length_grown] at hgrown
          have hlt' : t.nodes.length < 2 ^ 32 := by omega
          obtain ⟨hi, -⟩ := List.getElem?_eq_some_iff.mp hnode
          have hleaf := getElem?_grown_leaf (s := s) hi
          have hnew : (t.grown i s).nodes[(UInt32.ofNat t.nodes.length).toNat]? =
              some (TopicNode.new i s) := by
            rw [UInt32.toNat_ofNat', Nat.mod_eq_of_lt hlt', hleaf]
          rw [List.getLastD_cons]
          exact ih (h.grow hnode hlookup hlt') hnew hrun

theorem Linked.findFrom (h : t.Linked) {segs : List String} {node : TopicNode}
    (hnode : t.nodes[i.toNat]? = some node) (hrun : t.findFrom i segs = some (some idx)) :
    ∃ node', t.nodes[idx.toNat]? = some node' ∧ node'.segment = segs.getLastD node.segment := by
  induction segs generalizing i node with
  | nil =>
      cases hrun
      exact ⟨node, hnode, rfl⟩
  | cons s segs ih =>
      simp only [TopicTree.findFrom, hnode, Option.bind_eq_bind, Option.bind_some] at hrun
      cases hlookup : node.children.lookup s with
      | some k =>
          rw [hlookup] at hrun
          obtain ⟨-, child, hchild, -, rfl⟩ := h.child ⟨node, k, hnode, hlookup, rfl⟩
          rw [List.getLastD_cons]
          exact ih hchild hrun
      | none =>
          rw [hlookup] at hrun
          cases hrun

theorem getLastD_segments (f a : String) : (segments f).getLastD a = (segments f).getLastD "" := by
  cases h : segments f with
  | nil => exact absurd h (segments_ne_nil f)
  | cons s segs => rw [List.getLastD_cons, List.getLastD_cons]

variable {call : SubscriptionCall} {out : Option Bool}

theorem Linked.perform (h : t.Linked) (hrun : t.perform call = some (t', out))
    (hlt : t'.nodes.length < 2 ^ 32) : t'.Linked := by
  have hroot := List.getElem?_eq_getElem h.root
  cases call with
  | subscribe f sessionId qos noLocal =>
      simp only [TopicTree.perform, TopicTree.subscribe, ensurePath, Option.bind_eq_bind,
        Option.map_eq_some_iff, Option.bind_eq_some_iff, Prod.mk.injEq] at hrun
      obtain ⟨_, ⟨⟨grown, idx⟩, hensure, hmodify⟩, rfl, -⟩ := hrun
      rw [length_modifyNode hmodify] at hlt
      obtain ⟨hlinked, node, hnode, hsegment⟩ := h.ensureFrom (i := rootNode) hroot hensure hlt
      rw [getLastD_segments] at hsegment
      rw [← hsegment] at hmodify
      exact hlinked.modifyNode hnode (fun _ => nodup_upsert) hmodify
  | unsubscribe f sessionId =>
      simp only [TopicTree.perform, TopicTree.unsubscribe, Option.bind_eq_bind, findPath,
        Option.map_eq_some_iff, Option.bind_eq_some_iff, Prod.mk.injEq] at hrun
      obtain ⟨⟨_, deleted⟩, ⟨found, hfind, hrun⟩, rfl, -⟩ := hrun
      cases found with
      | none =>
          cases hrun
          exact h
      | some idx =>
          obtain ⟨node, hnode, hsegment⟩ := h.findFrom (i := rootNode) hroot hfind
          rw [getLastD_segments] at hsegment
          simp only [Option.bind_eq_some_iff] at hrun
          obtain ⟨_, -, after, hmodify, hrun⟩ := hrun
          cases hrun
          rw [← hsegment] at hmodify
          exact h.modifyNode hnode (fun _ => nodup_retain) hmodify
  | unsubscribeAll sessionId =>
      cases hrun
      exact h.unsubscribeAll sessionId

theorem Linked.performAll (h : t.Linked) {calls : List SubscriptionCall} {outs : List (Option Bool)}
    (hrun : t.performAll calls = some (t', outs)) (hlt : t'.nodes.length < 2 ^ 32) : t'.Linked := by
  induction calls generalizing t outs with
  | nil =>
      cases hrun
      exact h
  | cons call calls ih =>
      obtain ⟨after, out, outs', hcall, hcalls, -⟩ := performAll_cons.mp hrun
      exact ih (h.perform hcall ((length_le_of_performAll hcalls).trans_lt hlt)) hcalls

/-! ## Matching -/

theorem Closed.hashSubscribers (h : t.Closed) {k : Nat} {node : TopicNode}
    (hnode : t.nodes[k]? = some node) : ∃ found, t.hashSubscribers node = some found := by
  cases hlookup : node.children.lookup "#" with
  | none => exact ⟨[], by rw [TopicTree.hashSubscribers, hlookup]⟩
  | some j =>
      have hj := h.child hnode hlookup
      refine ⟨t.nodes[j.toNat].wildcardSubscribers, ?_⟩
      simp only [TopicTree.hashSubscribers, hlookup, List.getElem?_eq_getElem hj, Option.map_some]

/-- The recursion of `collect_matches` is on the segments that are left. -/
theorem Closed.collectMatches (h : t.Closed) (topic : List String) (hi : i.toNat < t.nodes.length) :
    ∃ found, t.collectMatches i topic = some found := by
  induction topic generalizing i with
  | nil =>
      have hnode := List.getElem?_eq_getElem hi
      obtain ⟨hash, hhash⟩ := h.hashSubscribers hnode
      simp only [TopicTree.collectMatches, hnode, hhash, Option.bind_eq_bind, Option.bind_some]
      exact ⟨_, rfl⟩
  | cons s topic ih =>
      have hnode := List.getElem?_eq_getElem hi
      obtain ⟨hash, hhash⟩ := h.hashSubscribers hnode
      simp only [TopicTree.collectMatches, hnode, hhash, Option.bind_eq_bind, Option.bind_some]
      cases hexact : t.nodes[i.toNat].children.lookup s with
      | none =>
          cases hplus : t.nodes[i.toNat].children.lookup "+" with
          | none => exact ⟨_, rfl⟩
          | some plus =>
              obtain ⟨found, hfound⟩ := ih (h.child hnode hplus)
              simp only [hfound, Option.bind_some]
              exact ⟨_, rfl⟩
      | some child =>
          obtain ⟨found, hfound⟩ := ih (h.child hnode hexact)
          cases hplus : t.nodes[i.toNat].children.lookup "+" with
          | none =>
              simp only [hfound, Option.bind_some]
              exact ⟨_, rfl⟩
          | some plus =>
              obtain ⟨found', hfound'⟩ := ih (h.child hnode hplus)
              simp only [hfound, hfound', Option.bind_some]
              exact ⟨_, rfl⟩

end

/-- After any calls the links of a tree with fewer than `2 ^ 32` nodes are those of a tree, and
no call and no match indexes the nodes out of range. -/
theorem linked_of_performAll {calls : List SubscriptionCall} {t : TopicTree}
    {outs : List (Option Bool)} (hrun : TopicTree.new.performAll calls = some (t, outs))
    (hlt : t.nodeCount < 2 ^ 32) :
    t.Linked ∧ (∀ j, 0 < j → j < t.nodeCount → ∃! i, ∃ s, t.Edge i s j) ∧
      (∀ call, ∃ reply, t.perform call = some reply) ∧
      ∀ topic, ∃ found, t.matchingSubscribers topic = some found := by
  have hlinked := linked_new.performAll hrun hlt
  refine ⟨hlinked, fun _ => hlinked.existsUnique_parent, fun call => ?_, fun topic => ?_⟩
  · obtain ⟨t', out, hcall, -⟩ := hlinked.closed.perform call
    exact ⟨_, hcall⟩
  · exact hlinked.closed.collectMatches (i := rootNode) _ hlinked.root

/-- A filter with a wildcard, which is left again. -/
theorem linked_of_performAll_left : ∃ t outs,
    TopicTree.new.performAll [.subscribe "a/#" "s" .atMostOnce false,
      .subscribe "a/b" "s" .atLeastOnce false, .unsubscribe "a/#" "s"] = some (t, outs) ∧
    t.Linked := by
  obtain ⟨t, outs, hrun⟩ := closed_new.performAll [.subscribe "a/#" "s" .atMostOnce false,
    .subscribe "a/b" "s" .atLeastOnce false, .unsubscribe "a/#" "s"]
  have hcount : (TopicTree.new.performAll [.subscribe "a/#" "s" .atMostOnce false,
      .subscribe "a/b" "s" .atLeastOnce false, .unsubscribe "a/#" "s"]).map (·.1.nodeCount) =
        some 4 := by
    decide +kernel
  simp only [hrun, Option.map_some, Option.some.injEq] at hcount
  exact ⟨t, outs, hrun, (linked_of_performAll hrun (by omega)).1⟩

end TopicTree

end Broker
end Vaux
