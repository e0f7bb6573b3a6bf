import Vaux.Broker.TopicTree

/-!
# Paths of the topic tree

The abstract tree: each index is the node of one path of segments, and each path has a
list of subscribers.  As long as the indices do not run out, the operations of the tree
are those of a table of lists indexed by paths.
-/

namespace Vaux
namespace Broker

open Mqtt

/-- The list of a node that its subscriptions are not kept in. -/
def TopicNode.other (self : TopicNode) (last : String) : List Subscriber :=
  if last = "#" then self.subscribers else self.wildcardSubscribers

namespace TopicTree

/-- The node at index `i` of `t` is that of the path `paths[i]`, and its subscribers
are those that `content` has for the path. -/
structure Rep (t : TopicTree) (paths : List (List String))
    (content : List String → List Subscriber) : Prop where
  length : paths.length = t.nodes.length
  le : t.nodes.length ≤ 2 ^ 32
  root : paths[0]? = some []
  nodup : paths.Nodup
  closed : ∀ p s, p ++ [s] ∈ paths → p ∈ paths
  child : ∀ {i : Nat} {node : TopicNode} {p : List String}, t.nodes[i]? = some node →
    paths[i]? = some p →
    ∀ (s : String) (j : UInt32), node.children.lookup s = some j ↔ paths[j.toNat]? = some (p ++ [s])
  list : ∀ {i : Nat} {node : TopicNode} {p : List String}, t.nodes[i]? = some node →
    paths[i]? = some p →
    node.list (p.getLastD "") = content p ∧ node.other (p.getLastD "") = []
  absent : ∀ q, q ∉ paths → content q = []

section

variable {t t' : TopicTree} {paths : List (List String)}
  {content : List String → List Subscriber} {p : List String} {i idx : UInt32}

theorem Rep.node (h : t.Rep paths content) (hp : paths[i.toNat]? = some p) :
    ∃ node, t.nodes[i.toNat]? = some node := by
  obtain ⟨hi, -⟩ := List.getElem?_eq_some_iff.mp hp
  exact ⟨_, List.getElem?_eq_getElem (h.length ▸ hi)⟩

theorem Rep.closed_append (h : t.Rep paths content) {f : List String} (hmem : p ++ f ∈ paths) :
    p ∈ paths := by
  induction f using List.reverseRecOn with
  | nil => simpa using hmem
  | append_singleton f s ih =>
      rw [← List.append_assoc] at hmem
      exact ih (h.closed _ _ hmem)

/-- The index of a path that has none of the given segment below it. -/
theorem Rep.lookup_none (h : t.Rep paths content) {k : Nat} {node : TopicNode}
    (hnode : t.nodes[k]? = some node) (hp : paths[k]? = some p) {s : String} :
    node.children.lookup s = none ↔ p ++ [s] ∉ paths := by
  constructor
  · intro hnone hmem
    obtain ⟨j, hj, heq⟩ := List.mem_iff_getElem.mp hmem
    have hj' : j < 2 ^ 32 := by
      have := h.le
      have := h.length
      omega
    have hidx : (UInt32.ofNat j).toNat = j := by
      rw [UInt32.toNat_ofNat']
      exact Nat.mod_eq_of_lt hj'
    have hsome := (h.child hnode hp s (UInt32.ofNat j)).mpr (by
      rw [hidx, List.getElem?_eq_getElem hj, heq])
    rw [hnone] at hsome
    cases hsome
  · intro hmem
    cases hlookup : node.children.lookup s with
    | none => rfl
    | some j => exact absurd (List.mem_of_getElem? ((h.child hnode hp s j).mp hlookup)) hmem

/-! ## Finding a path -/

theorem Rep.findFrom (h : t.Rep paths content) (hp : paths[i.toNat]? = some p) (segs : List String) :
    (∃ j, t.findFrom i segs = some (some j) ∧ paths[j.toNat]? = some (p ++ segs)) ∨
      t.findFrom i segs = some none ∧ p ++ segs ∉ paths := by
  induction segs generalizing i p with
  | nil => exact .inl ⟨i, rfl, by rwa [List.append_nil]⟩
  | cons s segs ih =>
      obtain ⟨node, hnode⟩ := h.node hp
      rw [List.append_cons]
      cases hlookup : node.children.lookup s with
      | some j =>
          have hstep : t.findFrom i (s :: segs) = t.findFrom j segs := by
            simp only [TopicTree.findFrom, hnode, Option.bind_eq_bind, Option.bind_some, hlookup]
          rw [hstep]
          exact ih ((h.child hnode hp s j).mp hlookup)
      | none =>
          right
          refine ⟨by simp only [TopicTree.findFrom, hnode, Option.bind_eq_bind, Option.bind_some, hlookup], ?_⟩
          exact fun hmem => (h.lookup_none hnode hp).mp hlookup (h.closed_append hmem)

/-! ## Growing a path -/

/-- The tree with a new leaf below the node at `i`. -/
def grown (t : TopicTree) (i : UInt32) (s : String) : TopicTree where
  nodes := (t.nodes ++ [TopicNode.new i s]).modify i.toNat fun node =>
    { node with children := node.children.insert s (UInt32.ofNat t.nodes.length) }

theorem length_grown (t : TopicTree) (i : UInt32) (s : String) :
    (t.grown i s).nodes.length = t.nodes.length + 1 := by
  simp [grown]

/-- The nodes of the grown tree: the old ones, of which that at `i` has a new child, and
the leaf. -/
theorem getElem?_grown {s : String} {k : Nat} {node' : TopicNode}
    (hi : i.toNat < t.nodes.length) (h : (t.grown i s).nodes[k]? = some node') :
    (∃ node, t.nodes[k]? = some node ∧ k < t.nodes.length ∧ node' = if i.toNat = k then
        { node with children := node.children.insert s (UInt32.ofNat t.nodes.length) } else node) ∨
      k = t.nodes.length ∧ node' = .new i s := by
  simp only [grown, List.getElem?_modify, Option.map_eq_map, Option.map_eq_some_iff] at h
  obtain ⟨node, hnode, rfl⟩ := h
  rcases Nat.lt_or_ge k t.nodes.length with hk | hk
  · rw [List.getElem?_append_left hk] at hnode
    exact .inl ⟨node, hnode, hk, rfl⟩
  · rw [List.getElem?_append_right hk, List.getElem?_singleton] at hnode
    split at hnode
    · cases hnode
      exact .inr ⟨by omega, if_neg (by omega)⟩
    · cases hnode

theorem getElem?_concat {α : Type*} {l : List α} {a b : α} {k : Nat} :
    (l ++ [a])[k]? = some b ↔ l[k]? = some b ∨ k = l.length ∧ a = b := by
  rcases Nat.lt_trichotomy k l.length with hk | rfl | hk
  · rw [List.getElem?_append_left hk]
    simp [hk.ne]
  · simp
  · rw [List.getElem?_eq_none_iff.mpr (by simpa using hk), List.getElem?_eq_none_iff.mpr hk.le]
    simp [hk.ne']

theorem Rep.grow (h : t.Rep paths content) (hp : paths[i.toNat]? = some p) {s : String}
    (hnew : p ++ [s] ∉ paths) (hlt : t.nodes.length < 2 ^ 32) :
    (t.grown i s).Rep (paths ++ [p ++ [s]]) content := by
  have hidx : (UInt32.ofNat t.nodes.length).toNat = t.nodes.length := by
    rw [UInt32.toNat_ofNat']
    exact Nat.mod_eq_of_lt hlt
  obtain ⟨hi, -⟩ := List.getElem?_eq_some_iff.mp hp
  have hi' : i.toNat < t.nodes.length := h.length ▸ hi
  have hpaths : ∀ {k q}, k < t.nodes.length → (paths ++ [p ++ [s]])[k]? = some q → paths[k]? = some q := by
    intro k q hk hq
    refine (getElem?_concat.mp hq).resolve_right ?_
    rintro ⟨rfl, -⟩
    have := h.length
    omega
  have hleaf : (paths ++ [p ++ [s]])[t.nodes.length]? = some (p ++ [s]) :=
    getElem?_concat.mpr (.inr ⟨h.length.symm, rfl⟩)
  refine ⟨?_, ?_, ?_, ?_, ?_, ?_, ?_, ?_⟩
  · rw [length_grown, List.length_append, h.length, List.length_singleton]
  · rw [length_grown]
    omega
  · exact getElem?_concat.mpr (.inl h.root)
  · rw [List.nodup_append_comm]
    exact List.nodup_cons.mpr ⟨hnew, h.nodup⟩
  · intro q s' hmem
    rw [List.mem_append, List.mem_singleton] at hmem ⊢
    left
    rcases hmem with hmem | heq
    · exact h.closed q s' hmem
    · rw [(List.append_inj' heq rfl).1]
      exact List.mem_of_getElem? hp
  · intro k node' q hnode' hq s' j
    rcases getElem?_grown hi' hnode' with ⟨node, hnode, hk, rfl⟩ | ⟨rfl, rfl⟩
    · have hq' := hpaths hk hq
      rw [getElem?_concat]
      by_cases hik : i.toNat = k
      · -- the parent of the leaf
        subst hik
        rw [hp] at hq'
        cases hq'
        rw [if_pos rfl]
        by_cases hs : s' = s
        · subst hs
          rw [AList.lookup_insert, Option.some.injEq, ← UInt32.toNat_inj, hidx, h.length]
          constructor
          · intro hj
            exact .inr ⟨hj.symm, rfl⟩
          · rintro (hj | ⟨hj, -⟩)
            · exact absurd (List.mem_of_getElem? hj) hnew
            · exact hj.symm
        · rw [AList.lookup_insert_ne hs, h.child hnode hp]
          refine (or_iff_left ?_).symm
          rintro ⟨-, heq⟩
          exact hs (by simpa using heq.symm)
      · rw [if_neg hik, h.child hnode hq']
        refine (or_iff_left ?_).symm
        rintro ⟨-, heq⟩
        obtain ⟨rfl, -⟩ := List.append_inj' heq rfl
        exact hik ((List.getElem?_inj hi h.nodup).mp (hp.trans hq'.symm))
    · rw [hleaf] at hq
      cases hq
      have hnone : (TopicNode.new i s).children.lookup s' = none := AList.lookup_empty _
      rw [hnone]
      refine ⟨fun hc => (by cases hc), fun hj => ?_⟩
      rcases getElem?_concat.mp hj with hj | ⟨-, heq⟩
      · exact absurd (h.closed _ _ (List.mem_of_getElem? hj)) hnew
      · exact absurd (congrArg List.length heq) (by simp)
  · intro k node' q hnode' hq
    rcases getElem?_grown hi' hnode' with ⟨node, hnode, hk, rfl⟩ | ⟨rfl, rfl⟩
    · have hlist := h.list hnode (hpaths hk hq)
      split <;> exact hlist
    · rw [hleaf] at hq
      cases hq
      rw [h.absent _ hnew]
      simp [TopicNode.list, TopicNode.other, TopicNode.new]
  · intro q hq
    exact h.absent q fun hmem => hq (List.mem_append_left _ hmem)

theorem ensureFrom_cons {s : String} {segs : List String} {node : TopicNode}
    (hnode : t.nodes[i.toNat]? = some node) :
    t.ensureFrom i (s :: segs) =
      match node.children.lookup s with
      | some child => t.ensureFrom child segs
      | none => (t.grown i s).ensureFrom (UInt32.ofNat t.nodes.length) segs := by
  simp only [ensureFrom, hnode, Option.bind_eq_bind, Option.bind_some]
  rfl

theorem length_le_of_ensureFrom {segs : List String} (h : t.ensureFrom i segs = some (t', idx)) :
    t.nodes.length ≤ t'.nodes.length := by
  induction segs generalizing t i with
  | nil =>
      cases h
      exact Nat.le_refl _
  | cons s segs ih =>
      cases hnode : t.nodes[i.toNat]? with
      | none => simp [ensureFrom, hnode] at h
      | some node =>
          rw [ensureFrom_cons hnode] at h
          cases hlookup : node.children.lookup s with
          | some child =>
              rw [hlookup] at h
              exact ih h
          | none =>
              rw [hlookup] at h
              have := ih h
              rw [length_grown] at this
              omega

/-- The node a filter is subscribed at is that of its segments. -/
theorem Rep.ensureFrom {segs : List String} (hrun : t.ensureFrom i segs = some (t', idx))
    (hle : t'.nodes.length ≤ 2 ^ 32) (h : t.Rep paths content) (hp : paths[i.toNat]? = some p) :
    ∃ paths', t'.Rep paths' content ∧ paths'[idx.toNat]? = some (p ++ segs) := by
  induction segs generalizing t i p paths with
  | nil =>
      cases hrun
      exact ⟨paths, h, by rwa [List.append_nil]⟩
  | cons s segs ih =>
      obtain ⟨node, hnode⟩ := h.node hp
      rw [ensureFrom_cons hnode] at hrun
      rw [List.append_cons]
      cases hlookup : node.children.lookup s with
      | some child =>
          rw [hlookup] at hrun
          exact ih hrun h ((h.child hnode hp s child).mp hlookup)
      | none =>
          rw [hlookup] at hrun
          have hlt : t.nodes.length < 2 ^ 32 := by
            have hgrown := length_le_of_ensureFrom hrun
            rw [length_grown] at hgrown
            omega
          have hleaf : (UInt32.ofNat t.nodes.length).toNat = paths.length := by
            rw [UInt32.toNat_ofNat', Nat.mod_eq_of_lt hlt, h.length]
          refine ih hrun (h.grow hp ((h.lookup_none hnode hp).mp hlookup) hlt) ?_
          exact getElem?_concat.mpr (.inr ⟨hleaf, rfl⟩)

/-! ## The lists -/

theorem list_modifyList (node : TopicNode) (last : String) (f : List Subscriber → List Subscriber) :
    (node.modifyList last f).list last = f (node.list last) ∧
      (node.modifyList last f).other last = node.other last := by
  unfold TopicNode.modifyList TopicNode.list TopicNode.other
  split <;> exact ⟨rfl, rfl⟩

theorem children_modifyList (node : TopicNode) (last : String)
    (f : List Subscriber → List Subscriber) : (node.modifyList last f).children = node.children := by
  unfold TopicNode.modifyList
  split <;> rfl

theorem Rep.modifyNode (h : t.Rep paths content) (hp : paths[idx.toNat]? = some p)
    (f : List Subscriber → List Subscriber) :
    ∃ t', t.modifyNode idx (fun node => node.modifyList (p.getLastD "") f) = some t' ∧
      t'.Rep paths (Function.update content p (f (content p))) ∧ t'.nodes.length = t.nodes.length := by
  obtain ⟨hi, -⟩ := List.getElem?_eq_some_iff.mp hp
  have hi' : idx.toNat < t.nodes.length := h.length ▸ hi
  have hnodes : ∀ {k : Nat} {node' : TopicNode}, (t.nodes.modify idx.toNat fun node =>
      node.modifyList (p.getLastD "") f)[k]? = some node' →
      ∃ node, t.nodes[k]? = some node ∧
        node' = if idx.toNat = k then node.modifyList (p.getLastD "") f else node := by
    intro k node' hk
    simp only [List.getElem?_modify, Option.map_eq_map, Option.map_eq_some_iff] at hk
    obtain ⟨node, hnode, rfl⟩ := hk
    exact ⟨node, hnode, rfl⟩
  refine ⟨_, if_pos hi', ?_, List.length_modify _ _ _⟩
  refine ⟨?_, ?_, h.root, h.nodup, h.closed, ?_, ?_, ?_⟩
  · rw [List.length_modify, h.length]
  · rw [List.length_modify]
    exact h.le
  · intro k node' q hnode' hq s j
    obtain ⟨node, hnode, rfl⟩ := hnodes hnode'
    rw [← h.child hnode hq s j]
    split
    · rw [children_modifyList]
    · rfl
  · intro k node' q hnode' hq
    obtain ⟨node, hnode, rfl⟩ := hnodes hnode'
    obtain ⟨hlist, hother⟩ := h.list hnode hq
    by_cases hk : idx.toNat = k
    · subst hk
      rw [hp] at hq
      cases hq
      obtain ⟨hlist', hother'⟩ := list_modifyList node (p.getLastD "") f
      rw [if_pos rfl, Function.update_self, hlist', hother', hlist]
      exact ⟨rfl, hother⟩
    · have hne : q ≠ p := by
        rintro rfl
        exact hk ((List.getElem?_inj hi h.nodup).mp (hp.trans hq.symm))
      rw [if_neg hk, Function.update_of_ne hne]
      exact ⟨hlist, hother⟩
  · intro q hq
    have hne : q ≠ p := by
      rintro rfl
      exact hq (List.mem_of_getElem? hp)
    rw [Function.update_of_ne hne]
    exact h.absent q hq

theorem Rep.unsubscribeAll (h : t.Rep paths content) (sessionId : String) :
    (t.unsubscribeAll sessionId).Rep paths fun q => retain (content q) sessionId := by
  have hnodes : ∀ {k : Nat} {node' : TopicNode}, (t.unsubscribeAll sessionId).nodes[k]? = some node' →
      ∃ node, t.nodes[k]? = some node ∧
        node' =
          { node with
            subscribers := retain node.subscribers sessionId
            wildcardSubscribers := retain node.wildcardSubscribers sessionId } := by
    intro k node' hk
    simp only [TopicTree.unsubscribeAll, List.getElem?_map, Option.map_eq_some_iff] at hk
    obtain ⟨node, hnode, rfl⟩ := hk
    exact ⟨node, hnode, rfl⟩
  refine ⟨?_, ?_, h.root, h.nodup, h.closed, ?_, ?_, ?_⟩
  · rw [TopicTree.unsubscribeAll, List.length_map, h.length]
  · rw [TopicTree.unsubscribeAll, List.length_map]
    exact h.le
  · intro k node' q hnode' hq
    obtain ⟨node, hnode, rfl⟩ := hnodes hnode'
    have hchild := h.child hnode hq
    exact hchild
  · intro k node' q hnode' hq
    obtain ⟨node, hnode, rfl⟩ := hnodes hnode'
    obtain ⟨hlist, hother⟩ := h.list hnode hq
    rw [← hlist]
    unfold TopicNode.list TopicNode.other at *
    split at hother <;> simp_all [retain]
  · intro q hq
    rw [h.absent q hq]
    rfl

theorem rep_new : TopicTree.new.Rep [[]] fun _ => [] := by
  refine ⟨rfl, by decide, rfl, List.nodup_singleton _, ?_, ?_, ?_, fun _ _ => rfl⟩
  · intro p s hmem
    exact absurd (List.mem_singleton.mp hmem) (by simp)
  · intro k node p hnode hp s j
    obtain ⟨rfl, rfl⟩ : k = 0 ∧ TopicNode.new 0 "" = node := by
      simpa [TopicTree.new, List.getElem?_singleton] using hnode
    cases hp
    have hnone : (TopicNode.new 0 "").children.lookup s = none := AList.lookup_empty _
    rw [hnone]
    refine ⟨fun hc => (by cases hc), fun hj => ?_⟩
    exact absurd (List.mem_of_getElem? hj) (by simp)
  · intro k node p hnode hp
    obtain ⟨rfl, rfl⟩ : k = 0 ∧ TopicNode.new 0 "" = node := by
      simpa [TopicTree.new, List.getElem?_singleton] using hnode
    simp [TopicNode.list, TopicNode.other, TopicNode.new]

end

end TopicTree

end Broker
end Vaux
