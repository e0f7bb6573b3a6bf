import Vaux.Broker.TopicMatch

/-!
# The table of subscriptions

What the topic tree is for: a finite map from filter and session to the options of the
subscription.  The operations of the tree are those of the map while its nodes can be
named by 32 bits.
-/

namespace Vaux
namespace Broker

open Mqtt

abbrev Subscriptions := AList fun _ : String × String => QoSLevel × Bool

/-- A call that changes the tree. -/
inductive SubscriptionCall
  | subscribe (filter sessionId : String) (qos : QoSLevel) (noLocal : Bool)
  | unsubscribe (filter sessionId : String)
  | unsubscribeAll (sessionId : String)
  deriving DecidableEq

namespace Subscriptions

def unsubscribeAll (self : Subscriptions) (sessionId : String) : Subscriptions where
  entries := self.entries.filter fun e => e.1.2 ≠ sessionId
  nodupKeys := self.nodupKeys.sublist List.filter_sublist

/-- The map after a call, and the value that the call returns if it has one. -/
def perform (self : Subscriptions) : SubscriptionCall → Subscriptions × Option Bool
  | .subscribe filter sessionId qos noLocal => (self.insert (filter, sessionId) (qos, noLocal), none)
  | .unsubscribe filter sessionId =>
    (self.erase (filter, sessionId), some (self.lookup (filter, sessionId)).isSome)
  | .unsubscribeAll sessionId => (self.unsubscribeAll sessionId, none)

def performAll (self : Subscriptions) : List SubscriptionCall → Subscriptions × List (Option Bool)
  | [] => (self, [])
  | call :: calls =>
    let (after, out) := self.perform call
    let (after, outs) := after.performAll calls
    (after, out :: outs)

/-- One subscriber for each entry whose filter matches. -/
def matchingSubscribers (self : Subscriptions) (topic : String) : List Subscriber :=
  (self.entries.filter fun e => filterMatches (segments e.1.1) (segments topic)).map fun e =>
    { sessionId := e.1.2, qos := e.2.1, noLocal := e.2.2 }

end Subscriptions

namespace TopicTree

def perform (self : TopicTree) : SubscriptionCall → Option (TopicTree × Option Bool)
  | .subscribe filter sessionId qos noLocal =>
    (self.subscribe filter sessionId qos noLocal).map fun after => (after, none)
  | .unsubscribe filter sessionId =>
    (self.unsubscribe filter sessionId).map fun (after, out) => (after, some out)
  | .unsubscribeAll sessionId => some (self.unsubscribeAll sessionId, none)

def performAll (self : TopicTree) : List SubscriptionCall → Option (TopicTree × List (Option Bool))
  | [] => some (self, [])
  | call :: calls => do
    let (after, out) ← self.perform call
    let (after, outs) ← after.performAll calls
    some (after, out :: outs)

/-! ## No index is out of range -/

/-- The indices of the children are those of nodes. -/
structure Closed (t : TopicTree) : Prop where
  root : 0 < t.nodes.length
  child : ∀ {k : Nat} {node : TopicNode} {s : String} {j : UInt32}, t.nodes[k]? = some node →
    node.children.lookup s = some j → j.toNat < t.nodes.length

section

variable {t : TopicTree} {i : UInt32}

theorem closed_new : TopicTree.new.Closed := by
  refine ⟨by simp [TopicTree.new], ?_⟩
  intro k node s j hnode hlookup
  obtain ⟨rfl, rfl⟩ : k = 0 ∧ TopicNode.new 0 "" = node := by
    simpa [TopicTree.new, List.getElem?_singleton] using hnode
  cases hlookup

theorem Closed.grow (h : t.Closed) (hi : i.toNat < t.nodes.length) (s : String) :
    (t.grown i s).Closed := by
  refine ⟨by rw [length_grown]; omega, ?_⟩
  intro k node' s' j hnode' hlookup
  have hidx : (UInt32.ofNat t.nodes.length).toNat ≤ t.nodes.length := by
    rw [UInt32.toNat_ofNat']
    exact Nat.mod_le _ _
  rw [length_grown]
  rcases getElem?_grown hi hnode' with ⟨node, hnode, -, rfl⟩ | ⟨rfl, rfl⟩
  · split at hlookup
    · by_cases hs : s' = s
      · subst hs
        rw [AList.lookup_insert, Option.some.injEq] at hlookup
        subst hlookup
        omega
      · rw [AList.lookup_insert_ne hs] at hlookup
        have := h.child hnode hlookup
        omega
    · have := h.child hnode hlookup
      omega
  · cases hlookup

theorem Closed.ensureFrom (h : t.Closed) (hi : i.toNat < t.nodes.length) (segs : List String) :
    ∃ t' idx, t.ensureFrom i segs = some (t', idx) ∧ t'.Closed ∧ idx.toNat < t'.nodes.length := by
  induction segs generalizing t i with
  | nil => exact ⟨t, i, rfl, h, hi⟩
  | cons s segs ih =>
      have hnode := List.getElem?_eq_getElem hi
      rw [ensureFrom_cons hnode]
      cases hlookup : t.nodes[i.toNat].children.lookup s with
      | some child => exact ih h (h.child hnode hlookup)
      | none =>
          refine ih (h.grow hi s) ?_
          rw [length_grown, UInt32.toNat_ofNat']
          have := Nat.mod_le t.nodes.length (2 ^ 32)
          omega

theorem Closed.findFrom (h : t.Closed) (hi : i.toNat < t.nodes.length) (segs : List String) :
    t.findFrom i segs = some none ∨
      ∃ idx, t.findFrom i segs = some (some idx) ∧ idx.toNat < t.nodes.length := by
  induction segs generalizing i with
  | nil => exact .inr ⟨i, rfl, hi⟩
  | cons s segs ih =>
      have hnode := List.getElem?_eq_getElem hi
      simp only [TopicTree.findFrom, hnode, Option.bind_eq_bind, Option.bind_some]
      cases hlookup : t.nodes[i.toNat].children.lookup s with
      | some child => exact ih (h.child hnode hlookup)
      | none => exact .inl rfl

theorem Closed.modifyNode (h : t.Closed) (hi : i.toNat < t.nodes.length) (last : String)
    (f : List Subscriber → List Subscriber) :
    ∃ t', t.modifyNode i (fun node => node.modifyList last f) = some t' ∧ t'.Closed := by
  refine ⟨_, if_pos hi, ?_, ?_⟩
  · rw [List.length_modify]
    exact h.root
  · intro k node' s j hnode' hlookup
    simp only [List.getElem?_modify, Option.map_eq_map, Option.map_eq_some_iff] at hnode'
    obtain ⟨node, hnode, rfl⟩ := hnode'
    rw [List.length_modify]
    refine h.child hnode (s := s) ?_
    split at hlookup
    · rwa [children_modifyList] at hlookup
    · exact hlookup

theorem Closed.perform (h : t.Closed) (call : SubscriptionCall) :
    ∃ t' out, t.perform call = some (t', out) ∧ t'.Closed := by
  cases call with
  | subscribe filter sessionId qos noLocal =>
      obtain ⟨t', idx, hensure, h', hidx⟩ := h.ensureFrom (i := rootNode) h.root (segments filter)
      obtain ⟨t'', hmodify, h''⟩ := h'.modifyNode hidx ((segments filter).getLastD "")
        (upsert · { sessionId, qos, noLocal })
      refine ⟨t'', none, ?_, h''⟩
      simp only [TopicTree.perform, subscribe, ensurePath, hensure, Option.bind_eq_bind,
        Option.bind_some, hmodify, Option.map_some]
  | unsubscribe filter sessionId =>
      rcases h.findFrom (i := rootNode) h.root (segments filter) with hnone | ⟨idx, hsome, hidx⟩
      · refine ⟨t, some false, ?_, h⟩
        simp only [TopicTree.perform, unsubscribe, findPath, hnone, Option.bind_eq_bind,
          Option.bind_some, Option.map_some]
      · obtain ⟨t', hmodify, h'⟩ := h.modifyNode hidx ((segments filter).getLastD "")
          (retain · sessionId)
        have hperform : ∃ out, t.perform (.unsubscribe filter sessionId) = some (t', out) := by
          simp only [TopicTree.perform, unsubscribe, findPath, hsome, Option.bind_eq_bind,
            Option.bind_some, List.getElem?_eq_getElem hidx, hmodify, Option.map_some]
          exact ⟨_, rfl⟩
        obtain ⟨out, hout⟩ := hperform
        exact ⟨t', out, hout, h'⟩
  | unsubscribeAll sessionId =>
      refine ⟨_, none, rfl, ?_, ?_⟩
      · simpa [TopicTree.unsubscribeAll] using h.root
      · intro k node' s j hnode' hlookup
        simp only [TopicTree.unsubscribeAll, List.getElem?_map, Option.map_eq_some_iff] at hnode'
        obtain ⟨node, hnode, rfl⟩ := hnode'
        simpa [TopicTree.unsubscribeAll] using h.child hnode (s := s) hlookup

end

/-! ## The lists of subscribers -/

section

variable {list : List Subscriber} {sub x : Subscriber} {sessionId : String}

theorem map_sessionId_upsert :
    (upsert list sub).map (·.sessionId) =
      if sub.sessionId ∈ list.map (·.sessionId) then list.map (·.sessionId)
      else list.map (·.sessionId) ++ [sub.sessionId] := by
  induction list with
  | nil => simp [upsert]
  | cons s list ih =>
      by_cases hs : s.sessionId = sub.sessionId
      · simp [upsert, hs]
      · simp only [upsert, hs, if_false, List.map_cons, ih, List.mem_cons, Ne.symm hs, false_or]
        split <;> simp

theorem nodup_upsert (h : (list.map (·.sessionId)).Nodup) :
    ((upsert list sub).map (·.sessionId)).Nodup := by
  rw [map_sessionId_upsert]
  split
  · exact h
  · rename_i hnew
    rw [List.nodup_append_comm]
    exact List.nodup_cons.mpr ⟨hnew, h⟩

theorem mem_upsert (h : (list.map (·.sessionId)).Nodup) :
    x ∈ upsert list sub ↔ x = sub ∨ x ∈ list ∧ x.sessionId ≠ sub.sessionId := by
  induction list with
  | nil => simp [upsert]
  | cons s list ih =>
      obtain ⟨hs, htail⟩ := List.nodup_cons.mp h
      by_cases hsub : s.sessionId = sub.sessionId
      · simp only [upsert, hsub, if_true, List.mem_cons]
        constructor
        · rintro (rfl | hx)
          · exact .inl rfl
          · refine .inr ⟨.inr hx, fun heq => hs (List.mem_map.mpr ⟨x, hx, heq.trans hsub.symm⟩)⟩
        · rintro (rfl | ⟨rfl | hx, hne⟩)
          · exact .inl rfl
          · exact absurd hsub hne
          · exact .inr hx
      · simp only [upsert, hsub, if_false, List.mem_cons, ih htail]
        constructor
        · rintro (rfl | rfl | ⟨hx, hne⟩)
          · exact .inr ⟨.inl rfl, hsub⟩
          · exact .inl rfl
          · exact .inr ⟨.inr hx, hne⟩
        · rintro (rfl | ⟨rfl | hx, hne⟩)
          · exact .inr (.inl rfl)
          · exact .inl rfl
          · exact .inr (.inr ⟨hx, hne⟩)

theorem mem_retain : x ∈ retain list sessionId ↔ x ∈ list ∧ x.sessionId ≠ sessionId := by
  simp [retain]

theorem nodup_retain (h : (list.map (·.sessionId)).Nodup) :
    ((retain list sessionId).map (·.sessionId)).Nodup :=
  h.sublist (List.filter_sublist.map _)

theorem length_retain_lt :
    (retain list sessionId).length < list.length ↔ ∃ x ∈ list, x.sessionId = sessionId := by
  unfold retain
  rw [List.length_filter_lt_length_iff_exists]
  simp

end

/-! ## The tree as a map -/

/-- The lists of the paths hold the entries of the map, one for each session. -/
structure Stores (content : List String → List Subscriber) (m : Subscriptions) : Prop where
  mem : ∀ q x, x ∈ content q ↔
    ∃ f, segments f = q ∧ m.lookup (f, x.sessionId) = some (x.qos, x.noLocal)
  nodup : ∀ q, ((content q).map (·.sessionId)).Nodup

section

variable {content : List String → List Subscriber} {m : Subscriptions} {f sessionId : String}

theorem Stores.mem_segments (h : Stores content m) {x : Subscriber} :
    x ∈ content (segments f) ↔ m.lookup (f, x.sessionId) = some (x.qos, x.noLocal) := by
  rw [h.mem]
  constructor
  · rintro ⟨f', hf', hlookup⟩
    rwa [segments_injective hf'] at hlookup
  · exact fun hlookup => ⟨f, rfl, hlookup⟩

theorem Stores.isSome (h : Stores content m) :
    (m.lookup (f, sessionId)).isSome = true ↔
      ∃ x ∈ content (segments f), x.sessionId = sessionId := by
  rw [Option.isSome_iff_exists]
  constructor
  · rintro ⟨⟨qos, noLocal⟩, hlookup⟩
    exact ⟨{ sessionId, qos, noLocal }, h.mem_segments.mpr hlookup, rfl⟩
  · rintro ⟨x, hx, rfl⟩
    exact ⟨_, h.mem_segments.mp hx⟩

theorem Stores.insert (h : Stores content m) (sub : Subscriber) :
    Stores (Function.update content (segments f) (upsert (content (segments f)) sub))
      (m.insert (f, sub.sessionId) (sub.qos, sub.noLocal)) := by
  refine ⟨fun q x => ?_, fun q => ?_⟩
  · by_cases hq : q = segments f
    · subst hq
      rw [Function.update_self, mem_upsert (h.nodup _), h.mem_segments]
      constructor
      · rintro (rfl | ⟨hlookup, hne⟩)
        · exact ⟨f, rfl, AList.lookup_insert _⟩
        · refine ⟨f, rfl, ?_⟩
          rw [AList.lookup_insert_ne fun heq => hne (congrArg Prod.snd heq)]
          exact hlookup
      · rintro ⟨f', hf', hlookup⟩
        rw [segments_injective hf'] at hlookup
        by_cases hx : x.sessionId = sub.sessionId
        · left
          rw [hx, AList.lookup_insert, Option.some.injEq, Prod.mk.injEq] at hlookup
          cases x
          cases sub
          simp_all
        · rw [AList.lookup_insert_ne fun heq => hx (congrArg Prod.snd heq)] at hlookup
          exact .inr ⟨hlookup, hx⟩
    · rw [Function.update_of_ne hq, h.mem]
      refine exists_congr fun f' => and_congr_right ?_
      rintro rfl
      rw [AList.lookup_insert_ne fun heq => hq (congrArg segments (congrArg Prod.fst heq))]
  · by_cases hq : q = segments f
    · subst hq
      rw [Function.update_self]
      exact nodup_upsert (h.nodup _)
    · rw [Function.update_of_ne hq]
      exact h.nodup q

theorem Stores.erase (h : Stores content m) (f sessionId : String) :
    Stores (Function.update content (segments f) (retain (content (segments f)) sessionId))
      (m.erase (f, sessionId)) := by
  refine ⟨fun q x => ?_, fun q => ?_⟩
  · by_cases hq : q = segments f
    · subst hq
      rw [Function.update_self, mem_retain, h.mem_segments]
      constructor
      · rintro ⟨hlookup, hne⟩
        refine ⟨f, rfl, ?_⟩
        rw [AList.lookup_erase_ne fun heq => hne (congrArg Prod.snd heq)]
        exact hlookup
      · rintro ⟨f', hf', hlookup⟩
        rw [segments_injective hf'] at hlookup
        have hne : x.sessionId ≠ sessionId := by
          rintro rfl
          rw [AList.lookup_erase] at hlookup
          cases hlookup
        rw [AList.lookup_erase_ne fun heq => hne (congrArg Prod.snd heq)] at hlookup
        exact ⟨hlookup, hne⟩
    · rw [Function.update_of_ne hq, h.mem]
      refine exists_congr fun f' => and_congr_right ?_
      rintro rfl
      rw [AList.lookup_erase_ne fun heq => hq (congrArg segments (congrArg Prod.fst heq))]
  · by_cases hq : q = segments f
    · subst hq
      rw [Function.update_self]
      exact nodup_retain (h.nodup _)
    · rw [Function.update_of_ne hq]
      exact h.nodup q

theorem lookup_unsubscribeAll {k : String × String} {v : QoSLevel × Bool} :
    (m.unsubscribeAll sessionId).lookup k = some v ↔ m.lookup k = some v ∧ k.2 ≠ sessionId := by
  have hmem : ∀ {m : Subscriptions}, m.lookup k = some v ↔ ⟨k, v⟩ ∈ m.entries :=
    AList.mem_lookup_iff
  rw [hmem, hmem]
  simp [Subscriptions.unsubscribeAll]

theorem Stores.unsubscribeAll (h : Stores content m) :
    Stores (fun q => retain (content q) sessionId) (m.unsubscribeAll sessionId) := by
  refine ⟨fun q x => ?_, fun q => nodup_retain (h.nodup q)⟩
  rw [mem_retain, h.mem]
  constructor
  · rintro ⟨⟨f, hf, hlookup⟩, hne⟩
    exact ⟨f, hf, lookup_unsubscribeAll.mpr ⟨hlookup, hne⟩⟩
  · rintro ⟨f, hf, hlookup⟩
    obtain ⟨hlookup, hne⟩ := lookup_unsubscribeAll.mp hlookup
    exact ⟨⟨f, hf, hlookup⟩, hne⟩

theorem stores_empty : Stores (fun _ => []) ∅ :=
  ⟨fun q x => by simp, fun _ => List.nodup_nil⟩

end

section

variable {t t' : TopicTree} {paths : List (List String)} {content : List String → List Subscriber}
  {m : Subscriptions} {call : SubscriptionCall} {out : Option Bool}

theorem length_modifyNode {idx : UInt32} {g : TopicNode → TopicNode}
    (h : t.modifyNode idx g = some t') : t'.nodes.length = t.nodes.length := by
  unfold TopicTree.modifyNode at h
  split at h
  · cases h
    exact List.length_modify _ _ _
  · cases h

theorem length_le_of_perform (h : t.perform call = some (t', out)) :
    t.nodes.length ≤ t'.nodes.length := by
  cases call with
  | subscribe f sessionId qos noLocal =>
      simp only [TopicTree.perform, TopicTree.subscribe, ensurePath, Option.bind_eq_bind,
        Option.map_eq_some_iff, Option.bind_eq_some_iff, Prod.mk.injEq] at h
      obtain ⟨_, ⟨⟨grown, idx⟩, hensure, hmodify⟩, rfl, -⟩ := h
      rw [length_modifyNode hmodify]
      exact length_le_of_ensureFrom hensure
  | unsubscribe f sessionId =>
      simp only [TopicTree.perform, TopicTree.unsubscribe, Option.bind_eq_bind,
        Option.map_eq_some_iff, Option.bind_eq_some_iff, Prod.mk.injEq] at h
      obtain ⟨_, ⟨found, -, h⟩, rfl, -⟩ := h
      cases found with
      | none =>
          cases h
          exact Nat.le_refl _
      | some idx =>
          simp only [Option.bind_eq_some_iff] at h
          obtain ⟨_, -, after, hmodify, h⟩ := h
          cases h
          exact (length_modifyNode hmodify).ge
  | unsubscribeAll sessionId =>
      cases h
      simp [TopicTree.unsubscribeAll]

/-- One call. -/
theorem Rep.perform (hrun : t.perform call = some (t', out)) (hle : t'.nodes.length ≤ 2 ^ 32)
    (h : t.Rep paths content) (hm : Stores content m) :
    ∃ paths' content', t'.Rep paths' content' ∧ Stores content' (m.perform call).1 ∧
      out = (m.perform call).2 := by
  cases call with
  | subscribe f sessionId qos noLocal =>
      simp only [TopicTree.perform, TopicTree.subscribe, ensurePath, Option.bind_eq_bind,
        Option.map_eq_some_iff, Option.bind_eq_some_iff, Prod.mk.injEq] at hrun
      obtain ⟨_, ⟨⟨grown, idx⟩, hensure, hmodify⟩, rfl, rfl⟩ := hrun
      rw [length_modifyNode hmodify] at hle
      obtain ⟨paths', hgrown, hidx⟩ := h.ensureFrom hensure hle h.root
      obtain ⟨after, hafter, hrep, -⟩ := hgrown.modifyNode hidx
        (upsert · { sessionId, qos, noLocal })
      cases hmodify.symm.trans hafter
      exact ⟨paths', _, hrep, hm.insert { sessionId, qos, noLocal }, rfl⟩
  | unsubscribe f sessionId =>
      simp only [TopicTree.perform, TopicTree.unsubscribe, Option.bind_eq_bind, findPath,
        Option.map_eq_some_iff, Option.bind_eq_some_iff, Prod.mk.injEq] at hrun
      obtain ⟨⟨_, deleted⟩, ⟨found, hfind, hrun⟩, rfl, rfl⟩ := hrun
      rcases h.findFrom (i := rootNode) h.root (segments f) with ⟨idx, hsome, hidx⟩ | ⟨hnone, habsent⟩
      · cases hfind.symm.trans hsome
        simp only [Option.bind_eq_some_iff] at hrun
        obtain ⟨node, hnode, after, hmodify, hrun⟩ := hrun
        cases hrun
        obtain ⟨after', hafter, hrep, -⟩ := h.modifyNode hidx (retain · sessionId)
        cases hmodify.symm.trans hafter
        obtain ⟨hlist, -⟩ := h.list hnode hidx
        refine ⟨paths, _, hrep, hm.erase _ _, ?_⟩
        simp only [List.nil_append] at hlist
        simp only [Subscriptions.perform, hlist, Option.some.injEq]
        rw [Bool.eq_iff_iff, decide_eq_true_eq, length_retain_lt, hm.isSome]
      · cases hfind.symm.trans hnone
        cases hrun
        have hempty : content (segments f) = [] := h.absent _ habsent
        have herase := hm.erase f sessionId
        rw [hempty, retain, List.filter_nil, ← hempty, Function.update_eq_self] at herase
        refine ⟨paths, content, h, herase, ?_⟩
        have hlookup : (m.lookup (f, sessionId)).isSome = false := by
          rw [Bool.eq_false_iff, Ne, hm.isSome, hempty]
          simp
        simp only [Subscriptions.perform, hlookup]
  | unsubscribeAll sessionId =>
      cases hrun
      exact ⟨paths, _, h.unsubscribeAll sessionId, hm.unsubscribeAll, rfl⟩

theorem performAll_cons {calls : List SubscriptionCall} {outs : List (Option Bool)} :
    t.performAll (call :: calls) = some (t', outs) ↔
      ∃ after out outs', t.perform call = some (after, out) ∧
        after.performAll calls = some (t', outs') ∧ outs = out :: outs' := by
  simp only [TopicTree.performAll, Option.bind_eq_bind, Option.bind_eq_some_iff, Prod.exists,
    Option.some.injEq, Prod.mk.injEq]
  constructor
  · rintro ⟨after, out, hcall, _, outs', hcalls, rfl, rfl⟩
    exact ⟨after, out, outs', hcall, hcalls, rfl⟩
  · rintro ⟨after, out, outs', hcall, hcalls, rfl⟩
    exact ⟨after, out, hcall, t', outs', hcalls, rfl, rfl⟩

theorem length_le_of_performAll {calls : List SubscriptionCall} {outs : List (Option Bool)}
    (h : t.performAll calls = some (t', outs)) : t.nodes.length ≤ t'.nodes.length := by
  induction calls generalizing t outs with
  | nil =>
      cases h
      exact Nat.le_refl _
  | cons call calls ih =>
      obtain ⟨after, out, outs', hcall, hcalls, -⟩ := performAll_cons.mp h
      exact (length_le_of_perform hcall).trans (ih hcalls)

theorem Closed.performAll (h : t.Closed) (calls : List SubscriptionCall) :
    ∃ t' outs, t.performAll calls = some (t', outs) := by
  induction calls generalizing t with
  | nil => exact ⟨t, [], rfl⟩
  | cons call calls ih =>
      obtain ⟨after, out, hcall, hafter⟩ := h.perform call
      obtain ⟨t', outs, hcalls⟩ := ih hafter
      exact ⟨t', _, performAll_cons.mpr ⟨after, out, outs, hcall, hcalls, rfl⟩⟩

/-- All calls. -/
theorem Rep.performAll {calls : List SubscriptionCall} {outs : List (Option Bool)}
    (hrun : t.performAll calls = some (t', outs)) (hle : t'.nodes.length ≤ 2 ^ 32)
    (h : t.Rep paths content) (hm : Stores content m) :
    ∃ paths' content', t'.Rep paths' content' ∧ Stores content' (m.performAll calls).1 ∧
      outs = (m.performAll calls).2 := by
  induction calls generalizing t outs paths content m with
  | nil =>
      cases hrun
      exact ⟨paths, content, h, hm, rfl⟩
  | cons call calls ih =>
      obtain ⟨after, out, outs', hcall, hcalls, rfl⟩ := performAll_cons.mp hrun
      obtain ⟨paths₁, content₁, h₁, hm₁, rfl⟩ :=
        h.perform hcall ((length_le_of_performAll hcalls).trans hle) hm
      obtain ⟨paths₂, content₂, h₂, hm₂, rfl⟩ := ih hcalls h₁ hm₁
      exact ⟨paths₂, content₂, h₂, hm₂, rfl⟩

/-! ## Matching -/

/-- The subscribers of the matching paths are those of the matching entries.  Both lists
are compared with each subscriber under its path, where none is repeated. -/
theorem Stores.perm (h : Stores content m) {topic : String} (ht : Plain (segments topic)) :
    ((candidates [] (segments topic)).flatMap content).Perm (m.matchingSubscribers topic) := by
  let tagged := (candidates [] (segments topic)).flatMap fun q => (content q).map (Prod.mk q)
  let entries := (m.entries.filter fun e => filterMatches (segments e.1.1) (segments topic)).map
    fun e => (segments e.1.1, ({ sessionId := e.1.2, qos := e.2.1, noLocal := e.2.2 } : Subscriber))
  have htagged : tagged.Nodup := by
    refine List.nodup_flatMap.mpr ⟨fun q _ => ?_, ?_⟩
    · exact (List.Nodup.of_map _ (h.nodup q)).map fun x y hxy => congrArg Prod.snd hxy
    · refine (nodup_candidates ht []).imp fun {q q'} hne => ?_
      rw [Function.onFun, List.disjoint_left]
      intro x hx hx'
      obtain ⟨_, -, rfl⟩ := List.mem_map.mp hx
      obtain ⟨_, -, heq⟩ := List.mem_map.mp hx'
      exact hne (congrArg Prod.fst heq).symm
  have hentries : entries.Nodup := by
    refine (m.nodupKeys.nodup.filter _).map ?_
    rintro ⟨⟨f, sid⟩, qos, noLocal⟩ ⟨⟨f', sid'⟩, qos', noLocal'⟩ heq
    simp only [Prod.mk.injEq, Subscriber.mk.injEq] at heq
    obtain ⟨hf, rfl, rfl, rfl⟩ := heq
    rw [segments_injective hf]
  have hperm : tagged.Perm entries := by
    rw [List.perm_ext_iff_of_nodup htagged hentries]
    rintro ⟨q, x⟩
    simp only [tagged, entries, List.mem_flatMap, List.mem_map, List.mem_filter, Prod.mk.injEq,
      mem_candidates ht, List.nil_append, h.mem]
    constructor
    · rintro ⟨_, ⟨_, rfl, hmatch⟩, x, ⟨f, rfl, hlookup⟩, rfl, rfl⟩
      exact ⟨⟨(f, x.sessionId), (x.qos, x.noLocal)⟩, ⟨AList.mem_lookup_iff.mp hlookup, hmatch⟩,
        rfl, rfl⟩
    · rintro ⟨⟨⟨f, sid⟩, qos, noLocal⟩, ⟨hentry, hmatch⟩, rfl, rfl⟩
      exact ⟨_, ⟨_, rfl, hmatch⟩, _, ⟨f, rfl, AList.mem_lookup_iff.mpr hentry⟩, rfl, rfl⟩
  have hmap := hperm.map Prod.snd
  simpa [tagged, entries, List.map_flatMap, Subscriptions.matchingSubscribers, Function.comp_def]
    using hmap

end

/-- After the calls, and in all that the calls return, the tree `t` is the map. -/
def IsMap (calls : List SubscriptionCall) (t : TopicTree) (outs : List (Option Bool)) : Prop :=
  outs = (Subscriptions.performAll ∅ calls).2 ∧
    ∀ topic, Plain (segments topic) → ∃ found, t.matchingSubscribers topic = some found ∧
      found.Perm ((Subscriptions.performAll ∅ calls).1.matchingSubscribers topic)

/-- Every sequence of calls succeeds, and with at most `2 ^ 32` nodes the tree is the
finite map that the calls make. -/
theorem isMap_of_nodeCount_le (calls : List SubscriptionCall) :
    ∃ t outs, TopicTree.new.performAll calls = some (t, outs) ∧
      (t.nodeCount ≤ 2 ^ 32 → IsMap calls t outs) := by
  obtain ⟨t, outs, hrun⟩ := closed_new.performAll calls
  refine ⟨t, outs, hrun, fun hle => ?_⟩
  obtain ⟨paths, content, hrep, hstores, hout⟩ := rep_new.performAll hrun hle stores_empty
  refine ⟨hout, fun topic htopic => ⟨_, ?_, hstores.perm htopic⟩⟩
  exact hrep.collectMatches (i := rootNode) hrep.root (by decide) htopic

theorem isMap_of_nodeCount_le_overlap :
    ∃ t outs, TopicTree.new.performAll
        [.subscribe "a/+" "s" .atMostOnce false, .subscribe "a/#" "s" .atLeastOnce true,
          .unsubscribe "a/+" "s", .unsubscribe "a/+" "s"] = some (t, outs) ∧
      IsMap [.subscribe "a/+" "s" .atMostOnce false, .subscribe "a/#" "s" .atLeastOnce true,
          .unsubscribe "a/+" "s", .unsubscribe "a/+" "s"] t outs := by
  obtain ⟨t, outs, hrun, hmap⟩ := isMap_of_nodeCount_le
    [.subscribe "a/+" "s" .atMostOnce false, .subscribe "a/#" "s" .atLeastOnce true,
      .unsubscribe "a/+" "s", .unsubscribe "a/+" "s"]
  refine ⟨t, outs, hrun, hmap ?_⟩
  have hcount : (TopicTree.new.performAll
      [.subscribe "a/+" "s" .atMostOnce false, .subscribe "a/#" "s" .atLeastOnce true,
        .unsubscribe "a/+" "s", .unsubscribe "a/+" "s"]).map (·.1.nodeCount) = some 4 := by
    decide +kernel
  simp only [hrun, Option.map_some, Option.some.injEq] at hcount
  omega

/-! ## More nodes than indices -/

/-- One session subscribes to `n` filters. -/
def wideCalls (n : Nat) : List SubscriptionCall :=
  (List.range n).map fun k => .subscribe (unary k) "s" .atMostOnce false

theorem plain_unary (k : Nat) : Plain (segments (unary k)) := by
  intro s hs
  rw [segments_unary, List.mem_singleton] at hs
  subst hs
  exact unary_ne k

/-- The tree of `n` such filters. -/
structure Wide (n : Nat) (t : TopicTree) : Prop where
  length : t.nodes.length = n + 1
  root : ∃ node, t.nodes[0]? = some node ∧ ∀ k, node.children.lookup (unary k) =
    if k < n then some (UInt32.ofNat (k + 1)) else none

theorem self_mem_upsert (list : List Subscriber) (sub : Subscriber) : sub ∈ upsert list sub := by
  induction list with
  | nil => simp [upsert]
  | cons s list ih =>
      unfold upsert
      split
      · exact List.mem_cons_self
      · exact List.mem_cons_of_mem _ ih

/-- The subscriber goes to the node at the index as it wraps around. -/
theorem Wide.subscribe {n : Nat} {t : TopicTree} (h : Wide n t) (sessionId : String) :
    ∃ t', t.perform (.subscribe (unary n) sessionId .atMostOnce false) = some (t', none) ∧
      Wide (n + 1) t' ∧ ∃ node, t'.nodes[(n + 1) % 2 ^ 32]? = some node ∧
        { sessionId, qos := .atMostOnce, noLocal := false } ∈ node.subscribers := by
  obtain ⟨root, hroot, hlookup⟩ := h.root
  have hlength := length_grown t rootNode (unary n)
  rw [h.length] at hlength
  have hidx : (UInt32.ofNat (n + 1)).toNat = (n + 1) % 2 ^ 32 := UInt32.toNat_ofNat'
  have hlt : (n + 1) % 2 ^ 32 < (t.grown rootNode (unary n)).nodes.length := by
    have := Nat.mod_le (n + 1) (2 ^ 32)
    omega
  have hensure : t.ensureFrom rootNode [unary n] =
      some (t.grown rootNode (unary n), UInt32.ofNat (n + 1)) := by
    have hnone := hlookup n
    rw [if_neg (Nat.lt_irrefl n)] at hnone
    rw [ensureFrom_cons (i := rootNode) hroot, hnone, ← h.length]
    rfl
  let sub : Subscriber := { sessionId, qos := .atMostOnce, noLocal := false }
  let nodes := (t.grown rootNode (unary n)).nodes.modify ((n + 1) % 2 ^ 32) fun node =>
    node.modifyList (unary n) (upsert · sub)
  refine ⟨⟨nodes⟩, ?_, ⟨?_, ?_⟩, ?_⟩
  · simp only [TopicTree.perform, TopicTree.subscribe, ensurePath, segments_unary, hensure,
      Option.bind_eq_bind, Option.bind_some, TopicTree.modifyNode, hidx]
    rw [if_pos hlt]
    rfl
  · rw [List.length_modify, hlength]
  · have hgrown : (t.grown rootNode (unary n)).nodes[0]? =
        some { root with children := root.children.insert (unary n) (UInt32.ofNat (n + 1)) } := by
      have hfirst : (t.nodes ++ [TopicNode.new rootNode (unary n)])[0]? = some root := by
        rw [List.getElem?_append_left (h.length ▸ Nat.succ_pos n), hroot]
      simp only [grown, List.getElem?_modify, hfirst, h.length]
      rfl
    have hmodify : ∃ node, nodes[0]? = some node ∧
        node.children = root.children.insert (unary n) (UInt32.ofNat (n + 1)) := by
      simp only [nodes, List.getElem?_modify, hgrown]
      refine ⟨_, rfl, ?_⟩
      split
      · rw [children_modifyList]
      · rfl
    obtain ⟨node, hnode, hchildren⟩ := hmodify
    refine ⟨node, hnode, fun k => ?_⟩
    rw [hchildren]
    by_cases hk : k = n
    · subst hk
      rw [AList.lookup_insert, if_pos (Nat.lt_succ_self k)]
    · rw [AList.lookup_insert_ne fun heq => hk (unary_injective heq), hlookup]
      exact if_congr (by omega) rfl rfl
  · simp only [nodes, List.getElem?_modify, List.getElem?_eq_getElem hlt]
    refine ⟨_, rfl, ?_⟩
    simp only [if_true, TopicNode.modifyList, (unary_ne n).2, if_false]
    exact self_mem_upsert _ sub

theorem performAll_append {t t' : TopicTree} {calls calls' : List SubscriptionCall}
    {outs : List (Option Bool)} (h : t.performAll (calls ++ calls') = some (t', outs)) :
    ∃ after outs₁ outs₂, t.performAll calls = some (after, outs₁) ∧
      after.performAll calls' = some (t', outs₂) := by
  induction calls generalizing t outs with
  | nil => exact ⟨t, [], outs, rfl, h⟩
  | cons call calls ih =>
      obtain ⟨after, out, outs', hcall, hcalls, rfl⟩ := performAll_cons.mp h
      obtain ⟨after', outs₁, outs₂, hfirst, hsecond⟩ := ih hcalls
      exact ⟨after', out :: outs₁, outs₂, performAll_cons.mpr ⟨after, out, outs₁, hcall, hfirst, rfl⟩,
        hsecond⟩

theorem wide_of_performAll {n : Nat} {t : TopicTree} {outs : List (Option Bool)}
    (h : TopicTree.new.performAll (wideCalls n) = some (t, outs)) : Wide n t := by
  induction n generalizing t outs with
  | zero =>
      cases h
      exact ⟨rfl, _, rfl, fun k => AList.lookup_empty _⟩
  | succ n ih =>
      rw [wideCalls, List.range_succ, List.map_append] at h
      obtain ⟨after, outs₁, outs₂, hfirst, hlast⟩ := performAll_append h
      obtain ⟨t', hcall, hwide, -⟩ := (ih hfirst).subscribe "s"
      obtain ⟨after', out, outs', hcall', hnil, -⟩ := performAll_cons.mp hlast
      cases hcall.symm.trans hcall'
      cases hnil
      exact hwide

/-- Only one session is in the map. -/
theorem lookup_wideCalls (n : Nat) (f : String) :
    (Subscriptions.performAll ∅ (wideCalls n)).1.lookup (f, "t") = none := by
  have hall : ∀ (ks : List Nat) (m : Subscriptions), m.lookup (f, "t") = none →
      (m.performAll (ks.map fun k => .subscribe (unary k) "s" .atMostOnce false)).1.lookup
        (f, "t") = none := by
    intro ks
    induction ks with
    | nil => exact fun m hm => hm
    | cons k ks ih =>
        intro m hm
        refine ih _ ?_
        have hne : (f, "t") ≠ (unary k, "s") := fun heq => by simp at heq
        simp only [AList.lookup_insert_ne hne, hm]
  exact hall _ ∅ rfl

theorem performAll_concat_fst (m : Subscriptions) (calls : List SubscriptionCall)
    (call : SubscriptionCall) :
    (m.performAll (calls ++ [call])).1 = ((m.performAll calls).1.perform call).1 := by
  induction calls generalizing m with
  | nil => rfl
  | cons call' calls ih => exact ih _

/-- After `2 ^ 32` filters the index of the next node is that of the first filter, whose
topic then finds the new subscriber too. -/
theorem not_isMap_of_wide : ¬ ∃ t outs,
    TopicTree.new.performAll (wideCalls (2 ^ 32) ++
      [.subscribe (unary (2 ^ 32)) "t" .atMostOnce false]) = some (t, outs) ∧
    IsMap (wideCalls (2 ^ 32) ++ [.subscribe (unary (2 ^ 32)) "t" .atMostOnce false]) t outs := by
  generalize hn : 2 ^ 32 = n
  rintro ⟨t, outs, hrun, -, hmap⟩
  obtain ⟨found, hfound, hperm⟩ := hmap _ (plain_unary 0)
  obtain ⟨after, outs₁, outs₂, hfirst, hlast⟩ := performAll_append hrun
  obtain ⟨t', hcall, hwide, node, hnode, hmem⟩ := (wide_of_performAll hfirst).subscribe "t"
  obtain ⟨after', out, outs', hcall', hnil, -⟩ := performAll_cons.mp hlast
  cases hcall.symm.trans hcall'
  cases hnil
  -- the tree finds it
  have hin : { sessionId := "t", qos := .atMostOnce, noLocal := false } ∈ found := by
    obtain ⟨root, hroot, hlookup⟩ := hwide.root
    have hzero := hlookup 0
    rw [if_pos (Nat.succ_pos n)] at hzero
    have hidx : (n + 1) % 2 ^ 32 = (UInt32.ofNat (0 + 1)).toNat := by
      rw [← hn]
      decide
    rw [hidx] at hnode
    rw [matchingSubscribers, segments_unary, ← collectFrom_map,
      collectFrom_cons (i := rootNode) hroot] at hfound
    simp only [Option.map_eq_some_iff, Option.bind_eq_some_iff, Option.some.injEq] at hfound
    obtain ⟨_, ⟨exact', hexact, plus, -, hash, -, rfl⟩, rfl⟩ := hfound
    simp only [below, hzero, TopicTree.collectFrom, hnode, Option.bind_eq_bind,
      Option.bind_some, Option.bind_eq_some_iff, Option.some.injEq] at hexact
    obtain ⟨hash', -, rfl⟩ := hexact
    simp [hmem]
  -- the map does not
  have hspec := hperm.mem_iff.mp hin
  rw [performAll_concat_fst] at hspec
  simp only [Subscriptions.matchingSubscribers, List.mem_map, List.mem_filter] at hspec
  obtain ⟨⟨⟨f, sid⟩, v⟩, ⟨hentry, hmatch⟩, heq⟩ := hspec
  cases congrArg Subscriber.sessionId heq
  have hlookup := AList.mem_lookup_iff.mpr hentry
  have hf : f = unary n := by
    by_contra hne
    simp only [Subscriptions.perform] at hlookup
    rw [AList.lookup_insert_ne (by simpa using hne), lookup_wideCalls] at hlookup
    cases hlookup
  subst hf
  have hfilter : unary n = unary 0 := by
    obtain ⟨hplus, hhash⟩ := unary_ne n
    simpa [segments_unary, filterMatches, hplus, hhash] using hmatch
  have hzero : n = 0 := unary_injective hfilter
  rw [← hn] at hzero
  exact absurd hzero (by decide)

end TopicTree

end Broker
end Vaux
