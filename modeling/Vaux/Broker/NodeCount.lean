import Mathlib.Data.Finset.Card
import Mathlib.Data.List.Infix
import Vaux.Broker.Subscriptions

/-!
# How many nodes there are

The nodes of the tree are the root and one node for each prefix of a filter that has been
subscribed to.  Nothing takes a node away.
-/

namespace Vaux
namespace Broker

open Mqtt

namespace SubscriptionCall

/-- The non-empty prefixes of the filter that the call subscribes to. -/
def prefixes : SubscriptionCall → List (List String)
  | .subscribe filter _ _ _ => (segments filter).inits.filter (· ≠ [])
  | _ => []

/-- The distinct prefixes of the filters ever subscribed. -/
def prefixesOf (calls : List SubscriptionCall) : Finset (List String) :=
  (calls.flatMap prefixes).toFinset

theorem mem_prefixes_subscribe {filter sessionId : String} {qos : QoSLevel} {noLocal : Bool}
    {q : List String} : q ∈ prefixes (.subscribe filter sessionId qos noLocal) ↔
      q <+: segments filter ∧ q ≠ [] := by
  simp [prefixes, List.mem_inits]

end SubscriptionCall

namespace TopicTree

section

variable {t t' : TopicTree} {paths : List (List String)} {content : List String → List Subscriber}
  {p : List String} {i idx : UInt32} {call : SubscriptionCall} {out : Option Bool}
  {F : Finset (List String)}

theorem Rep.nil_mem (h : t.Rep paths content) : [] ∈ paths := List.mem_of_getElem? h.root

theorem Rep.mem_of_prefix (h : t.Rep paths content) (hp : p ∈ paths) {q : List String}
    (hq : q <+: p) : q ∈ paths := by
  obtain ⟨f, rfl⟩ := hq
  exact h.closed_append hp

/-- Distinct paths, of which only the root's is empty. -/
theorem length_le_card (hnodup : paths.Nodup) (hF : ∀ q ∈ paths, q ≠ [] → q ∈ F) :
    paths.length ≤ F.card + 1 := by
  rw [← List.toFinset_card_of_nodup hnodup]
  refine (Finset.card_le_card fun q hq => ?_).trans (Finset.card_insert_le [] F)
  rw [Finset.mem_insert]
  by_cases hnil : q = []
  · exact .inl hnil
  · exact .inr (hF q (List.mem_toFinset.mp hq) hnil)

/-- The paths that `ensure_path` leaves, among as many as there are indices. -/
theorem Rep.ensureFrom_paths (hF : F.card < 2 ^ 32) {segs : List String}
    (hrun : t.ensureFrom i segs = some (t', idx)) (h : t.Rep paths content)
    (hp : paths[i.toNat]? = some p) (hpaths : ∀ q ∈ paths, q ≠ [] → q ∈ F)
    (hsegs : ∀ q, q <+: p ++ segs → q ≠ [] → q ∈ F) :
    ∃ paths', t'.Rep paths' content ∧ paths'[idx.toNat]? = some (p ++ segs) ∧
      ∀ q, q ∈ paths' ↔ q ∈ paths ∨ q <+: p ++ segs := by
  induction segs generalizing t i p paths with
  | nil =>
      cases hrun
      rw [List.append_nil]
      refine ⟨paths, h, hp, fun q => ?_⟩
      exact (or_iff_left_of_imp (h.mem_of_prefix (List.mem_of_getElem? hp))).symm
  | cons s segs ih =>
      obtain ⟨node, hnode⟩ := h.node hp
      rw [ensureFrom_cons hnode] at hrun
      rw [List.append_cons] at hsegs ⊢
      cases hlookup : node.children.lookup s with
      | some child =>
          rw [hlookup] at hrun
          exact ih hrun h ((h.child hnode hp s child).mp hlookup) hpaths hsegs
      | none =>
          rw [hlookup] at hrun
          have hnew := (h.lookup_none hnode hp).mp hlookup
          have hmem : ∀ q ∈ paths ++ [p ++ [s]], q ≠ [] → q ∈ F := by
            intro q hq hne
            rw [List.mem_append, List.mem_singleton] at hq
            obtain hq | rfl := hq
            · exact hpaths q hq hne
            · exact hsegs _ (List.prefix_append _ _) hne
          have hnodup : (paths ++ [p ++ [s]]).Nodup := by
            rw [List.nodup_append_comm]
            exact List.nodup_cons.mpr ⟨hnew, h.nodup⟩
          have hle := length_le_card hnodup hmem
          rw [List.length_append, List.length_singleton, h.length] at hle
          have hlt : t.nodes.length < 2 ^ 32 := by omega
          have hleaf : (UInt32.ofNat t.nodes.length).toNat = paths.length := by
            rw [UInt32.toNat_ofNat', Nat.mod_eq_of_lt hlt, h.length]
          obtain ⟨paths', hrep, hidx, hpaths'⟩ := ih hrun (h.grow hp hnew hlt)
            (getElem?_concat.mpr (.inr ⟨hleaf, rfl⟩)) hmem hsegs
          refine ⟨paths', hrep, hidx, fun q => ?_⟩
          rw [hpaths', List.mem_append, List.mem_singleton, or_assoc]
          refine or_congr_right (or_iff_right_of_imp ?_)
          rintro rfl
          exact List.prefix_append _ _

/-- One call. -/
theorem Rep.perform_paths (hF : F.card < 2 ^ 32) (hrun : t.perform call = some (t', out))
    (h : t.Rep paths content) (hpaths : ∀ q ∈ paths, q ≠ [] → q ∈ F)
    (hcall : ∀ q ∈ call.prefixes, q ∈ F) :
    ∃ paths' content', t'.Rep paths' content' ∧ ∀ q, q ∈ paths' ↔ q ∈ paths ∨ q ∈ call.prefixes := by
  cases call with
  | subscribe f sessionId qos noLocal =>
      simp only [TopicTree.perform, TopicTree.subscribe, ensurePath, Option.bind_eq_bind,
        Option.map_eq_some_iff, Option.bind_eq_some_iff, Prod.mk.injEq] at hrun
      obtain ⟨_, ⟨⟨grown, idx⟩, hensure, hmodify⟩, rfl, -⟩ := hrun
      simp only [SubscriptionCall.mem_prefixes_subscribe] at hcall ⊢
      obtain ⟨paths', hgrown, hidx, hpaths'⟩ := h.ensureFrom_paths hF hensure h.root hpaths
        fun q hq hne => hcall q ⟨hq, hne⟩
      obtain ⟨after, hafter, hrep, -⟩ := hgrown.modifyNode hidx
        (upsert · { sessionId, qos, noLocal })
      cases hmodify.symm.trans hafter
      refine ⟨paths', _, hrep, fun q => ?_⟩
      rw [hpaths', List.nil_append]
      by_cases hnil : q = []
      · subst hnil
        exact iff_of_true (.inl h.nil_mem) (.inl h.nil_mem)
      · simp [hnil]
  | unsubscribe f sessionId =>
      have hnone : ∀ q, q ∈ paths ↔ q ∈ paths ∨
          q ∈ SubscriptionCall.prefixes (.unsubscribe f sessionId) := fun q => by
        simp [SubscriptionCall.prefixes]
      simp only [TopicTree.perform, TopicTree.unsubscribe, Option.bind_eq_bind, findPath,
        Option.map_eq_some_iff, Option.bind_eq_some_iff, Prod.mk.injEq] at hrun
      obtain ⟨⟨_, deleted⟩, ⟨found, hfind, hrun⟩, rfl, -⟩ := hrun
      obtain ⟨idx, hsome, hidx⟩ | ⟨habsent, -⟩ :=
        h.findFrom (i := rootNode) h.root (segments f)
      · cases hfind.symm.trans hsome
        simp only [Option.bind_eq_some_iff] at hrun
        obtain ⟨_, -, after, hmodify, hrun⟩ := hrun
        cases hrun
        obtain ⟨after', hafter, hrep, -⟩ := h.modifyNode hidx (retain · sessionId)
        cases hmodify.symm.trans hafter
        exact ⟨paths, _, hrep, hnone⟩
      · cases hfind.symm.trans habsent
        cases hrun
        exact ⟨paths, content, h, hnone⟩
  | unsubscribeAll sessionId =>
      cases hrun
      exact ⟨paths, _, h.unsubscribeAll sessionId, fun q => by simp [SubscriptionCall.prefixes]⟩

/-- All calls. -/
theorem Rep.performAll_paths (hF : F.card < 2 ^ 32) {calls : List SubscriptionCall}
    {outs : List (Option Bool)} (hrun : t.performAll calls = some (t', outs))
    (h : t.Rep paths content) (hpaths : ∀ q ∈ paths, q ≠ [] → q ∈ F)
    (hcalls : ∀ q ∈ calls.flatMap SubscriptionCall.prefixes, q ∈ F) :
    ∃ paths' content', t'.Rep paths' content' ∧
      ∀ q, q ∈ paths' ↔ q ∈ paths ∨ q ∈ calls.flatMap SubscriptionCall.prefixes := by
  induction calls generalizing t outs paths content with
  | nil =>
      cases hrun
      exact ⟨paths, content, h, fun q => by simp⟩
  | cons call calls ih =>
      obtain ⟨after, out, outs', hcall, hrest, -⟩ := performAll_cons.mp hrun
      rw [List.flatMap_cons] at hcalls ⊢
      have hfirst : ∀ q ∈ call.prefixes, q ∈ F := fun q hq => hcalls q (List.mem_append_left _ hq)
      obtain ⟨paths₁, content₁, h₁, hpaths₁⟩ := h.perform_paths hF hcall hpaths hfirst
      have hmem₁ : ∀ q ∈ paths₁, q ≠ [] → q ∈ F := by
        intro q hq hne
        obtain hq | hq := (hpaths₁ q).mp hq
        · exact hpaths q hq hne
        · exact hfirst q hq
      obtain ⟨paths₂, content₂, h₂, hpaths₂⟩ := ih hrest h₁ hmem₁
        fun q hq => hcalls q (List.mem_append_right _ hq)
      exact ⟨paths₂, content₂, h₂, fun q => by rw [hpaths₂, hpaths₁, List.mem_append, or_assoc]⟩

end

section

variable {t t' : TopicTree} {calls calls' : List SubscriptionCall} {outs : List (Option Bool)}

open SubscriptionCall (prefixesOf)

/-- One node for the root and one for each prefix. -/
theorem nodeCount_of_performAll (hrun : TopicTree.new.performAll calls = some (t, outs))
    (hcard : (prefixesOf calls).card < 2 ^ 32) : t.nodeCount = 1 + (prefixesOf calls).card := by
  obtain ⟨paths, content, hrep, hpaths⟩ := rep_new.performAll_paths hcard hrun
    (fun q hq hne => absurd (List.mem_singleton.mp hq) hne) fun q hq => List.mem_toFinset.mpr hq
  have hset : paths.toFinset = insert [] (prefixesOf calls) := by
    ext q
    rw [List.mem_toFinset, hpaths, List.mem_singleton, Finset.mem_insert, prefixesOf,
      List.mem_toFinset]
  have hroot : [] ∉ prefixesOf calls := by
    intro hmem
    obtain ⟨call, -, hcall⟩ := List.mem_flatMap.mp (List.mem_toFinset.mp hmem)
    cases call with
    | subscribe f sessionId qos noLocal =>
        exact (SubscriptionCall.mem_prefixes_subscribe.mp hcall).2 rfl
    | _ => cases hcall
  rw [nodeCount, ← hrep.length, ← List.toFinset_card_of_nodup hrep.nodup, hset,
    Finset.card_insert_of_notMem hroot, Nat.add_comm]

theorem performAll_concat {after : TopicTree} {call : SubscriptionCall} {out : Option Bool}
    (hrun : t.performAll calls = some (t', outs)) (hcall : t'.perform call = some (after, out)) :
    t.performAll (calls ++ [call]) = some (after, outs ++ [out]) := by
  induction calls generalizing t outs with
  | nil =>
      cases hrun
      exact performAll_cons.mpr ⟨after, out, [], hcall, rfl, rfl⟩
  | cons call' calls ih =>
      obtain ⟨t₁, out', outs', hfirst, hrest, rfl⟩ := performAll_cons.mp hrun
      exact performAll_cons.mpr ⟨t₁, out', outs' ++ [out], hfirst, ih hrest, rfl⟩

theorem prefixesOf_perm (h : calls'.Perm calls) : prefixesOf calls' = prefixesOf calls := by
  ext q
  simp only [prefixesOf, List.mem_toFinset]
  exact (h.flatMap_right _).mem_iff

/-- A filter that is subscribed again has no new prefix. -/
theorem prefixesOf_concat {call : SubscriptionCall}
    (h : ∀ q ∈ call.prefixes, q ∈ prefixesOf calls) :
    prefixesOf (calls ++ [call]) = prefixesOf calls := by
  ext q
  simp only [prefixesOf, List.flatMap_append, List.flatMap_singleton, List.toFinset_append,
    Finset.mem_union, List.mem_toFinset] at h ⊢
  exact or_iff_left_of_imp (h q)

theorem nodeCount_unsubscribe {filter sessionId : String} {out : Bool}
    (h : t.unsubscribe filter sessionId = some (t', out)) : t'.nodeCount = t.nodeCount := by
  simp only [TopicTree.unsubscribe, Option.bind_eq_bind, Option.bind_eq_some_iff] at h
  obtain ⟨found, -, h⟩ := h
  cases found with
  | none =>
      cases h
      rfl
  | some idx =>
      simp only [Option.bind_eq_some_iff] at h
      obtain ⟨_, -, after, hmodify, h⟩ := h
      cases h
      exact length_modifyNode hmodify

theorem nodeCount_unsubscribeAll (t : TopicTree) (sessionId : String) :
    (t.unsubscribeAll sessionId).nodeCount = t.nodeCount := List.length_map _

/-- While there are fewer prefixes than indices, the number of nodes is that of the prefixes and
one; so the order of the calls does not matter, a filter that is subscribed again allocates
nothing, and no unsubscribing changes the number. -/
theorem nodeCount_eq_prefixes (calls : List SubscriptionCall) :
    ∃ t outs, TopicTree.new.performAll calls = some (t, outs) ∧
      ((prefixesOf calls).card < 2 ^ 32 →
        t.nodeCount = 1 + (prefixesOf calls).card ∧
        (∀ calls' t' outs', calls'.Perm calls →
          TopicTree.new.performAll calls' = some (t', outs') → t'.nodeCount = t.nodeCount) ∧
        ∀ filter sessionId qos noLocal, .subscribe filter sessionId qos noLocal ∈ calls →
          ∀ sessionId' qos' noLocal' t' out,
            t.perform (.subscribe filter sessionId' qos' noLocal') = some (t', out) →
              t'.nodeCount = t.nodeCount) ∧
      (∀ filter sessionId t' out, t.unsubscribe filter sessionId = some (t', out) →
        t'.nodeCount = t.nodeCount) ∧
      ∀ sessionId, (t.unsubscribeAll sessionId).nodeCount = t.nodeCount := by
  obtain ⟨t, outs, hrun⟩ := closed_new.performAll calls
  refine ⟨t, outs, hrun, fun hcard => ?_, fun _ _ _ _ => nodeCount_unsubscribe,
    nodeCount_unsubscribeAll t⟩
  have hcount := nodeCount_of_performAll hrun hcard
  refine ⟨hcount, fun calls' t' outs' hperm hrun' => ?_, ?_⟩
  · rw [nodeCount_of_performAll hrun' (by rwa [prefixesOf_perm hperm]), prefixesOf_perm hperm,
      hcount]
  · intro filter sessionId qos noLocal hmem sessionId' qos' noLocal' t' out hperform
    have hold : prefixesOf (calls ++ [.subscribe filter sessionId' qos' noLocal']) =
        prefixesOf calls := prefixesOf_concat fun q hq =>
      List.mem_toFinset.mpr (List.mem_flatMap.mpr ⟨_, hmem, hq⟩)
    rw [nodeCount_of_performAll (performAll_concat hrun hperform) (by rwa [hold]), hold, hcount]

theorem nodeCount_eq_prefixes_shared : ∃ t outs,
    TopicTree.new.performAll [.subscribe "a/b" "s" .atMostOnce false,
      .subscribe "a/c" "t" .atLeastOnce false, .unsubscribe "a/b" "s"] = some (t, outs) ∧
    t.nodeCount = 1 + 3 := by
  obtain ⟨t, outs, hrun, hcount, -⟩ := nodeCount_eq_prefixes
    [.subscribe "a/b" "s" .atMostOnce false, .subscribe "a/c" "t" .atLeastOnce false,
      .unsubscribe "a/b" "s"]
  have hcard : (prefixesOf [.subscribe "a/b" "s" .atMostOnce false,
      .subscribe "a/c" "t" .atLeastOnce false, .unsubscribe "a/b" "s"]).card = 3 := by
    decide +kernel
  rw [hcard] at hcount
  exact ⟨t, outs, hrun, (hcount (by decide)).1⟩

end

/-! ## More prefixes than indices -/

theorem segments_append (f g : String) : segments (f ++ "/" ++ g) = segments f ++ segments g := by
  have hlist : (f ++ "/" ++ g).toList = f.toList ++ '/' :: g.toList := by
    simp
  rw [segments, hlist, List.splitOn_append_cons_self, List.map_append]
  rfl

/-- The filters of `wideCalls`, and one more. -/
theorem card_prefixesOf_wide (n : Nat) :
    n + 2 ≤ (SubscriptionCall.prefixesOf (wideCalls (n + 1) ++
      [.subscribe (unary n ++ "/" ++ unary 0) "s" .atMostOnce false])).card := by
  let paths := [unary n, unary 0] :: (List.range (n + 1)).map fun k => [unary k]
  have hnodup : paths.Nodup := by
    refine List.nodup_cons.mpr ⟨?_, List.nodup_range.map fun j k hjk => ?_⟩
    · rw [List.mem_map]
      rintro ⟨k, -, hk⟩
      exact absurd (congrArg List.length hk) (by simp)
    · exact unary_injective (List.head_eq_of_cons_eq hjk)
  have hlength : paths.length = n + 2 := by simp [paths]
  rw [← hlength, ← List.toFinset_card_of_nodup hnodup]
  refine Finset.card_le_card fun q hq => List.mem_toFinset.mpr ?_
  rw [List.flatMap_append, List.mem_append]
  obtain rfl | hq := List.mem_cons.mp (List.mem_toFinset.mp hq)
  · right
    rw [List.flatMap_singleton, SubscriptionCall.mem_prefixes_subscribe, segments_append,
      segments_unary, segments_unary]
    exact ⟨List.prefix_rfl, nofun⟩
  · left
    obtain ⟨k, hk, rfl⟩ := List.mem_map.mp hq
    refine List.mem_flatMap.mpr ⟨_, List.mem_map.mpr ⟨k, hk, rfl⟩, ?_⟩
    rw [SubscriptionCall.mem_prefixes_subscribe, segments_unary]
    exact ⟨List.prefix_rfl, nofun⟩

/-- The last filter of `2 ^ 32` has the root for its node, whose children are below it too. -/
theorem Wide.ensurePath {n : Nat} {t : TopicTree} (h : Wide (n + 1) t)
    (hn : UInt32.ofNat (n + 1) = 0) :
    t.ensurePath (segments (unary n ++ "/" ++ unary 0)) = some (t, 1) := by
  obtain ⟨root, hroot, hlookup⟩ := h.root
  have hlast := hlookup n
  have hfirst := hlookup 0
  rw [if_pos (Nat.lt_succ_self n), hn] at hlast
  rw [if_pos (Nat.succ_pos n)] at hfirst
  have hbelow : t.ensureFrom 0 [unary 0] = some (t, 1) := by
    rw [ensureFrom_cons (i := 0) hroot, hfirst]
    rfl
  rw [segments_append, segments_unary, segments_unary, TopicTree.ensurePath, List.singleton_append,
    ensureFrom_cons (i := rootNode) hroot, hlast]
  exact hbelow

/-- With `2 ^ 32` filters the index of the last node is that of the root, and a filter below it
finds its node there. -/
theorem not_nodeCount_eq_of_wide : ¬ ∃ t outs,
    TopicTree.new.performAll (wideCalls (2 ^ 32) ++
      [.subscribe (unary (2 ^ 32 - 1) ++ "/" ++ unary 0) "s" .atMostOnce false]) = some (t, outs) ∧
    t.nodeCount = 1 + (SubscriptionCall.prefixesOf (wideCalls (2 ^ 32) ++
      [.subscribe (unary (2 ^ 32 - 1) ++ "/" ++ unary 0) "s" .atMostOnce false])).card := by
  have hwrap : UInt32.ofNat (2 ^ 32 - 1 + 1) = 0 := by decide
  rw [show 2 ^ 32 = 2 ^ 32 - 1 + 1 from rfl, Nat.add_sub_cancel]
  generalize 2 ^ 32 - 1 = n at hwrap ⊢
  rintro ⟨t, outs, hrun, hcount⟩
  obtain ⟨after, outs₁, outs₂, hfirst, hlast⟩ := performAll_append hrun
  have hwide := wide_of_performAll hfirst
  obtain ⟨after', out, outs', hcall, hnil, -⟩ := performAll_cons.mp hlast
  cases hnil
  have hsame : t.nodeCount = n + 2 := by
    simp only [TopicTree.perform, TopicTree.subscribe, hwide.ensurePath hwrap, Option.bind_eq_bind,
      Option.bind_some, Option.map_eq_some_iff, Prod.mk.injEq] at hcall
    obtain ⟨t', hmodify, rfl, -⟩ := hcall
    rw [nodeCount, length_modifyNode hmodify, hwide.length]
  have hcard := card_prefixesOf_wide n
  omega

end TopicTree

end Broker
end Vaux
