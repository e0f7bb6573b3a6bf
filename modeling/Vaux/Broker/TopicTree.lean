import Mathlib.Data.List.AList
import Vaux.Mqtt.Types

/-!
# The topic tree

`TopicTree` of `topic.rs`: a trie over the segments of the filters, whose nodes are
kept in one vector and name each other by 32-bit indices.  A function returns `none`
where the source indexes the vector out of range.
-/

namespace Vaux
namespace Broker

open Mqtt

structure Subscriber where
  sessionId : String
  qos : QoSLevel
  noLocal : Bool
  deriving DecidableEq

structure TopicNode where
  parent : UInt32
  segment : String
  children : AList fun _ : String => UInt32
  subscribers : List Subscriber
  wildcardSubscribers : List Subscriber
  deriving DecidableEq

structure TopicTree where
  nodes : List TopicNode
  deriving DecidableEq

def rootNode : UInt32 := 0

/-- `split('/')`. -/
def segments (filter : String) : List String := (filter.toList.splitOn '/').map String.ofList

def TopicNode.new (parent : UInt32) (segment : String) : TopicNode where
  parent := parent
  segment := segment
  children := ∅
  subscribers := []
  wildcardSubscribers := []

/-- The list a subscription with the last segment `last` is kept in. -/
def TopicNode.modifyList (self : TopicNode) (last : String)
    (f : List Subscriber → List Subscriber) : TopicNode :=
  if last = "#" then { self with wildcardSubscribers := f self.wildcardSubscribers }
  else { self with subscribers := f self.subscribers }

def TopicNode.list (self : TopicNode) (last : String) : List Subscriber :=
  if last = "#" then self.wildcardSubscribers else self.subscribers

namespace TopicTree

def new : TopicTree where
  nodes := [.new 0 ""]

/-- The loop of `ensure_path`. -/
def ensureFrom (self : TopicTree) (current : UInt32) : List String → Option (TopicTree × UInt32)
  | [] => some (self, current)
  | segment :: rest => do
    let node ← self.nodes[current.toNat]?
    match node.children.lookup segment with
    | some child => ensureFrom self child rest
    | none =>
      let newIdx := UInt32.ofNat self.nodes.length
      let nodes := self.nodes ++ [.new current segment]
      ensureFrom
        { nodes := nodes.modify current.toNat fun node =>
            { node with children := node.children.insert segment newIdx } }
        newIdx rest

def ensurePath (self : TopicTree) (segments : List String) : Option (TopicTree × UInt32) :=
  self.ensureFrom rootNode segments

/-- The loop of `find_path`.  The inner option is the source's. -/
def findFrom (self : TopicTree) (current : UInt32) : List String → Option (Option UInt32)
  | [] => some (some current)
  | segment :: rest => do
    let node ← self.nodes[current.toNat]?
    match node.children.lookup segment with
    | some child => findFrom self child rest
    | none => some none

def findPath (self : TopicTree) (segments : List String) : Option (Option UInt32) :=
  self.findFrom rootNode segments

/-- The first entry of the session is overwritten if there is one. -/
def upsert : List Subscriber → Subscriber → List Subscriber
  | [], subscriber => [subscriber]
  | s :: list, subscriber =>
    if s.sessionId = subscriber.sessionId then subscriber :: list else s :: upsert list subscriber

def retain (list : List Subscriber) (sessionId : String) : List Subscriber :=
  list.filter (·.sessionId ≠ sessionId)

/-- `self.nodes[idx]` changed by `f`. -/
def modifyNode (self : TopicTree) (idx : UInt32) (f : TopicNode → TopicNode) : Option TopicTree :=
  if idx.toNat < self.nodes.length then some { nodes := self.nodes.modify idx.toNat f } else none

def subscribe (self : TopicTree) (filter sessionId : String) (qos : QoSLevel) (noLocal : Bool) :
    Option TopicTree := do
  let (self, nodeIdx) ← self.ensurePath (segments filter)
  self.modifyNode nodeIdx fun node =>
    node.modifyList ((segments filter).getLastD "") (upsert · { sessionId, qos, noLocal })

def unsubscribe (self : TopicTree) (filter sessionId : String) : Option (TopicTree × Bool) := do
  match ← self.findPath (segments filter) with
  | none => some (self, false)
  | some nodeIdx =>
    let last := (segments filter).getLastD ""
    let node ← self.nodes[nodeIdx.toNat]?
    let after ← self.modifyNode nodeIdx fun node => node.modifyList last (retain · sessionId)
    some (after, (retain (node.list last) sessionId).length < (node.list last).length)

def unsubscribeAll (self : TopicTree) (sessionId : String) : TopicTree where
  nodes := self.nodes.map fun node =>
    { node with
      subscribers := retain node.subscribers sessionId
      wildcardSubscribers := retain node.wildcardSubscribers sessionId }

/-- The `wildcard_subscribers` of the child `#` of a node. -/
def hashSubscribers (self : TopicTree) (node : TopicNode) : Option (List Subscriber) :=
  match node.children.lookup "#" with
  | none => some []
  | some hashIdx => (self.nodes[hashIdx.toNat]?).map (·.wildcardSubscribers)

/-- `collect_matches`, on the segments from `depth` on. -/
def collectMatches (self : TopicTree) (nodeIdx : UInt32) : List String → Option (List Subscriber)
  | [] => do
    let node ← self.nodes[nodeIdx.toNat]?
    let hash ← self.hashSubscribers node
    some (node.wildcardSubscribers ++ node.subscribers ++ hash)
  | segment :: rest => do
    let node ← self.nodes[nodeIdx.toNat]?
    let exact ← match node.children.lookup segment with
      | some child => collectMatches self child rest
      | none => some []
    let plus ← match node.children.lookup "+" with
      | some child => collectMatches self child rest
      | none => some []
    let hash ← self.hashSubscribers node
    some (node.wildcardSubscribers ++ exact ++ plus ++ hash)

def matchingSubscribers (self : TopicTree) (topic : String) : Option (List Subscriber) :=
  self.collectMatches rootNode (segments topic)

def nodeCount (self : TopicTree) : Nat := self.nodes.length

end TopicTree

/-! ## Segments -/

theorem segments_ne_nil (filter : String) : segments filter ≠ [] := by
  simp [segments, List.splitOn_ne_nil]

theorem segments_injective : Function.Injective segments := by
  intro f f' h
  have hofList : Function.Injective String.ofList := fun l l' hl => by
    simpa using congrArg String.toList hl
  have hsplit := List.map_injective_iff.mpr hofList h
  have hjoin := congrArg (List.intercalate ['/']) hsplit
  rw [List.intercalate_splitOn, List.intercalate_splitOn] at hjoin
  simpa using congrArg String.ofList hjoin

/-- Strings of one segment each. -/
def unary (k : Nat) : String := String.ofList (List.replicate k 'a')

theorem segments_unary (k : Nat) : segments (unary k) = [unary k] := by
  have hslash : '/' ∉ List.replicate k 'a' := by
    rw [List.mem_replicate]
    rintro ⟨-, h⟩
    cases h
  simp [segments, unary, List.splitOn_eq_singleton hslash]

theorem unary_injective : Function.Injective unary := by
  intro k k' h
  simpa [unary] using congrArg (·.toList.length) h

theorem unary_ne (k : Nat) : unary k ≠ "+" ∧ unary k ≠ "#" := by
  have hlist : ∀ c : Char, c ≠ 'a' → unary k ≠ String.ofList [c] := by
    intro c hc heq
    have hreplicate : List.replicate k 'a' = [c] := by
      simpa [unary] using congrArg String.toList heq
    have hmem : c ∈ List.replicate k 'a' := by
      rw [hreplicate]
      exact List.mem_singleton_self _
    exact hc (List.eq_of_mem_replicate hmem)
  exact ⟨hlist '+' (by decide), hlist '#' (by decide)⟩

end Broker
end Vaux
