import Vaux.Broker.Traffic

/-!
# As many nodes as indices

A client can subscribe to one filter after the other until the indices of the nodes are used
up.  The next node then has the index of the root.
-/

namespace Vaux
namespace Broker

open Wire Mqtt Machine

/-! ## Names -/

/-- A name of 32 letters for each 32-bit number. -/
def binary (k : Nat) : String :=
  String.ofList ((List.range 32).map fun i => if k.testBit i then 'b' else 'a')

theorem segments_binary (k : Nat) : segments (binary k) = [binary k] := by
  have hslash : '/' ∉ (List.range 32).map fun i => if k.testBit i then 'b' else 'a' := by
    rw [List.mem_map]
    rintro ⟨i, -, h⟩
    split at h <;> cases h
  simp [segments, binary, List.splitOn_eq_singleton hslash]

theorem binary_injective {k k' : Nat} (hk : k < 2 ^ 32) (hk' : k' < 2 ^ 32)
    (h : binary k = binary k') : k = k' := by
  have hlist := congrArg String.toList h
  simp only [binary, String.toList_ofList] at hlist
  refine Nat.eq_of_testBit_eq fun i => ?_
  by_cases hi : i < 32
  · have hletter := List.map_inj_left.mp hlist i (List.mem_range.mpr hi)
    cases hb : k.testBit i <;> cases hb' : k'.testBit i <;> simp [hb, hb'] at hletter ⊢
  · have hpow : 2 ^ 32 ≤ 2 ^ i := Nat.pow_le_pow_right (by decide) (Nat.le_of_not_lt hi)
    rw [Nat.testBit_lt_two_pow (hk.trans_le hpow), Nat.testBit_lt_two_pow (hk'.trans_le hpow)]

theorem binary_ne (k : Nat) {f : String} (hf : f.toList.length ≠ 32) : binary k ≠ f := by
  rintro rfl
  exact hf (by simp [binary])

/-! ## The tree -/

namespace TopicTree

section

variable {t t' : TopicTree} {root : TopicNode} {f s : String}

theorem getElem?_grown_of_ne {i : UInt32} {k : Nat} (hk : k < t.nodes.length) (hne : i.toNat ≠ k) :
    (t.grown i s).nodes[k]? = t.nodes[k]? := by
  simp only [grown, List.getElem?_modify, if_neg hne, id_map', List.getElem?_append_left hk]

/-- A filter of one new segment gets a node of its own while there is an index for it. -/
theorem subscribe_leaf (hroot : t.nodes[0]? = some root) (hsegments : segments f = [s])
    (hlookup : root.children.lookup s = none) (hlength : t.nodes.length < 2 ^ 32)
    (sessionId : String) (qos : QoSLevel) (noLocal : Bool) :
    ∃ t', t.subscribe f sessionId qos noLocal = some t' ∧
      t'.nodes.length = t.nodes.length + 1 ∧
      t'.nodes[0]? = some { root with
        children := root.children.insert s (UInt32.ofNat t.nodes.length) } ∧
      ∀ i, 0 < i → i < t.nodes.length → t'.nodes[i]? = t.nodes[i]? := by
  have hidx : (UInt32.ofNat t.nodes.length).toNat = t.nodes.length := by
    rw [UInt32.toNat_ofNat', Nat.mod_eq_of_lt hlength]
  have hensure : t.ensureFrom rootNode [s] =
      some (t.grown rootNode s, UInt32.ofNat t.nodes.length) := by
    rw [ensureFrom_cons (i := rootNode) hroot, hlookup]
    rfl
  have hpos : 0 < t.nodes.length := (List.getElem?_eq_some_iff.mp hroot).1
  refine ⟨⟨(t.grown rootNode s).nodes.modify t.nodes.length fun node =>
    node.modifyList s (upsert · { sessionId, qos, noLocal })⟩, ?_, ?_, ?_, fun i hi hlt => ?_⟩
  · simp only [TopicTree.subscribe, ensurePath, hsegments, hensure, Option.bind_eq_bind,
      Option.bind_some, TopicTree.modifyNode, hidx, length_grown]
    rw [if_pos (Nat.lt_succ_self _)]
    rfl
  · rw [List.length_modify, length_grown]
  · have hfirst : (t.nodes ++ [TopicNode.new rootNode s])[0]? = some root := by
      rw [List.getElem?_append_left hpos, hroot]
    simp only [grown, List.getElem?_modify, hfirst, if_neg (Nat.ne_of_gt hpos)]
    rfl
  · have hne : rootNode.toNat ≠ i := Nat.ne_of_lt hi
    simp only [List.getElem?_modify, if_neg (Nat.ne_of_gt hlt), id_map',
      getElem?_grown_of_ne hlt hne]

end

/-- The tree with the filters `k` and `p`, and with `m` others. -/
structure Crowded (x : Subscriber) (m : Nat) (t : TopicTree) : Prop where
  length : t.nodes.length = m + 3
  root : ∃ node, t.nodes[0]? = some node ∧ node.wildcardSubscribers = [] ∧
    node.children.lookup "k" = some 1 ∧ node.children.lookup "p" = some 2 ∧
    node.children.lookup "+" = none ∧ node.children.lookup "#" = none ∧
    ∀ j, m ≤ j → j < 2 ^ 32 → node.children.lookup (binary j) = none
  topic : ∃ node, t.nodes[1]? = some node ∧ node.children = ∅ ∧ node.subscribers = [x] ∧
    node.wildcardSubscribers = []
  parent : ∃ node, t.nodes[2]? = some node ∧ node.children = ∅

/-- The children and the lists of the nodes. -/
def data (t : TopicTree) :
    List (List (Sigma fun _ : String => UInt32) × List Subscriber × List Subscriber) :=
  t.nodes.map fun node => (node.children.entries, node.subscribers, node.wildcardSubscribers)

section

variable {t t' : TopicTree} {x : Subscriber} {m : Nat}

theorem crowded_of_data {rest : List Subscriber}
    (h : t.data = [([⟨"p", 2⟩, ⟨"k", 1⟩], [], []), ([], [x], []), ([], rest, [])]) : t.Crowded x 0 := by
  obtain ⟨root, _, hroot, hdata, htail⟩ := List.map_eq_cons_iff.mp h
  obtain ⟨topic, _, rfl, hdata', htail⟩ := List.map_eq_cons_iff.mp htail
  obtain ⟨parent, _, rfl, hdata'', htail⟩ := List.map_eq_cons_iff.mp htail
  rw [List.map_eq_nil_iff.mp htail] at hroot
  simp only [Prod.mk.injEq] at hdata hdata' hdata''
  let entries : List (Sigma fun _ : String => UInt32) := [⟨"p", 2⟩, ⟨"k", 1⟩]
  have hlookup : ∀ s, root.children.lookup s = entries.dlookup s := by
    intro s
    rw [AList.lookup, hdata.1]
  refine ⟨by rw [hroot]; rfl, ⟨root, by rw [hroot]; rfl, hdata.2.2, ?_, ?_, ?_, ?_, fun j _ _ => ?_⟩,
    ⟨topic, by rw [hroot]; rfl, AList.ext hdata'.1, hdata'.2.1, hdata'.2.2⟩,
    ⟨parent, by rw [hroot]; rfl, AList.ext hdata''.1⟩⟩
  · rw [hlookup]
    decide
  · rw [hlookup]
    decide
  · rw [hlookup]
    decide
  · rw [hlookup]
    decide
  · rw [hlookup, List.dlookup_cons_ne _ _ (binary_ne j (by decide)),
      List.dlookup_cons_ne _ _ (binary_ne j (by decide))]
    rfl

theorem Crowded.subscribe (h : t.Crowded x m) (hm : m + 3 < 2 ^ 32) (sessionId : String)
    (qos : QoSLevel) (noLocal : Bool) :
    ∃ t', t.subscribe (binary m) sessionId qos noLocal = some t' ∧ t'.Crowded x (m + 1) := by
  obtain ⟨root, hroot, hwild, hk, hp, hplus, hhash, hfree⟩ := h.root
  have hlt : m < 2 ^ 32 := by omega
  obtain ⟨t', hsubscribe, hlength, hroot', hsame⟩ := subscribe_leaf hroot (segments_binary m)
    (hfree m (Nat.le_refl m) hlt) (h.length ▸ hm) sessionId qos noLocal
  have hshort : ∀ f : String, f.toList.length ≠ 32 → (root.children.insert (binary m)
      (UInt32.ofNat t.nodes.length)).lookup f = root.children.lookup f :=
    fun f hf => AList.lookup_insert_ne (binary_ne m hf).symm
  have hpositive : 3 ≤ t.nodes.length := by
    rw [h.length]
    exact Nat.le_add_left 3 m
  refine ⟨t', hsubscribe, ?_, ?_, ?_, ?_⟩
  · rw [hlength, h.length, Nat.add_right_comm]
  · refine ⟨_, hroot', hwild, ?_, ?_, ?_, ?_, fun j hj hj' => ?_⟩
    · rw [hshort "k" (by decide), hk]
    · rw [hshort "p" (by decide), hp]
    · rw [hshort "+" (by decide), hplus]
    · rw [hshort "#" (by decide), hhash]
    · have hne : binary j ≠ binary m := fun heq => by
        have := binary_injective hj' hlt heq
        omega
      rw [AList.lookup_insert_ne hne, hfree j (Nat.le_of_succ_le hj) hj']
  · rw [hsame 1 (by decide) (by omega)]
    exact h.topic
  · rw [hsame 2 (by decide) (by omega)]
    exact h.parent

/-- The node for the `#` of `p/#` is the root, whose wildcard subscribers every topic has. -/
theorem Crowded.matchingSubscribers (h : t.Crowded x m) (hm : m + 3 = 2 ^ 32) :
    ∃ t', t.subscribe "p/#" x.sessionId x.qos x.noLocal = some t' ∧
      t'.matchingSubscribers "k" = some [x, x] := by
  obtain ⟨root, hroot, hwild, hk, hp, hplus, hhash, -⟩ := h.root
  obtain ⟨topic, htopic, htopicChildren, htopicList, htopicWild⟩ := h.topic
  obtain ⟨parent, hparent, hparentChildren⟩ := h.parent
  have hlength : t.nodes.length = 2 ^ 32 := h.length.trans hm
  have hidx : UInt32.ofNat t.nodes.length = rootNode := by
    rw [hlength]
    decide
  have hsegments : segments "p/#" = ["p", "#"] := by decide +kernel
  have hnone : parent.children.lookup "#" = none := by
    rw [hparentChildren]
    exact AList.lookup_empty _
  have hensure : t.ensureFrom rootNode ["p", "#"] = some (t.grown 2 "#", rootNode) := by
    rw [ensureFrom_cons (i := rootNode) hroot, hp]
    simp only
    rw [ensureFrom_cons (i := 2) hparent, hnone, hidx]
    rfl
  have hroot' : (t.grown 2 "#").nodes[0]? = some root := by
    rw [getElem?_grown_of_ne (by omega) (by decide), hroot]
  have htopic' : (t.grown 2 "#").nodes[1]? = some topic := by
    rw [getElem?_grown_of_ne (by omega) (by decide), htopic]
  let t' : TopicTree := ⟨(t.grown 2 "#").nodes.modify 0 fun node => node.modifyList "#" (upsert · x)⟩
  have hnode : t'.nodes[rootNode.toNat]? = some { root with wildcardSubscribers := [x] } := by
    show t'.nodes[0]? = _
    simp only [t', List.getElem?_modify, hroot']
    simp [TopicNode.modifyList, hwild, upsert]
  have hbelow : t'.nodes[(1 : UInt32).toNat]? = some topic := by
    show t'.nodes[1]? = _
    simp only [t', List.getElem?_modify, htopic']
    rfl
  refine ⟨t', ?_, ?_⟩
  · simp only [TopicTree.subscribe, ensurePath, hsegments, hensure, Option.bind_eq_bind,
      Option.bind_some, TopicTree.modifyNode, length_grown]
    exact if_pos (Nat.succ_pos _)
  · have hexact : t'.collectFrom 1 [] = some [(1, x)] := by
      simp only [TopicTree.collectFrom, hbelow, Option.bind_eq_bind, Option.bind_some, hashFrom,
        htopicChildren, htopicWild, htopicList]
      rfl
    have hsegments' : segments "k" = ["k"] := by decide +kernel
    rw [TopicTree.matchingSubscribers, hsegments', ← collectFrom_map,
      collectFrom_cons (i := rootNode) hnode]
    simp only [below, hk, hplus, hexact, hashFrom, hhash, Option.bind_some]
    rfl

end

end TopicTree

/-! ## The map -/

theorem filter_eraseP {α : Type*} {p q : α → Bool} (h : ∀ a, p a = true → q a = false) (l : List α) :
    (l.eraseP p).filter q = l.filter q := by
  induction l with
  | nil => rfl
  | cons a l ih =>
      cases hp : p a with
      | true => rw [List.eraseP_cons_of_pos hp, List.filter_cons_of_neg (by simp [h a hp])]
      | false =>
          rw [List.eraseP_cons_of_neg (by simp [hp]), List.filter_cons, List.filter_cons, ih]

/-- A filter that does not match the topic does not change who is found for it. -/
theorem Subscriptions.matchingSubscribers_insert (m : Subscriptions) {f sessionId topic : String}
    {v : QoSLevel × Bool} (h : filterMatches (segments f) (segments topic) = false) :
    matchingSubscribers (m.insert (f, sessionId) v) topic = m.matchingSubscribers topic := by
  unfold matchingSubscribers
  rw [AList.entries_insert, List.filter_cons_of_neg (by simp [h]), List.kerase,
    filter_eraseP]
  intro e he
  rw [← of_decide_eq_true he]
  exact h

/-! ## The run -/

namespace Task

/-- The handler of a connected client waits for an event. -/
def idle (task : Task) (ref : Ref) : Prop :=
  task.todo = [] ∧ task.result = none ∧ task.connected = true ∧ task.clientSession = some ref

end Task

namespace Traffic

/-- A handler goes on with `todo` after the action `a`. -/
structure Went (w : Traffic) (t : TaskId) (a : Action) (sh : Shared) (todo : List Action)
    (w' : Traffic) : Prop where
  shared : w'.state.shared = sh
  tasks : w'.state.tasks = Function.update w.state.tasks t { w.state.tasks t with todo }
  table : w'.table = (w.table.performAll a.calls).1
  placed : w'.placed = (w.recordAction t a).placed
  client : w'.client = (w.recordAction t a).client
  current : w'.current = w.current

/-- A handler that waits has a packet to handle. -/
structure Met (w : Traffic) (n : Nat) (p : Packet) (todo : List Action) (w' : Traffic) : Prop where
  shared : w'.state.shared = w.state.shared
  tasks : w'.state.tasks =
    Function.update w.state.tasks (.connection n) { w.state.tasks (.connection n) with todo }
  table : w'.table = w.table
  placed : w'.placed = w.placed
  client : w'.client = w.client
  current : w'.current = (w.recordEvent (.connection n) (.packet p)).current

section

variable {w w' : Traffic} {t : TaskId} {c : Choice} {a : Action} {rest more : List Action}
  {sh : Shared} {n : Nat} {p : Packet} {ref : Ref} {todo : List Action}

theorem current_recordAction (w : Traffic) (t : TaskId) (a : Action) :
    (w.recordAction t a).current = w.current := by
  cases a with
  | deliver publish sender sub =>
      simp only [recordAction]
      split <;> rfl
  | _ => rfl

theorem exists_went (htodo : (w.state.tasks t).todo = a :: rest)
    (hperform : w.state.shared.perform t c a = some (sh, .go more)) :
    ∃ w', w.step (.act t c) = some w' ∧ w.Went t a sh (more ++ rest) w' := by
  have hact : w.state.step (.act t c) = some
      { shared := sh
        tasks := Function.update w.state.tasks t { w.state.tasks t with todo := more ++ rest }
        history := w.state.history.recordAction w.state.shared t a } := by
    show w.state.act t c = _
    unfold State.act
    rw [htodo]
    simp only [hperform, Option.map_some]
    rfl
  have hrecord : w.record (.act t c) = w.recordAction t a := by
    simp only [record, htodo]
  have hcalls : w.state.calls (.act t c) = a.calls := by
    simp only [State.calls, htodo]
  refine ⟨_, step_eq_some.mpr ⟨_, hact, rfl⟩, rfl, rfl, ?_, ?_, ?_, ?_⟩
  · rw [hcalls]
  · rw [hrecord]
  · rw [hrecord]
  · rw [hrecord]
    exact w.current_recordAction t a

theorem exists_met (hidle : (w.state.tasks (.connection n)).idle ref)
    (htodo : w.state.shared.handlePacket ref p = some todo) :
    ∃ w', w.step (.event n (.packet p)) = some w' ∧ w.Met n p todo w' := by
  obtain ⟨hempty, hresult, hconnected, hsession⟩ := hidle
  have hevent : w.state.step (.event n (.packet p)) = some
      { shared := w.state.shared
        tasks :=
          Function.update w.state.tasks (.connection n) { w.state.tasks (.connection n) with todo }
        history := w.state.history.recordEvent w.state.shared (.connection n)
          (w.state.tasks (.connection n)) (.packet p) } := by
    simp only [State.step, State.event, Shared.handle, hempty, hresult, hconnected, hsession, htodo]
    rfl
  obtain ⟨hclient, -, hplaced⟩ := w.recordEvent_same (.connection n) (.packet p)
  exact ⟨_, step_eq_some.mpr ⟨_, hevent, rfl⟩, rfl, rfl, rfl, hplaced, hclient, rfl⟩

theorem options_new (f : String) : (SubscriptionFilter.new f .atMostOnce).qos = .atMostOnce ∧
    (SubscriptionFilter.new f .atMostOnce).noLocal = false := by
  have hoptions : (SubscriptionFilter.new f .atMostOnce).options =
      0 &&& ~~~0b00000011 ||| (QoSLevel.atMostOnce.toU8 &&& 0b00000011) := rfl
  rw [SubscriptionFilter.qos, SubscriptionFilter.noLocal, hoptions]
  decide

/-- Only the subscriptions are different. -/
structure Aside (w w' : Traffic) : Prop where
  shared : ∃ tree, w'.state.shared = { w.state.shared with tree }
  tasks : w'.state.tasks = w.state.tasks
  client : w'.client = w.client

theorem Aside.refl (w : Traffic) : w.Aside w := ⟨⟨w.state.shared.tree, rfl⟩, rfl, rfl⟩

theorem Aside.trans {w'' : Traffic} (h : w.Aside w') (h' : w'.Aside w'') : w.Aside w'' := by
  obtain ⟨tree, htree⟩ := h'.shared
  obtain ⟨tree', htree'⟩ := h.shared
  refine ⟨⟨tree, ?_⟩, h'.tasks.trans h.tasks, h'.client.trans h.client⟩
  rw [htree, htree']

theorem exists_subscribed (hidle : (w.state.tasks (.connection n)).idle ref) {f : String}
    {tree : TopicTree} (hsubscribe : w.state.shared.tree.subscribe f (w.state.shared.sessions ref).id
      .atMostOnce false = some tree) :
    ∃ w', run Traffic.step w (subscribeLabels n f .atMostOnce) = some w' ∧ w.Aside w' ∧
      w'.state.shared.tree = tree ∧
      w'.table = w.table.insert (f, (w.state.shared.sessions ref).id) (.atMostOnce, false) := by
  let p : Subscribe := { Subscribe.default with packetId := 1, filter := [.new f .atMostOnce] }
  obtain ⟨w₁, hstep₁, hmet⟩ := exists_met (p := .subscribe p) hidle rfl
  have hself₁ : w₁.state.tasks (.connection n) = { w.state.tasks (.connection n) with
      todo := [.subscribe (w.state.shared.sessions ref).id p] } := by
    rw [hmet.tasks]
    exact Function.update_self ..
  have htodo₁ : (w₁.state.tasks (.connection n)).todo =
      [.subscribe (w.state.shared.sessions ref).id p] := by
    rw [hself₁]
  -- the tree has the filter
  obtain ⟨suback, hperform⟩ : ∃ suback, w₁.state.shared.perform (.connection n) {}
      (.subscribe (w.state.shared.sessions ref).id p) =
        some ({ w.state.shared with tree }, .go [.write (.subAck suback)]) := by
    have hall : Shared.subscribeAll (w.state.shared.sessions ref).id w.state.shared.tree p.filter =
        some tree := by
      simp only [p, Shared.subscribeAll, options_new]
      exact Option.bind_eq_some_iff.mpr ⟨tree, hsubscribe, rfl⟩
    rw [hmet.shared]
    simp only [Shared.perform, Shared.handleSubscribe, hall, Option.bind_eq_bind, Option.bind_some,
      Option.map_some]
    exact ⟨_, rfl⟩
  obtain ⟨w₂, hstep₂, hwent₂⟩ := exists_went htodo₁ hperform
  have htodo₂ : (w₂.state.tasks (.connection n)).todo = [.write (.subAck suback)] := by
    rw [hwent₂.tasks, Function.update_self]
    rfl
  obtain ⟨w₃, hstep₃, hwent₃⟩ := exists_went (c := {}) htodo₂ rfl
  refine ⟨w₃, ?_, ⟨?_, ?_, ?_⟩, ?_, ?_⟩
  · exact run_cons_eq_some.mpr ⟨w₁, hstep₁, run_cons_eq_some.mpr ⟨w₂, hstep₂,
      run_cons_eq_some.mpr ⟨w₃, hstep₃, run_nil⟩⟩⟩
  · exact ⟨tree, by rw [hwent₃.shared, hwent₂.shared]⟩
  · funext t
    by_cases ht : t = .connection n
    · subst ht
      rw [hwent₃.tasks, hwent₂.tasks, Function.update_self, Function.update_self, hself₁]
      show { w.state.tasks (.connection n) with todo := [] } = _
      rw [← hidle.1]
    · rw [hwent₃.tasks, hwent₂.tasks, hmet.tasks]
      simp only [Function.update_of_ne ht]
  · exact hwent₃.client.trans (hwent₂.client.trans hmet.client)
  · rw [hwent₃.shared, hwent₂.shared]
  · rw [hwent₃.table, hwent₂.table, hmet.table]
    simp only [p, Action.calls, List.map_cons, List.map_nil, options_new]
    rfl

/-- Connection `n` subscribes to `m` filters. -/
def fillLabels (n m : Nat) : List Label :=
  (List.range m).flatMap fun j => subscribeLabels n (binary j) .atMostOnce

theorem matches_binary (j : Nat) : filterMatches (segments (binary j)) (segments "k") = false := by
  have hsegments : segments "k" = ["k"] := by decide +kernel
  rw [segments_binary, hsegments]
  simp [filterMatches, binary_ne j (f := "#") (by decide), binary_ne j (f := "+") (by decide),
    binary_ne j (f := "k") (by decide)]

theorem exists_filled {x : Subscriber} (hidle : (w.state.tasks (.connection n)).idle ref)
    (hcrowded : w.state.shared.tree.Crowded x 0) {m : Nat} (hm : m + 3 ≤ 2 ^ 32) :
    ∃ w', run Traffic.step w (fillLabels n m) = some w' ∧ w.Aside w' ∧
      w'.state.shared.tree.Crowded x m ∧
      w'.table.matchingSubscribers "k" = w.table.matchingSubscribers "k" := by
  induction m with
  | zero => exact ⟨w, rfl, Aside.refl w, hcrowded, rfl⟩
  | succ m ih =>
      obtain ⟨w₁, hrun, haside, hcrowded₁, htable⟩ := ih (by omega)
      rw [← haside.tasks] at hidle
      obtain ⟨tree, hsubscribe, hcrowded₂⟩ :=
        hcrowded₁.subscribe (by omega) (w₁.state.shared.sessions ref).id .atMostOnce false
      obtain ⟨w₂, hrun₂, haside₂, htree, htable₂⟩ := exists_subscribed hidle hsubscribe
      refine ⟨w₂, ?_, haside.trans haside₂, htree ▸ hcrowded₂, ?_⟩
      · rw [fillLabels, List.range_succ, List.flatMap_append, List.flatMap_singleton]
        exact run_append_eq_some.mpr ⟨w₁, hrun, hrun₂⟩
      · rw [htable₂, ← htable]
        exact w₁.table.matchingSubscribers_insert (matches_binary m)

/-- The publishes to `k` then find the subscriber twice, though the client has subscribed to
no other filter that matches. -/
theorem exists_crowded {x : Subscriber} (hidle : (w.state.tasks (.connection n)).idle ref)
    (hcrowded : w.state.shared.tree.Crowded x 0)
    (hx : x = { sessionId := (w.state.shared.sessions ref).id, qos := .atMostOnce, noLocal := false })
    {m : Nat} (hm : m + 3 = 2 ^ 32) :
    ∃ w', run Traffic.step w (fillLabels n m ++ subscribeLabels n "p/#" .atMostOnce) = some w' ∧
      w.Aside w' ∧ w'.state.shared.tree.matchingSubscribers "k" = some [x, x] ∧
      w'.table.matchingSubscribers "k" = w.table.matchingSubscribers "k" := by
  obtain ⟨w₁, hrun, haside, hcrowded₁, htable⟩ := exists_filled hidle hcrowded (Nat.le_of_eq hm)
  obtain ⟨tree, hsubscribe, hfound⟩ := hcrowded₁.matchingSubscribers hm
  have hsessions : w₁.state.shared.sessions = w.state.shared.sessions := by
    obtain ⟨tree', htree'⟩ := haside.shared
    rw [htree']
  rw [← haside.tasks] at hidle
  rw [hx, ← hsessions] at hsubscribe
  obtain ⟨w₂, hrun₂, haside₂, htree, htable₂⟩ := exists_subscribed hidle hsubscribe
  refine ⟨w₂, run_append_eq_some.mpr ⟨w₁, hrun, hrun₂⟩, haside.trans haside₂, ?_, ?_⟩
  · rw [htree, hfound]
  · rw [htable₂, ← htable]
    exact w₁.table.matchingSubscribers_insert (by decide +kernel)

/-- A publish without an identifier is placed in a channel that has room. -/
theorem exists_delivered {publish out : Publish} {sender : String} {x : Subscriber}
    (htodo : (w.state.tasks t).todo = .deliver publish sender x :: rest)
    (hlocal : x.noLocal = false) (hactive : w.state.shared.pool.getActive x.sessionId = some ref)
    (hover : handOver publish x.qos (w.state.shared.sessions ref) =
      .ok (out, w.state.shared.sessions ref))
    (hroomy : w.state.shared.roomy (w.state.shared.sessions ref).control = true) :
    ∃ w', w.step (.act t {}) = some w' ∧
      w.Went t (.deliver publish sender x)
        (w.state.shared.push (w.state.shared.sessions ref).control (.deliver out)) rest w' ∧
      w'.placed (w.state.shared.sessions ref).control =
        w.placed (w.state.shared.sessions ref).control ++ [w.entry t out] := by
  have hown : ¬ (x.noLocal ∧ x.sessionId = sender) := by simp [hlocal]
  have hsame : w.state.shared.setSession ref (w.state.shared.sessions ref) = w.state.shared := by
    rw [Shared.setSession, Function.update_eq_self]
  have hdeliver : w.state.shared.deliver publish sender x =
      some (w.state.shared.push (w.state.shared.sessions ref).control (.deliver out)) := by
    obtain ⟨hopen, hlt⟩ : (w.state.shared.channels (w.state.shared.sessions ref).control).closed =
        false ∧ _ := by
      simpa [Shared.roomy] using hroomy
    unfold Shared.deliver
    rw [if_neg hown, hactive]
    simp only [hover, hsame, Shared.trySend, hopen, hlt, if_true]
    rfl
  have hperform : w.state.shared.perform t {} (.deliver publish sender x) =
      some (w.state.shared.push (w.state.shared.sessions ref).control (.deliver out), .go []) := by
    simp only [Shared.perform, hdeliver, Option.map_some]
  obtain ⟨w', hstep, hwent⟩ := exists_went htodo hperform
  have hover' : w.state.shared.handsOver publish sender x =
      some (ref, out, w.state.shared.sessions ref) := by
    unfold Shared.handsOver
    rw [if_neg hown, hactive]
    simp only [Option.bind_some, hover]
  refine ⟨w', hstep, hwent, ?_⟩
  rw [hwent.placed]
  simp only [recordAction, hover', recordHandOver, hroomy, if_true, Function.update_self]

/-- The subscriptions are `table`, and no publish but to the topic is next to be looked up. -/
def LooksUpOnly (n : Nat) (topic : String) (table : Subscriptions) (w : Traffic) : Prop :=
  w.table = table ∧ ∀ publish sender rest,
    (w.state.tasks (.connection n)).todo = .route publish sender :: rest → publish.topicName = topic

/-- A publish is read and looked up, and the pool is read. -/
theorem exists_routed {publish : Publish} {found : List Subscriber}
    (hidle : (w.state.tasks (.connection n)).idle ref) (hqos : publish.qos = .ok .atMostOnce)
    (hfound : w.state.shared.tree.matchingSubscribers publish.topicName = some found)
    (hwriter : w.state.shared.poolWriter = none) :
    ∃ w', run Traffic.step w (packetLabels n (.publish publish) 2) = some w' ∧
      Along Traffic.step (fun v _ => LooksUpOnly n publish.topicName w.table v) w
        (packetLabels n (.publish publish) 2) ∧ w'.table = w.table ∧
      w'.state.shared =
        { w.state.shared with poolReaders := .connection n :: w.state.shared.poolReaders } ∧
      (w'.state.tasks (.connection n)).todo =
        found.map (.deliver publish (w.state.shared.sessions ref).id) ++ [.leavePool] ∧
      w'.current (.connection n) = some (w.sent (.connection n)) ∧ w'.placed = w.placed ∧
      w'.client = w.client := by
  let sender := (w.state.shared.sessions ref).id
  have hhandle : w.state.shared.handlePacket ref (.publish publish) = some [.route publish sender] := by
    simp only [Shared.handlePacket, Shared.handlePublish, hqos]
    rfl
  obtain ⟨w₁, hstep₁, hmet⟩ := exists_met hidle hhandle
  have htodo₁ : (w₁.state.tasks (.connection n)).todo = [.route publish sender] := by
    rw [hmet.tasks, Function.update_self]
  have hroute : w₁.state.shared.perform (.connection n) {} (.route publish sender) =
      some (w.state.shared,
        .go (.lockPool :: found.map (.deliver publish sender) ++ [.leavePool])) := by
    simp only [Shared.perform, hmet.shared, hfound, Option.map_some]
  obtain ⟨w₂, hstep₂, hwent₂⟩ := exists_went htodo₁ hroute
  have htodo₂ : (w₂.state.tasks (.connection n)).todo =
      .lockPool :: (found.map (.deliver publish sender) ++ [.leavePool]) := by
    rw [hwent₂.tasks, Function.update_self]
    exact List.append_nil _
  have hlock : w₂.state.shared.perform (.connection n) {} .lockPool =
      some ({ w.state.shared with poolReaders := .connection n :: w.state.shared.poolReaders },
        .go []) := by
    rw [hwent₂.shared]
    simp only [Shared.perform]
    rw [if_pos (Option.isNone_iff_eq_none.mpr hwriter)]
  obtain ⟨w₃, hstep₃, hwent₃⟩ := exists_went htodo₂ hlock
  refine ⟨w₃, ?_, ?_, ?_, hwent₃.shared, ?_, ?_, ?_, ?_⟩
  · exact run_cons_eq_some.mpr ⟨w₁, hstep₁, run_cons_eq_some.mpr ⟨w₂, hstep₂,
      run_cons_eq_some.mpr ⟨w₃, hstep₃, run_nil⟩⟩⟩
  · refine .cons ⟨rfl, fun _ _ _ heq => ?_⟩ hstep₁ (.cons ⟨hmet.table, fun _ _ _ heq => ?_⟩ hstep₂
      (.cons ⟨hwent₂.table.trans hmet.table, fun _ _ _ heq => ?_⟩ hstep₃ trivial))
    · rw [hidle.1] at heq
      cases heq
    · rw [htodo₁] at heq
      cases heq
      rfl
    · rw [htodo₂] at heq
      cases heq
  · exact hwent₃.table.trans (hwent₂.table.trans hmet.table)
  · rw [hwent₃.tasks, Function.update_self]
    rfl
  · rw [hwent₃.current, hwent₂.current, hmet.current]
    exact Function.update_self ..
  · exact hwent₃.placed.trans (hwent₂.placed.trans hmet.placed)
  · exact hwent₃.client.trans (hwent₂.client.trans hmet.client)

/-- A publish that finds a subscriber twice is placed in its channel twice. -/
theorem exists_placed_twice {x : Subscriber} (ref' : Ref) {topic : String}
    (hidle : (w.state.tasks (.connection n)).idle ref)
    (hfound : w.state.shared.tree.matchingSubscribers topic = some [x, x])
    (hlocal : x.noLocal = false) (hqos : x.qos = .atMostOnce)
    (hactive : w.state.shared.pool.getActive x.sessionId = some ref')
    (hwriter : w.state.shared.poolWriter = none)
    (hopen : (w.state.shared.channels (w.state.shared.sessions ref').control).closed = false)
    (hroom : (w.state.shared.channels (w.state.shared.sessions ref').control).queue.length + 1 <
      (w.state.shared.channels (w.state.shared.sessions ref').control).capacity) :
    ∃ w' e k, run Traffic.step w (publishLabels n topic .atMostOnce none 4) = some w' ∧
      Along Traffic.step (fun v _ => LooksUpOnly n topic w.table v) w
        (publishLabels n topic .atMostOnce none 4) ∧
      e.source = some (.connection n, k) ∧ w'.client = w.client ∧
      w'.placed (w.state.shared.sessions ref').control =
        w.placed (w.state.shared.sessions ref').control ++ [e, e] := by
  let p : Publish := { Publish.default.setQos .atMostOnce with topicName := topic, packetId := none }
  have hp : p.qos = .ok .atMostOnce := qos_setQos _ _
  have hover : ∀ session, handOver p x.qos session = .ok (p.setQos .atMostOnce, session) := by
    intro session
    simp only [handOver, hp, hqos, Outcome.bind_ok]
    rfl
  obtain ⟨w₁, hrun₁, halong₁, htable₁, hshared₁, htodo₁, hcurrent₁, hplaced₁, hclient₁⟩ :=
    exists_routed hidle hp hfound hwriter
  -- the channel has room for the publish, and then for it again
  have hactive₁ : w₁.state.shared.pool.getActive x.sessionId = some ref' := by
    rw [hshared₁]
    exact hactive
  have hcontrol₁ : (w₁.state.shared.sessions ref').control =
      (w.state.shared.sessions ref').control := by
    rw [hshared₁]
  obtain ⟨w₂, hstep₂, hwent₂, hplaced₂⟩ := exists_delivered htodo₁ hlocal hactive₁ (hover _) (by
    rw [hshared₁]
    simp [Shared.roomy, hopen, Nat.lt_of_succ_lt hroom])
  have htodo₂ : (w₂.state.tasks (.connection n)).todo =
      [.deliver p (w.state.shared.sessions ref).id x, .leavePool] := by
    rw [hwent₂.tasks, Function.update_self]
    rfl
  have hactive₂ : w₂.state.shared.pool.getActive x.sessionId = some ref' := by
    rw [hwent₂.shared]
    exact hactive₁
  have hcontrol₂ : (w₂.state.shared.sessions ref').control =
      (w.state.shared.sessions ref').control := by
    rw [hwent₂.shared]
    exact hcontrol₁
  obtain ⟨w₃, hstep₃, hwent₃, hplaced₃⟩ := exists_delivered htodo₂ hlocal hactive₂ (hover _) (by
    rw [hwent₂.shared, hshared₁]
    simp [Shared.roomy, Shared.push, Shared.setChannel, hopen, hroom])
  have hclient : ∀ (v : Traffic) publish sender,
      (v.recordAction (.connection n) (.deliver publish sender x)).client = v.client := by
    intro v publish sender
    simp only [recordAction]
    split <;> rfl
  refine ⟨w₃, w₁.entry (.connection n) (p.setQos .atMostOnce), w.sent (.connection n), ?_, ?_, ?_, ?_,
    ?_⟩
  · exact run_append_eq_some.mpr ⟨w₁, hrun₁, run_cons_eq_some.mpr ⟨w₂, hstep₂,
      run_cons_eq_some.mpr ⟨w₃, hstep₃, run_nil⟩⟩⟩
  · refine (along_append hrun₁).mpr ⟨halong₁, .cons ⟨htable₁, fun _ _ _ heq => ?_⟩ hstep₂
      (.cons ⟨hwent₂.table.trans htable₁, fun _ _ _ heq => ?_⟩ hstep₃ trivial)⟩
    · rw [htodo₁] at heq
      cases heq
    · rw [htodo₂] at heq
      cases heq
  · simp only [entry, hcurrent₁, Option.map_some]
  · rw [hwent₃.client, hclient, hwent₂.client, hclient, hclient₁]
  · have hentry : w₂.entry (.connection n) (p.setQos .atMostOnce) =
        w₁.entry (.connection n) (p.setQos .atMostOnce) := by
      have hout : (p.setQos .atMostOnce).qos = .ok .atMostOnce := qos_setQos _ _
      simp only [entry, hwent₂.current, hout]
      rfl
    rw [hcontrol₂] at hplaced₃
    rw [hcontrol₁] at hplaced₂
    rw [hplaced₃, hplaced₂, hplaced₁, hentry, List.append_assoc]
    rfl

end

end Traffic

end Broker
end Vaux
