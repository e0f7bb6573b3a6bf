import Vaux.Client.Session
import Vaux.Machine.Table
import Vaux.Machine.While

/-!
# The identifiers that are assigned

`write_next` goes on from the last identifier until it comes to one that is not in use.
The search ends, since fewer identifiers are in use than there are.  It takes the
identifiers as they wrap around, and does not leave out zero.
-/

namespace Vaux
namespace Client

open Wire Mqtt Machine

/-! ## The search -/

theorem iterate_add_one (packetId : UInt16) (n : Nat) :
    (· + 1)^[n] packetId = packetId + UInt16.ofNat n := by
  induction n with
  | zero => simp
  | succ n ih => rw [Function.iterate_succ_apply', ih, UInt16.ofNat_add, UInt16.add_assoc]; rfl

/-- Adding less than `2 ^ 16` comes back to no identifier. -/
theorem add_ofNat_injOn (packetId : UInt16) {n : Nat} (hn : n < 65536) :
    Set.InjOn (fun j => (· + 1)^[j] packetId) {j | j ≤ n} := by
  intro i hi j hj hij
  simp only [iterate_add_one] at hij
  have hofNat := congrArg UInt16.toNat (UInt16.add_right_inj packetId |>.mp hij)
  rw [UInt16.toNat_ofNat', UInt16.toNat_ofNat'] at hofNat
  have hi' : i ≤ n := hi
  have hj' : j ≤ n := hj
  omega

section

variable {m : PendingQos} {packetId found : UInt16} {n : Nat}

/-- The loop of `write_next` that looks for an identifier. -/
abbrev Finds (m : PendingQos) : UInt16 → Nat → UInt16 → Prop := Ends (· ∈ m) (· + 1)

theorem finds_iff : Finds m packetId n found ↔
    found = packetId + UInt16.ofNat n ∧ found ∉ m ∧ ∀ j < n, packetId + UInt16.ofNat j ∈ m := by
  simp only [Finds, ends_iff, iterate_add_one]

/-- The entries that are in use are too few to take up every identifier. -/
theorem exists_finds (hsize : m.entries.length < 65535) (packetId : UInt16) :
    ∃ n ≤ m.entries.length, Finds m packetId n (packetId + UInt16.ofNat n) := by
  have hcard : m.keys.toFinset.card = m.entries.length := by
    rw [AList.keys, List.toFinset_card_of_nodup m.nodupKeys, List.keys, List.length_map]
  have hbusy : ∀ z, z ∈ m → z ∈ m.keys.toFinset := fun z hz =>
    List.mem_toFinset.mpr (AList.mem_keys.mp hz)
  have hinj : Set.InjOn (fun j => (· + 1)^[j] packetId) {j | j ≤ m.keys.toFinset.card} :=
    add_ofNat_injOn packetId (by omega)
  have hends := exists_ends hbusy hinj
  simpa only [hcard, iterate_add_one] using hends

/-- The fuel of `freeId` only has to be enough. -/
theorem freeId_of_finds (h : Finds m packetId n found) {fuel : Nat} (hfuel : n ≤ fuel) :
    ClientSession.freeId m fuel packetId = found := by
  induction h generalizing fuel with
  | exit hexit =>
      cases fuel with
      | zero => rfl
      | succ fuel => rw [ClientSession.freeId, if_neg hexit]
  | round hused _ ih =>
      cases fuel with
      | zero => exact absurd hfuel (Nat.not_succ_le_zero _)
      | succ fuel => rw [ClientSession.freeId, if_pos hused, ih (Nat.le_of_succ_le_succ hfuel)]

end

/-- The search of `write_next` ends after at most as many rounds as there are entries, with
the first identifier behind the last one that is not in use. -/
theorem search_ends {s : ClientSession} (hsize : s.pendingQosSend.entries.length < 65535) :
    ∃ n ≤ s.pendingQosSend.entries.length, ∃ packetId,
      Finds s.pendingQosSend (s.lastPacketId + 1) n packetId ∧
      packetId = s.lastPacketId + 1 + UInt16.ofNat n ∧ packetId ∉ s.pendingQosSend ∧
      (∀ j < n, s.lastPacketId + 1 + UInt16.ofNat j ∈ s.pendingQosSend) ∧
      ∀ p : Publish, p.packetId = none → s.autoPacketId = true →
        s.assignPacketId p = .ok ({ s with lastPacketId := packetId }, packetId) := by
  obtain ⟨n, hn, hfinds⟩ := exists_finds hsize (s.lastPacketId + 1)
  obtain ⟨-, hfree, hpassed⟩ := finds_iff.mp hfinds
  refine ⟨n, hn, _, hfinds, rfl, hfree, hpassed, fun p hp hauto => ?_⟩
  have hfuel : n ≤ 65536 := by omega
  simp only [ClientSession.assignPacketId, hp, hauto, if_true, freeId_of_finds hfinds hfuel]

/-- The last identifier is 65535, and identifiers 0 and 1 are in use. -/
theorem search_ends_around :
    let s : ClientSession :=
      { ClientSession.newFromClient (.new "") with
        lastPacketId := 65535
        pendingQosSend := ((∅ : PendingQos).insert 0 (.newQos1 (.publish .default))).insert 1
          (.newQos1 (.publish .default)) }
    ∃ n ≤ 2, ∃ packetId, Finds s.pendingQosSend (s.lastPacketId + 1) n packetId := by
  intro s
  obtain ⟨n, hn, packetId, hfinds, -⟩ := search_ends (s := s) (by decide)
  exact ⟨n, hn, packetId, hfinds⟩

/-! ## Zero -/

namespace ClientSession

/-- The identifier that `write_next` gives a publish without one. -/
def assigned (self : ClientSession) : Call → Option UInt16
  | .write (.publish p) ok =>
    if p.packetId = none then
      match (self.writeNext ok (.publish p)).sent with
      | [.publish sent] => sent.packetId
      | _ => none
    else none
  | _ => none

/-- What the protocol asks of an assigned identifier. -/
def Fresh (self : ClientSession) (call : Call) : Prop :=
  ∀ packetId ∈ self.assigned call,
    1 ≤ packetId.toNat ∧ packetId.toNat ≤ 65535 ∧ packetId ∉ self.pendingQosSend

/-- The call leads to the search for an identifier. -/
def Asks (self : ClientSession) : Call → Prop
  | .write (.publish p) _ =>
    (p.qos = .ok .atLeastOnce ∨ p.qos = .ok .exactlyOnce) ∧ p.packetId = none ∧
      self.autoPacketId = true ∧ self.sendFull = false
  | _ => False

/-- The search does not come to zero, or finds it in use. -/
def Clear (self : ClientSession) (call : Call) : Prop :=
  self.Asks call →
    0 ∈ self.pendingQosSend ∨ ∃ packetId, self.lastPacketId < packetId ∧ packetId ∉ self.pendingQosSend

section

variable {s : ClientSession} {call : Call} {packetId : UInt16}

theorem toNat_add_one_add (last : UInt16) (j : Nat) :
    (last + 1 + UInt16.ofNat j).toNat = (last.toNat + 1 + j) % 65536 := by
  simp only [UInt16.toNat_add, UInt16.toNat_ofNat', UInt16.toNat_one]
  omega

/-- The search comes to zero over the identifiers that are greater than the last one. -/
theorem freeId_eq_zero {m : PendingQos} {last : UInt16} (hsize : m.entries.length < 65535) :
    freeId m 65536 (last + 1) = 0 ↔ 0 ∉ m ∧ ∀ packetId, last < packetId → packetId ∈ m := by
  have hlast := last.toNat_lt
  obtain ⟨n, hn, hfinds⟩ := exists_finds hsize (last + 1)
  rw [freeId_of_finds hfinds (by omega)]
  constructor
  · intro hzero
    obtain ⟨-, hfree, hpassed⟩ := finds_iff.mp hfinds
    rw [hzero] at hfree
    refine ⟨hfree, fun packetId hlt => ?_⟩
    have hround := congrArg UInt16.toNat hzero
    rw [toNat_add_one_add, UInt16.toNat_zero] at hround
    rw [UInt16.lt_iff_toNat_lt] at hlt
    have hle := packetId.toNat_lt
    have hj := hpassed (packetId.toNat - (last.toNat + 1)) (by omega)
    have hid : last + 1 + UInt16.ofNat (packetId.toNat - (last.toNat + 1)) = packetId := by
      apply UInt16.toNat_inj.mp
      rw [toNat_add_one_add]
      omega
    rwa [hid] at hj
  · rintro ⟨hfree, hused⟩
    have hzero : Finds m (last + 1) (65535 - last.toNat) 0 := by
      refine finds_iff.mpr ⟨?_, hfree, fun j hj => hused _ ?_⟩
      · apply UInt16.toNat_inj.mp
        rw [toNat_add_one_add, UInt16.toNat_zero]
        omega
      · rw [UInt16.lt_iff_toNat_lt, toNat_add_one_add]
        omega
    exact (Ends.unique hfinds hzero).2

theorem asks_iff : s.Asks call ↔ ∃ p ok, call = .write (.publish p) ok ∧
    (p.qos = .ok .atLeastOnce ∨ p.qos = .ok .exactlyOnce) ∧ p.packetId = none ∧
      s.autoPacketId = true ∧ s.sendFull = false := by
  constructor
  · intro hasks
    cases call with
    | handle _ _ => exact hasks.elim
    | write packet ok =>
        cases packet with
        | publish p => exact ⟨p, ok, rfl, hasks⟩
        | _ => exact hasks.elim
  · rintro ⟨p, ok, rfl, hasks⟩
    exact hasks

/-- The identifier of the search is recorded, and goes out with the publish. -/
theorem writeQos_eq {ok : Bool} {entry : Packet → QoSPacketState} {p : Publish}
    (hnone : p.packetId = none) (hauto : s.autoPacketId = true) (hfull : s.sendFull = false) :
    s.writeQos ok entry p =
      let packetId := freeId s.pendingQosSend 65536 (s.lastPacketId + 1)
      let sent : Packet := .publish { p with packetId := some packetId }
      ({ s with lastPacketId := packetId }.insertSend packetId (entry sent)).sendPacket ok sent := by
  simp only [writeQos, hfull, Bool.false_eq_true, if_false, assignPacketId, hnone, hauto, if_true]

/-- What a call that leads to the search assigns. -/
theorem assigned_of_asks (hasks : s.Asks call) :
    s.assigned call = some (freeId s.pendingQosSend 65536 (s.lastPacketId + 1)) := by
  obtain ⟨p, ok, rfl, hqos, hnone, hauto, hfull⟩ := asks_iff.mp hasks
  rw [assigned, if_pos hnone]
  obtain hqos | hqos := hqos
  · simp only [writeNext, hqos, writeQos_eq hnone hauto hfull, sendPacket]
  · simp only [writeNext, hqos, writeQos_eq hnone hauto hfull, sendPacket]

theorem length_of_asks (hasks : s.Asks call) : s.pendingQosSend.entries.length < 65535 := by
  obtain ⟨-, -, -, -, -, -, hfull⟩ := asks_iff.mp hasks
  rw [sendFull, Bool.or_eq_false_iff, decide_eq_false_iff_not, Nat.not_le] at hfull
  exact hfull.1

/-- No other call assigns an identifier. -/
theorem asks_of_assigned (hassigned : s.assigned call = some packetId) : s.Asks call := by
  have hqos : ∀ {ok : Bool} {entry : Packet → QoSPacketState} {p : Publish}, p.packetId = none →
      (match (s.writeQos ok entry p).sent with
        | [.publish sent] => sent.packetId
        | _ => none) = some packetId → s.autoPacketId = true ∧ s.sendFull = false := by
    intro ok entry p hnone hsent
    cases hfull : s.sendFull with
    | true =>
        rw [writeQos, if_pos hfull] at hsent
        cases hsent
    | false =>
        cases hauto : s.autoPacketId with
        | false =>
            simp only [writeQos, hfull, assignPacketId, hnone, hauto, Bool.false_eq_true, if_false,
              fail] at hsent
            cases hsent
        | true => exact ⟨rfl, rfl⟩
  cases call with
  | handle _ _ => cases hassigned
  | write packet ok =>
      cases packet with
      | publish p =>
          rw [assigned] at hassigned
          split at hassigned
          · rename_i hnone
            refine asks_iff.mpr ⟨p, ok, rfl, ?_⟩
            cases hlevel : p.qos with
            | panic => simp [writeNext, hlevel] at hassigned
            | err e => simp [writeNext, hlevel] at hassigned
            | ok level =>
                cases level with
                | atMostOnce => simp [writeNext, hlevel, sendPacket, hnone] at hassigned
                | atLeastOnce =>
                    simp only [writeNext, hlevel] at hassigned
                    exact ⟨.inl rfl, hnone, hqos hnone hassigned⟩
                | exactlyOnce =>
                    simp only [writeNext, hlevel] at hassigned
                    exact ⟨.inr rfl, hnone, hqos hnone hassigned⟩
          · cases hassigned
      | _ => cases hassigned

/-- The identifier of the search is in range and not in use unless it is zero. -/
theorem fresh_iff_clear : s.Fresh call ↔ s.Clear call := by
  by_cases hasks : s.Asks call
  · have hsize := length_of_asks hasks
    have hfree := freeId_notMem (hsize.trans (by decide)) (s.lastPacketId + 1)
    have hle := (freeId s.pendingQosSend 65536 (s.lastPacketId + 1)).toNat_lt
    have hzero : freeId s.pendingQosSend 65536 (s.lastPacketId + 1) ≠ 0 ↔
        0 ∈ s.pendingQosSend ∨
          ∃ packetId, s.lastPacketId < packetId ∧ packetId ∉ s.pendingQosSend := by
      rw [ne_eq, freeId_eq_zero hsize, not_and_or, not_not]
      simp only [not_forall, exists_prop]
    simp only [Fresh, Clear, hasks, true_implies, assigned_of_asks hasks, Option.mem_def,
      Option.some.injEq, forall_eq', ← hzero, hfree, not_false_eq_true, and_true]
    rw [ne_eq, ← UInt16.toNat_inj, UInt16.toNat_zero]
    omega
  · exact iff_of_true (fun packetId h => absurd (asks_of_assigned h) hasks)
      fun h => absurd h hasks

end

/-- In a run the identifiers that are assigned are in range and not in use exactly if no
search comes to zero. -/
theorem assigned_along_iff (s : ClientSession) (calls : List Call) :
    Along step Fresh s calls ↔ Along step Clear s calls :=
  ⟨fun h => h.mono fun _ _ => fresh_iff_clear.mp, fun h => h.mono fun _ _ => fresh_iff_clear.mpr⟩

end ClientSession

/-! ## Once around -/

/-- The `n`th publish with QoS 1, and its PUBACK. -/
def acknowledged (n : Nat) : List Call :=
  [.write (.publish (publishOf .atLeastOnce none)) true,
    .handle (.pubAck (.newWithPacketId .pubAck (UInt16.ofNat n))) true]

/-- The session after `n` publishes, each of which has been acknowledged. -/
def sessionAfter (n : Nat) : ClientSession :=
  { ClientSession.newFromClient (.new "") with
    lastPacketId := UInt16.ofNat n
    qosSendRemaining := 65535 + UInt64.ofNat n }

theorem freeId_sessionAfter (n : Nat) :
    ClientSession.freeId (sessionAfter n).pendingQosSend 65536 ((sessionAfter n).lastPacketId + 1) =
      UInt16.ofNat (n + 1) := by
  have hfree : (sessionAfter n).lastPacketId + 1 ∉ (sessionAfter n).pendingQosSend :=
    AList.notMem_empty _
  rw [ClientSession.freeId, if_neg hfree]
  exact (UInt16.ofNat_add n 1).symm

theorem sendFull_sessionAfter {n : Nat} (hn : n < 65536) : (sessionAfter n).sendFull = false := by
  have hremaining : (sessionAfter n).qosSendRemaining ≠ 0 := by
    intro hzero
    have htoNat : (65535 + n % 2 ^ 64) % 2 ^ 64 = 0 := by
      simpa [sessionAfter] using congrArg UInt64.toNat hzero
    omega
  rw [ClientSession.sendFull, decide_eq_false hremaining, Bool.or_false]
  rfl

theorem asks_sessionAfter {n : Nat} (hn : n < 65536) :
    (sessionAfter n).Asks (.write (.publish (publishOf .atLeastOnce none)) true) :=
  ⟨.inl rfl, rfl, rfl, sendFull_sessionAfter hn⟩

/-- The session after the publish that the `n`th acknowledgement is for. -/
theorem step_publish {n : Nat} (hn : n < 65536) :
    (sessionAfter n).step (.write (.publish (publishOf .atLeastOnce none)) true) =
      some ({ sessionAfter n with lastPacketId := UInt16.ofNat (n + 1) }.insertSend
        (UInt16.ofNat (n + 1))
        (.newQos1 (.publish (publishOf .atLeastOnce (some (UInt16.ofNat (n + 1))))))) := by
  have hperform : (sessionAfter n).perform (.write (.publish (publishOf .atLeastOnce none)) true) =
      (sessionAfter n).writeQos true .newQos1 (publishOf .atLeastOnce none) := rfl
  rw [ClientSession.step_eq_some, hperform,
    ClientSession.writeQos_eq rfl rfl (sendFull_sessionAfter hn), freeId_sessionAfter]
  exact ⟨nofun, rfl⟩

/-- The PUBACK of a publish that has just been recorded takes the record back. -/
theorem handlePubAck_insertSend {s : ClientSession} {packetId : UInt16}
    (h : packetId ∉ s.pendingQosSend) (packet : Packet) :
    (s.insertSend packetId (.newQos1 packet)).handlePubAck packetId =
      { session := s.incrementSend, sent := [], result := .ok () } := by
  have hlookup : (s.insertSend packetId (.newQos1 packet)).pendingQosSend.lookup packetId =
      some (.newQos1 packet) := AList.lookup_insert _
  have herase : (s.insertSend packetId (.newQos1 packet)).removeSend packetId = s := by
    rw [ClientSession.removeSend, ClientSession.insertSend, erase_insert h]
  have hnext : (QoSPacketState.newQos1 packet).next = .pubAck := rfl
  simp only [ClientSession.handlePubAck, hlookup, herase, hnext, if_true]

theorem run_acknowledged {n : Nat} (hn : n < 65536) :
    run ClientSession.step (sessionAfter n) (acknowledged (n + 1)) = some (sessionAfter (n + 1)) := by
  have hremaining : (sessionAfter n).qosSendRemaining + 1 = (sessionAfter (n + 1)).qosSendRemaining := by
    simp only [sessionAfter, UInt64.ofNat_add, UInt64.add_assoc]
    rfl
  have hfree : UInt16.ofNat (n + 1) ∉
      { sessionAfter n with lastPacketId := UInt16.ofNat (n + 1) }.pendingQosSend :=
    AList.notMem_empty _
  have hhandle := handlePubAck_insertSend hfree
    (.publish (publishOf .atLeastOnce (some (UInt16.ofNat (n + 1)))))
  rw [acknowledged, run_cons, step_publish hn, Option.bind_some, run_cons_eq_some]
  refine ⟨_, ClientSession.step_eq_some.mpr ⟨?_, rfl⟩, ?_⟩
  · simp only [ClientSession.perform, ClientSession.handlePacket, PubResp.newWithPacketId, hhandle]
    intro h
    cases h
  · simp only [ClientSession.perform, ClientSession.handlePacket, PubResp.newWithPacketId, hhandle,
      run_nil, ClientSession.passOn, ClientSession.incrementSend, hremaining]
    rfl

theorem run_flatMap_acknowledged {n : Nat} (hn : n ≤ 65536) :
    run ClientSession.step (ClientSession.newFromClient (.new ""))
      ((List.range n).flatMap fun i => acknowledged (i + 1)) = some (sessionAfter n) := by
  induction n with
  | zero => rfl
  | succ n ih =>
      rw [List.range_succ, List.flatMap_append, run_append, ih (Nat.le_of_succ_le hn),
        Option.bind_some, List.flatMap_singleton]
      exact run_acknowledged hn

/-- After 65,535 publishes, each of which has been acknowledged, the next one is assigned the
identifier zero. -/
theorem assigns_zero :
    let calls := (List.range 65535).flatMap fun i => acknowledged (i + 1)
    let call : Call := .write (.publish (publishOf .atLeastOnce none)) true
    (∃ s, run ClientSession.step (ClientSession.newFromClient (.new "")) calls = some s ∧
      s.assigned call = some 0) ∧
    ¬ Along ClientSession.step ClientSession.Fresh (ClientSession.newFromClient (.new ""))
      (calls ++ [call]) := by
  intro calls call
  have hrun : run ClientSession.step (ClientSession.newFromClient (.new "")) calls =
      some (sessionAfter 65535) := run_flatMap_acknowledged (by decide)
  clear_value calls
  have hassigned : (sessionAfter 65535).assigned call = some 0 := by
    rw [ClientSession.assigned_of_asks (asks_sessionAfter (by decide)), freeId_sessionAfter]
    rfl
  refine ⟨⟨_, hrun, hassigned⟩, fun hfresh => ?_⟩
  obtain ⟨-, hfresh⟩ := (along_append hrun).mp hfresh
  exact absurd ((hfresh _ (step_publish (by decide))).1 0 hassigned).1 (by decide)

end Client
end Vaux
