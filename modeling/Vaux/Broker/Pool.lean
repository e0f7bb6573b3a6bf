import Vaux.Broker.Session
import Vaux.Machine.Table

/-!
# The session pool

`SessionPool` of `session.rs`.  A session is reached through an `Arc`, here a reference
into a heap of sessions, so that the pool and the connections see one object.  The
counters have 32 bits and are kept beside the maps they count.
-/

namespace Vaux
namespace Broker

open Mqtt

abbrev Ref := Nat

/-- What the `Arc`s point to. -/
abbrev Sessions := Ref → Session

structure SessionPool where
  sessionExpiry : Nat
  defaultKeepAlive : Nat
  maxKeepAlive : Nat
  active : AList fun _ : String => Ref
  inactive : AList fun _ : String => Ref
  activeSessions : UInt32
  inactiveSessions : UInt32
  /-- History, which nothing reads: a counter has been decremented at zero. -/
  underflow : Bool

namespace SessionPool

/-- `new_with_config`, from the durations of the configuration in seconds. -/
def new (sessionExpiry defaultKeepAlive maxKeepAlive : Nat) : SessionPool where
  sessionExpiry := sessionExpiry
  defaultKeepAlive := defaultKeepAlive
  maxKeepAlive := maxKeepAlive
  active := ∅
  inactive := ∅
  activeSessions := 0
  inactiveSessions := 0
  underflow := false

def defaultKeepAliveSecs (self : SessionPool) : UInt16 := UInt16.ofNat self.defaultKeepAlive

def maxKeepAliveSecs (self : SessionPool) : UInt16 := UInt16.ofNat self.maxKeepAlive

def setSessionExpiry (self : SessionPool) (expiry : Nat) : SessionPool :=
  { self with sessionExpiry := expiry }

def atCapacity (self : SessionPool) (max : Option UInt32) : Bool :=
  match max with
  | some limit => self.activeSessions ≥ limit
  | none => false

/-- `self.active_sessions -= 1`. -/
def decrementActive (self : SessionPool) : SessionPool :=
  { self with
    activeSessions := self.activeSessions - 1
    underflow := self.underflow || self.activeSessions == 0 }

/-- `self.inactive_sessions -= 1`. -/
def decrementInactive (self : SessionPool) : SessionPool :=
  { self with
    inactiveSessions := self.inactiveSessions - 1
    underflow := self.underflow || self.inactiveSessions == 0 }

def add (self : SessionPool) (sessions : Sessions) (ref : Ref) : SessionPool :=
  if (sessions ref).connected then
    { self with
      activeSessions := self.activeSessions + 1
      active := self.active.insert (sessions ref).id ref }
  else
    { self with
      inactiveSessions := self.inactiveSessions + 1
      inactive := self.inactive.insert (sessions ref).id ref }

def remove (self : SessionPool) (sessionId : String) : Option Ref × SessionPool :=
  match self.active.lookup sessionId with
  | some ref => (some ref, { self with active := self.active.erase sessionId }.decrementActive)
  | none =>
    match self.inactive.lookup sessionId with
    | some ref => (some ref, { self with inactive := self.inactive.erase sessionId }.decrementInactive)
    | none => (none, self)

def getActive (self : SessionPool) (sessionId : String) : Option Ref :=
  self.active.lookup sessionId

def activate (self : SessionPool) (sessions : Sessions) (sessionId : String) :
    Option (Ref × SessionPool × Sessions) :=
  match self.inactive.lookup sessionId with
  | some ref =>
    let session := (sessions ref).setConnected true
    some
      (ref,
        { self with
          inactive := self.inactive.erase sessionId
          activeSessions := self.activeSessions + 1
          active := self.active.insert session.id ref }.decrementInactive,
        Function.update sessions ref session)
  | none => none

def deactivate (self : SessionPool) (sessions : Sessions) (sessionId : String) :
    SessionPool × Sessions :=
  match self.active.lookup sessionId with
  | some ref =>
    let session := (sessions ref).setConnected false
    ({ self with
        active := self.active.erase sessionId
        inactiveSessions := self.inactiveSessions + 1
        inactive := self.inactive.insert session.id ref }.decrementActive,
      Function.update sessions ref session)
  | none => (self, sessions)

end SessionPool

/-! ## Counting entries -/

section

variable {m : AList fun _ : String => Ref} {id : String} {ref : Ref} {count : UInt32}

theorem count_insert (hcount : count = UInt32.ofNat m.entries.length) (h : id ∉ m) :
    count + 1 = UInt32.ofNat (m.insert id ref).entries.length := by
  rw [length_insert h, UInt32.ofNat_add, ← hcount]
  rfl

theorem count_erase (hcount : count = UInt32.ofNat m.entries.length) (h : id ∈ m) :
    count - 1 = UInt32.ofNat (m.erase id).entries.length := by
  rw [hcount, ← length_erase h, UInt32.ofNat_add]
  exact UInt32.add_sub_cancel _ _

end

/-! ## What the pool keeps -/

/-- The maps have no client in common and hold the sessions under their own ids, with
the flag that belongs to the map, and the counters count the entries modulo `2 ^ 32`. -/
structure SessionPool.Sound (pool : SessionPool) (sessions : Sessions) (nextRef : Ref) : Prop where
  disjoint : ∀ id, id ∈ pool.active → id ∉ pool.inactive
  activeCount : pool.activeSessions = UInt32.ofNat pool.active.entries.length
  inactiveCount : pool.inactiveSessions = UInt32.ofNat pool.inactive.entries.length
  active : ∀ {id ref}, pool.active.lookup id = some ref →
    (sessions ref).id = id ∧ (sessions ref).connected = true ∧ ref < nextRef
  inactive : ∀ {id ref}, pool.inactive.lookup id = some ref →
    (sessions ref).id = id ∧ (sessions ref).connected = false ∧ ref < nextRef

namespace SessionPool

section

variable {pool pool' : SessionPool} {sessions sessions' : Sessions} {nextRef nextRef' : Ref}
  {id : String} {ref : Ref}

theorem sound_new (expiry default max : Nat) (sessions : Sessions) :
    (SessionPool.new expiry default max).Sound sessions nextRef := by
  refine ⟨?_, rfl, rfl, ?_, ?_⟩
  · intro id hid
    exact absurd hid (AList.notMem_empty id)
  · intro id ref h
    cases h
  · intro id ref h
    cases h

/-- The sessions may change in anything but their id and their flag. -/
theorem Sound.congr (h : pool.Sound sessions nextRef) (hle : nextRef ≤ nextRef')
    (hsame : ∀ ref < nextRef, (sessions' ref).id = (sessions ref).id ∧
      (sessions' ref).connected = (sessions ref).connected) : pool.Sound sessions' nextRef' := by
  refine ⟨h.disjoint, h.activeCount, h.inactiveCount, ?_, ?_⟩
  · intro id ref hlookup
    obtain ⟨hid, hconnected, hlt⟩ := h.active hlookup
    obtain ⟨hid', hconnected'⟩ := hsame ref hlt
    exact ⟨hid'.trans hid, hconnected'.trans hconnected, Nat.lt_of_lt_of_le hlt hle⟩
  · intro id ref hlookup
    obtain ⟨hid, hconnected, hlt⟩ := h.inactive hlookup
    obtain ⟨hid', hconnected'⟩ := hsame ref hlt
    exact ⟨hid'.trans hid, hconnected'.trans hconnected, Nat.lt_of_lt_of_le hlt hle⟩

theorem Sound.setSessionExpiry (h : pool.Sound sessions nextRef) (expiry : Nat) :
    (pool.setSessionExpiry expiry).Sound sessions nextRef :=
  ⟨h.disjoint, h.activeCount, h.inactiveCount, h.active, h.inactive⟩

theorem Sound.add (h : pool.Sound sessions nextRef) (hconnected : (sessions ref).connected = true)
    (hactive : (sessions ref).id ∉ pool.active) (hinactive : (sessions ref).id ∉ pool.inactive)
    (hlt : ref < nextRef) : (pool.add sessions ref).Sound sessions nextRef := by
  rw [SessionPool.add, if_pos hconnected]
  refine ⟨?_, ?_, h.inactiveCount, ?_, h.inactive⟩
  · intro id hid
    rcases (AList.mem_insert _).mp hid with rfl | hid
    · exact hinactive
    · exact h.disjoint id hid
  · exact count_insert h.activeCount hactive
  · intro id ref' hlookup
    rcases lookup_insert_eq.mp hlookup with ⟨rfl, rfl⟩ | ⟨-, hlookup⟩
    · exact ⟨rfl, hconnected, hlt⟩
    · exact h.active hlookup

theorem Sound.remove (h : pool.Sound sessions nextRef) (id : String) :
    (pool.remove id).2.Sound sessions nextRef := by
  unfold SessionPool.remove
  cases hactive : pool.active.lookup id with
  | some ref =>
      refine ⟨?_, ?_, h.inactiveCount, ?_, h.inactive⟩
      · intro id' hid'
        exact h.disjoint id' (AList.mem_erase.mp hid').2
      · exact count_erase h.activeCount (mem_of_lookup hactive)
      · intro id' ref' hlookup
        exact h.active (lookup_erase_eq.mp hlookup).2
  | none =>
      cases hinactive : pool.inactive.lookup id with
      | some ref =>
          refine ⟨?_, h.activeCount, ?_, h.active, ?_⟩
          · intro id' hid' hmem
            exact h.disjoint id' hid' (AList.mem_erase.mp hmem).2
          · exact count_erase h.inactiveCount (mem_of_lookup hinactive)
          · intro id' ref' hlookup
            exact h.inactive (lookup_erase_eq.mp hlookup).2
      | none => exact h

theorem Sound.activate (h : pool.Sound sessions nextRef)
    (hrun : pool.activate sessions id = some (ref, pool', sessions')) :
    pool'.Sound sessions' nextRef := by
  unfold SessionPool.activate at hrun
  cases hlookup : pool.inactive.lookup id with
  | none => simp [hlookup] at hrun
  | some found =>
      simp only [hlookup, Option.some.injEq, Prod.mk.injEq] at hrun
      obtain ⟨rfl, rfl, rfl⟩ := hrun
      obtain ⟨rfl, -, hlt⟩ := h.inactive hlookup
      have hinactive := mem_of_lookup hlookup
      have hactive : (sessions found).id ∉ pool.active := fun hmem => h.disjoint _ hmem hinactive
      -- another entry is that of another session
      have hother : ∀ {id' ref'}, id' ≠ (sessions found).id → (sessions ref').id = id' → ref' ≠ found := by
        rintro id' ref' hne rfl rfl
        exact hne rfl
      refine ⟨?_, ?_, ?_, ?_, ?_⟩
      · intro id' hid'
        rw [decrementInactive, AList.mem_erase]
        rcases (AList.mem_insert _).mp hid' with rfl | hid'
        · exact fun hmem => hmem.1 rfl
        · exact fun hmem => h.disjoint id' hid' hmem.2
      · exact count_insert h.activeCount hactive
      · exact count_erase h.inactiveCount hinactive
      · intro id' ref' hfound
        rcases lookup_insert_eq.mp hfound with ⟨rfl, rfl⟩ | ⟨hne, hfound⟩
        · rw [Function.update_self]
          exact ⟨rfl, rfl, hlt⟩
        · obtain ⟨hid', hconnected, hlt'⟩ := h.active hfound
          rw [Function.update_of_ne (hother hne hid')]
          exact ⟨hid', hconnected, hlt'⟩
      · intro id' ref' hfound
        obtain ⟨hne, hfound⟩ := lookup_erase_eq.mp hfound
        obtain ⟨hid', hconnected, hlt'⟩ := h.inactive hfound
        rw [Function.update_of_ne (hother hne hid')]
        exact ⟨hid', hconnected, hlt'⟩

theorem Sound.deactivate (h : pool.Sound sessions nextRef) :
    (pool.deactivate sessions id).1.Sound (pool.deactivate sessions id).2 nextRef := by
  unfold SessionPool.deactivate
  cases hlookup : pool.active.lookup id with
  | none => exact h
  | some found =>
      obtain ⟨rfl, -, hlt⟩ := h.active hlookup
      have hactive := mem_of_lookup hlookup
      have hinactive := h.disjoint _ hactive
      have hother : ∀ {id' ref'}, id' ≠ (sessions found).id → (sessions ref').id = id' → ref' ≠ found := by
        rintro id' ref' hne rfl rfl
        exact hne rfl
      refine ⟨?_, ?_, ?_, ?_, ?_⟩
      · intro id' hid' hmem
        obtain ⟨hne, hid'⟩ := AList.mem_erase.mp hid'
        rcases (AList.mem_insert _).mp hmem with rfl | hmem
        · exact hne rfl
        · exact h.disjoint id' hid' hmem
      · exact count_erase h.activeCount hactive
      · exact count_insert h.inactiveCount hinactive
      · intro id' ref' hfound
        obtain ⟨hne, hfound⟩ := lookup_erase_eq.mp hfound
        obtain ⟨hid', hconnected, hlt'⟩ := h.active hfound
        simp only
        rw [Function.update_of_ne (hother hne hid')]
        exact ⟨hid', hconnected, hlt'⟩
      · intro id' ref' hfound
        simp only
        rcases lookup_insert_eq.mp hfound with ⟨rfl, rfl⟩ | ⟨hne, hfound⟩
        · rw [Function.update_self]
          exact ⟨rfl, rfl, hlt⟩
        · obtain ⟨hid', hconnected, hlt'⟩ := h.inactive hfound
          rw [Function.update_of_ne (hother hne hid')]
          exact ⟨hid', hconnected, hlt'⟩

end

end SessionPool

end Broker
end Vaux
