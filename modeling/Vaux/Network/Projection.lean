import Vaux.Machine.Simulation
import Vaux.Network.Window

/-!
# The network as its broker sees it

The broker of a network takes the steps of a broker alone.  What it reads from a connection is
what the client has written, and what it writes is what the client reads: in order, none of it
twice and none of it left out.
-/

namespace Vaux
namespace Network

open Wire Mqtt Machine

/-! ## Steps -/

/-- What a run of the broker writes to the connection `n`. -/
def writtenTo (n : Nat) : Broker.Traffic → List Broker.Label → List Packet :=
  emitted Broker.Traffic.step fun w => written w.state n

/-- The run `bs` of a broker alone, which ends in `w`, is one that the broker of the network
has taken. -/
structure State.Projects (config : Broker.Config) (net : State) (bs : List Broker.Label)
    (w : Broker.Traffic) : Prop where
  state : w.state = net.broker
  taken : ∀ n, bs.filterMap (arrival n) = (net.links n).taken
  served : ∀ n, writtenTo n (.start config) bs = (net.links n).served

section

variable {config : Broker.Config} {net net' : State} {l : Label} {n : Nat}
  {bs : List Broker.Label} {w : Broker.Traffic}

theorem projects_start (config : Broker.Config) :
    (State.start config).Projects config [] (.start config) :=
  ⟨rfl, fun _ => rfl, fun _ => rfl⟩

/-- The broker takes no part in the step. -/
theorem State.Projects.stay (h : net.Projects config bs w) (hbroker : net'.broker = net.broker)
    (hlinks : ∀ n, (net'.links n).taken = (net.links n).taken ∧
      (net'.links n).served = (net.links n).served) : net'.Projects config bs w where
  state := h.state.trans hbroker.symm
  taken n := (h.taken n).trans (hlinks n).1.symm
  served n := (h.served n).trans (hlinks n).2.symm

/-- The step is one of the broker. -/
theorem State.Projects.follow (h : net.Projects config bs w)
    (hrun : run Broker.Traffic.step (.start config) bs = some w) {b : Broker.Label}
    (hbroker : net.broker.step b = some net'.broker)
    (hlinks : ∀ n, (net'.links n).taken = (net.links n).taken ++ (arrival n b).toList ∧
      (net'.links n).served = (net.links n).served ++ written net.broker n b) :
    ∃ w', run Broker.Traffic.step w [b] = some w' ∧ net'.Projects config (bs ++ [b]) w' := by
  obtain ⟨w', hw', hstate⟩ : ∃ w', w.step b = some w' ∧ w'.state = net'.broker :=
    ⟨_, Broker.Traffic.step_eq_some.mpr ⟨_, h.state ▸ hbroker, rfl⟩, rfl⟩
  refine ⟨w', run_cons_eq_some.mpr ⟨w', hw', rfl⟩, hstate, fun n => ?_, fun n => ?_⟩
  · rw [(hlinks n).1, List.filterMap_append, h.taken]
    cases hb : arrival n b <;> simp [hb]
  · rw [(hlinks n).2, writtenTo, emitted_concat hrun, h.state, ← h.served]
    rfl

theorem State.Projects.step (h : net.Projects config bs w)
    (hrun : run Broker.Traffic.step (.start config) bs = some w) (hstep : net.step l = some net') :
    ∃ bs' w', run Broker.Traffic.step w bs' = some w' ∧ net'.Projects config (bs ++ bs') w' := by
  rcases broker_of_step hstep with ⟨hbroker, hlinks⟩ | ⟨b, hbroker, -, hlinks⟩
  · exact ⟨[], w, rfl, (List.append_nil bs).symm ▸ h.stay hbroker hlinks⟩
  · exact ⟨[b], h.follow hrun hbroker hlinks⟩

/-! ## Runs -/

variable {ls : List Label}

theorem passing_of_run (hrun : run State.step (.start config) ls = some net) :
    ∀ n, (net.links n).Passing :=
  invariant (I := fun net => ∀ n, (net.links n).Passing)
    (fun _ _ _ h hstep n => passing_of_step (h n) hstep) (passing_start config) hrun

end

end Network
end Vaux
