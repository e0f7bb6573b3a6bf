import Vaux.Mqtt.DerivedRoundTrip
import Vaux.Mqtt.Packet

/-!
# The structs are lawful

Each derived struct that has user properties satisfies the laws of `Derived.Lawful`:
its members and properties do not touch each other, and together they make up the
value.  The tables of CONNECT, PUBLISH and the will are sound as well.
-/

namespace Vaux
namespace Mqtt

open Wire Decoder

section

variable {σ α : Type} {order : HashOrder} {s s' : σ} {codec : Codec α} {t : PropertyType}

/-! ## Equal items come from equal fields -/

theorem Member.field_items_eq_iff {get : σ → α} {set : σ → α → σ} {lens} :
    (Member.field codec get set lens).items order s =
      (Member.field codec get set lens).items order s' ↔ get s = get s' :=
  List.singleton_inj

theorem Property.required_items_eq_iff {get : σ → α} {set : σ → α → σ} {lens} :
    (Property.required t codec get set lens).member.items order s =
      (Property.required t codec get set lens).member.items order s' ↔ get s = get s' :=
  List.singleton_inj

theorem Property.option_items_eq_iff {get : σ → Option α} {set : σ → Option α → σ} {lens} :
    (Property.option t codec get set lens).member.items order s =
      (Property.option t codec get set lens).member.items order s' ↔ get s = get s' := by
  show (get s).toList = (get s').toList ↔ _
  cases get s <;> cases get s' <;> simp

theorem Property.vec_items_eq_iff {counted : Bool} {get : σ → Bytes} {set : σ → Bytes → σ} {lens} :
    (Property.vec t counted get set lens).member.items order s =
      (Property.vec t counted get set lens).member.items order s' ↔ get s = get s' := by
  show ((if get s = [] then [] else [get s]) = if get s' = [] then [] else [get s']) ↔ _
  constructor
  · intro h
    split at h <;> split at h <;> simp_all
  · intro h
    rw [h]

theorem Property.userProperty_items_eq_iff {get : σ → UserProperty} {set : σ → UserProperty → σ}
    {lens} :
    (Property.userProperty get set lens).member.items order s =
      (Property.userProperty get set lens).member.items order s' ↔ get s = get s' := by
  constructor
  · intro h
    rw [← UserProperty.addAll_pairs order (get s), ← UserProperty.addAll_pairs order (get s')]
    exact congrArg UserProperty.new.addAll h
  · intro h
    exact congrArg (UserProperty.pairs order) h

/-! ## What the values the decoders start from have -/

variable {fresh : σ}

theorem Member.initial_field {get : σ → α} {set : σ → α → σ} {lens}
    (hcarries : codec.Carries (get fresh)) (hlen : encodedLength (codec.encode (get fresh)) ≤ 8) :
    (Member.field codec get set lens).Initial order fresh :=
  .inr ⟨rfl, get fresh, rfl, hcarries, hlen⟩

theorem Property.initial_required {get : σ → α} {set : σ → α → σ} {lens}
    (hcarries : codec.Carries (get fresh)) (hlen : encodedLength (codec.encode (get fresh)) ≤ 8) :
    (Property.required t codec get set lens).member.Initial order fresh :=
  .inr ⟨rfl, get fresh, rfl, hcarries, hlen⟩

theorem Property.initial_option {get : σ → Option α} {set : σ → Option α → σ} {lens}
    (h : get fresh = none) :
    (Property.option t codec get set lens).member.Initial order fresh :=
  .inl (congrArg Option.toList h)

theorem Property.initial_userProperty {get : σ → UserProperty} {set : σ → UserProperty → σ}
    {lens} (h : get fresh = .new) :
    (Property.userProperty get set lens).member.Initial order fresh :=
  .inl ((UserProperty.pairs_eq_nil_iff order _).mpr h)

end

/-! ## CONNACK -/

namespace ConnAck

theorem lawful : derived.Lawful (·.fixedHeader) .default where
  exact := derived_exact
  required := by
    simp only [Derived.members, derived, List.append_nil, List.forall_mem_cons, List.not_mem_nil,
      false_imp_iff, implies_true, and_true]
    and_intros <;> rfl
  optional := by
    simp only [OptionalTail, derived, properties, List.tail_cons, List.forall_mem_cons,
      List.not_mem_nil, false_imp_iff, implies_true, and_true]
    and_intros <;> rfl
  nodup := by decide
  apart := by
    simp only [Derived.slots, Derived.members, derived, properties, List.map_cons, List.map_nil,
      List.append_nil, List.cons_append, List.nil_append, List.pairwise_cons, List.forall_mem_cons,
      List.not_mem_nil, false_imp_iff, implies_true, and_true, List.Pairwise.nil]
    and_intros <;> exact fun _ _ => ⟨fun _ => rfl, fun _ => rfl⟩
  counted := .inr rfl
  fixed_apply := by
    simp only [Derived.forall_slots, derived, properties, List.forall_mem_cons, List.not_mem_nil,
      false_imp_iff, implies_true, and_true, true_and]
    and_intros <;> exact fun _ _ => rfl
  set_remaining := by simp [derived]
  abbreviated := by simp [Derived.abbreviated, derived]
  abbreviated_remaining := by simp [derived]
  initial := by
    intro order
    simp only [Derived.forall_slots, derived, properties, List.forall_mem_cons, List.not_mem_nil,
      false_imp_iff, implies_true, and_true, true_and]
    and_intros
    · exact Member.initial_field ⟨trivial, _, rfl⟩ (by decide)
    · exact Member.initial_field ⟨trivial, _, rfl⟩ (by decide)
    all_goals first
    | exact Property.initial_option rfl
    | exact Property.initial_userProperty rfl
    | exact .inl rfl
  few := by decide
  ext := by
    intro order s s' hfixed hslots hrest
    simp only [Derived.forall_slots, derived, properties, List.forall_mem_cons, List.not_mem_nil,
      false_imp_iff, implies_true, and_true, true_and, Member.field_items_eq_iff,
      Property.option_items_eq_iff, Property.vec_items_eq_iff,
      Property.userProperty_items_eq_iff] at hslots
    cases s
    cases s'
    simp_all

end ConnAck

/-! ## DISCONNECT -/

namespace Disconnect

theorem lawful : derived.Lawful (·.fixedHeader) .default where
  exact := derived_exact
  required := by
    simp only [Derived.members, derived, List.nil_append, List.forall_mem_cons, List.not_mem_nil,
      false_imp_iff, implies_true, and_true]
    rfl
  optional := by
    simp only [OptionalTail, derived, properties, List.tail_cons, List.forall_mem_cons,
      List.not_mem_nil, false_imp_iff, implies_true, and_true]
    and_intros <;> rfl
  nodup := by decide
  apart := by
    simp only [Derived.slots, Derived.members, derived, properties, List.map_cons, List.map_nil,
      List.nil_append, List.cons_append, List.nil_append, List.pairwise_cons, List.forall_mem_cons,
      List.not_mem_nil, false_imp_iff, implies_true, and_true, List.Pairwise.nil]
    and_intros <;> exact fun _ _ => ⟨fun _ => rfl, fun _ => rfl⟩
  counted := by
    left
    simp only [derived, properties, List.forall_mem_cons, List.not_mem_nil, false_imp_iff,
      implies_true, and_true]
    and_intros <;> rfl
  fixed_apply := by
    simp only [Derived.forall_slots, derived, properties, List.forall_mem_cons, List.not_mem_nil,
      false_imp_iff, implies_true, and_true, true_and]
    and_intros <;> exact fun _ _ => rfl
  set_remaining := by simp [derived]
  abbreviated := by
    intro order self h
    simp only [Derived.abbreviated, derived, Bool.decide_and, Bool.and_eq_true,
      decide_eq_true_eq] at h
    refine ⟨h.2, ?_⟩
    simp only [derived, List.forall_mem_cons, List.not_mem_nil, false_imp_iff, implies_true,
      and_true, Member.field_items_eq_iff]
    exact h.1
  abbreviated_remaining := fun _ => rfl
  initial := by
    intro order
    simp only [Derived.forall_slots, derived, properties, List.forall_mem_cons, List.not_mem_nil,
      false_imp_iff, implies_true, and_true, true_and]
    exact ⟨Member.initial_field ⟨trivial, _, rfl⟩ (by decide),
      Property.initial_option rfl,
      Property.initial_option rfl,
      Property.initial_option rfl,
      Property.initial_userProperty rfl⟩
  few := by decide
  ext := by
    intro order s s' hfixed hslots hrest
    simp only [Derived.forall_slots, derived, properties, List.forall_mem_cons, List.not_mem_nil,
      false_imp_iff, implies_true, and_true, true_and, Member.field_items_eq_iff,
      Property.option_items_eq_iff, Property.userProperty_items_eq_iff] at hslots
    cases s
    cases s'
    simp_all

end Disconnect

/-! ## SUBSCRIBE -/

namespace Subscribe

theorem lawful : derived.Lawful (·.fixedHeader) .default where
  exact := derived_exact
  required := by
    simp only [Derived.members, derived, List.append_nil, List.forall_mem_cons, List.not_mem_nil,
      false_imp_iff, implies_true, and_true]
    rfl
  optional := by
    simp only [OptionalTail, derived, properties, List.tail_cons, List.forall_mem_cons,
      List.not_mem_nil, false_imp_iff, implies_true, and_true]
    rfl
  nodup := by decide
  apart := by
    simp only [Derived.slots, Derived.members, derived, properties, List.map_cons, List.map_nil,
      List.append_nil, List.cons_append, List.nil_append, List.pairwise_cons, List.forall_mem_cons,
      List.not_mem_nil, false_imp_iff, implies_true, and_true, List.Pairwise.nil]
    and_intros <;> exact fun _ _ => ⟨fun _ => rfl, fun _ => rfl⟩
  counted := by
    left
    simp only [derived, properties, List.forall_mem_cons, List.not_mem_nil, false_imp_iff,
      implies_true, and_true]
    and_intros <;> rfl
  fixed_apply := by
    simp only [Derived.forall_slots, derived, properties, List.forall_mem_cons, List.not_mem_nil,
      false_imp_iff, implies_true, and_true, true_and]
    and_intros <;> exact fun _ _ => rfl
  set_remaining := by
    intro r hr s v
    cases hr
    simp only [Derived.forall_slots, derived, properties, List.forall_mem_cons, List.not_mem_nil,
      false_imp_iff, implies_true, and_true, true_and]
    and_intros <;> first
    | rfl
    | exact fun _ => rfl
  abbreviated := by simp [Derived.abbreviated, derived]
  abbreviated_remaining := by simp [derived]
  initial := by
    intro order
    simp only [Derived.forall_slots, derived, properties, List.forall_mem_cons, List.not_mem_nil,
      false_imp_iff, implies_true, and_true, true_and]
    exact ⟨Member.initial_field ⟨trivial, _, rfl⟩ (by decide),
      Property.initial_option rfl,
      Property.initial_userProperty rfl⟩
  few := by decide
  ext := by
    intro order s s' hfixed hslots hrest
    simp only [Derived.forall_slots, derived, properties, List.forall_mem_cons, List.not_mem_nil,
      false_imp_iff, implies_true, and_true, true_and, Member.field_items_eq_iff,
      Property.option_items_eq_iff, Property.userProperty_items_eq_iff] at hslots
    have hlast : s.filter = s'.filter := hrest _ rfl
    cases s
    cases s'
    simp_all

end Subscribe

/-! ## SUBACK -/

namespace SubAck

theorem lawful : derived.Lawful (·.fixedHeader) .default where
  exact := derived_exact
  required := by
    simp only [Derived.members, derived, List.append_nil, List.forall_mem_cons, List.not_mem_nil,
      false_imp_iff, implies_true, and_true]
    rfl
  optional := by
    simp only [OptionalTail, derived, properties, List.tail_cons, List.forall_mem_cons,
      List.not_mem_nil, false_imp_iff, implies_true, and_true]
    rfl
  nodup := by decide
  apart := by
    simp only [Derived.slots, Derived.members, derived, properties, List.map_cons, List.map_nil,
      List.append_nil, List.cons_append, List.nil_append, List.pairwise_cons, List.forall_mem_cons,
      List.not_mem_nil, false_imp_iff, implies_true, and_true, List.Pairwise.nil]
    and_intros <;> exact fun _ _ => ⟨fun _ => rfl, fun _ => rfl⟩
  counted := by
    left
    simp only [derived, properties, List.forall_mem_cons, List.not_mem_nil, false_imp_iff,
      implies_true, and_true]
    and_intros <;> rfl
  fixed_apply := by
    simp only [Derived.forall_slots, derived, properties, List.forall_mem_cons, List.not_mem_nil,
      false_imp_iff, implies_true, and_true, true_and]
    and_intros <;> exact fun _ _ => rfl
  set_remaining := by
    intro r hr s v
    cases hr
    simp only [Derived.forall_slots, derived, properties, List.forall_mem_cons, List.not_mem_nil,
      false_imp_iff, implies_true, and_true, true_and]
    and_intros <;> first
    | rfl
    | exact fun _ => rfl
  abbreviated := by simp [Derived.abbreviated, derived]
  abbreviated_remaining := by simp [derived]
  initial := by
    intro order
    simp only [Derived.forall_slots, derived, properties, List.forall_mem_cons, List.not_mem_nil,
      false_imp_iff, implies_true, and_true, true_and]
    exact ⟨Member.initial_field ⟨trivial, _, rfl⟩ (by decide),
      Property.initial_option rfl,
      Property.initial_userProperty rfl⟩
  few := by decide
  ext := by
    intro order s s' hfixed hslots hrest
    simp only [Derived.forall_slots, derived, properties, List.forall_mem_cons, List.not_mem_nil,
      false_imp_iff, implies_true, and_true, true_and, Member.field_items_eq_iff,
      Property.option_items_eq_iff, Property.userProperty_items_eq_iff] at hslots
    have hlast : s.reasonCodes = s'.reasonCodes := hrest _ rfl
    cases s
    cases s'
    simp_all

end SubAck

/-! ## UNSUBACK -/

namespace UnsubAck

theorem lawful : derived.Lawful (·.fixedHeader) .default where
  exact := derived_exact
  required := by
    simp only [Derived.members, derived, List.append_nil, List.forall_mem_cons, List.not_mem_nil,
      false_imp_iff, implies_true, and_true]
    rfl
  optional := by
    simp only [OptionalTail, derived, properties, List.tail_cons, List.forall_mem_cons,
      List.not_mem_nil, false_imp_iff, implies_true, and_true]
    rfl
  nodup := by decide
  apart := by
    simp only [Derived.slots, Derived.members, derived, properties, List.map_cons, List.map_nil,
      List.append_nil, List.cons_append, List.nil_append, List.pairwise_cons, List.forall_mem_cons,
      List.not_mem_nil, false_imp_iff, implies_true, and_true, List.Pairwise.nil]
    and_intros <;> exact fun _ _ => ⟨fun _ => rfl, fun _ => rfl⟩
  counted := by
    left
    simp only [derived, properties, List.forall_mem_cons, List.not_mem_nil, false_imp_iff,
      implies_true, and_true]
    and_intros <;> rfl
  fixed_apply := by
    simp only [Derived.forall_slots, derived, properties, List.forall_mem_cons, List.not_mem_nil,
      false_imp_iff, implies_true, and_true, true_and]
    and_intros <;> exact fun _ _ => rfl
  set_remaining := by
    intro r hr s v
    cases hr
    simp only [Derived.forall_slots, derived, properties, List.forall_mem_cons, List.not_mem_nil,
      false_imp_iff, implies_true, and_true, true_and]
    and_intros <;> first
    | rfl
    | exact fun _ => rfl
  abbreviated := by simp [Derived.abbreviated, derived]
  abbreviated_remaining := by simp [derived]
  initial := by
    intro order
    simp only [Derived.forall_slots, derived, properties, List.forall_mem_cons, List.not_mem_nil,
      false_imp_iff, implies_true, and_true, true_and]
    exact ⟨Member.initial_field ⟨trivial, _, rfl⟩ (by decide),
      Property.initial_required ⟨trivial, _, rfl⟩ (by decide),
      Property.initial_userProperty rfl⟩
  few := by decide
  ext := by
    intro order s s' hfixed hslots hrest
    simp only [Derived.forall_slots, derived, properties, List.forall_mem_cons, List.not_mem_nil,
      false_imp_iff, implies_true, and_true, true_and, Member.field_items_eq_iff,
      Property.required_items_eq_iff, Property.userProperty_items_eq_iff] at hslots
    have hlast : s.reasonCode = s'.reasonCode := hrest _ rfl
    cases s
    cases s'
    simp_all

end UnsubAck

/-! ## UNSUBSCRIBE -/

namespace Unsubscribe

theorem lawful : derived.Lawful (·.fixedHeader) .default where
  exact := derived_exact
  required := by
    simp only [Derived.members, derived, List.append_nil, List.forall_mem_cons, List.not_mem_nil,
      false_imp_iff, implies_true, and_true]
    rfl
  optional := by simp [OptionalTail, derived, properties]
  nodup := by decide
  apart := by
    simp only [Derived.slots, Derived.members, derived, properties, List.map_cons, List.map_nil,
      List.append_nil, List.cons_append, List.nil_append, List.pairwise_cons, List.forall_mem_cons,
      List.not_mem_nil, false_imp_iff, implies_true, and_true, List.Pairwise.nil]
    exact fun _ _ => ⟨fun _ => rfl, fun _ => rfl⟩
  counted := by
    left
    simp only [derived, properties, List.forall_mem_cons, List.not_mem_nil, false_imp_iff,
      implies_true, and_true]
    rfl
  fixed_apply := by
    simp only [Derived.forall_slots, derived, properties, List.forall_mem_cons, List.not_mem_nil,
      false_imp_iff, implies_true, and_true, true_and]
    and_intros <;> exact fun _ _ => rfl
  set_remaining := by
    intro r hr s v
    cases hr
    simp only [Derived.forall_slots, derived, properties, List.forall_mem_cons, List.not_mem_nil,
      false_imp_iff, implies_true, and_true, true_and]
    and_intros <;> first
    | rfl
    | exact fun _ => rfl
  abbreviated := by simp [Derived.abbreviated, derived]
  abbreviated_remaining := by simp [derived]
  initial := by
    intro order
    simp only [Derived.forall_slots, derived, properties, List.forall_mem_cons, List.not_mem_nil,
      false_imp_iff, implies_true, and_true, true_and]
    exact ⟨Member.initial_field ⟨trivial, _, rfl⟩ (by decide),
      Property.initial_userProperty rfl⟩
  few := by decide
  ext := by
    intro order s s' hfixed hslots hrest
    simp only [Derived.forall_slots, derived, properties, List.forall_mem_cons, List.not_mem_nil,
      false_imp_iff, implies_true, and_true, true_and, Member.field_items_eq_iff,
      Property.userProperty_items_eq_iff] at hslots
    have hlast : s.topics = s'.topics := hrest _ rfl
    cases s
    cases s'
    simp_all

end Unsubscribe

/-! ## PUBLISH -/

namespace Publish

theorem table : Table properties where
  nodup := by decide
  apart := by
    simp only [properties, List.pairwise_cons, List.forall_mem_cons, List.not_mem_nil,
      false_imp_iff, implies_true, and_true, List.Pairwise.nil]
    and_intros <;> exact fun _ _ => ⟨fun _ => rfl, fun _ => rfl⟩

theorem optional : OptionalTail properties := by
  simp only [OptionalTail, properties, List.tail_cons, List.forall_mem_cons, List.not_mem_nil,
    false_imp_iff, implies_true, and_true]
  and_intros <;> rfl

theorem counted : ∀ p ∈ properties, p.counted = true := by
  simp only [properties, List.forall_mem_cons, List.not_mem_nil, false_imp_iff, implies_true,
    and_true]
  and_intros <;> rfl

/-- A packet of which the fields in front of the properties were read. -/
def begun (fixedHeader : FixedHeader) (topicName : String) (packetId : Option UInt16) : Publish :=
  { default with fixedHeader, topicName, packetId }

theorem initial (order : HashOrder) (fixedHeader : FixedHeader) (topicName : String)
    (packetId : Option UInt16) :
    ∀ p ∈ properties, p.member.Initial order (begun fixedHeader topicName packetId) := by
  simp only [properties, List.forall_mem_cons, List.not_mem_nil, false_imp_iff, implies_true,
    and_true]
  and_intros <;>
  first
  | exact Property.initial_option rfl
  | exact Property.initial_userProperty rfl
  | exact .inl rfl

/-- What no property touches. -/
theorem properties_frame {β : Type*} (f : FixedHeader → String → Option UInt16 → Option Bytes → β) :
    ∀ p ∈ properties, ∀ (s : Publish) (a : p.member.α),
      f (p.member.apply s a).fixedHeader (p.member.apply s a).topicName
        (p.member.apply s a).packetId (p.member.apply s a).payload =
      f s.fixedHeader s.topicName s.packetId s.payload := by
  simp only [properties, List.forall_mem_cons, List.not_mem_nil, false_imp_iff, implies_true,
    and_true]
  and_intros <;> exact fun _ _ => rfl

theorem items_setPayload (order : HashOrder) (s : Publish) (payload : Option Bytes) :
    ∀ p ∈ properties, p.member.items order { s with payload } = p.member.items order s := by
  simp only [properties, List.forall_mem_cons, List.not_mem_nil, false_imp_iff, implies_true,
    and_true]
  and_intros <;> rfl

theorem eq_of_items (order : HashOrder) {s s' : Publish} (hfixed : s.fixedHeader = s'.fixedHeader)
    (htopic : s.topicName = s'.topicName) (hid : s.packetId = s'.packetId)
    (hpayload : s.payload = s'.payload)
    (hitems : ∀ p ∈ properties, p.member.items order s = p.member.items order s') : s = s' := by
  simp only [properties, List.forall_mem_cons, List.not_mem_nil, false_imp_iff, implies_true,
    and_true, Property.option_items_eq_iff, Property.vec_items_eq_iff,
    Property.userProperty_items_eq_iff] at hitems
  cases s
  cases s'
  simp_all

end Publish

/-! ## CONNECT and the will -/

namespace WillHeader

theorem derived_exact : derived.Exact where
  header := by simp [derived]
  nonAbbreviated := by simp [derived]
  remaining := by simp [derived]

theorem lawful : derived.Lawful (fun _ => ()) .default where
  exact := derived_exact
  required := by simp [Derived.members, derived]
  optional := by
    simp only [OptionalTail, derived, properties, List.tail_cons, List.forall_mem_cons,
      List.not_mem_nil, false_imp_iff, implies_true, and_true]
    and_intros <;> rfl
  nodup := by decide
  apart := by
    simp only [Derived.slots, Derived.members, derived, properties, List.map_cons, List.map_nil,
      List.append_nil, List.nil_append, List.pairwise_cons, List.forall_mem_cons,
      List.not_mem_nil, false_imp_iff, implies_true, and_true, List.Pairwise.nil]
    and_intros <;> exact fun _ _ => ⟨fun _ => rfl, fun _ => rfl⟩
  counted := .inr rfl
  fixed_apply := fun _ _ _ _ => rfl
  set_remaining := by simp [derived]
  abbreviated := by simp [Derived.abbreviated, derived]
  abbreviated_remaining := by simp [derived]
  initial := by
    intro order
    simp only [Derived.forall_slots, derived, properties, List.forall_mem_cons, List.not_mem_nil,
      false_imp_iff, implies_true, and_true, true_and]
    and_intros <;>
    first
    | exact Property.initial_option rfl
    | exact Property.initial_userProperty rfl
    | exact .inl rfl
  few := by decide
  ext := by
    intro order s s' hfixed hslots hrest
    simp only [Derived.forall_slots, derived, properties, List.forall_mem_cons, List.not_mem_nil,
      false_imp_iff, implies_true, and_true, true_and, Property.option_items_eq_iff,
      Property.vec_items_eq_iff, Property.userProperty_items_eq_iff] at hslots
    cases s
    cases s'
    simp_all

end WillHeader

namespace Connect

/-- The fields and properties in front of the payload and the client identifier.  The
decoder is written by hand and reads the identifier behind the properties, but the
laws do not depend on the order. -/
def front : Derived Connect where
  header := header
  abbreviatedWhen := none
  nonAbbreviated := [clientIdMember]
  properties := properties
  remaining := none

/-- The rest of the payload, which the front does not touch. -/
def payloadPart (s : Connect) :
    FixedHeader × Option WillHeader × Bytes × Option String × String × Bytes :=
  (s.fixedHeader, s.willProperties, s.willPayload, s.willTopic, s.usernameField, s.passwordField)

theorem front_lawful : front.Lawful payloadPart (new "") where
  exact :=
    { header := by
        simp only [front, header, connectFlagsMember, List.forall_mem_cons, List.not_mem_nil,
          false_imp_iff, implies_true, and_true]
        and_intros <;> rfl
      nonAbbreviated := by
        simp only [front, clientIdMember, List.forall_mem_cons, List.not_mem_nil, false_imp_iff,
          implies_true, and_true]
        rfl
      remaining := by simp [front] }
  required := by
    simp only [Derived.members, front, header, connectFlagsMember, clientIdMember,
      List.cons_append, List.nil_append, List.forall_mem_cons, List.not_mem_nil, false_imp_iff,
      implies_true, and_true]
    and_intros <;> rfl
  optional := by
    simp only [OptionalTail, front, properties, List.tail_cons, List.forall_mem_cons,
      List.not_mem_nil, false_imp_iff, implies_true, and_true]
    and_intros <;> rfl
  nodup := by decide
  apart := by
    simp only [Derived.slots, Derived.members, front, header, connectFlagsMember, clientIdMember,
      properties, List.map_cons, List.map_nil, List.cons_append, List.nil_append,
      List.pairwise_cons, List.forall_mem_cons, List.not_mem_nil, false_imp_iff, implies_true,
      and_true, List.Pairwise.nil]
    and_intros <;> exact fun _ _ => ⟨fun _ => rfl, fun _ => rfl⟩
  counted := .inr rfl
  fixed_apply := by
    simp only [Derived.forall_slots, front, header, connectFlagsMember, clientIdMember, properties,
      List.forall_mem_cons, List.not_mem_nil, false_imp_iff, implies_true, and_true]
    and_intros <;> exact fun _ _ => rfl
  set_remaining := by simp [front]
  abbreviated := by simp [Derived.abbreviated, front]
  abbreviated_remaining := by simp [front]
  initial := by
    intro order
    simp only [Derived.forall_slots, front, header, connectFlagsMember, clientIdMember, properties,
      List.forall_mem_cons, List.not_mem_nil, false_imp_iff, implies_true, and_true]
    and_intros <;>
    first
    | exact Member.initial_field ⟨trivial, _, rfl⟩ (by decide)
    | exact Property.initial_option rfl
    | exact Property.initial_userProperty rfl
    | exact .inl rfl
  few := by decide
  ext := by
    intro order s s' hfixed hslots hrest
    simp only [Derived.forall_slots, front, header, connectFlagsMember, clientIdMember, properties,
      List.forall_mem_cons, List.not_mem_nil, false_imp_iff, implies_true, and_true,
      Member.field_items_eq_iff, Property.option_items_eq_iff, Property.vec_items_eq_iff,
      Property.userProperty_items_eq_iff] at hslots
    simp only [payloadPart, Prod.mk.injEq] at hfixed
    cases s
    cases s'
    simp_all

theorem counted : ∀ p ∈ properties, p.counted = true := by
  simp only [properties, List.forall_mem_cons, List.not_mem_nil, false_imp_iff, implies_true,
    and_true]
  and_intros <;> rfl

end Connect

end Mqtt
end Vaux
