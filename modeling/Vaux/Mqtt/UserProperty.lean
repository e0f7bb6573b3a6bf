import Vaux.Mqtt.Codec

/-!
# User properties

`UserProperty` of `property.rs`: a map from keys to lists of values, filled one
pair at a time.  The map is a `HashMap`, so the order in which it is written is
not determined by its contents; it is a parameter, `HashOrder`, and what is proved
about an encoder is proved for every order.

A pair is read by `UserProperty::decode`, which returns four more than the bytes
it read: the lengths it adds up already hold the two bytes in front of each string.
-/

namespace Vaux
namespace Mqtt

open Wire Decoder

/-- A key is in the map only with a value, since values are pushed one by one. -/
structure UserProperty where
  map : Finmap fun _ : String => List String
  values_ne_nil : ∀ {key : String} {values : List String},
    map.lookup key = some values → values ≠ []

namespace UserProperty

@[ext] theorem ext {u u' : UserProperty} (h : ∀ key, u.map.lookup key = u'.map.lookup key) :
    u = u' := by
  cases u
  cases u'
  congr
  exact Finmap.ext_lookup h

instance : DecidableEq UserProperty := fun u u' =>
  decidable_of_iff (u.map = u'.map) ⟨fun h => ext fun _ => by rw [h], fun h => by rw [h]⟩

def new : UserProperty where
  map := ∅
  values_ne_nil h := by simp at h

/-- `entry(key).or_default().push(value)`. -/
def add (self : UserProperty) (key value : String) : UserProperty where
  map := self.map.insert key ((self.map.lookup key).getD [] ++ [value])
  values_ne_nil {key' values} h := by
    by_cases hk : key' = key
    · subst hk
      rw [Finmap.lookup_insert] at h
      cases h
      simp
    · rw [Finmap.lookup_insert_of_ne _ hk] at h
      exact self.values_ne_nil h

theorem lookup_add_self (u : UserProperty) (key value : String) :
    (u.add key value).map.lookup key = some ((u.map.lookup key).getD [] ++ [value]) :=
  Finmap.lookup_insert _

theorem lookup_add_of_ne (u : UserProperty) {key key' : String} (value : String)
    (h : key' ≠ key) : (u.add key value).map.lookup key' = u.map.lookup key' :=
  Finmap.lookup_insert_of_ne _ h

end UserProperty

/-- An order in which the entries of a map are visited. -/
structure HashOrder where
  iter : UserProperty → List (String × List String)
  enumerates : ∀ u,
    (((iter u).map fun e => (⟨e.1, e.2⟩ : Sigma fun _ : String => List String)) : Multiset _) =
      u.map.entries

/-- The order of the keys. -/
def HashOrder.sorted : HashOrder where
  iter u := (u.map.keys.sort (· ≤ ·)).map fun key => (key, (u.map.lookup key).getD [])
  enumerates u := by
    rw [← Multiset.map_coe, ← Multiset.map_coe, Finset.sort_eq, Multiset.map_map]
    show Multiset.map _ (Multiset.map Sigma.fst u.map.entries) = _
    rw [Multiset.map_map]
    conv_rhs => rw [← Multiset.map_id u.map.entries]
    refine Multiset.map_congr rfl fun e he => ?_
    have hl : u.map.lookup e.1 = some e.2 := Finmap.mem_lookup_iff.mpr he
    simp [hl]

namespace UserProperty

variable (order : HashOrder)

/-- The pairs in the order they are written. -/
def pairs (u : UserProperty) : List (String × String) :=
  (order.iter u).flatMap fun e => e.2.map fun value => (e.1, value)

/-- The pair's two strings, with the byte count of `UserProperty::decode`. -/
def pairCodec : Codec (String × String) :=
  .seq .string .string (fun keyLen len => 2 + keyLen + 2 + len) 4 (by
    intro n m
    simp only [Codec.string]
    omega)

/-- `UserProperty::decode`: one pair, added to the map. -/
def decode (self : UserProperty) : Dec (UserProperty × Nat) := do
  let ((key, value), bytesRead) ← pairCodec.decode
  pure (self.add key value, bytesRead)

/-! ## The pairs of a map make the map -/

def addAll (u : UserProperty) (ps : List (String × String)) : UserProperty :=
  ps.foldl (fun u p => u.add p.1 p.2) u

theorem lookup_addAll_values (u : UserProperty) (key : String) (values : List String)
    (hv : values ≠ []) (key' : String) :
    (u.addAll (values.map fun value => (key, value))).map.lookup key' =
      if key' = key then some ((u.map.lookup key).getD [] ++ values) else u.map.lookup key' := by
  induction values generalizing u with
  | nil => exact absurd rfl hv
  | cons value values ih =>
      show ((u.add key value).addAll _).map.lookup key' = _
      cases values with
      | nil =>
          show (u.add key value).map.lookup key' = _
          by_cases hk : key' = key
          · rw [if_pos hk, hk, lookup_add_self]
          · rw [if_neg hk, lookup_add_of_ne _ _ hk]
      | cons v vs =>
          rw [ih (u.add key value) (by simp), lookup_add_self]
          by_cases hk : key' = key
          · rw [if_pos hk, if_pos hk]
            simp
          · rw [if_neg hk, if_neg hk, lookup_add_of_ne _ _ hk]

theorem lookup_addAll_entries (es : List (String × List String))
    (hnodup : (es.map Prod.fst).Nodup) (hne : ∀ e ∈ es, e.2 ≠ []) (u : UserProperty)
    (hfresh : ∀ e ∈ es, u.map.lookup e.1 = none) (key : String) :
    (u.addAll (es.flatMap fun e => e.2.map fun value => (e.1, value))).map.lookup key =
      ((es.find? fun e => e.1 == key).map Prod.snd).or (u.map.lookup key) := by
  induction es generalizing u with
  | nil => simp [addAll]
  | cons e es ih =>
      rw [List.flatMap_cons, addAll, List.foldl_append]
      rw [List.map_cons, List.nodup_cons] at hnodup
      have hlookup := lookup_addAll_values u e.1 e.2 (hne e (by simp))
      have hrest := ih hnodup.2 (fun e' he' => hne e' (by simp [he']))
        (u.addAll (e.2.map fun value => (e.1, value))) (by
          intro e' he'
          have hk : e'.1 ≠ e.1 := by
            intro heq
            exact hnodup.1 (heq ▸ List.mem_map_of_mem he')
          rw [hlookup, if_neg hk]
          exact hfresh e' (by simp [he']))
      refine hrest.trans ?_
      rw [hlookup, hfresh e (by simp), List.find?_cons]
      by_cases hk : key = e.1
      · -- the key is this entry's, so no later entry has it
        have hnone : (es.find? fun e' => e'.1 == key) = none := by
          rw [List.find?_eq_none]
          intro e' he' heq
          have : e'.1 = e.1 := by simpa [hk] using heq
          exact hnodup.1 (this ▸ List.mem_map_of_mem he')
        simp [hk ▸ hnone, hk]
      · have hne' : (e.1 == key) = false := by simpa using fun h => hk h.symm
        simp [hk, hne']

theorem mem_iter_iff (u : UserProperty) {e : String × List String} :
    e ∈ order.iter u ↔ u.map.lookup e.1 = some e.2 := by
  have h := order.enumerates u
  have hmem : e ∈ order.iter u ↔ (⟨e.1, e.2⟩ : Sigma fun _ : String => List String) ∈ u.map.entries := by
    rw [← h]
    simp only [Multiset.mem_coe, List.mem_map, Sigma.mk.injEq, heq_eq_eq]
    constructor
    · intro he
      exact ⟨e, he, rfl, rfl⟩
    · rintro ⟨e', he', h₁, h₂⟩
      rwa [← Prod.ext h₁ h₂]
  rw [hmem]
  exact Finmap.lookup_eq_some_iff.symm

theorem iter_nodup (u : UserProperty) : ((order.iter u).map Prod.fst).Nodup := by
  have h : ((order.iter u).map Prod.fst : Multiset String) = u.map.entries.keys := by
    rw [← order.enumerates u, Multiset.coe_keys, List.keys, List.map_map]
    rfl
  have hn : Multiset.Nodup ((order.iter u).map Prod.fst : Multiset String) := by
    rw [h]
    exact u.map.keys.nodup
  simpa using hn

/-- Adding the pairs of a map, in any order of its keys, makes the map. -/
theorem addAll_pairs (u : UserProperty) : new.addAll (u.pairs order) = u := by
  apply ext
  intro key
  rw [pairs, lookup_addAll_entries _ (iter_nodup order u)
    (fun e he => u.values_ne_nil ((mem_iter_iff order u).mp he)) _ (fun _ _ => rfl)]
  cases hfind : (order.iter u).find? fun e => e.1 == key with
  | none =>
      cases hl : u.map.lookup key with
      | none => rfl
      | some values =>
          have hmem : (key, values) ∈ order.iter u := (mem_iter_iff order u).mpr hl
          exact absurd (List.find?_eq_none.mp hfind _ hmem) (by simp)
  | some e =>
      have hmem := List.mem_of_find?_eq_some hfind
      have hkey : e.1 = key := by simpa using List.find?_some hfind
      rw [← hkey, (mem_iter_iff order u).mp hmem]
      rfl

theorem mem_pairs_iff (u : UserProperty) {p : String × String} :
    p ∈ u.pairs order ↔ ∃ values, u.map.lookup p.1 = some values ∧ p.2 ∈ values := by
  simp only [pairs, List.mem_flatMap, List.mem_map]
  constructor
  · rintro ⟨e, he, value, hv, rfl⟩
    exact ⟨e.2, (mem_iter_iff order u).mp he, hv⟩
  · rintro ⟨values, hl, hv⟩
    exact ⟨(p.1, values), (mem_iter_iff order u).mpr hl, p.2, hv, rfl⟩

theorem mem_pairs_add {u : UserProperty} {key value : String} {p : String × String}
    (h : p ∈ (u.add key value).pairs order) : p = (key, value) ∨ p ∈ u.pairs order := by
  obtain ⟨values, hl, hv⟩ := (mem_pairs_iff order _).mp h
  by_cases hk : p.1 = key
  · rw [hk, lookup_add_self] at hl
    cases hl
    rcases List.mem_append.mp hv with hv | hv
    · right
      cases hu : u.map.lookup key with
      | none => simp [hu] at hv
      | some vs =>
          rw [hu] at hv
          exact (mem_pairs_iff order u).mpr ⟨vs, by rw [hk, hu], hv⟩
    · left
      exact Prod.ext hk (by simpa using hv)
  · rw [lookup_add_of_ne _ _ hk] at hl
    exact .inr ((mem_pairs_iff order u).mpr ⟨values, hl, hv⟩)

@[simp] theorem pairs_new : new.pairs order = [] := by
  rw [List.eq_nil_iff_forall_not_mem]
  intro p hp
  obtain ⟨values, hl, -⟩ := (mem_pairs_iff order new).mp hp
  cases hl

/-- No pair is written for the empty map only. -/
theorem pairs_eq_nil_iff (u : UserProperty) : u.pairs order = [] ↔ u = new := by
  constructor
  · intro h
    have := addAll_pairs order u
    rw [h] at this
    exact this.symm
  · rintro rfl
    exact pairs_new order

/-! ## Sums over the pairs -/

/-- The sum of `f` over the pairs, which does not depend on the order. -/
def sum (f : String × String → Nat) (u : UserProperty) : Nat :=
  (u.map.entries.map fun e => (e.2.map fun value => f (e.1, value)).sum).sum

theorem sum_pairs (f : String × String → Nat) (u : UserProperty) :
    ((u.pairs order).map f).sum = u.sum f := by
  rw [sum, ← order.enumerates u, pairs]
  simp only [Multiset.map_coe, Multiset.sum_coe, List.map_map]
  induction order.iter u with
  | nil => rfl
  | cons e es ih =>
      rw [List.flatMap_cons, List.map_append, List.sum_append, ih, List.map_cons, List.sum_cons,
        List.map_map]
      rfl

theorem sum_add (f : String × String → Nat) (u : UserProperty) (key value : String) :
    (u.add key value).sum f = u.sum f + f (key, value) := by
  have hfresh : key ∉ u.map.erase key := Finmap.notMem_erase_self
  have hadd : (u.add key value).map =
      (u.map.erase key).insert key ((u.map.lookup key).getD [] ++ [value]) := by
    apply Finmap.ext_lookup
    intro key'
    by_cases hk : key' = key
    · rw [hk, lookup_add_self, Finmap.lookup_insert]
    · rw [lookup_add_of_ne _ _ hk, Finmap.lookup_insert_of_ne _ hk, Finmap.lookup_erase_ne hk]
  simp only [sum, hadd]
  rw [Finmap.entries_insert_of_notMem hfresh, Multiset.map_cons, Multiset.sum_cons]
  cases hl : u.map.lookup key with
  | none =>
      have herase : u.map.erase key = u.map := by
        apply Finmap.ext_lookup
        intro key'
        by_cases hk : key' = key
        · rw [hk, Finmap.lookup_erase, hl]
        · rw [Finmap.lookup_erase_ne hk]
      rw [herase]
      simp [Nat.add_comm]
  | some values =>
      have hu : u.map = (u.map.erase key).insert key values := by
        apply Finmap.ext_lookup
        intro key'
        by_cases hk : key' = key
        · rw [hk, hl, Finmap.lookup_insert]
        · rw [Finmap.lookup_insert_of_ne _ hk, Finmap.lookup_erase_ne hk]
      conv_rhs => rw [hu]
      rw [Finmap.entries_insert_of_notMem hfresh, Multiset.map_cons, Multiset.sum_cons]
      simp only [Option.getD_some, List.map_append, List.sum_append, List.map_cons, List.map_nil,
        List.sum_cons, List.sum_nil]
      omega

end UserProperty

end Mqtt
end Vaux
