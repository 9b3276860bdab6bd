import Mathlib.Data.Finset.Card
import Mathlib.Data.List.AList

/-!
# Unordered maps

A hash map is modelled by the list of its pairs in iteration order, without
repeated keys.  Nothing may depend on that order, so two maps count as equal when
they agree at every key (`Same`), as for the `==` of the standard containers.

`AList.insert` is the assignment `map[key] = value`, and `emplace` leaves the map
alone when the key exists.
-/

namespace Vosfs

/-- A hash map, listed in iteration order. -/
abbrev UnorderedMap (κ α : Type*) := AList fun _ : κ => α

namespace UnorderedMap

variable {κ α : Type*} [DecidableEq κ]

/-- Insert, unless the key exists. -/
def emplace (m : UnorderedMap κ α) (key : κ) (value : α) : UnorderedMap κ α :=
  if key ∈ m then m else m.insert key value

/-- The pairs, in iteration order. -/
def pairs (m : UnorderedMap κ α) : List (κ × α) :=
  m.entries.map fun entry => (entry.1, entry.2)

/-- The values, in iteration order. -/
def values (m : UnorderedMap κ α) : List α :=
  m.entries.map Sigma.snd

/-- Equality of the contents. -/
def Same (m m' : UnorderedMap κ α) : Prop :=
  ∀ key, m.lookup key = m'.lookup key

variable {m m' : UnorderedMap κ α} {key other : κ} {value value' : α}

theorem lookup_insert_eq (m : UnorderedMap κ α) (key other : κ) (value : α) :
    (m.insert key value).lookup other = if other = key then some value else m.lookup other := by
  split
  next heq => rw [heq, AList.lookup_insert]
  next hne => exact AList.lookup_insert_ne hne

theorem lookup_emplace (m : UnorderedMap κ α) (key other : κ) (value : α) :
    (m.emplace key value).lookup other =
      if other = key ∧ m.lookup key = none then some value else m.lookup other := by
  unfold emplace
  by_cases hmem : key ∈ m
  · have hsome : m.lookup key ≠ none := fun hnone => AList.lookup_eq_none.mp hnone hmem
    simp [hmem, hsome]
  · simp [hmem, AList.lookup_eq_none.mpr hmem, lookup_insert_eq]

theorem mem_emplace : other ∈ m.emplace key value ↔ other = key ∨ other ∈ m := by
  unfold emplace
  by_cases hmem : key ∈ m
  · rw [if_pos hmem]
    exact ⟨Or.inr, fun h => h.elim (fun heq => heq ▸ hmem) id⟩
  · rw [if_neg hmem, AList.mem_insert]

theorem mem_iff_lookup : key ∈ m ↔ ∃ value, m.lookup key = some value := by
  rw [← AList.lookup_isSome, Option.isSome_iff_exists]

/-- Assigning one value to many keys. -/
theorem lookup_foldl_insert (m : UnorderedMap κ α) (keys : List κ) (value : α) (other : κ) :
    (keys.foldl (fun m key => m.insert key value) m).lookup other =
      if other ∈ keys then some value else m.lookup other := by
  induction keys generalizing m with
  | nil => simp
  | cons key keys ih =>
    rw [List.foldl_cons, ih, lookup_insert_eq]
    by_cases hmem : other ∈ keys <;> simp [hmem]

/-- Emplacing many values: the first one with a key stays. -/
theorem lookup_foldl_emplace (keyOf : α → κ) (values : List α) (m : UnorderedMap κ α) (key : κ) :
    (values.foldl (fun m value => m.emplace (keyOf value) value) m).lookup key =
      (m.lookup key).or (values.find? fun value => keyOf value = key) := by
  induction values generalizing m with
  | nil => simp
  | cons value values ih =>
    rw [List.foldl_cons, ih, lookup_emplace, List.find?_cons]
    by_cases hkey : key = keyOf value
    · subst hkey
      cases hlookup : m.lookup (keyOf value) <;> simp
    · simp [hkey, Ne.symm hkey]

/-- Only from no values there comes an empty map. -/
theorem isEmpty_foldl_emplace (keyOf : α → κ) (values : List α) :
    (values.foldl (fun m value => m.emplace (keyOf value) value)
      (∅ : UnorderedMap κ α)).entries.isEmpty = values.isEmpty := by
  cases values with
  | nil => rfl
  | cons value values =>
    have hlookup := lookup_foldl_emplace keyOf (value :: values) ∅ (keyOf value)
    rw [AList.lookup_empty, Option.none_or, List.find?_cons_of_pos (by simp)] at hlookup
    have hmem := AList.mem_lookup_iff.mp (Option.mem_def.mpr hlookup)
    rw [List.isEmpty_cons, List.isEmpty_eq_false_iff_exists_mem]
    exact ⟨_, hmem⟩

theorem mem_values : value ∈ m.values ↔ ∃ key, m.lookup key = some value := by
  simp only [values, List.mem_map, ← Option.mem_def, AList.mem_lookup_iff]
  exact ⟨fun ⟨entry, hmem, heq⟩ => ⟨entry.1, heq ▸ hmem⟩, fun ⟨key, hmem⟩ =>
    ⟨⟨key, value⟩, hmem, rfl⟩⟩

theorem mem_pairs : (key, value) ∈ m.pairs ↔ m.lookup key = some value := by
  simp only [pairs, List.mem_map, ← Option.mem_def, AList.mem_lookup_iff, Prod.mk.injEq]
  constructor
  · rintro ⟨entry, hmem, rfl, rfl⟩
    exact hmem
  · exact fun hmem => ⟨⟨key, value⟩, hmem, rfl, rfl⟩

/-! ## Equal contents -/

theorem Same.refl (m : UnorderedMap κ α) : Same m m := fun _ => rfl

theorem Same.mem_iff (h : Same m m') : key ∈ m ↔ key ∈ m' := by
  rw [mem_iff_lookup, mem_iff_lookup, h key]

theorem Same.insert (h : Same m m') (key : κ) (value : α) :
    Same (m.insert key value) (m'.insert key value) := by
  intro other
  rw [lookup_insert_eq, lookup_insert_eq, h other]

theorem Same.emplace (h : Same m m') (key : κ) (value : α) :
    Same (m.emplace key value) (m'.emplace key value) := by
  intro other
  rw [lookup_emplace, lookup_emplace, h other, h key]

/-! ## Values that carry their keys -/

/-- Every value is stored at its own key. -/
def Keyed (keyOf : α → κ) (m : UnorderedMap κ α) : Prop :=
  ∀ ⦃key value⦄, m.lookup key = some value → keyOf value = key

variable {keyOf : α → κ}

theorem keyed_empty : Keyed keyOf (∅ : UnorderedMap κ α) := by
  intro key value hlookup
  rw [AList.lookup_empty] at hlookup
  cases hlookup

theorem Keyed.insert (h : Keyed keyOf m) (hkey : keyOf value = key) :
    Keyed keyOf (m.insert key value) := by
  intro other found hlookup
  rw [lookup_insert_eq] at hlookup
  split_ifs at hlookup with heq
  · cases hlookup
    rw [heq, hkey]
  · exact h hlookup

theorem Keyed.emplace (h : Keyed keyOf m) (hkey : keyOf value = key) :
    Keyed keyOf (m.emplace key value) := by
  unfold UnorderedMap.emplace
  split
  next => exact h
  next => exact h.insert hkey

theorem Keyed.congr (h : Keyed keyOf m) (hsame : Same m' m) : Keyed keyOf m' := by
  intro key value hlookup
  exact h (hsame key ▸ hlookup)

theorem find?_values (h : Keyed keyOf m) (key : κ) :
    m.values.find? (fun value => keyOf value = key) = m.lookup key := by
  cases hfind : m.values.find? (fun value => keyOf value = key) with
  | none =>
    symm
    rw [List.find?_eq_none] at hfind
    refine Option.eq_none_iff_forall_ne_some.mpr fun value hlookup => ?_
    exact hfind value (mem_values.mpr ⟨key, hlookup⟩) (by simpa using h hlookup)
  | some value =>
    obtain ⟨other, hlookup⟩ := mem_values.mp (List.mem_of_find?_eq_some hfind)
    have hkey : keyOf value = key := by simpa using List.find?_some hfind
    rw [← hkey, h hlookup, hlookup]

theorem Keyed.map_values (h : Keyed keyOf m) : m.values.map keyOf = m.keys := by
  rw [values, List.map_map]
  refine List.map_congr_left fun entry hentry => ?_
  exact h (AList.mem_lookup_iff.mpr hentry)

theorem Keyed.lookup_of_mem (h : Keyed keyOf m) (hmem : value ∈ m.values) :
    m.lookup (keyOf value) = some value := by
  obtain ⟨key, hlookup⟩ := mem_values.mp hmem
  rwa [h hlookup]

/-- Taking the values out and putting them in again. -/
theorem same_foldl_emplace (h : Keyed keyOf m) :
    Same (m.values.foldl (fun m value => m.emplace (keyOf value) value) ∅) m := by
  intro key
  rw [lookup_foldl_emplace, AList.lookup_empty, Option.none_or, find?_values h]

/-! ## Values after a change -/

theorem values_insert (m : UnorderedMap κ α) (key : κ) (value : α) :
    values (m.insert key value) = value :: values (m.erase key) := by
  rw [values, AList.entries_insert]
  rfl

/-- The value at a key, and the others. -/
theorem perm_values (hlookup : m.lookup key = some value) :
    m.values.Perm (value :: values (m.erase key)) := by
  have hmem : (⟨key, value⟩ : Sigma fun _ => α) ∈ m.entries := AList.mem_lookup_iff.mp hlookup
  obtain ⟨other, before, after, hbefore, hsplit, herase⟩ :=
    List.exists_of_kerase (List.mem_keys_of_mem hmem)
  obtain rfl : other = value := by
    have hother : m.lookup key = some other :=
      AList.mem_lookup_iff.mpr (hsplit ▸ List.mem_append_right _ List.mem_cons_self)
    exact Option.some.inj (hother.symm.trans hlookup)
  have hvalues : values (m.erase key) = (before ++ after).map Sigma.snd := congrArg _ herase
  rw [hvalues, values, hsplit, List.map_append, List.map_cons, List.map_append]
  exact List.perm_middle

/-- A value is overwritten. -/
theorem countP_values_insert (hlookup : m.lookup key = some value) (value' : α) (p : α → Bool) :
    (values (m.insert key value')).countP p + [value].countP p =
      m.values.countP p + [value'].countP p := by
  rw [values_insert, (perm_values hlookup).countP_eq]
  simp only [List.countP_cons, List.countP_nil]
  omega

theorem length_values_insert (hlookup : m.lookup key = some value) (value' : α) :
    (values (m.insert key value')).length = m.values.length := by
  rw [values_insert, (perm_values hlookup).length_eq, List.length_cons, List.length_cons]

/-- Emplacing one value at many keys. -/
theorem lookup_foldl_emplace_const (keys : List κ) (m : UnorderedMap κ α) (value : α) (key : κ) :
    (keys.foldl (fun m key => m.emplace key value) m).lookup key =
      (m.lookup key).or (if key ∈ keys then some value else none) := by
  induction keys generalizing m with
  | nil => simp
  | cons other keys ih =>
    rw [List.foldl_cons, ih, lookup_emplace]
    by_cases hkey : key = other
    · subst hkey
      cases hlookup : m.lookup key <;> simp
    · simp [hkey]

/-! ## Counting values by keys -/

/-- The values that satisfy `p` are as many as the keys they stand at. -/
theorem countP_values (m : UnorderedMap κ α) (p : α → Bool) :
    m.values.countP p =
      (m.keys.toFinset.filter fun key => (m.lookup key).any p).card := by
  have hnodup : (m.entries.filter fun entry => p entry.2).keys.Nodup := by
    refine List.Nodup.sublist ?_ m.nodupKeys
    exact (List.filter_sublist).map _
  have hset : (m.keys.toFinset.filter fun key => (m.lookup key).any p) =
      (m.entries.filter fun entry => p entry.2).keys.toFinset := by
    ext key
    simp only [Finset.mem_filter, List.mem_toFinset, List.mem_keys,
      List.mem_filter, Option.any_eq_true]
    constructor
    · rintro ⟨_, value, hvalue, hp⟩
      exact ⟨value, AList.mem_lookup_iff.mp hvalue, hp⟩
    · rintro ⟨value, hmem, hp⟩
      have hlookup : m.lookup key = some value := AList.mem_lookup_iff.mpr hmem
      exact ⟨mem_iff_lookup.mpr ⟨value, hlookup⟩, value, hlookup, hp⟩
  rw [hset, List.toFinset_card_of_nodup hnodup, values, List.countP_map, List.countP_eq_length_filter,
    List.keys, List.length_map]
  rfl

theorem Same.countP_values (h : Same m m') (p : α → Bool) :
    m.values.countP p = m'.values.countP p := by
  have hkeys : m.keys.toFinset = m'.keys.toFinset := by
    ext key
    rw [List.mem_toFinset, List.mem_toFinset, ← AList.mem_keys, ← AList.mem_keys, h.mem_iff]
  rw [UnorderedMap.countP_values, UnorderedMap.countP_values, hkeys]
  simp only [h _]

theorem Same.length_values (h : Same m m') : m.values.length = m'.values.length := by
  have hcount := h.countP_values fun _ => true
  rwa [List.countP_true] at hcount

theorem length_values (m : UnorderedMap κ α) : m.values.length = m.keys.toFinset.card := by
  rw [List.toFinset_card_of_nodup m.keys_nodup, values, AList.keys, List.keys, List.length_map,
    List.length_map]

end UnorderedMap

end Vosfs
