/-
Unions of ordered maps: associative, with the empty map as unit, and commutative on maps without a common key. Keys:
which keys an operation leaves, and maps with the same keys list them alike. Changing the values of a map commutes with
every way of building one, and so does changing its keys, if different keys stay different.
-/
import EffectTyping.OrderedMap

namespace EffectTyping.OrderedMap

variable {κ ν : Type} [Ord κ]

/-- No key has a value in both maps. -/
def Disjoint (m n : OrderedMap κ ν) : Prop := ∀ k, m.get? k = none ∨ n.get? k = none

theorem empty_disjoint (m : OrderedMap κ ν) : Disjoint .empty m := fun _ => .inl rfl

theorem disjoint_comm {m n : OrderedMap κ ν} : m.Disjoint n ↔ n.Disjoint m :=
  ⟨fun h k => (h k).symm, fun h k => (h k).symm⟩

variable [Std.TransOrd κ] [Std.LawfulEqOrd κ]

@[simp] theorem empty_union (m : OrderedMap κ ν) : union .empty m = m :=
  ext fun k => by rw [get?_union, get?_empty, Option.none_or]

@[simp] theorem union_empty (m : OrderedMap κ ν) : union m .empty = m :=
  ext fun k => by rw [get?_union, get?_empty, Option.or_none]

theorem union_assoc (m n o : OrderedMap κ ν) : (m.union n).union o = m.union (n.union o) :=
  ext fun k => by rw [get?_union, get?_union, get?_union, get?_union, Option.or_assoc]

theorem Disjoint.union_comm {m n : OrderedMap κ ν} (h : m.Disjoint n) : m.union n = n.union m := by
  refine ext fun k => ?_
  rw [get?_union, get?_union]
  rcases h k with hk | hk <;> simp [hk]

theorem union_eq_none_iff {m n : OrderedMap κ ν} {k : κ} :
    (m.union n).get? k = none ↔ m.get? k = none ∧ n.get? k = none := by
  rw [get?_union, Option.or_eq_none_iff]

theorem disjoint_union_left_iff {m n o : OrderedMap κ ν} :
    (m.union n).Disjoint o ↔ m.Disjoint o ∧ n.Disjoint o := by
  unfold Disjoint
  simp only [union_eq_none_iff]
  constructor
  · intro h
    refine ⟨fun k => ?_, fun k => ?_⟩
    · exact (h k).imp_left And.left
    · exact (h k).imp_left And.right
  · rintro ⟨hm, hn⟩ k
    rcases hm k with hk | hk
    · exact (hn k).imp_left fun hk' => ⟨hk, hk'⟩
    · exact .inr hk

theorem disjoint_union_right_iff {m n o : OrderedMap κ ν} :
    m.Disjoint (n.union o) ↔ m.Disjoint n ∧ m.Disjoint o := by
  rw [disjoint_comm, disjoint_union_left_iff, disjoint_comm (m := n), disjoint_comm (m := o)]

/-! ## Keys -/

theorem contains_insert {m : OrderedMap κ ν} {k j : κ} {v : ν} :
    (m.insert k v).contains j = true ↔ j = k ∨ m.contains j = true := by
  classical
  rw [contains, contains, get?_insert]
  split <;> simp_all

theorem contains_insertMany {m : OrderedMap κ ν} {l : List (κ × ν)} {k : κ} :
    (m.insertMany l).contains k = true ↔ m.contains k = true ∨ k ∈ l.map (·.1) := by
  induction l generalizing m with
  | nil => simp [insertMany]
  | cons e l ih =>
    rw [insertMany, List.foldl_cons, ← insertMany, ih, contains_insert, List.map_cons, List.mem_cons, or_assoc,
      or_left_comm]

theorem contains_ofList {l : List (κ × ν)} {k : κ} : (ofList l).contains k = true ↔ k ∈ l.map (·.1) := by
  rw [ofList, contains_insertMany]
  simp [contains]

/-- Where no key is repeated, the map of a list has the entries of the list. -/
theorem get?_ofList {l : List (κ × ν)} (h : (l.map (·.1)).Nodup) {k : κ} {v : ν} :
    (ofList l).get? k = some v ↔ (k, v) ∈ l := by
  have hfound : ∀ {w : ν}, (k, w) ∈ l → (ofList l).get? k = some w := by
    intro w hmem
    obtain ⟨before, after, rfl⟩ := List.append_of_mem hmem
    rw [List.map_append, List.map_cons, List.nodup_append, List.nodup_cons] at h
    exact get?_insertMany_append .empty before after k w fun e he heq => h.2.1.1 (List.mem_map.2 ⟨e, he, heq⟩)
  refine ⟨fun hget => ?_, hfound⟩
  have hkey := contains_ofList.1 (show (ofList l).contains k = true by rw [contains, hget]; rfl)
  obtain ⟨e, he, rfl⟩ := List.mem_map.1 hkey
  rw [hfound he, Option.some.injEq] at hget
  rw [← hget]; exact he

theorem contains_union {m n : OrderedMap κ ν} {k : κ} :
    (m.union n).contains k = true ↔ m.contains k = true ∨ n.contains k = true := by
  rw [contains, contains, contains, get?_union, Option.isSome_or, Bool.or_eq_true]

theorem contains_singleton {k j : κ} {v : ν} : (singleton k v).contains j = true ↔ j = k := by
  rw [singleton, contains_insert]
  simp [contains]

omit [Std.TransOrd κ] [Std.LawfulEqOrd κ] in
theorem get?_eq_none_of_not_contains {m : OrderedMap κ ν} {k : κ} (h : ¬ m.contains k = true) : m.get? k = none := by
  rwa [contains, Option.not_isSome_iff_eq_none] at h

theorem mem_keys {m : OrderedMap κ ν} {k : κ} : k ∈ m.keys ↔ m.contains k = true := by
  rw [contains, Option.isSome_iff_exists, keys, List.mem_map]
  constructor
  · rintro ⟨e, he, rfl⟩; exact ⟨e.2, mem_toList.1 he⟩
  · rintro ⟨v, hv⟩; exact ⟨(k, v), mem_toList.2 hv, rfl⟩

omit [Std.TransOrd κ] [Std.LawfulEqOrd κ] in
theorem keys_mapValues {μ : Type} (f : ν → μ) (m : OrderedMap κ ν) : (m.mapValues f).keys = m.keys := by
  rw [keys, keys, mapValues, List.map_map]; rfl

/-- Maps with the same keys, whatever their values, list them alike. -/
theorem keys_eq_of_contains_iff {μ : Type} {m : OrderedMap κ ν} {n : OrderedMap κ μ}
    (h : ∀ k, m.contains k = true ↔ n.contains k = true) : m.keys = n.keys := by
  -- a map without values is determined by its keys
  have hunit : m.mapValues (fun _ => ()) = n.mapValues fun _ => () := by
    refine ext fun k => ?_
    have hk := h k
    rw [get?_mapValues, get?_mapValues]
    rw [contains, contains] at hk
    cases hm : m.get? k <;> cases hn : n.get? k <;> simp_all
  rw [← keys_mapValues (fun _ => ()) m, hunit, keys_mapValues]

omit [Std.TransOrd κ] in
theorem nodup_keys (m : OrderedMap κ ν) : m.keys.Nodup := by
  rw [keys, List.Nodup, List.pairwise_map]
  refine m.sorted.imp fun {a b} hlt heq => ?_
  rw [heq, Std.compare_self] at hlt; cases hlt

/-! ## Changed values -/

section Values

variable {μ : Type} (f : ν → μ)

theorem mapValues_insert (m : OrderedMap κ ν) (k : κ) (v : ν) :
    (m.insert k v).mapValues f = (m.mapValues f).insert k (f v) := by
  classical
  refine ext fun j => ?_
  rw [get?_mapValues, get?_insert, get?_insert, get?_mapValues]
  split <;> rfl

theorem mapValues_singleton (k : κ) (v : ν) : (singleton k v).mapValues f = singleton k (f v) :=
  mapValues_insert f .empty k v

theorem mapValues_union (m n : OrderedMap κ ν) : (m.union n).mapValues f = (m.mapValues f).union (n.mapValues f) :=
  ext fun k => by rw [get?_mapValues, get?_union, get?_union, get?_mapValues, get?_mapValues, Option.map_or]

omit [Std.TransOrd κ] [Std.LawfulEqOrd κ] in
theorem contains_mapValues (m : OrderedMap κ ν) (k : κ) : (m.mapValues f).contains k = m.contains k := by
  rw [contains, contains, get?_mapValues, Option.isSome_map]

omit [Std.TransOrd κ] [Std.LawfulEqOrd κ] in
theorem Disjoint.mapValues {m n : OrderedMap κ ν} (h : m.Disjoint n) : (m.mapValues f).Disjoint (n.mapValues f) := by
  intro k
  rw [get?_mapValues, get?_mapValues]
  rcases h k with hk | hk
  · exact .inl (by rw [hk]; rfl)
  · exact .inr (by rw [hk]; rfl)

end Values

/-- A map is the map of its entries. -/
theorem ofList_toList (m : OrderedMap κ ν) : ofList m.toList = m := by
  refine ext fun k => Option.ext fun v => ?_
  exact (get?_ofList m.nodup_keys).trans mem_toList

/-! ## Changed keys -/

section Keys

variable {ι : Type} [Ord ι] [Std.TransOrd ι] [Std.LawfulEqOrd ι]

/-- The map with `f` applied to every key. -/
def mapKeys (f : κ → ι) (m : OrderedMap κ ν) : OrderedMap ι ν := ofList (m.toList.map fun e => (f e.1, e.2))

variable {f : κ → ι} (hf : Function.Injective f)
include hf

theorem get?_mapKeys_eq_some_iff {m : OrderedMap κ ν} {i : ι} {v : ν} :
    (m.mapKeys f).get? i = some v ↔ ∃ k, f k = i ∧ m.get? k = some v := by
  have hnodup : ((m.toList.map fun e => (f e.1, e.2)).map (·.1)).Nodup := by
    rw [List.map_map, List.Nodup, List.pairwise_map]
    refine (List.pairwise_map.1 m.nodup_keys).imp fun {a b} hne heq => ?_
    exact hne (hf heq)
  rw [mapKeys, get?_ofList hnodup, List.mem_map]
  constructor
  · rintro ⟨e, he, heq⟩
    cases heq
    exact ⟨e.1, rfl, mem_toList.1 he⟩
  · rintro ⟨k, rfl, hk⟩
    exact ⟨(k, v), mem_toList.2 hk, rfl⟩

/-- A map whose look-ups are those of `m` at the new keys and that has no other keys is `m` with its keys changed. -/
theorem eq_mapKeys {m : OrderedMap κ ν} {n : OrderedMap ι ν} (h : ∀ k, n.get? (f k) = m.get? k)
    (hother : ∀ i, (∀ k, f k ≠ i) → n.get? i = none) : n = m.mapKeys f := by
  refine ext fun i => Option.ext fun v => ?_
  rw [get?_mapKeys_eq_some_iff hf]
  constructor
  · intro hv
    by_cases hi : ∃ k, f k = i
    · obtain ⟨k, rfl⟩ := hi
      exact ⟨k, rfl, (h k).symm.trans hv⟩
    · rw [hother i (not_exists.1 hi)] at hv; cases hv
  · rintro ⟨k, rfl, hk⟩
    rw [h k, hk]

theorem get?_mapKeys (m : OrderedMap κ ν) (k : κ) : (m.mapKeys f).get? (f k) = m.get? k := by
  refine Option.ext fun v => ?_
  rw [get?_mapKeys_eq_some_iff hf]
  constructor
  · rintro ⟨j, hj, hv⟩
    rw [← hf hj]; exact hv
  · intro hv
    exact ⟨k, rfl, hv⟩

theorem get?_mapKeys_other (m : OrderedMap κ ν) {i : ι} (hi : ∀ k, f k ≠ i) : (m.mapKeys f).get? i = none := by
  refine Option.eq_none_iff_forall_ne_some.2 fun v hv => ?_
  obtain ⟨k, hk, -⟩ := (get?_mapKeys_eq_some_iff hf).1 hv
  exact hi k hk

theorem mapKeys_insert (m : OrderedMap κ ν) (k : κ) (v : ν) :
    (m.mapKeys f).insert (f k) v = (m.insert k v).mapKeys f := by
  classical
  refine eq_mapKeys hf (fun j => ?_) fun i hi => ?_
  · rw [get?_insert, get?_insert, get?_mapKeys hf]
    by_cases hj : j = k
    · rw [if_pos hj, if_pos (by rw [hj])]
    · rw [if_neg hj, if_neg fun heq => hj (hf heq)]
  · rw [get?_insert, if_neg fun heq => hi k heq.symm, get?_mapKeys_other hf m hi]

theorem mapKeys_singleton (k : κ) (v : ν) : singleton (f k) v = (singleton k v).mapKeys f := mapKeys_insert hf .empty k v

theorem mapKeys_union (m n : OrderedMap κ ν) : (m.mapKeys f).union (n.mapKeys f) = (m.union n).mapKeys f := by
  refine eq_mapKeys hf (fun k => ?_) fun i hi => ?_
  · rw [get?_union, get?_union, get?_mapKeys hf, get?_mapKeys hf]
  · rw [get?_union, get?_mapKeys_other hf m hi, get?_mapKeys_other hf n hi]; rfl

theorem disjoint_mapKeys_iff {m n : OrderedMap κ ν} : (m.mapKeys f).Disjoint (n.mapKeys f) ↔ m.Disjoint n := by
  constructor
  · intro h k
    rw [← get?_mapKeys hf m, ← get?_mapKeys hf n]; exact h (f k)
  · intro h i
    by_cases hi : ∃ k, f k = i
    · obtain ⟨k, rfl⟩ := hi
      rw [get?_mapKeys hf, get?_mapKeys hf]; exact h k
    · exact .inl (get?_mapKeys_other hf m (not_exists.1 hi))

end Keys

end EffectTyping.OrderedMap
