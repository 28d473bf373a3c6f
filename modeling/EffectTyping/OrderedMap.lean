/-
Finite maps with ascending keys: a list of entries in strictly ascending key order, the order carried as a
proof. A map is determined by its look-ups (`ext`), and every operation comes with one equation on `get?`.
-/

namespace EffectTyping

/-- A finite map from `κ` to `ν`, its entries in strictly ascending order of keys. -/
structure OrderedMap (κ ν : Type) [Ord κ] where
  entries : List (κ × ν)
  sorted : entries.Pairwise (fun a b => compare a.1 b.1 = .lt)

namespace OrderedMap

variable {κ ν μ : Type} [Ord κ]

/-! ## Entry lists -/

/-- The value of the first entry with key `k`. -/
def find (k : κ) : List (κ × ν) → Option ν
  | [] => none
  | (k', v) :: rest => if compare k k' = .eq then some v else find k rest

/-- Puts `k ↦ v` at its place, replacing an entry of the same key. -/
def place (k : κ) (v : ν) : List (κ × ν) → List (κ × ν)
  | [] => [(k, v)]
  | (k', v') :: rest =>
    match compare k k' with
    | .lt => (k, v) :: (k', v') :: rest
    | .eq => (k, v) :: rest
    | .gt => (k', v') :: place k v rest

theorem mem_place {k : κ} {v : ν} {l : List (κ × ν)} {e : κ × ν} (h : e ∈ place k v l) :
    e = (k, v) ∨ e ∈ l := by
  induction l with
  | nil => simpa [place] using h
  | cons a rest ih =>
    obtain ⟨k', v'⟩ := a
    simp only [place] at h
    split at h
    · simpa using h
    · rcases List.mem_cons.mp h with h | h
      · exact .inl h
      · exact .inr (List.mem_cons_of_mem _ h)
    · rcases List.mem_cons.mp h with h | h
      · exact .inr (h ▸ List.mem_cons_self)
      · rcases ih h with h | h
        · exact .inl h
        · exact .inr (List.mem_cons_of_mem _ h)

theorem sorted_place [Std.TransOrd κ] [Std.LawfulEqOrd κ] (k : κ) (v : ν) {l : List (κ × ν)}
    (h : l.Pairwise (fun a b => compare a.1 b.1 = .lt)) :
    (place k v l).Pairwise (fun a b => compare a.1 b.1 = .lt) := by
  induction l with
  | nil => simp [place]
  | cons a rest ih =>
    obtain ⟨k', v'⟩ := a
    rw [List.pairwise_cons] at h
    simp only [place]
    split
    · rename_i hlt
      rw [List.pairwise_cons, List.pairwise_cons]
      refine ⟨?_, h⟩
      intro e he
      rcases List.mem_cons.mp he with rfl | he
      · exact hlt
      · exact Std.TransCmp.lt_trans hlt (h.1 e he)
    · rename_i heq
      rw [Std.compare_eq_iff_eq] at heq
      subst heq
      exact List.pairwise_cons.mpr h
    · rename_i hgt
      rw [List.pairwise_cons]
      refine ⟨?_, ih h.2⟩
      intro e he
      rcases mem_place he with rfl | he
      · exact Std.OrientedCmp.gt_iff_lt.mp hgt
      · exact h.1 e he

theorem find_place [Std.TransOrd κ] [Std.LawfulEqOrd κ] [DecidableEq κ] (k j : κ) (v : ν)
    (l : List (κ × ν)) : find j (place k v l) = if j = k then some v else find j l := by
  induction l with
  | nil => simp [place, find]
  | cons a rest ih =>
    obtain ⟨k', v'⟩ := a
    simp only [place]
    split
    · simp [find]
    · rename_i heq
      rw [Std.compare_eq_iff_eq] at heq
      subst heq
      by_cases hj : j = k <;> simp [find, hj]
    · rename_i hgt
      by_cases hj : j = k'
      · subst hj
        have : j ≠ k := fun e => by simp [e] at hgt
        simp [find, this]
      · simp [find, hj, ih]

theorem find_eq_some_iff [Std.TransOrd κ] [Std.LawfulEqOrd κ] {k : κ} {v : ν} {l : List (κ × ν)}
    (h : l.Pairwise (fun a b => compare a.1 b.1 = .lt)) : find k l = some v ↔ (k, v) ∈ l := by
  induction l with
  | nil => simp [find]
  | cons a rest ih =>
    obtain ⟨k', v'⟩ := a
    rw [List.pairwise_cons] at h
    simp only [find, List.mem_cons, Prod.mk.injEq]
    split
    · rename_i heq
      rw [Std.compare_eq_iff_eq] at heq
      subst heq
      constructor
      · intro e
        exact .inl ⟨rfl, (Option.some.inj e).symm⟩
      · rintro (⟨-, rfl⟩ | hm)
        · rfl
        · simpa using h.1 _ hm
    · rename_i hne
      rw [Std.compare_eq_iff_eq] at hne
      rw [ih h.2]
      simp [hne]

/-! ## Maps -/

/-- The value at `k`. -/
def get? (m : OrderedMap κ ν) (k : κ) : Option ν := find k m.entries

/-- Is `k` a key? -/
def contains (m : OrderedMap κ ν) (k : κ) : Bool := (m.get? k).isSome

/-- The map without entries. -/
def empty : OrderedMap κ ν := ⟨[], .nil⟩

instance : EmptyCollection (OrderedMap κ ν) := ⟨empty⟩

instance : Inhabited (OrderedMap κ ν) := ⟨empty⟩

instance [DecidableEq κ] [DecidableEq ν] : DecidableEq (OrderedMap κ ν) := fun a b =>
  if h : a.entries = b.entries then isTrue (by cases a; cases b; simpa using h)
  else isFalse (fun e => h (e ▸ rfl))

/-- The entries in ascending order of keys. -/
def toList (m : OrderedMap κ ν) : List (κ × ν) := m.entries

def keys (m : OrderedMap κ ν) : List κ := m.entries.map (·.1)

def size (m : OrderedMap κ ν) : Nat := m.entries.length

def isEmpty (m : OrderedMap κ ν) : Bool := m.entries.isEmpty

/-- Applies `f` to every value. -/
def mapValues (f : ν → μ) (m : OrderedMap κ ν) : OrderedMap κ μ where
  entries := m.entries.map (fun e => (e.1, f e.2))
  sorted := by simpa [List.pairwise_map] using m.sorted

variable [Std.TransOrd κ] [Std.LawfulEqOrd κ]

/-- Sets the value at `k`, replacing an earlier one. -/
def insert (m : OrderedMap κ ν) (k : κ) (v : ν) : OrderedMap κ ν :=
  ⟨place k v m.entries, sorted_place k v m.sorted⟩

/-- The map with the one entry `k ↦ v`. -/
def singleton (k : κ) (v : ν) : OrderedMap κ ν := empty.insert k v

/-- Inserts the entries in order: of two with the same key the later one counts. -/
def insertMany (m : OrderedMap κ ν) (l : List (κ × ν)) : OrderedMap κ ν :=
  l.foldl (fun m e => m.insert e.1 e.2) m

/-- The map of a list of entries; of two with the same key the later one counts. -/
def ofList (l : List (κ × ν)) : OrderedMap κ ν := empty.insertMany l

/-- Both maps together; where both have a value, the first map's counts. -/
def union (m n : OrderedMap κ ν) : OrderedMap κ ν := n.insertMany m.entries

/-! ## Look-ups -/

theorem mem_toList {m : OrderedMap κ ν} {k : κ} {v : ν} : (k, v) ∈ m.toList ↔ m.get? k = some v :=
  (find_eq_some_iff m.sorted).symm

omit [Std.TransOrd κ] [Std.LawfulEqOrd κ] in
@[simp] theorem get?_empty (k : κ) : (empty : OrderedMap κ ν).get? k = none := rfl

theorem get?_insert [DecidableEq κ] (m : OrderedMap κ ν) (k j : κ) (v : ν) :
    (m.insert k v).get? j = if j = k then some v else m.get? j :=
  find_place k j v m.entries

theorem get?_singleton [DecidableEq κ] (k j : κ) (v : ν) :
    (singleton k v).get? j = if j = k then some v else none := by
  rw [singleton, get?_insert, get?_empty]

omit [Std.TransOrd κ] [Std.LawfulEqOrd κ] in
@[simp] theorem get?_mapValues (f : ν → μ) (m : OrderedMap κ ν) (k : κ) :
    (m.mapValues f).get? k = (m.get? k).map f := by
  show find k (m.entries.map fun e => (e.1, f e.2)) = (find k m.entries).map f
  generalize m.entries = l
  induction l with
  | nil => rfl
  | cons a rest ih =>
    obtain ⟨k', v'⟩ := a
    simp only [List.map_cons, find]
    split <;> simp [ih]

theorem get?_insertMany_of_not_mem (m : OrderedMap κ ν) (l : List (κ × ν)) (k : κ)
    (h : ∀ e ∈ l, e.1 ≠ k) : (m.insertMany l).get? k = m.get? k := by
  classical
  induction l generalizing m with
  | nil => rfl
  | cons a rest ih =>
    rw [insertMany, List.foldl_cons]
    have := ih (m.insert a.1 a.2) (fun e he => h e (List.mem_cons_of_mem _ he))
    rw [insertMany] at this
    rw [this, get?_insert, if_neg (fun e => h a List.mem_cons_self e.symm)]

/-- The later of two entries with the same key counts: an entry no later entry overrides is the value. -/
theorem get?_insertMany_append (m : OrderedMap κ ν) (l r : List (κ × ν)) (k : κ) (v : ν)
    (h : ∀ e ∈ r, e.1 ≠ k) : (m.insertMany (l ++ (k, v) :: r)).get? k = some v := by
  classical
  rw [insertMany, List.foldl_append, List.foldl_cons]
  have := get?_insertMany_of_not_mem ((m.insertMany l).insert k v) r k h
  rw [insertMany] at this
  rw [insertMany] at this
  rw [this, get?_insert, if_pos rfl]

theorem get?_union (m n : OrderedMap κ ν) (k : κ) : (m.union n).get? k = (m.get? k).or (n.get? k) := by
  rcases hk : m.get? k with _ | v
  · rw [union, get?_insertMany_of_not_mem]
    · rfl
    · intro e he heq
      subst heq
      rw [mem_toList.mp (show (e.1, e.2) ∈ m.toList from he)] at hk
      cases hk
  · obtain ⟨l, r, hlr⟩ := List.append_of_mem (mem_toList.mpr hk)
    rw [toList] at hlr
    have hs := m.sorted
    rw [union, hlr, get?_insertMany_append]
    · rfl
    · intro e he heq
      rw [hlr, List.pairwise_append, List.pairwise_cons] at hs
      have := hs.2.1.1 e he
      rw [heq] at this
      simp at this

/-- Maps with the same look-ups are equal. -/
theorem ext {m n : OrderedMap κ ν} (h : ∀ k, m.get? k = n.get? k) : m = n := by
  have key : ∀ {l r : List (κ × ν)}, l.Pairwise (fun a b => compare a.1 b.1 = .lt) →
      r.Pairwise (fun a b => compare a.1 b.1 = .lt) → (∀ e, e ∈ l ↔ e ∈ r) → l = r := by
    intro l
    induction l with
    | nil =>
      intro r _ _ hm
      cases r with
      | nil => rfl
      | cons b r => exact absurd ((hm b).mpr List.mem_cons_self) (by simp)
    | cons a l ih =>
      intro r hl hr hm
      cases r with
      | nil => exact absurd ((hm a).mp List.mem_cons_self) (by simp)
      | cons b r =>
        rw [List.pairwise_cons] at hl hr
        -- each head is the least entry of the common set
        have hab : a = b := by
          rcases List.mem_cons.mp ((hm a).mp List.mem_cons_self) with h1 | h1
          · exact h1
          rcases List.mem_cons.mp ((hm b).mpr List.mem_cons_self) with h2 | h2
          · exact h2.symm
          have := Std.TransCmp.lt_trans (hr.1 a h1) (hl.1 b h2)
          simp at this
        subst hab
        congr 1
        apply ih hl.2 hr.2
        intro e
        have hne : ∀ {s : List (κ × ν)}, (∀ e ∈ s, compare a.1 e.1 = .lt) → e ∈ s → e ≠ a := by
          intro s hs he heq
          have := hs e he
          simp [heq] at this
        constructor
        · intro he
          exact (List.mem_cons.mp ((hm e).mp (List.mem_cons_of_mem _ he))).resolve_left (hne hl.1 he)
        · intro he
          exact (List.mem_cons.mp ((hm e).mpr (List.mem_cons_of_mem _ he))).resolve_left (hne hr.1 he)
  have he : m.entries = n.entries := by
    apply key m.sorted n.sorted
    rintro ⟨k, v⟩
    have := h k
    exact (find_eq_some_iff m.sorted).symm.trans
      ((by rw [show find k m.entries = find k n.entries from this]) : _ ↔ _) |>.trans
      (find_eq_some_iff n.sorted)
  cases m
  cases n
  simpa using he

end OrderedMap

end EffectTyping
