/-
Places in documents: what stands at a place, and the document in which the parts at chosen places are replaced. A
regular document stays regular, and what it says has a node for every place of it; so the search through the nodes
finds what stands at any place.
-/
import EffectTyping.Json.Datum
import EffectTyping.Proofs.Json.RoundTrip

namespace EffectTyping.Json

/-- A place in a document: for each level down the number of the item or of the field, from 0. -/
abbrev Place := List Nat

/-- What stands at a place. -/
def at? (j : Json) : Place → Option Json
  | [] => some j
  | i :: place =>
    match j with
    | .arr items => items[i]?.bind fun item => at? item place
    | .obj fields => fields[i]?.bind fun field => at? field.2 place
    | _ => none

mutual

/-- The document with `new` at the chosen places. -/
def replaceAt (chosen : Place → Bool) (new : Json) : Json → Json
  | .arr items => if chosen [] then new else .arr (replaceItems chosen new 0 items)
  | .obj fields => if chosen [] then new else .obj (replaceFields chosen new 0 fields)
  | .null => if chosen [] then new else .null
  | .bool b => if chosen [] then new else .bool b
  | .num n => if chosen [] then new else .num n
  | .str q => if chosen [] then new else .str q

/-- The items, of which the first has the number `i`. -/
def replaceItems (chosen : Place → Bool) (new : Json) (i : Nat) : List Json → List Json
  | [] => []
  | item :: items => replaceAt (fun place => chosen (i :: place)) new item :: replaceItems chosen new (i + 1) items

def replaceFields (chosen : Place → Bool) (new : Json) (i : Nat) : List (Quoted × Json) → List (Quoted × Json)
  | [] => []
  | (key, value) :: fields =>
    (key, replaceAt (fun place => chosen (i :: place)) new value) :: replaceFields chosen new (i + 1) fields

end

variable {chosen : Place → Bool} {new : Json}

/-! ## What is replaced -/

theorem replaceAt_root (h : chosen [] = true) (j : Json) : replaceAt chosen new j = new := by
  cases j <;> rw [replaceAt, if_pos h]

theorem replaceAt_arr (h : chosen [] = false) (items : List Json) :
    replaceAt chosen new (.arr items) = .arr (replaceItems chosen new 0 items) := by
  rw [replaceAt, if_neg (by simp [h])]

theorem replaceAt_obj (h : chosen [] = false) (fields : List (Quoted × Json)) :
    replaceAt chosen new (.obj fields) = .obj (replaceFields chosen new 0 fields) := by
  rw [replaceAt, if_neg (by simp [h])]

theorem map_snd_replaceFields (i : Nat) (fields : List (Quoted × Json)) :
    (replaceFields chosen new i fields).map (·.2) = replaceItems chosen new i (fields.map (·.2)) := by
  induction fields generalizing i with
  | nil => rw [replaceFields, List.map_nil, replaceItems]
  | cons field fields ih => rw [replaceFields, List.map_cons, List.map_cons, replaceItems, ih]

theorem replaceFields_encode (i : Nat) (fields : List (String × Json)) :
    replaceFields chosen new i (fields.map fun f => (.encode f.1, f.2)) =
      ((fields.map (·.1)).zip (replaceItems chosen new i (fields.map (·.2)))).map fun f => (.encode f.1, f.2) := by
  induction fields generalizing i with
  | nil => rw [List.map_nil, replaceFields, List.map_nil, List.zip_nil_left, List.map_nil]
  | cons field fields ih =>
    rw [List.map_cons, replaceFields, ih, List.map_cons, List.map_cons, replaceItems, List.zip_cons_cons, List.map_cons]

/-- The fields of a record keep their names. -/
theorem replaceAt_record (h : chosen [] = false) (fields : List (String × Json)) :
    replaceAt chosen new (record fields) =
      record ((fields.map (·.1)).zip (replaceItems chosen new 0 (fields.map (·.2)))) := by
  unfold record
  rw [replaceAt_obj h, replaceFields_encode]

theorem length_replaceItems (i : Nat) (items : List Json) :
    (replaceItems chosen new i items).length = items.length := by
  induction items generalizing i with
  | nil => rw [replaceItems]
  | cons item items ih => rw [replaceItems, List.length_cons, List.length_cons, ih]

theorem getElem?_replaceItems (i k : Nat) (items : List Json) :
    (replaceItems chosen new i items)[k]? =
      items[k]?.map (replaceAt (fun place => chosen ((i + k) :: place)) new) := by
  induction items generalizing i k with
  | nil => rw [replaceItems]; rfl
  | cons item items ih =>
    rw [replaceItems]
    cases k with
    | zero => rfl
    | succ k =>
      rw [List.getElem?_cons_succ, List.getElem?_cons_succ, ih, Nat.add_right_comm]
      rfl

theorem mem_replaceItems {i : Nat} {items : List Json} {part : Json} (h : part ∈ replaceItems chosen new i items) :
    ∃ k, ∃ item ∈ items, part = replaceAt (fun place => chosen (k :: place)) new item := by
  obtain ⟨k, hk⟩ := List.mem_iff_getElem?.1 h
  rw [getElem?_replaceItems] at hk
  obtain ⟨item, hitem, rfl⟩ := Option.map_eq_some_iff.1 hk
  exact ⟨i + k, item, List.mem_of_getElem? hitem, rfl⟩

/-- Fields are reached like items. -/
theorem at?_obj (fields : List (Quoted × Json)) (i : Nat) (place : Place) :
    (Json.obj fields).at? (i :: place) = (fields.map (·.2))[i]?.bind fun value => value.at? place := by
  rw [at?, List.getElem?_map]
  cases fields[i]? <;> rfl

theorem at?_record (fields : List (String × Json)) (i : Nat) (place : Place) :
    (record fields).at? (i :: place) = (fields.map (·.2))[i]?.bind fun value => value.at? place := by
  unfold record
  rw [at?_obj, List.map_map]
  rfl

/-- If a chosen place is there, what is put there, or above it, is there after. -/
theorem exists_at?_replaceAt {j : Json} {place : Place} (h : chosen place = true) (hj : (j.at? place).isSome = true) :
    ∃ place, (replaceAt chosen new j).at? place = some new := by
  induction place generalizing j chosen with
  | nil => exact ⟨[], by rw [replaceAt_root h, at?]⟩
  | cons i place ih =>
    cases hroot : chosen [] with
    | true => exact ⟨[], by rw [replaceAt_root hroot, at?]⟩
    | false =>
      -- below the root the place goes through one of the parts
      have hpart {parts : List Json} (hparts : (parts[i]?.bind fun part => part.at? place).isSome = true) :
          ∃ place, ((replaceItems chosen new 0 parts)[i]?.bind fun part => part.at? place) = some new := by
        cases hi : parts[i]? with
        | none => rw [hi] at hparts; cases hparts
        | some part =>
          rw [hi] at hparts
          obtain ⟨place', hplace'⟩ := @ih (fun place => chosen (i :: place)) part h hparts
          refine ⟨place', ?_⟩
          rw [getElem?_replaceItems, hi, Nat.zero_add]
          exact hplace'
      cases j with
      | arr items =>
        obtain ⟨place', hplace'⟩ := hpart hj
        exact ⟨i :: place', by rw [replaceAt_arr hroot, at?, hplace']⟩
      | obj fields =>
        rw [at?_obj] at hj
        obtain ⟨place', hplace'⟩ := hpart hj
        refine ⟨i :: place', ?_⟩
        rw [replaceAt_obj hroot, at?_obj, map_snd_replaceFields, hplace']
      | _ => cases hj

/-! ## Regular documents -/

/-- A regular document with regular parts put into it is regular. -/
theorem Regular.replaceAt {j : Json} (hj : j.Regular) (hnew : new.Regular) :
    (Json.replaceAt chosen new j).Regular := by
  induction hj generalizing chosen with
  | null => rw [Json.replaceAt]; split <;> [exact hnew; exact .null]
  | bool b => rw [Json.replaceAt]; split <;> [exact hnew; exact .bool b]
  | num readable double => rw [Json.replaceAt]; split <;> [exact hnew; exact .num readable double]
  | str s => rw [Json.replaceAt]; split <;> [exact hnew; exact .str s]
  | arr _ ih =>
    rw [Json.replaceAt]
    split
    · exact hnew
    · refine .arr fun part hpart => ?_
      obtain ⟨k, item, hitem, rfl⟩ := mem_replaceItems hpart
      exact ih item hitem
  | @obj fields distinct _ ih =>
    rw [Json.replaceAt]
    split
    · exact hnew
    · rw [replaceFields_encode]
      refine .obj ?_ ?_
      · rw [List.map_fst_zip (by simp [length_replaceItems])]
        exact distinct
      · intro field hfield
        obtain ⟨k, value, hvalue, heq⟩ := mem_replaceItems (List.of_mem_zip hfield).2
        obtain ⟨f, hf, rfl⟩ := List.mem_map.1 hvalue
        rw [heq]
        exact ih f hf

/-! ## What regular documents say -/

namespace Datum

/-- A datum is a node of another: the other one itself, or at any depth below it. -/
inductive IsNode (x : Datum) : Datum → Prop where
  | self : IsNode x x
  | child {c d : Datum} (hc : c ∈ d.children) (h : IsNode x c) : IsNode x d

/-- The search looks at all nodes. -/
theorem anyNode_iff (p : Datum → Bool) (found : Bool) (waiting : List Datum) :
    anyNode p found waiting = true ↔ found = true ∨ ∃ d ∈ waiting, ∃ x, IsNode x d ∧ p x = true := by
  induction found, waiting using anyNode.induct (p := p) with
  | case1 found => simp [anyNode]
  | case2 found d rest ih =>
    rw [anyNode, ih]
    constructor
    · rintro (h | ⟨e, he, x, hx, hp⟩)
      · rcases Bool.or_eq_true_iff.1 h with h | h
        · exact .inl h
        · exact .inr ⟨d, List.mem_cons_self, d, .self, h⟩
      · rcases List.mem_append.1 he with he | he
        · exact .inr ⟨d, List.mem_cons_self, x, .child he hx, hp⟩
        · exact .inr ⟨e, List.mem_cons_of_mem d he, x, hx, hp⟩
    · rintro (h | ⟨e, he, x, hx, hp⟩)
      · exact .inl (Bool.or_eq_true_iff.2 (.inl h))
      · rcases List.mem_cons.1 he with rfl | he
        · cases hx with
          | self => exact .inl (Bool.or_eq_true_iff.2 (.inr hp))
          | child hc h => exact .inr ⟨_, List.mem_append_left _ hc, x, h, hp⟩
        · exact .inr ⟨e, List.mem_append_right _ he, x, hx, hp⟩

/-- If each item says something, an array says all of it. -/
theorem exists_ofItems? {items : List Json} (h : ∀ item ∈ items, ∃ d, ofJson? item = some d) (done : List Datum) :
    ∃ ds, ofItems? done items = some ds ∧ (∀ d ∈ done, d ∈ ds) ∧
      ∀ item ∈ items, ∀ d, ofJson? item = some d → d ∈ ds := by
  induction items generalizing done with
  | nil => exact ⟨done.reverse, by rw [ofItems?], by simp, by simp⟩
  | cons item items ih =>
    obtain ⟨⟨d, hd⟩, hitems⟩ := List.forall_mem_cons.1 h
    obtain ⟨ds, hds, hdone, hrest⟩ := ih hitems (d :: done)
    refine ⟨ds, ?_, ?_, ?_⟩
    · rw [ofItems?, hd]
      exact hds
    · exact fun e he => hdone e (List.mem_cons_of_mem d he)
    · refine List.forall_mem_cons.2 ⟨fun e he => ?_, hrest⟩
      rw [hd] at he
      cases he
      exact hdone d List.mem_cons_self

/-- If each field says something and no name is repeated, an object says all of it. -/
theorem exists_ofFields? {fields : List (String × Json)} (h : ∀ f ∈ fields, ∃ d, ofJson? f.2 = some d)
    (hdistinct : (fields.map (·.1)).Nodup) (done : List (String × Datum))
    (hnew : ∀ e ∈ done, e.1 ∉ fields.map (·.1)) :
    ∃ ds, ofFields? done (fields.map fun f => (.encode f.1, f.2)) = some ds ∧ (∀ e ∈ done, e ∈ ds) ∧
      ∀ f ∈ fields, ∀ d, ofJson? f.2 = some d → (f.1, d) ∈ ds := by
  induction fields generalizing done with
  | nil => exact ⟨done, by rw [List.map_nil, ofFields?], by simp, by simp⟩
  | cons f fields ih =>
    obtain ⟨⟨d, hd⟩, hfields⟩ := List.forall_mem_cons.1 h
    rw [List.map_cons, List.nodup_cons] at hdistinct
    have hfresh : done.any (·.1 == f.1) = false := by
      rw [List.any_eq_false]
      intro e he heq
      rw [beq_iff_eq] at heq
      exact hnew e he (by rw [heq]; exact List.mem_cons_self)
    obtain ⟨ds, hds, hdone, hrest⟩ := ih hfields hdistinct.2 ((f.1, d) :: done) (by
      refine List.forall_mem_cons.2 ⟨hdistinct.1, fun e he hmem => hnew e he ?_⟩
      exact List.mem_cons_of_mem _ hmem)
    refine ⟨ds, ?_, ?_, ?_⟩
    · rw [List.map_cons, ofFields?, Quoted.decode?_encode, hd]
      simp only [setField, hfresh, Bool.false_eq_true, if_false]
      exact hds
    · exact fun e he => hdone e (List.mem_cons_of_mem _ he)
    · refine List.forall_mem_cons.2 ⟨fun e he => ?_, hrest⟩
      rw [hd] at he
      cases he
      exact hdone _ List.mem_cons_self

end Datum

/-- The datum a document says has a node for each of its places. -/
def Says (j : Json) (d : Datum) : Prop :=
  Datum.ofJson? j = some d ∧ ∀ place x, j.at? place = some x → ∃ y, Datum.ofJson? x = some y ∧ Datum.IsNode y d

theorem says_parts {j : Json} {d : Datum} (parts : List Json) (hd : Datum.ofJson? j = some d)
    (hat : ∀ i place, j.at? (i :: place) = parts[i]?.bind fun part => part.at? place)
    (hparts : ∀ part ∈ parts, ∃ c, part.Says c ∧ c ∈ d.children) : j.Says d := by
  refine ⟨hd, fun place x hx => ?_⟩
  cases place with
  | nil =>
    cases hx
    exact ⟨d, hd, .self⟩
  | cons i place =>
    rw [hat] at hx
    obtain ⟨part, hpart, hx⟩ := Option.bind_eq_some_iff.1 hx
    obtain ⟨c, hc, hmem⟩ := hparts part (List.mem_of_getElem? hpart)
    obtain ⟨y, hy, hnode⟩ := hc.2 place x hx
    exact ⟨y, hy, .child hmem hnode⟩

/-- A regular document says something, place by place. -/
theorem Regular.says {j : Json} (h : j.Regular) : ∃ d, j.Says d := by
  induction h with
  | null => exact ⟨.null, says_parts [] (by rw [Datum.ofJson?]) (fun _ _ => rfl) (by simp)⟩
  | bool b => exact ⟨.bool b, says_parts [] (by rw [Datum.ofJson?]) (fun _ _ => rfl) (by simp)⟩
  | num _ double =>
    obtain ⟨x, hx⟩ := Option.isSome_iff_exists.1 double
    exact ⟨.num x, says_parts [] (by rw [Datum.ofJson?, hx]; rfl) (fun _ _ => rfl) (by simp)⟩
  | str s =>
    exact ⟨.str s, says_parts [] (by rw [Datum.ofJson?, Quoted.decode?_encode]; rfl) (fun _ _ => rfl) (by simp)⟩
  | @arr items _ ih =>
    obtain ⟨ds, hds, -, hmem⟩ := Datum.exists_ofItems? (fun item hitem => (ih item hitem).imp fun _ h => h.1) []
    refine ⟨.arr ds, says_parts items (by rw [Datum.ofJson?, hds]; rfl) (fun _ _ => rfl) fun item hitem => ?_⟩
    obtain ⟨c, hc⟩ := ih item hitem
    exact ⟨c, hc, hmem item hitem c hc.1⟩
  | @obj fields distinct _ ih =>
    obtain ⟨ds, hds, -, hmem⟩ :=
      Datum.exists_ofFields? (fun f hf => (ih f hf).imp fun _ h => h.1) distinct [] (by simp)
    refine ⟨.obj ds, says_parts _ (by rw [Datum.ofJson?, hds]; rfl) (at?_obj _) fun value hvalue => ?_⟩
    rw [List.map_map] at hvalue
    obtain ⟨f, hf, rfl⟩ := List.mem_map.1 hvalue
    obtain ⟨c, hc⟩ := ih f hf
    exact ⟨c, hc, List.mem_map.2 ⟨(f.1, c), hmem f hf c hc.1, rfl⟩⟩

end EffectTyping.Json
