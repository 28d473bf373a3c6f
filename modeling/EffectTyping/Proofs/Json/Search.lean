/-
The search through the nodes of a document, in whatever order it goes. Every turn takes one of the waiting nodes out and
lets the nodes right below it wait. What carries through is that the places looked at and the places of the nodes that
wait or are below one that waits are together the places of the document, each once; what goes down is the number of the
latter. So every search ends, has looked at each node exactly once, and has found what the document holds anywhere.
-/
import EffectTyping.Document
import EffectTyping.Proofs.Json.Places
import Mathlib.Logic.Relation

namespace EffectTyping.Json.Datum

/-! ## Places of nodes -/

/-- The node at a place: each number counts the items of an array or the fields of an object, from 0. -/
def at? (d : Datum) : Place → Option Datum
  | [] => some d
  | i :: place =>
    match d with
    | .arr items => items[i]?.bind fun item => at? item place
    | .obj fields => fields[i]?.bind fun field => at? field.2 place
    | _ => none

theorem at?_cons (d : Datum) (i : Nat) (place : Place) :
    d.at? (i :: place) = d.children[i]?.bind fun c => c.at? place := by
  cases d with
  | obj fields =>
    rw [at?, children, List.getElem?_map]
    cases fields[i]? <;> rfl
  | _ => rfl

theorem at?_append (d : Datum) (place below : Place) :
    d.at? (place ++ below) = (d.at? place).bind fun c => c.at? below := by
  induction place generalizing d with
  | nil => rfl
  | cons i place ih =>
    rw [List.cons_append, at?_cons, at?_cons]
    cases d.children[i]? with
    | none => rfl
    | some c => exact ih c

mutual

/-- The places of all nodes. -/
def places : Datum → List Place
  | .null | .bool _ | .num _ | .str _ => [[]]
  | .arr items => [] :: placesItems 0 items
  | .obj fields => [] :: placesFields 0 fields

/-- The places below a node, in the items from number `i` on. -/
def placesItems (i : Nat) : List Datum → List Place
  | [] => []
  | d :: ds => (places d).map (i :: ·) ++ placesItems (i + 1) ds

def placesFields (i : Nat) : List (String × Datum) → List Place
  | [] => []
  | (_, d) :: ds => (places d).map (i :: ·) ++ placesFields (i + 1) ds

end

theorem placesFields_eq (i : Nat) (fields : List (String × Datum)) :
    placesFields i fields = placesItems i (fields.map (·.2)) := by
  induction fields generalizing i with
  | nil => rw [placesFields, List.map_nil, placesItems]
  | cons field fields ih => rw [List.map_cons, placesItems, ← ih, placesFields]

theorem places_eq (d : Datum) : d.places = [] :: placesItems 0 d.children := by
  cases d with
  | arr items => rw [places]; rfl
  | obj fields => rw [places, placesFields_eq]; rfl
  | _ => simp [places, children, placesItems]

theorem mem_placesItems {i : Nat} {ds : List Datum} {place : Place} :
    place ∈ placesItems i ds ↔ ∃ k d below, ds[k]? = some d ∧ below ∈ d.places ∧ place = (i + k) :: below := by
  induction ds generalizing i with
  | nil => simp [placesItems]
  | cons d ds ih =>
    rw [placesItems, List.mem_append, List.mem_map, ih]
    constructor
    · rintro (⟨below, hbelow, rfl⟩ | ⟨k, c, below, hc, hbelow, rfl⟩)
      · exact ⟨0, d, below, rfl, hbelow, rfl⟩
      · exact ⟨k + 1, c, below, hc, hbelow, by rw [Nat.add_right_comm, Nat.add_assoc]⟩
    · rintro ⟨k, c, below, hc, hbelow, rfl⟩
      cases k with
      | zero => cases hc; exact .inl ⟨below, hbelow, rfl⟩
      | succ k => exact .inr ⟨k, c, below, hc, hbelow, by rw [Nat.add_right_comm, Nat.add_assoc]⟩

/-- The list of places leaves none out. -/
theorem mem_places_iff {d : Datum} {place : Place} : place ∈ d.places ↔ (d.at? place).isSome := by
  induction place generalizing d with
  | nil => simp [places_eq, at?]
  | cons i place ih =>
    rw [places_eq, List.mem_cons, mem_placesItems, at?_cons]
    constructor
    · rintro (h | ⟨k, c, below, hc, hbelow, heq⟩)
      · cases h
      · cases heq
        rw [Nat.zero_add, hc]; exact ih.1 hbelow
    · intro h
      obtain ⟨x, hx⟩ := Option.isSome_iff_exists.1 h
      obtain ⟨c, hc, hx⟩ := Option.bind_eq_some_iff.1 hx
      exact .inr ⟨i, c, place, hc, ih.2 (Option.isSome_iff_exists.2 ⟨x, hx⟩), by rw [Nat.zero_add]⟩

theorem size_le_sizeItems {d : Datum} {ds : List Datum} (h : d ∈ ds) : d.size ≤ sizeItems ds := by
  induction ds with
  | nil => cases h
  | cons c ds ih =>
    rw [sizeItems]
    rcases List.mem_cons.1 h with rfl | h
    · omega
    · have := ih h; omega

theorem nodup_placesItems {i : Nat} {ds : List Datum} (h : ∀ d ∈ ds, d.places.Nodup) : (placesItems i ds).Nodup := by
  induction ds generalizing i with
  | nil => simp [placesItems]
  | cons d ds ih =>
    obtain ⟨hd, hds⟩ := List.forall_mem_cons.1 h
    rw [placesItems, List.nodup_append]
    refine ⟨?_, ih hds, ?_⟩
    · rw [List.Nodup, List.pairwise_map]
      exact hd.imp fun hne heq => hne (List.cons.inj heq).2
    · rintro _ hleft _ hright rfl
      obtain ⟨below, -, rfl⟩ := List.mem_map.1 hleft
      obtain ⟨k, c, below', -, -, heq⟩ := mem_placesItems.1 hright
      have := (List.cons.inj heq).1
      omega

/-- The list of places repeats none. -/
theorem nodup_places (d : Datum) : d.places.Nodup := by
  induction hn : d.size using Nat.strong_induction_on generalizing d with
  | _ n ih =>
    rw [places_eq, List.nodup_cons]
    constructor
    · intro h
      obtain ⟨_, _, _, -, -, heq⟩ := mem_placesItems.1 h
      cases heq
    · refine nodup_placesItems fun c hc => ih c.size ?_ c rfl
      have hle := size_le_sizeItems hc
      have hlt := sizeItems_children d
      omega

/-! ## Searches -/

/-- The nodes from number `i` on below the node at a place, with their places. -/
def numbered (place : Place) (i : Nat) : List Datum → List (Place × Datum)
  | [] => []
  | d :: ds => (place ++ [i], d) :: numbered place (i + 1) ds

/-- A search on its way: has something been found, which nodes wait at which places, and at which places has it looked,
the last one first? -/
structure Search where
  found : Bool
  waiting : List (Place × Datum)
  examined : List Place

namespace Search

def start (d : Datum) : Search := ⟨false, [([], d)], []⟩

/-- One turn: any of the nodes that wait is looked at and taken out, and the nodes right below it are put anywhere among
those that wait. -/
inductive Turn (p : Datum → Bool) : Search → Search → Prop
  | look {s : Search} {place : Place} {d : Datum} {rest next : List (Place × Datum)} :
      s.waiting.Perm ((place, d) :: rest) → next.Perm (numbered place 0 d.children ++ rest) →
      Turn p s ⟨s.found || p d, next, place :: s.examined⟩

/-- The places of the nodes that wait and of all nodes below them. -/
def ahead (waiting : List (Place × Datum)) : List Place := waiting.flatMap fun e => e.2.places.map (e.1 ++ ·)

/-- What holds on the way through `d`. -/
structure Sound (p : Datum → Bool) (d : Datum) (s : Search) : Prop where
  placed : ∀ e ∈ s.waiting, d.at? e.1 = some e.2
  once : (s.examined ++ ahead s.waiting).Perm d.places
  found : s.found = true ↔ ∃ place ∈ s.examined, ∃ x, d.at? place = some x ∧ p x = true

variable {p : Datum → Bool}

theorem mem_numbered {place : Place} {i : Nat} {ds : List Datum} {e : Place × Datum} (h : e ∈ numbered place i ds) :
    ∃ k, e.1 = place ++ [i + k] ∧ ds[k]? = some e.2 := by
  induction ds generalizing i with
  | nil => cases h
  | cons d ds ih =>
    rcases List.mem_cons.1 h with rfl | h
    · exact ⟨0, rfl, rfl⟩
    · obtain ⟨k, hplace, hd⟩ := ih h
      exact ⟨k + 1, by rw [hplace, Nat.add_right_comm, Nat.add_assoc], hd⟩

theorem map_snd_numbered (place : Place) (i : Nat) (ds : List Datum) : (numbered place i ds).map (·.2) = ds := by
  induction ds generalizing i with
  | nil => rfl
  | cons d ds ih => rw [numbered, List.map_cons, ih]

theorem ahead_numbered (place : Place) (i : Nat) (ds : List Datum) :
    ahead (numbered place i ds) = (placesItems i ds).map (place ++ ·) := by
  induction ds generalizing i with
  | nil => rw [numbered, placesItems]; rfl
  | cons d ds ih =>
    rw [numbered, placesItems, List.map_append, ← ih, ahead, List.flatMap_cons, List.map_map]
    simp [ahead, Function.comp_def]

theorem ahead_cons (place : Place) (d : Datum) (rest : List (Place × Datum)) :
    ahead ((place, d) :: rest) = place :: ahead (numbered place 0 d.children ++ rest) := by
  have hnode : d.places.map (place ++ ·) = place :: ahead (numbered place 0 d.children) := by
    rw [places_eq, List.map_cons, ahead_numbered, List.append_nil]
  rw [ahead, List.flatMap_cons, hnode, ahead, ahead, List.flatMap_append]; rfl

theorem ahead_perm {waiting next : List (Place × Datum)} (h : waiting.Perm next) : (ahead waiting).Perm (ahead next) :=
  h.flatMap_right _

theorem sound_start (d : Datum) : Sound p d (start d) where
  placed := by simp [start, Datum.at?]
  once := by simp [start, ahead]
  found := by simp [start]

/-- A turn moves the place of one node from those ahead to those looked at. -/
theorem Sound.turn {d : Datum} {s next : Search} (hs : Sound p d s) (h : Turn p s next) : Sound p d next := by
  cases h with
  | @look place x rest next hwaiting hnext =>
    have hx : d.at? place = some x := hs.placed _ (hwaiting.mem_iff.2 List.mem_cons_self)
    refine ⟨fun e he => ?_, ?_, ?_⟩
    · rcases List.mem_append.1 (hnext.mem_iff.1 he) with he | he
      · obtain ⟨k, hplace, hk⟩ := mem_numbered he
        rw [hplace, at?_append, hx, Option.bind_some, at?_cons, Nat.zero_add, hk]; rfl
      · exact hs.placed e (hwaiting.mem_iff.2 (List.mem_cons_of_mem _ he))
    · have hahead : (ahead s.waiting).Perm (place :: ahead next) :=
        (ahead_perm hwaiting).trans (ahead_cons place x rest ▸ (ahead_perm hnext).symm.cons place)
      exact (List.perm_middle.symm.trans (hahead.symm.append_left s.examined)).trans hs.once
    · rw [Bool.or_eq_true, hs.found]
      constructor
      · rintro (⟨q, hq, y, hy⟩ | hp)
        · exact ⟨q, List.mem_cons_of_mem _ hq, y, hy⟩
        · exact ⟨place, List.mem_cons_self, x, hx, hp⟩
      · rintro ⟨q, hq, y, hy, hp⟩
        rcases List.mem_cons.1 hq with rfl | hq
        · rw [hx] at hy
          cases hy
          exact .inr hp
        · exact .inl ⟨q, hq, y, hy, hp⟩

theorem Sound.run {d : Datum} {s last : Search} (hs : Sound p d s) (h : Relation.ReflTransGen (Turn p) s last) :
    Sound p d last := by
  induction h with
  | refl => exact hs
  | tail _ hturn ih => exact ih.turn hturn

/-! ## The end of a search -/

theorem sizeItems_perm {ds cs : List Datum} (h : ds.Perm cs) : sizeItems ds = sizeItems cs := by
  induction h with
  | nil => rfl
  | cons d _ ih => rw [sizeItems, sizeItems, ih]
  | swap c d ds => simp only [sizeItems]; omega
  | trans _ _ ih ih' => rw [ih, ih']

/-- The nodes that wait or are below one that waits get fewer. -/
theorem Turn.size_lt {s next : Search} (h : Turn p s next) :
    sizeItems (next.waiting.map (·.2)) < sizeItems (s.waiting.map (·.2)) := by
  cases h with
  | @look place d rest next hwaiting hnext =>
    rw [sizeItems_perm (hwaiting.map _), sizeItems_perm (hnext.map _), List.map_append, map_snd_numbered,
      sizeItems_append, List.map_cons, sizeItems]
    exact Nat.add_lt_add_right (sizeItems_children d) _

theorem turn_wellFounded (p : Datum → Bool) : WellFounded fun next s => Turn p s next := by
  refine Subrelation.wf ?_ (InvImage.wf (fun s : Search => sizeItems (s.waiting.map (·.2))) Nat.lt_wfRel.wf)
  intro next s h
  exact h.size_lt

/-- A search goes on as long as a node waits. -/
theorem waiting_eq_nil {s : Search} (hstop : ∀ next, ¬ Turn p s next) : s.waiting = [] := by
  cases hw : s.waiting with
  | nil => rfl
  | cons e rest => exact absurd (.look (.of_eq hw) (.refl _)) (hstop _)

/-- At the end of a search every place has been looked at once, and what has been found is in the document. -/
theorem Sound.finished {d : Datum} {s : Search} (hs : Sound p d s) (hnil : s.waiting = []) :
    (s.found = true ↔ ∃ place x, d.at? place = some x ∧ p x = true) ∧
      s.examined.Nodup ∧ ∀ place, place ∈ s.examined ↔ (d.at? place).isSome := by
  have hperm : s.examined.Perm d.places := by simpa [hnil, ahead] using hs.once
  have hmem : ∀ place, place ∈ s.examined ↔ (d.at? place).isSome := fun place => hperm.mem_iff.trans mem_places_iff
  refine ⟨hs.found.trans ⟨?_, ?_⟩, hperm.nodup_iff.2 (nodup_places d), hmem⟩
  · rintro ⟨place, -, x, hx⟩; exact ⟨place, x, hx⟩
  · rintro ⟨place, x, hx, hp⟩
    exact ⟨place, (hmem place).2 (Option.isSome_iff_exists.2 ⟨x, hx⟩), x, hx, hp⟩

/-! ## The order of the loop -/

/-- The search that goes on with the first node that waits and puts the nodes right below it before the others. -/
def run (p : Datum → Bool) : Search → Search
  | ⟨found, [], examined⟩ => ⟨found, [], examined⟩
  | ⟨found, e :: rest, examined⟩ => run p ⟨found || p e.2, numbered e.1 0 e.2.children ++ rest, e.1 :: examined⟩
termination_by s => sizeItems (s.waiting.map (·.2))
decreasing_by exact (Turn.look (p := p) (s := ⟨found, e :: rest, examined⟩) (.refl _) (.refl _)).size_lt

/-- Without the places this is the loop. -/
theorem found_run (s : Search) : (s.run p).found = anyNode p s.found (s.waiting.map (·.2)) := by
  induction s using run.induct (p := p) with
  | case1 found examined => rw [run, List.map_nil, anyNode]
  | case2 found e rest examined ih => rw [run, ih, List.map_append, map_snd_numbered, List.map_cons, anyNode]

theorem turns_run (s : Search) : Relation.ReflTransGen (Turn p) s (s.run p) ∧ (s.run p).waiting = [] := by
  induction s using run.induct (p := p) with
  | case1 found examined => rw [run]; exact ⟨.refl, rfl⟩
  | case2 found e rest examined ih =>
    rw [run]
    exact ⟨.head (.look (.refl _) (.refl _)) ih.1, ih.2⟩

end Search

end EffectTyping.Json.Datum

namespace EffectTyping.Document

open Json Json.Datum

theorem isIllegalPair_iff {d : Datum} : isIllegalPair d = true ↔ d = .arr [.bool false, .bool true] := by
  unfold isIllegalPair
  split <;> simp_all

/-- The search of a document for the pair `[false, true]` finds it if and only if the pair stands somewhere in it. The
loop is a search that takes its nodes in one order. In any order there is no search without an end, a search ends only
when nothing waits, and then it has found the pair if and only if the pair is there, and has looked at every place of
the document exactly once. -/
theorem search_exact (d : Datum) :
    (anyNode isIllegalPair false [d] = true ↔ ∃ place, d.at? place = some (.arr [.bool false, .bool true])) ∧
    ((Search.start d).run isIllegalPair).found = anyNode isIllegalPair false [d] ∧
    Relation.ReflTransGen (Search.Turn isIllegalPair) (.start d) ((Search.start d).run isIllegalPair) ∧
    (WellFounded fun next s => Search.Turn isIllegalPair s next) ∧
    ∀ last, Relation.ReflTransGen (Search.Turn isIllegalPair) (.start d) last →
      (∀ next, ¬ Search.Turn isIllegalPair last next) →
      last.waiting = [] ∧
      (last.found = true ↔ ∃ place, d.at? place = some (.arr [.bool false, .bool true])) ∧
      last.examined.Nodup ∧ ∀ place, place ∈ last.examined ↔ (d.at? place).isSome := by
  have hlast : ∀ last, Relation.ReflTransGen (Search.Turn isIllegalPair) (.start d) last → last.waiting = [] →
      (last.found = true ↔ ∃ place, d.at? place = some (.arr [.bool false, .bool true])) ∧
      last.examined.Nodup ∧ ∀ place, place ∈ last.examined ↔ (d.at? place).isSome := by
    intro last hrun hnil
    have hfinished := ((Search.sound_start d).run hrun).finished hnil
    simpa only [isIllegalPair_iff, exists_eq_right] using hfinished
  have hfound := Search.found_run (p := isIllegalPair) (.start d)
  obtain ⟨hturns, hnil⟩ := Search.turns_run (p := isIllegalPair) (.start d)
  refine ⟨?_, hfound, hturns, Search.turn_wellFounded _, fun last hrun hstop => ?_⟩
  · have hloop := (hlast _ hturns hnil).1
    rwa [hfound] at hloop
  · have hempty := Search.waiting_eq_nil hstop
    exact ⟨hempty, hlast last hrun hempty⟩

/-- In `[[true, [false, true]], false]` the pair stands two levels down. -/
example :
    anyNode isIllegalPair false [.arr [.arr [.bool true, .arr [.bool false, .bool true]], .bool false]] = true := by
  simp [anyNode, children, isIllegalPair]

end EffectTyping.Document
