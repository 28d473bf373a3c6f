/-
Terms, types, patterns, paths and substitutions read back from their texts. Every encoder writes a regular document
(`regular_toJson`) from which the decoder gets the value back (`ofJson?_toJson`), by induction on the value. Of a float
the decoder may get a neighbour back, so a term is read back exactly if its floats are (`Term.ofJson?_toJson_iff`); but no
two terms have the same document (`Term.toJson_injective`), so the one text of a value holds that value and no other.
-/
import EffectTyping.Document
import EffectTyping.Proofs.Codec.Decoding
import EffectTyping.Proofs.Json.RoundTrip
import EffectTyping.Proofs.Number.ReadBack
import EffectTyping.Proofs.OrderedMap
import EffectTyping.Proofs.Subterms

namespace EffectTyping

namespace Json

/-! ## Regular documents -/

theorem regular_ofString (s : String) : (ofString s).Regular := .str s

theorem regular_ofNat {n : Nat} (h : n < UInt64.size) : (ofNat n).Regular :=
  .num (Numeral.readable_ofNat n) (Numeral.toDouble?_digitsOf_isSome false h)

theorem regular_ofInt {n : Int} (h : n.natAbs < UInt64.size) : (ofInt n).Regular :=
  .num (Numeral.readable_ofInt n) (Numeral.toDouble?_digitsOf_isSome _ h)

theorem regular_record (names : List String) (docs : List Json) (hnames : names.Nodup)
    (hlength : names.length = docs.length) (h : docs.Forall Regular) : (record (names.zip docs)).Regular := by
  refine .obj ?_ ?_
  · rw [List.map_fst_zip hlength.le]
    exact hnames
  · intro f hf
    exact List.forall_iff_forall_mem.1 h f.2 (List.of_mem_zip hf).2

theorem regular_variant (name : String) {content : Json} (h : content.Regular) : (variant name content).Regular :=
  regular_record [name] [content] (List.nodup_singleton name) rfl h

theorem regular_arr_map {α : Type} {f : α → Json} {l : List α} (h : ∀ a ∈ l, (f a).Regular) :
    (Json.arr (l.map f)).Regular := by
  refine .arr fun item hitem => ?_
  obtain ⟨a, ha, rfl⟩ := List.mem_map.1 hitem
  exact h a ha

/-- The items of an array are decoded to the values they were made from if and only if each of them is. -/
theorem each?_map_iff {α : Type} {f : α → Json} {decode? : Json → Option α} {l : List α} :
    (Json.arr (l.map f)).each? decode? = some l ↔ ∀ a ∈ l, decode? (f a) = some a := by
  rw [each?_arr]
  induction l with
  | nil => simp
  | cons a l ih =>
    rw [List.map_cons, List.mapM_cons, List.forall_mem_cons, ← ih]
    simp [Option.bind_eq_some_iff]

/-! ## Documents told apart by their parts -/

theorem Quoted.encode_inj {s t : String} : Quoted.encode s = .encode t ↔ s = t := by
  refine ⟨fun h => ?_, congrArg _⟩
  have hdecode := Quoted.decode?_encode s
  rw [h, Quoted.decode?_encode] at hdecode
  exact (Option.some.inj hdecode).symm

@[simp]
theorem ofString_inj {s t : String} : ofString s = ofString t ↔ s = t := by
  rw [ofString, ofString, str.injEq, Quoted.encode_inj]

@[simp]
theorem variant_inj {name other : String} {content document : Json} :
    variant name content = variant other document ↔ name = other ∧ content = document := by
  simp [variant, Quoted.encode_inj]

@[simp]
theorem variant_ne_ofString {name s : String} {content : Json} : variant name content ≠ ofString s :=
  Json.noConfusion

@[simp]
theorem record_inj {fields others : List (String × Json)} : record fields = record others ↔ fields = others := by
  rw [record, record, obj.injEq]
  refine List.map_inj_right fun f g h => ?_
  simp only [Prod.mk.injEq, Quoted.encode_inj] at h
  exact Prod.ext h.1 h.2

/-- Items are told apart by their documents if each of them is. -/
theorem eq_of_map_eq {α : Type} {f : α → Json} {l r : List α} (h : ∀ a ∈ l, ∀ b, f a = f b → a = b)
    (hmap : l.map f = r.map f) : l = r := by
  induction l generalizing r with
  | nil => exact (List.map_eq_nil_iff.1 hmap.symm).symm
  | cons a l ih =>
    obtain ⟨ha, hl⟩ := List.forall_mem_cons.1 h
    cases r with
    | nil => simp at hmap
    | cons b r =>
      rw [List.map_cons, List.map_cons, List.cons.injEq] at hmap
      rw [ha b hmap.1, ih hl hmap.2]

end Json

/-- The text of a regular document holds what is decoded from the document. -/
theorem Document.parse_render_eq_ok_iff {α : Type} {decode? : Json → Option α} {j : Json} {a : α} (hj : j.Regular) :
    parse decode? j.render = .ok a ↔ decode? j = some a := by
  unfold parse
  rw [Json.parse?_render hj, Option.bind_some]
  cases decode? j with
  | none => simp
  | some b => simp

/-- An encoding that can be decoded tells values apart. -/
theorem eq_iff_of_decode {α : Type} {encode : α → Json} {decode? : Json → Option α}
    (h : ∀ a, decode? (encode a) = some a) {a b : α} : encode a = encode b ↔ a = b := by
  refine ⟨fun heq => ?_, congrArg _⟩
  have ha := h a
  rw [heq, h b] at ha
  exact (Option.some.inj ha).symm

/-! ## Types -/

theorem Effect.ofJson?_toJson (e : Effect) : Effect.ofJson? e.toJson = some e := by
  cases e <;> rfl

@[simp]
theorem Effect.toJson_inj {d e : Effect} : d.toJson = e.toJson ↔ d = e := eq_iff_of_decode ofJson?_toJson

theorem Effect.regular_toJson (e : Effect) : e.toJson.Regular := by
  refine .arr (List.forall_iff_forall_mem.1 ?_)
  exact ⟨.bool _, .bool _⟩

theorem TypeVar.ofJson?_toJson (v : TypeVar) : TypeVar.ofJson? v.toJson = some v := by
  unfold TypeVar.ofJson? TypeVar.toJson
  rw [Json.natBelow?_ofNat v.index.toNat_lt]
  simp

theorem TypeVar.regular_toJson (v : TypeVar) : v.toJson.Regular :=
  Json.regular_ofNat (v.index.toNat_lt.trans (by decide))

theorem BaseTy.ofJson?_toJson (b : BaseTy) : BaseTy.ofJson? b.toJson = some b := by
  cases b <;> simp only [BaseTy.ofJson?, BaseTy.toJson, Json.name?_ofString]

theorem BaseTy.regular_toJson (b : BaseTy) : b.toJson.Regular := by
  cases b <;> exact Json.regular_ofString _

namespace Ty

theorem toJsonEach_eq_map (ts : List Ty) : toJsonEach ts = ts.map toJson := by
  induction ts with
  | nil => rw [toJsonEach, List.map_nil]
  | cons t ts ih => rw [toJsonEach, List.map_cons, ih]

theorem ofJson?_toJson (t : Ty) : ofJson? t.toJson = some t := by
  induction t using Ty.induct with
  | var v => rw [toJson, ofJson?_var, TypeVar.ofJson?_toJson]; rfl
  | base b => rw [toJson, ofJson?_base, BaseTy.ofJson?_toJson]; rfl
  | option t ih => rw [toJson, ofJson?_option, ih]; rfl
  | list t ih => rw [toJson, ofJson?_list, ih]; rfl
  | tuple ts ih => rw [toJson, ofJson?_tuple, toJsonEach_eq_map, Json.each?_map_iff.2 ih]; rfl
  | arrow a e r iha ihr => rw [toJson, ofJson?_arrow, iha, ihr, Effect.ofJson?_toJson]; rfl

@[simp]
theorem toJson_inj {t u : Ty} : t.toJson = u.toJson ↔ t = u := eq_iff_of_decode ofJson?_toJson

theorem regular_toJson (t : Ty) : t.toJson.Regular := by
  induction t using Ty.induct with
  | var v => rw [toJson]; exact Json.regular_variant _ v.regular_toJson
  | base b => rw [toJson]; exact Json.regular_variant _ b.regular_toJson
  | option t ih => rw [toJson]; exact Json.regular_variant _ ih
  | list t ih => rw [toJson]; exact Json.regular_variant _ ih
  | tuple ts ih =>
    rw [toJson, toJsonEach_eq_map]
    exact Json.regular_variant _ (Json.regular_arr_map ih)
  | arrow a e r iha ihr =>
    rw [toJson]
    exact Json.regular_variant _ (.arr (List.forall_iff_forall_mem.1 ⟨iha, e.regular_toJson, ihr⟩))

end Ty

/-! ## Literals, tags and patterns -/

namespace Double

/-- The text of a float in a document. -/
def canonical (x : Double) : String := (Json.num (Json.floatFormat.layout x)).render

theorem regular_layout (x : Double) : (Json.num (Json.floatFormat.layout x)).Regular :=
  .num (DoubleFormat.readable_layout _ x) (DoubleFormat.toDouble?_layout_isSome _ x (by decide))

theorem parse_canonical_iff {x y : Double} :
    Document.parse Literal.double? x.canonical = .ok y ↔ (Json.floatFormat.layout x).toDouble? = some y :=
  Document.parse_render_eq_ok_iff x.regular_layout

end Double

namespace Literal

theorem int64?_ofInt (n : Int64) : int64? (.ofInt n.toInt) = some n := by
  unfold int64?
  rw [Json.int?_ofInt]
  dsimp only
  rw [if_pos ⟨n.minValue_le_toInt, n.toInt_le⟩, Int64.ofInt_toInt]

/-- A literal is decoded from its document, unless it is a float that its numeral is not read as. -/
theorem ofJson?_toJson_iff {l : Literal} :
    ofJson? l.toJson = some l ↔ ∀ x, l = .float x → (Json.floatFormat.layout x).toDouble? = some x := by
  cases l with
  | unit => simp [toJson, ofJson?, Json.name?_ofString]
  | int n =>
    rw [toJson, ofJson?, Json.name?_variant _ (by simp [Json.ofInt]), if_neg (by simp), Json.variant?_variant]
    simp [int64?_ofInt]
  | float x =>
    rw [toJson, ofJson?, Json.name?_variant _ (by simp), if_neg (by simp), Json.variant?_variant]
    simp [double?]
  | bool b =>
    rw [toJson, ofJson?, Json.name?_variant _ (by simp), if_neg (by simp), Json.variant?_variant]
    simp [Json.bool?]
  | string s =>
    rw [toJson, ofJson?, Json.name?_variant _ (by simp [Json.ofString]), if_neg (by simp), Json.variant?_variant]
    simp [Json.string?_ofString]

/-- A float has a document of its own. -/
theorem eq_of_toJson_float {x : Double} {l : Literal} (h : (float x).toJson = l.toJson) : l = float x := by
  cases l with
  | float y =>
    simp only [toJson, Json.variant_inj, Json.num.injEq, true_and] at h
    rw [Json.floatFormat.layout_injective h]
  | _ => simp [toJson] at h

@[simp]
theorem toJson_inj {l k : Literal} : l.toJson = k.toJson ↔ l = k := by
  refine ⟨fun h => ?_, congrArg _⟩
  by_cases hl : ∃ x, l = float x
  · obtain ⟨x, rfl⟩ := hl
    exact (eq_of_toJson_float h).symm
  · by_cases hk : ∃ y, k = float y
    · obtain ⟨y, rfl⟩ := hk
      exact eq_of_toJson_float h.symm
    · -- all other literals can be decoded
      have hread := ofJson?_toJson_iff.2 fun x hx => absurd ⟨x, hx⟩ hl
      rw [h, ofJson?_toJson_iff.2 fun y hy => absurd ⟨y, hy⟩ hk] at hread
      exact (Option.some.inj hread).symm

theorem regular_toJson (l : Literal) : l.toJson.Regular := by
  cases l with
  | unit => exact Json.regular_ofString _
  | int n =>
    have hlow := n.minValue_le_toInt
    have hhigh := n.toInt_le
    refine Json.regular_variant _ (Json.regular_ofInt ?_)
    change _ < 18446744073709551616
    change -9223372036854775808 ≤ _ at hlow
    change _ ≤ 9223372036854775807 at hhigh
    omega
  | float x => exact Json.regular_variant _ x.regular_layout
  | bool b => exact Json.regular_variant _ (.bool b)
  | string s => exact Json.regular_variant _ (Json.regular_ofString s)

end Literal

namespace Tag

theorem ofJson?_toJson (tag : Tag) : ofJson? tag.toJson = some tag := by
  cases tag with
  | tuple arity =>
    rw [toJson, ofJson?, Json.variant?_variant]
    simp only [Json.natBelow?_ofNat arity.toNat_lt, Option.map_some, UInt64.ofNat_toNat]
  | variant name =>
    rw [toJson, ofJson?, Json.variant?_variant]
    simp only [Json.string?_ofString, Option.map_some]

@[simp]
theorem toJson_inj {tag other : Tag} : tag.toJson = other.toJson ↔ tag = other := eq_iff_of_decode ofJson?_toJson

theorem regular_toJson (tag : Tag) : tag.toJson.Regular := by
  cases tag with
  | tuple arity => exact Json.regular_variant _ (Json.regular_ofNat arity.toNat_lt)
  | variant name => exact Json.regular_variant _ (Json.regular_ofString name)

end Tag

namespace Pattern

theorem toJsonEach_eq_map (ps : List Pattern) : toJsonEach ps = ps.map toJson := by
  induction ps with
  | nil => rw [toJsonEach, List.map_nil]
  | cons p ps ih => rw [toJsonEach, List.map_cons, ih]

theorem ofJson?_toJson (p : Pattern) : ofJson? p.toJson = some p := by
  induction p using Pattern.induct with
  | var name => rw [toJson, ofJson?_var, Json.string?_ofString]; rfl
  | ctor ty tag args ih =>
    rw [toJson, ofJson?_ctor, Ty.ofJson?_toJson, Tag.ofJson?_toJson, toJsonEach_eq_map, Json.each?_map_iff.2 ih]
    rfl

@[simp]
theorem toJson_inj {p q : Pattern} : p.toJson = q.toJson ↔ p = q := eq_iff_of_decode ofJson?_toJson

theorem regular_toJson (p : Pattern) : p.toJson.Regular := by
  induction p using Pattern.induct with
  | var name => rw [toJson]; exact Json.regular_variant _ (Json.regular_ofString name)
  | ctor ty tag args ih =>
    rw [toJson, toJsonEach_eq_map]
    exact Json.regular_variant _ (Json.regular_record ["ty", "tag", "args"] [_, _, _] (by decide) rfl
      ⟨ty.regular_toJson, tag.regular_toJson, Json.regular_arr_map ih⟩)

end Pattern

/-! ## Terms -/

namespace Term

/-- Every float in the term is read back from its own text. -/
def FloatsReadBack (t : Term) : Prop :=
  ∀ steps x, t.at? steps = some (.lit (.float x)) → Document.parse Literal.double? x.canonical = .ok x

/-- The floats of a term are the term itself, if it is one, and those of its immediate subterms. -/
theorem floatsReadBack_iff {t : Term} :
    t.FloatsReadBack ↔ (∀ x, t = .lit (.float x) → Document.parse Literal.double? x.canonical = .ok x) ∧
      ∀ u ∈ t.children, u.FloatsReadBack := by
  constructor
  · intro h
    refine ⟨fun x hx => h [] x (congrArg some hx), fun u hu steps x hx => ?_⟩
    obtain ⟨step, hstep⟩ := mem_children_iff.1 hu
    refine h (step :: steps) x ?_
    rw [at?_cons, hstep]
    exact hx
  · rintro ⟨hself, hchildren⟩ steps x hx
    cases steps with
    | nil => exact hself x (Option.some.inj hx)
    | cons step steps =>
      rw [at?_cons] at hx
      obtain ⟨u, hu, hx⟩ := Option.bind_eq_some_iff.1 hx
      exact hchildren u (mem_children_iff.2 ⟨step, hu⟩) steps x hx

/-- The document of a branch. -/
def branchToJson (b : Pattern × Term) : Json := .record [("pat", b.1.toJson), ("body", b.2.toJson)]

theorem toJsonEach_eq_map (ts : List Term) : toJsonEach ts = ts.map toJson := by
  induction ts with
  | nil => rw [toJsonEach, List.map_nil]
  | cons t ts ih => rw [toJsonEach, List.map_cons, ih]

theorem toJsonBranches_eq_map (bs : List (Pattern × Term)) : toJsonBranches bs = bs.map branchToJson := by
  induction bs with
  | nil => rw [toJsonBranches, List.map_nil]
  | cons b bs ih => rw [toJsonBranches, List.map_cons, ih, branchToJson]

theorem branchOfJson?_branchToJson_iff {b : Pattern × Term} :
    branchOfJson? (branchToJson b) = some b ↔ ofJson? b.2.toJson = some b.2 := by
  obtain ⟨p, body⟩ := b
  rw [branchToJson, branchOfJson?_record, Pattern.ofJson?_toJson]
  simp [Option.bind_eq_some_iff]

/-- A node is decoded from its document if and only if its immediate subterms are, and the node itself if it is a
float. -/
theorem ofJson?_toJson_iff_children (t : Term) :
    ofJson? t.toJson = some t ↔
      (∀ x, t = .lit (.float x) → (Json.floatFormat.layout x).toDouble? = some x) ∧
        ∀ u ∈ t.children, ofJson? u.toJson = some u := by
  cases t with
  | lit l =>
    rw [toJson, ofJson?_lit]
    simp [children, Literal.ofJson?_toJson_iff]
  | var ty name =>
    rw [toJson, ofJson?_var, Ty.ofJson?_toJson, Json.string?_ofString]
    simp [children]
  | list ty elems eff =>
    rw [toJson, ofJson?_list, Ty.ofJson?_toJson, toJsonEach_eq_map, Effect.ofJson?_toJson]
    simp [children, Option.bind_eq_some_iff, Json.each?_map_iff]
  | ctor ty tag args eff =>
    rw [toJson, ofJson?_ctor, Ty.ofJson?_toJson, Tag.ofJson?_toJson, toJsonEach_eq_map, Effect.ofJson?_toJson]
    simp [children, Option.bind_eq_some_iff, Json.each?_map_iff]
  | cases ty scrutinee branches eff =>
    rw [toJson, ofJson?_cases, Ty.ofJson?_toJson, toJsonBranches_eq_map, Effect.ofJson?_toJson, children,
      List.forall_mem_cons, List.forall_mem_map]
    simp [Option.bind_eq_some_iff, Json.each?_map_iff, branchOfJson?_branchToJson_iff]
  | lambda ty param paramTy body =>
    rw [toJson, ofJson?_lambda, Ty.ofJson?_toJson, Json.string?_ofString, Ty.ofJson?_toJson]
    simp [children, Option.bind_eq_some_iff]
  | apply ty fn argTy arg eff =>
    rw [toJson, ofJson?_apply, Ty.ofJson?_toJson, Ty.ofJson?_toJson, Effect.ofJson?_toJson]
    simp [children, Option.bind_eq_some_iff]
  | letIn name boundTy bound body ty eff =>
    rw [toJson, ofJson?_letIn, Json.string?_ofString, Ty.ofJson?_toJson, Ty.ofJson?_toJson, Effect.ofJson?_toJson]
    simp [children, Option.bind_eq_some_iff]
  | cond ty test thenBranch elseBranch eff =>
    rw [toJson, ofJson?_cond, Ty.ofJson?_toJson, Effect.ofJson?_toJson]
    simp [children, Option.bind_eq_some_iff]

theorem ofJson?_toJson_iff {t : Term} : ofJson? t.toJson = some t ↔ t.FloatsReadBack := by
  induction t using induct_children with
  | node t ih =>
    rw [ofJson?_toJson_iff_children, floatsReadBack_iff, forall₂_congr ih]
    simp only [Double.parse_canonical_iff]

theorem eq_of_branchToJson_eq {b c : Pattern × Term} (hbody : ∀ u, b.2.toJson = u.toJson → b.2 = u)
    (h : branchToJson b = branchToJson c) : b = c := by
  simp only [branchToJson, Json.record_inj, List.cons.injEq, Prod.mk.injEq, Pattern.toJson_inj, true_and, and_true] at h
  exact Prod.ext h.1 (hbody c.2 h.2)

/-- No two terms have the same document: the forms have different names, and the parts tell the rest apart. -/
theorem toJson_injective : Function.Injective toJson := by
  intro t u h
  induction t using Term.induct generalizing u with
  | lit l =>
    cases u with
    | lit l' => simpa [toJson] using h
    | _ => simp [toJson] at h
  | var ty name =>
    cases u with
    | var ty' name' => simpa [toJson] using h
    | _ => simp [toJson] at h
  | list ty elems eff ih =>
    cases u with
    | list ty' elems' eff' =>
      obtain ⟨rfl, helems, rfl⟩ : ty = ty' ∧ elems.map toJson = elems'.map toJson ∧ eff = eff' := by
        simpa [toJson, toJsonEach_eq_map] using h
      rw [Json.eq_of_map_eq ih helems]
    | _ => simp [toJson] at h
  | ctor ty tag args eff ih =>
    cases u with
    | ctor ty' tag' args' eff' =>
      obtain ⟨rfl, rfl, hargs, rfl⟩ :
          ty = ty' ∧ tag = tag' ∧ args.map toJson = args'.map toJson ∧ eff = eff' := by
        simpa [toJson, toJsonEach_eq_map] using h
      rw [Json.eq_of_map_eq ih hargs]
    | _ => simp [toJson] at h
  | cases ty scrutinee branches eff ihs ihb =>
    cases u with
    | cases ty' scrutinee' branches' eff' =>
      obtain ⟨rfl, hscrutinee, hbranches, rfl⟩ : ty = ty' ∧ scrutinee.toJson = scrutinee'.toJson ∧
          branches.map branchToJson = branches'.map branchToJson ∧ eff = eff' := by
        simpa [toJson, toJsonBranches_eq_map] using h
      rw [ihs hscrutinee, Json.eq_of_map_eq (fun b hb c => eq_of_branchToJson_eq (ihb b hb)) hbranches]
    | _ => simp [toJson] at h
  | lambda ty param paramTy body ih =>
    cases u with
    | lambda ty' param' paramTy' body' =>
      obtain ⟨rfl, rfl, rfl, hbody⟩ :
          ty = ty' ∧ param = param' ∧ paramTy = paramTy' ∧ body.toJson = body'.toJson := by
        simpa [toJson] using h
      rw [ih hbody]
    | _ => simp [toJson] at h
  | apply ty fn argTy arg eff ihf iha =>
    cases u with
    | apply ty' fn' argTy' arg' eff' =>
      obtain ⟨rfl, hfn, rfl, harg, rfl⟩ :
          ty = ty' ∧ fn.toJson = fn'.toJson ∧ argTy = argTy' ∧ arg.toJson = arg'.toJson ∧ eff = eff' := by
        simpa [toJson] using h
      rw [ihf hfn, iha harg]
    | _ => simp [toJson] at h
  | letIn name boundTy bound body ty eff ihbound ihbody =>
    cases u with
    | letIn name' boundTy' bound' body' ty' eff' =>
      obtain ⟨rfl, rfl, hbound, hbody, rfl, rfl⟩ : name = name' ∧ boundTy = boundTy' ∧
          bound.toJson = bound'.toJson ∧ body.toJson = body'.toJson ∧ ty = ty' ∧ eff = eff' := by
        simpa [toJson] using h
      rw [ihbound hbound, ihbody hbody]
    | _ => simp [toJson] at h
  | cond ty test thenBranch elseBranch eff iht ihthen ihelse =>
    cases u with
    | cond ty' test' thenBranch' elseBranch' eff' =>
      obtain ⟨rfl, htest, hthen, helse, rfl⟩ : ty = ty' ∧ test.toJson = test'.toJson ∧
          thenBranch.toJson = thenBranch'.toJson ∧ elseBranch.toJson = elseBranch'.toJson ∧ eff = eff' := by
        simpa [toJson] using h
      rw [iht htest, ihthen hthen, ihelse helse]
    | _ => simp [toJson] at h

/-- A node of a term is an alternative with a record of regular parts. -/
theorem regular_node (name : String) (names : List String) (docs : List Json) (hnames : names.Nodup)
    (hlength : names.length = docs.length) (h : docs.Forall Json.Regular) :
    (Json.variant name (.record (names.zip docs))).Regular :=
  Json.regular_variant _ (Json.regular_record names docs hnames hlength h)

theorem regular_branchToJson {b : Pattern × Term} (h : b.2.toJson.Regular) : (branchToJson b).Regular :=
  Json.regular_record ["pat", "body"] [_, _] (by decide) rfl ⟨b.1.regular_toJson, h⟩

theorem regular_toJson (t : Term) : t.toJson.Regular := by
  induction t using Term.induct with
  | lit l => rw [toJson]; exact Json.regular_variant _ l.regular_toJson
  | var ty name =>
    rw [toJson]
    exact regular_node _ ["ty", "name"] [_, _] (by decide) rfl ⟨ty.regular_toJson, Json.regular_ofString name⟩
  | list ty elems eff ih =>
    rw [toJson, toJsonEach_eq_map]
    exact regular_node _ ["ty", "elems", "eff"] [_, _, _] (by decide) rfl
      ⟨ty.regular_toJson, Json.regular_arr_map ih, eff.regular_toJson⟩
  | ctor ty tag args eff ih =>
    rw [toJson, toJsonEach_eq_map]
    exact regular_node _ ["ty", "tag", "args", "eff"] [_, _, _, _] (by decide) rfl
      ⟨ty.regular_toJson, tag.regular_toJson, Json.regular_arr_map ih, eff.regular_toJson⟩
  | cases ty scrutinee branches eff ihs ihb =>
    rw [toJson, toJsonBranches_eq_map]
    exact regular_node _ ["ty", "scrutinee", "cases", "eff"] [_, _, _, _] (by decide) rfl
      ⟨ty.regular_toJson, ihs, Json.regular_arr_map fun b hb => regular_branchToJson (ihb b hb), eff.regular_toJson⟩
  | lambda ty param paramTy body ih =>
    rw [toJson]
    exact regular_node _ ["ty", "param", "param_ty", "body"] [_, _, _, _] (by decide) rfl
      ⟨ty.regular_toJson, Json.regular_ofString param, paramTy.regular_toJson, ih⟩
  | apply ty fn argTy arg eff ihf iha =>
    rw [toJson]
    exact regular_node _ ["ty", "fun", "arg_ty", "arg", "eff"] [_, _, _, _, _] (by decide) rfl
      ⟨ty.regular_toJson, ihf, argTy.regular_toJson, iha, eff.regular_toJson⟩
  | letIn name boundTy bound body ty eff ihbound ihbody =>
    rw [toJson]
    exact regular_node _ ["name", "bound_ty", "bound", "body", "ty", "eff"] [_, _, _, _, _, _] (by decide) rfl
      ⟨Json.regular_ofString name, boundTy.regular_toJson, ihbound, ihbody, ty.regular_toJson, eff.regular_toJson⟩
  | cond ty test thenBranch elseBranch eff iht ihthen ihelse =>
    rw [toJson]
    exact regular_node _ ["ty", "cond", "then_branch", "else_branch", "eff"] [_, _, _, _, _] (by decide) rfl
      ⟨ty.regular_toJson, iht, ihthen, ihelse, eff.regular_toJson⟩

end Term

/-! ## Paths -/

/-- Can the number of the step be an index? -/
def Step.isAddressable : Step → Bool
  | listElem i | ctorArg i | branchBody i | branchPattern i | subpattern i => i < UInt64.size
  | _ => true

theorem Step.ofJson?_toJson {step : Step} (h : step.isAddressable = true) : Step.ofJson? step.toJson = some step := by
  cases step with
  | listElem i | ctorArg i | branchBody i | branchPattern i | subpattern i =>
    have hindex := Json.natBelow?_ofNat (of_decide_eq_true h)
    have hname (name : String) : (Json.variant name (.ofNat i)).name? = none :=
      Json.name?_variant name (by simp [Json.ofNat])
    simp only [Step.ofJson?, Step.toJson, hname, Option.bind_none, Json.variant?_variant, hindex]
    rfl
  | _ => simp only [Step.ofJson?, Step.toJson, Json.name?_ofString, Option.bind_some, Step.ofName?]

theorem Step.regular_toJson {step : Step} (h : step.isAddressable = true) : step.toJson.Regular := by
  cases step with
  | listElem i | ctorArg i | branchBody i | branchPattern i | subpattern i =>
    exact Json.regular_variant _ (Json.regular_ofNat (of_decide_eq_true h))
  | _ => exact Json.regular_ofString _

namespace Path

theorem ofJson?_toJson {p : Path} (h : ∀ step ∈ p.steps, step.isAddressable = true) : ofJson? p.toJson = some p := by
  have hrecord : Json.record? ["steps"] p.toJson = some [⟨.arr (p.steps.map Step.toJson), _⟩] :=
    Json.record?_record ["steps"] [.arr (p.steps.map Step.toJson)] (by decide) rfl
  have hsteps : (p.steps.map Step.toJson).mapM Step.ofJson? = some (p.steps.map id) :=
    Json.mapM_map_eq_some fun step hstep => Step.ofJson?_toJson (h step hstep)
  unfold ofJson?
  rw [hrecord]
  dsimp only
  rw [hsteps, List.map_id]
  rfl

theorem regular_toJson {p : Path} (h : ∀ step ∈ p.steps, step.isAddressable = true) : p.toJson.Regular :=
  Json.regular_variant "steps" (Json.regular_arr_map fun step hstep => Step.regular_toJson (h step hstep))

end Path

/-! ## Substitutions -/

namespace TypeVar

theorem ofKey?_toKey (v : TypeVar) : ofKey? v.toKey = some v := by
  have hrender : (Numeral.ofNat v.index.toNat).render true = v.toKey.raw := by
    simp [Numeral.render, Numeral.ofNat, toKey]
  have hscan := (Json.Token.Reads.numeral (Numeral.readable_ofNat v.index.toNat)).scan
  rw [hrender] at hscan
  unfold ofKey?
  rw [hscan]
  dsimp only
  rw [if_pos hrender]
  exact v.ofJson?_toJson

/-- The name of a variable as a field is a string of digits. -/
theorem toKey_eq_encode (v : TypeVar) : v.toKey = .encode (String.ofList (Numeral.digitsOf v.index.toNat)) :=
  (Json.Quoted.encode_digits fun _ => Numeral.isDigit_of_mem_digitsOf).symm

theorem digits_injective :
    Function.Injective fun v : TypeVar => String.ofList (Numeral.digitsOf v.index.toNat) := by
  intro v w h
  have hindex := congrArg Numeral.ofDigits (String.ofList_injective h)
  rw [Numeral.ofDigits_digitsOf, Numeral.ofDigits_digitsOf] at hindex
  exact congrArg TypeVar.mk (UInt32.toNat_inj.1 hindex)

end TypeVar

namespace Subst

theorem bindingOfJson?_toJson (v : TypeVar) (t : Ty) : bindingOfJson? (v.toKey, t.toJson) = some (v, t) := by
  unfold bindingOfJson?
  rw [TypeVar.ofKey?_toKey, Ty.ofJson?_toJson]
  rfl

theorem ofJson?_toJson (s : Subst) : ofJson? s.toJson = some s := by
  have hbindings : (s.toList.map fun binding => (binding.1.toKey, binding.2.toJson)).mapM bindingOfJson? =
      some (s.toList.map id) :=
    Json.mapM_map_eq_some fun binding _ => bindingOfJson?_toJson binding.1 binding.2
  rw [toJson, ofJson?_record, hbindings, List.map_id]
  exact congrArg some s.ofList_toList

theorem regular_toJson (s : Subst) : s.toJson.Regular := by
  refine Json.regular_variant "map" ?_
  have hfields : (s.toList.map fun binding => (binding.1.toKey, binding.2.toJson)) =
      (s.toList.map fun binding => (String.ofList (Numeral.digitsOf binding.1.index.toNat), binding.2.toJson)).map
        fun f => (Json.Quoted.encode f.1, f.2) := by
    rw [List.map_map]
    exact List.map_congr_left fun binding _ => by rw [TypeVar.toKey_eq_encode]; rfl
  rw [hfields]
  refine .obj ?_ ?_
  · have hkeys := s.nodup_keys.map TypeVar.digits_injective
    rw [OrderedMap.keys, List.map_map] at hkeys
    rw [List.map_map]
    exact hkeys
  · intro f hf
    obtain ⟨binding, -, rfl⟩ := List.mem_map.1 hf
    exact binding.2.regular_toJson

end Subst

/-! ## Texts -/

/-- Decoding undoes encoding: the text of a type, a pattern, a path or a substitution is read as that value, and so is
the text of a term, if and only if its floats are read back from their own texts. Terms with the same text, from which
their fingerprint is made, are the same term, whatever their floats are read as. -/
theorem Document.parse_canonical :
    (∀ t : Term, Document.parse Term.ofJson? t.canonical = .ok t ↔ t.FloatsReadBack) ∧
      (∀ t : Ty, Document.parse Ty.ofJson? t.canonical = .ok t) ∧
      (∀ p : Pattern, Document.parse Pattern.ofJson? p.canonical = .ok p) ∧
      (∀ p : Path, (∀ step ∈ p.steps, step.isAddressable = true) → Document.parse Path.ofJson? p.canonical = .ok p) ∧
      (∀ s : Subst, Document.parse Subst.ofJson? s.canonical = .ok s) ∧
      ∀ t u : Term, t.canonical = u.canonical → t = u := by
  refine ⟨?_, ?_, ?_, ?_, ?_, ?_⟩
  · exact fun t => (parse_render_eq_ok_iff t.regular_toJson).trans Term.ofJson?_toJson_iff
  · exact fun t => (parse_render_eq_ok_iff t.regular_toJson).2 t.ofJson?_toJson
  · exact fun p => (parse_render_eq_ok_iff p.regular_toJson).2 p.ofJson?_toJson
  · exact fun p hp => (parse_render_eq_ok_iff (Path.regular_toJson hp)).2 (Path.ofJson?_toJson hp)
  · exact fun s => (parse_render_eq_ok_iff s.regular_toJson).2 s.ofJson?_toJson
  · intro t u h
    have ht := Json.parse?_render t.regular_toJson
    have hu := Json.parse?_render u.regular_toJson
    change Json.parse? t.canonical = _ at ht
    rw [h] at ht
    exact Term.toJson_injective (Option.some.inj (ht.symm.trans hu))

/-- A term with a float that is read back, a path with numbers in it, and terms told apart by their texts. -/
theorem Document.parse_branch_canonical :
    Document.parse Term.ofJson?
        (Term.list (.list (.base .float)) [.lit (.float ⟨false, 1019, 2702159776422298⟩)] .pure).canonical =
        .ok (.list (.list (.base .float)) [.lit (.float ⟨false, 1019, 2702159776422298⟩)] .pure) ∧
      Document.parse Path.ofJson? (Path.canonical ⟨[.branchBody 2, .letBody, .listElem 0]⟩) =
        .ok ⟨[.branchBody 2, .letBody, .listElem 0]⟩ ∧
      (Term.lit (.string "\"\n")).canonical ≠ (Term.lit (.string "\\\"\\n")).canonical := by
  have htenth : Document.parse Literal.double? (Double.canonical ⟨false, 1019, 2702159776422298⟩) =
      .ok ⟨false, 1019, 2702159776422298⟩ := Double.parse_canonical_iff.2 (by decide +kernel)
  have hfloat : (Term.lit (.float ⟨false, 1019, 2702159776422298⟩)).FloatsReadBack :=
    Term.floatsReadBack_iff.2 ⟨by rintro x ⟨⟩; exact htenth, List.forall_mem_nil _⟩
  obtain ⟨hterm, -, -, hpath, -, hterms⟩ := Document.parse_canonical
  refine ⟨(hterm _).2 (Term.floatsReadBack_iff.2 ⟨by rintro x ⟨⟩, ?_⟩), hpath _ (by decide), fun h => ?_⟩
  · exact List.forall_mem_singleton.2 hfloat
  · have := hterms _ _ h
    simp at this

end EffectTyping
