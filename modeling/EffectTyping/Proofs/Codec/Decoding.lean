/-
How the decoders take documents apart, as one equation for each form: what a decoder makes of an alternative whose
content is a record of arbitrary documents, in terms of what it makes of them.
-/
import EffectTyping.Codec.Term
import EffectTyping.Proofs.Json.Scan

namespace EffectTyping

namespace Json

/-! ## Simple parts -/

theorem string?_ofString (s : String) : (ofString s).string? = some s := Quoted.decode?_encode s

theorem name?_ofString (s : String) : (ofString s).name? = some s := Quoted.decode?_encode s

theorem int?_ofInt (n : Int) : (ofInt n).int? = some n := Numeral.toInt?_ofInt n

theorem natBelow?_ofNat {n limit : Nat} (h : n < limit) : (ofNat n).natBelow? limit = some n := by
  have hint : (ofNat n).int? = some (.ofNat n) := Numeral.toInt?_ofNat n
  unfold natBelow?
  rw [hint]
  exact if_pos h

/-! ## Lists of parts -/

theorem mapM_map_eq_some {α β γ : Type} {f : α → β} {g : β → Option γ} {r : α → γ} {l : List α}
    (h : ∀ a ∈ l, g (f a) = some (r a)) : (l.map f).mapM g = some (l.map r) := by
  induction l with
  | nil => rfl
  | cons a l ih =>
    obtain ⟨ha, hl⟩ := List.forall_mem_cons.1 h
    rw [List.map_cons, List.mapM_cons, ha, ih hl]
    rfl

/-- What a decoder makes of the items of an array. -/
def each? {α : Type} (decode? : Json → Option α) (j : Json) : Option (List α) :=
  j.items?.bind fun items => items.mapM fun item => decode? item.1

theorem each?_arr {α : Type} (decode? : Json → Option α) (items : List Json) :
    (Json.arr items).each? decode? = items.mapM decode? := by
  unfold each? items?
  rw [Option.bind_some, List.mapM_map]
  conv_rhs => rw [← List.attach_map_subtype_val items, List.mapM_map]
  rfl

/-! ## Records and alternatives -/

theorem sizeOf_record {fields : List (String × Json)} {f : String × Json} (h : f ∈ fields) :
    sizeOf f.2 < sizeOf (record fields) := by
  have hfield : ((Quoted.encode f.1, f.2) : Quoted × Json) ∈ fields.map fun f => (.encode f.1, f.2) :=
    List.mem_map.2 ⟨f, h, rfl⟩
  exact sizeOf_field hfield

/-- The fields of a record as parts of it. -/
def recordParts (fields : List (String × Json)) : List (String × (record fields).Part) :=
  fields.attach.map fun f => (f.1.1, ⟨f.1.2, sizeOf_record f.2⟩)

theorem map_fst_recordParts (fields : List (String × Json)) :
    (recordParts fields).map (·.1) = fields.map (·.1) := by
  unfold recordParts
  rw [List.map_map]
  exact List.attach_map_val (f := fun f : String × Json => f.1)

theorem fields?_record (fields : List (String × Json)) : (record fields).fields? = some (recordParts fields) := by
  unfold record fields?
  dsimp only
  rw [List.attach_map]
  refine mapM_map_eq_some fun f _ => ?_
  dsimp only
  rw [Quoted.decode?_encode]
  rfl

/-- Among fields with different names, the one with a name is found by it. -/
theorem only?_of_mem {α : Type} {fields : List (String × α)} {f : String × α} (hnames : (fields.map (·.1)).Nodup)
    (h : f ∈ fields) : only? f.1 fields = some f.2 := by
  have hfilter : fields.filter (·.1 == f.1) = [f] := by
    induction fields with
    | nil => cases h
    | cons g fields ih =>
      rw [List.map_cons, List.nodup_cons] at hnames
      rcases List.mem_cons.1 h with rfl | h
      · rw [List.filter_cons_of_pos (by simp), List.filter_eq_nil_iff.2]
        intro g hg heq
        rw [beq_iff_eq] at heq
        exact hnames.1 (heq ▸ List.mem_map_of_mem hg)
      · have hne : g.1 ≠ f.1 := by
          intro heq
          exact hnames.1 (heq ▸ List.mem_map_of_mem h)
        rw [List.filter_cons_of_neg (by simpa using hne)]
        exact ih hnames.2 h
  unfold only?
  rw [hfilter]

theorem mapM_only? {α : Type} {fields : List (String × α)} (hnames : (fields.map (·.1)).Nodup) :
    (fields.map (·.1)).mapM (only? · fields) = some (fields.map (·.2)) :=
  mapM_map_eq_some fun _ hf => only?_of_mem hnames hf

/-- The fields of a record with different names are found by them. -/
theorem record?_record (names : List String) (docs : List Json) (hnames : names.Nodup)
    (hlength : names.length = docs.length) :
    (record (names.zip docs)).record? names = some ((recordParts (names.zip docs)).map (·.2)) := by
  have hitems : (record (names.zip docs)).items? = none := rfl
  have hfst : (recordParts (names.zip docs)).map (·.1) = names := by
    rw [map_fst_recordParts, List.map_fst_zip (by omega)]
  have hfound := mapM_only? (hfst.symm ▸ hnames)
  rw [hfst] at hfound
  unfold record?
  rw [hitems, fields?_record]
  exact hfound

theorem sizeOf_variant (name : String) (content : Json) : sizeOf content < sizeOf (variant name content) :=
  sizeOf_record (List.mem_singleton_self (name, content))

/-- The content of an alternative is found with its name. -/
theorem variant?_variant (name : String) (content : Json) :
    (variant name content).variant? = some (name, ⟨content, sizeOf_variant name content⟩) := by
  have hfields : (variant name content).fields? = some [(name, ⟨content, sizeOf_variant name content⟩)] :=
    fields?_record [(name, content)]
  unfold variant?
  rw [hfields]

/-- An alternative with a content is not a name alone. -/
theorem name?_variant (name : String) {content : Json} (h : content ≠ .null) : (variant name content).name? = none := by
  cases content with
  | null => exact absurd rfl h
  | _ => rfl

end Json

/-! ## Types -/

namespace Ty

theorem ofJson?_var (content : Json) : ofJson? (.variant "Var" content) = (TypeVar.ofJson? content).map .var := by
  rw [ofJson?, Json.variant?_variant]
  rfl

theorem ofJson?_base (content : Json) : ofJson? (.variant "Const" content) = (BaseTy.ofJson? content).map .base := by
  rw [ofJson?, Json.variant?_variant]
  rfl

theorem ofJson?_option (content : Json) : ofJson? (.variant "Option" content) = (ofJson? content).map .option := by
  rw [ofJson?, Json.variant?_variant]
  rfl

theorem ofJson?_list (content : Json) : ofJson? (.variant "List" content) = (ofJson? content).map .list := by
  rw [ofJson?, Json.variant?_variant]
  rfl

theorem ofJson?_tuple (content : Json) :
    ofJson? (.variant "Tuple" content) = (content.each? ofJson?).map .tuple := by
  rw [ofJson?, Json.variant?_variant]
  simp only [Json.each?]
  cases content.items? with
  | none => rfl
  | some items => rfl

theorem ofJson?_arrow (arg eff res : Json) :
    ofJson? (.variant "Arrow" (.arr [arg, eff, res])) = (do
      let arg ← ofJson? arg
      let eff ← Effect.ofJson? eff
      let res ← ofJson? res
      some (.arrow arg eff res)) := by
  rw [ofJson?, Json.variant?_variant]
  rfl

end Ty

/-! ## Substitutions -/

namespace Subst

/-- What is made of a binding: a field named by the number of a variable. -/
def bindingOfJson? (f : Json.Quoted × Json) : Option (TypeVar × Ty) := do
  let v ← TypeVar.ofKey? f.1
  let t ← Ty.ofJson? f.2
  some (v, t)

theorem ofJson?_record (fields : List (Json.Quoted × Json)) :
    ofJson? (.record [("map", .obj fields)]) = (do
      let bindings ← fields.mapM bindingOfJson?
      some (.ofList bindings)) := by
  have hrecord : Json.record? ["map"] (.record [("map", .obj fields)]) = some [⟨.obj fields, _⟩] :=
    Json.record?_record ["map"] [.obj fields] (by decide) rfl
  unfold ofJson?
  rw [hrecord]
  rfl

end Subst

/-! ## Patterns -/

namespace Pattern

theorem ofJson?_var (content : Json) : ofJson? (.variant "Var" content) = content.string?.map .var := by
  rw [ofJson?, Json.variant?_variant]
  rfl

theorem ofJson?_ctor (ty tag args : Json) :
    ofJson? (.variant "Ctor" (.record [("ty", ty), ("tag", tag), ("args", args)])) = (do
      let ty ← Ty.ofJson? ty
      let tag ← Tag.ofJson? tag
      let args ← args.each? ofJson?
      some (.ctor ty tag args)) := by
  have hrecord : Json.record? ["ty", "tag", "args"] (.record [("ty", ty), ("tag", tag), ("args", args)]) =
      some [⟨ty, _⟩, ⟨tag, _⟩, ⟨args, _⟩] :=
    Json.record?_record ["ty", "tag", "args"] [ty, tag, args] (by decide) rfl
  rw [ofJson?, Json.variant?_variant]
  simp only [hrecord, Json.each?]
  cases args.items? with
  | none => simp
  | some items => rfl

end Pattern

/-! ## Terms -/

namespace Term

/-- What is made of a branch: a record of a pattern and a body. -/
def branchOfJson? (j : Json) : Option (Pattern × Term) :=
  match j.record? ["pat", "body"] with
  | some [⟨pat, _⟩, ⟨body, _⟩] => do
    let pat ← Pattern.ofJson? pat
    let body ← ofJson? body
    some (pat, body)
  | _ => none

theorem branchOfJson?_record (pat body : Json) :
    branchOfJson? (.record [("pat", pat), ("body", body)]) = (do
      let pat ← Pattern.ofJson? pat
      let body ← ofJson? body
      some (pat, body)) := by
  have hrecord : Json.record? ["pat", "body"] (.record [("pat", pat), ("body", body)]) = some [⟨pat, _⟩, ⟨body, _⟩] :=
    Json.record?_record ["pat", "body"] [pat, body] (by decide) rfl
  unfold branchOfJson?
  rw [hrecord]

theorem ofJson?_lit (content : Json) : ofJson? (.variant "Lit" content) = (Literal.ofJson? content).map .lit := by
  rw [ofJson?, Json.variant?_variant]
  rfl

theorem ofJson?_var (ty name : Json) :
    ofJson? (.variant "Variable" (.record [("ty", ty), ("name", name)])) = (do
      let ty ← Ty.ofJson? ty
      let name ← name.string?
      some (.var ty name)) := by
  have hrecord : Json.record? ["ty", "name"] (.record [("ty", ty), ("name", name)]) = some [⟨ty, _⟩, ⟨name, _⟩] :=
    Json.record?_record ["ty", "name"] [ty, name] (by decide) rfl
  rw [ofJson?, Json.variant?_variant]
  simp only [hrecord]

theorem ofJson?_list (ty elems eff : Json) :
    ofJson? (.variant "List" (.record [("ty", ty), ("elems", elems), ("eff", eff)])) = (do
      let ty ← Ty.ofJson? ty
      let elems ← elems.each? ofJson?
      let eff ← Effect.ofJson? eff
      some (.list ty elems eff)) := by
  have hrecord : Json.record? ["ty", "elems", "eff"] (.record [("ty", ty), ("elems", elems), ("eff", eff)]) =
      some [⟨ty, _⟩, ⟨elems, _⟩, ⟨eff, _⟩] :=
    Json.record?_record ["ty", "elems", "eff"] [ty, elems, eff] (by decide) rfl
  rw [ofJson?, Json.variant?_variant]
  simp only [hrecord, Json.each?]
  cases elems.items? with
  | none => simp
  | some items => rfl

theorem ofJson?_ctor (ty tag args eff : Json) :
    ofJson? (.variant "Ctor" (.record [("ty", ty), ("tag", tag), ("args", args), ("eff", eff)])) = (do
      let ty ← Ty.ofJson? ty
      let tag ← Tag.ofJson? tag
      let args ← args.each? ofJson?
      let eff ← Effect.ofJson? eff
      some (.ctor ty tag args eff)) := by
  have hrecord : Json.record? ["ty", "tag", "args", "eff"] (.record [("ty", ty), ("tag", tag), ("args", args),
      ("eff", eff)]) =
      some [⟨ty, _⟩, ⟨tag, _⟩, ⟨args, _⟩, ⟨eff, _⟩] :=
    Json.record?_record ["ty", "tag", "args", "eff"] [ty, tag, args, eff] (by decide) rfl
  rw [ofJson?, Json.variant?_variant]
  simp only [hrecord, Json.each?]
  cases args.items? with
  | none => simp
  | some items => rfl

theorem ofJson?_cases (ty scrutinee branches eff : Json) :
    ofJson? (.variant "Match" (.record [("ty", ty), ("scrutinee", scrutinee), ("cases", branches), ("eff", eff)])) =
      (do
      let ty ← Ty.ofJson? ty
      let scrutinee ← ofJson? scrutinee
      let branches ← branches.each? branchOfJson?
      let eff ← Effect.ofJson? eff
      some (.cases ty scrutinee branches eff)) := by
  have hrecord : Json.record? ["ty", "scrutinee", "cases", "eff"] (.record [("ty", ty), ("scrutinee", scrutinee),
      ("cases", branches), ("eff", eff)]) =
      some [⟨ty, _⟩, ⟨scrutinee, _⟩, ⟨branches, _⟩, ⟨eff, _⟩] :=
    Json.record?_record ["ty", "scrutinee", "cases", "eff"] [ty, scrutinee, branches, eff] (by decide) rfl
  rw [ofJson?, Json.variant?_variant]
  simp only [hrecord, Json.each?]
  cases branches.items? with
  | none => simp
  | some items => rfl

theorem ofJson?_lambda (ty param paramTy body : Json) :
    ofJson? (.variant "Lambda" (.record [("ty", ty), ("param", param), ("param_ty", paramTy), ("body", body)])) = (do
      let ty ← Ty.ofJson? ty
      let param ← param.string?
      let paramTy ← Ty.ofJson? paramTy
      let body ← ofJson? body
      some (.lambda ty param paramTy body)) := by
  have hrecord : Json.record? ["ty", "param", "param_ty", "body"] (.record [("ty", ty), ("param", param),
      ("param_ty", paramTy), ("body", body)]) =
      some [⟨ty, _⟩, ⟨param, _⟩, ⟨paramTy, _⟩, ⟨body, _⟩] :=
    Json.record?_record ["ty", "param", "param_ty", "body"] [ty, param, paramTy, body] (by decide) rfl
  rw [ofJson?, Json.variant?_variant]
  simp only [hrecord]

theorem ofJson?_apply (ty fn argTy arg eff : Json) :
    ofJson? (.variant "Apply" (.record [("ty", ty), ("fun", fn), ("arg_ty", argTy), ("arg", arg), ("eff", eff)])) =
      (do
      let ty ← Ty.ofJson? ty
      let fn ← ofJson? fn
      let argTy ← Ty.ofJson? argTy
      let arg ← ofJson? arg
      let eff ← Effect.ofJson? eff
      some (.apply ty fn argTy arg eff)) := by
  have hrecord : Json.record? ["ty", "fun", "arg_ty", "arg", "eff"] (.record [("ty", ty), ("fun", fn),
      ("arg_ty", argTy), ("arg", arg), ("eff", eff)]) =
      some [⟨ty, _⟩, ⟨fn, _⟩, ⟨argTy, _⟩, ⟨arg, _⟩, ⟨eff, _⟩] :=
    Json.record?_record ["ty", "fun", "arg_ty", "arg", "eff"] [ty, fn, argTy, arg, eff] (by decide) rfl
  rw [ofJson?, Json.variant?_variant]
  simp only [hrecord]

theorem ofJson?_letIn (name boundTy bound body ty eff : Json) :
    ofJson? (.variant "Let" (.record [("name", name), ("bound_ty", boundTy), ("bound", bound), ("body", body),
      ("ty", ty), ("eff", eff)])) = (do
      let name ← name.string?
      let boundTy ← Ty.ofJson? boundTy
      let bound ← ofJson? bound
      let body ← ofJson? body
      let ty ← Ty.ofJson? ty
      let eff ← Effect.ofJson? eff
      some (.letIn name boundTy bound body ty eff)) := by
  have hrecord : Json.record? ["name", "bound_ty", "bound", "body", "ty", "eff"] (.record [("name", name),
      ("bound_ty", boundTy), ("bound", bound), ("body", body), ("ty", ty), ("eff", eff)]) =
      some [⟨name, _⟩, ⟨boundTy, _⟩, ⟨bound, _⟩, ⟨body, _⟩, ⟨ty, _⟩, ⟨eff, _⟩] :=
    Json.record?_record ["name", "bound_ty", "bound", "body", "ty", "eff"] [name, boundTy, bound, body, ty, eff]
      (by decide) rfl
  rw [ofJson?, Json.variant?_variant]
  simp only [hrecord]

theorem ofJson?_cond (ty test thenBranch elseBranch eff : Json) :
    ofJson? (.variant "If" (.record [("ty", ty), ("cond", test), ("then_branch", thenBranch),
      ("else_branch", elseBranch), ("eff", eff)])) = (do
      let ty ← Ty.ofJson? ty
      let test ← ofJson? test
      let thenBranch ← ofJson? thenBranch
      let elseBranch ← ofJson? elseBranch
      let eff ← Effect.ofJson? eff
      some (.cond ty test thenBranch elseBranch eff)) := by
  have hrecord : Json.record? ["ty", "cond", "then_branch", "else_branch", "eff"] (.record [("ty", ty),
      ("cond", test), ("then_branch", thenBranch), ("else_branch", elseBranch), ("eff", eff)]) =
      some [⟨ty, _⟩, ⟨test, _⟩, ⟨thenBranch, _⟩, ⟨elseBranch, _⟩, ⟨eff, _⟩] :=
    Json.record?_record ["ty", "cond", "then_branch", "else_branch", "eff"] [ty, test, thenBranch, elseBranch, eff]
      (by decide) rfl
  rw [ofJson?, Json.variant?_variant]
  simp only [hrecord]

end Term

/-! ## Environments -/

theorem Env.ofJson?_record (fields : List (String × Json)) :
    Env.ofJson? (.record fields) =
      (fields.mapM fun f => (Ty.ofJson? f.2).map fun t => (f.1, t)).map .ofList := by
  unfold Env.ofJson?
  rw [Json.fields?_record]
  unfold Json.recordParts
  simp only [List.mapM_map]
  conv_rhs => rw [← List.attach_map_subtype_val fields, List.mapM_map]
  rfl

end EffectTyping
