/-
The flags that are no effect do not get past the decoders. Wherever and however often the pair `[false, true]` is put
in place of an effect into the document of a term, a type or an environment, decoding fails (`Json.Refused`, by
induction on the value), while the search through what the document says finds the pair; so the text is refused for the
pair.
-/
import EffectTyping.Proofs.Codec.RoundTrip
import EffectTyping.Proofs.Json.Places

namespace EffectTyping

namespace Json

/-- The pair of flags that is no effect. -/
def illegalPair : Json := .arr [.bool false, .bool true]

/-- The chosen places, one at least, are places where the document has the pair of an effect: the declared effect of a
node, or the latent effect of an arrow in one of the annotations. -/
structure EffectPlaces (chosen : Place → Bool) (j : Json) : Prop where
  some_chosen : ∃ place, chosen place = true
  effect : ∀ place, chosen place = true → ∃ e : Effect, j.at? place = some e.toJson

/-- One of the documents, of which the first has the number `i`, has chosen places of effects. -/
def SomePart (chosen : Place → Bool) (i : Nat) : List Json → Prop
  | [] => False
  | part :: parts => EffectPlaces (fun place => chosen (i :: place)) part ∨ SomePart chosen (i + 1) parts

variable {chosen : Place → Bool}

theorem somePart_of_chosen {parts : List Json} {i k : Nat} {place : Place} (h : chosen ((i + k) :: place) = true)
    (heffect : ∀ k place, chosen ((i + k) :: place) = true →
      ∃ e : Effect, (parts[k]?.bind fun part => part.at? place) = some e.toJson) : SomePart chosen i parts := by
  induction parts generalizing i k with
  | nil =>
    obtain ⟨e, he⟩ := heffect k place h
    cases he
  | cons part parts ih =>
    cases k with
    | zero => exact .inl ⟨⟨place, h⟩, heffect 0⟩
    | succ k =>
      have hshift (k : Nat) : i + 1 + k = i + (k + 1) := by omega
      refine .inr (ih (k := k) (by rwa [hshift]) fun k place hk => ?_)
      exact heffect (k + 1) place (by rwa [hshift] at hk)

namespace EffectPlaces

/-- Below the root, the chosen places are in the parts. -/
theorem somePart {j : Json} (parts : List Json) (h : EffectPlaces chosen j) (hroot : chosen [] = false)
    (hat : ∀ i place, j.at? (i :: place) = parts[i]?.bind fun part => part.at? place) : SomePart chosen 0 parts := by
  obtain ⟨place, hplace⟩ := h.some_chosen
  cases place with
  | nil => rw [hroot] at hplace; cases hplace
  | cons i place =>
    rw [← Nat.zero_add i] at hplace
    refine somePart_of_chosen hplace fun k place hk => ?_
    rw [Nat.zero_add] at hk
    obtain ⟨e, he⟩ := h.effect _ hk
    exact ⟨e, by rw [← hat, he]⟩

/-- What is no pair is not an effect. -/
theorem root_eq_false {j : Json} (h : EffectPlaces chosen j) (hj : ∀ e : Effect, j ≠ e.toJson) : chosen [] = false := by
  rw [Bool.eq_false_iff]
  intro hroot
  obtain ⟨e, he⟩ := h.effect [] hroot
  exact hj e (Option.some.inj he)

/-- Flags, numbers and strings have no effects. -/
theorem leaf_elim {j : Json} (h : EffectPlaces chosen j) (hj : ∀ e : Effect, j ≠ e.toJson)
    (hat : ∀ i place, j.at? (i :: place) = none) : False :=
  h.somePart [] (h.root_eq_false hj) hat

end EffectPlaces

/-- Put in place of effects, the pair that is no effect makes the decoder refuse the document. -/
def Refused {α : Type} (decode? : Json → Option α) (j : Json) : Prop :=
  ∀ chosen, EffectPlaces chosen j → decode? (replaceAt chosen illegalPair j) = none

section Refused

variable {α β : Type} {decode? : Json → Option α}

theorem refused_bool (b : Bool) : Refused decode? (.bool b) :=
  fun _ h => (h.leaf_elim (by simp [Effect.toJson]) fun _ _ => rfl).elim

theorem refused_num (n : Numeral) : Refused decode? (.num n) :=
  fun _ h => (h.leaf_elim (by simp [Effect.toJson]) fun _ _ => rfl).elim

theorem refused_ofString (s : String) : Refused decode? (ofString s) :=
  fun _ h => (h.leaf_elim (by simp [Effect.toJson, ofString]) fun _ _ => rfl).elim

theorem refused_record (names : List String) (docs : List Json) (hlength : names.length = docs.length)
    (h : ∀ chosen, SomePart chosen 0 docs →
      decode? (record (names.zip (replaceItems chosen illegalPair 0 docs))) = none) :
    Refused decode? (record (names.zip docs)) := by
  intro chosen hplaces
  have hroot := hplaces.root_eq_false (by simp [Effect.toJson, record])
  have hfst : (names.zip docs).map (·.1) = names := List.map_fst_zip hlength.le
  have hsnd : (names.zip docs).map (·.2) = docs := List.map_snd_zip hlength.ge
  have hparts := hplaces.somePart _ hroot (at?_record (names.zip docs))
  rw [hsnd] at hparts
  rw [replaceAt_record hroot, hfst, hsnd]
  exact h chosen hparts

theorem refused_variant {content? : Json → Option β} (name : String) {content : Json}
    (hdecode : ∀ c, content? c = none → decode? (variant name c) = none) (h : Refused content? content) :
    Refused decode? (variant name content) := by
  refine refused_record [name] [content] rfl fun chosen hpart => ?_
  rcases hpart with hpart | hpart
  · exact hdecode _ (h _ hpart)
  · exact hpart.elim

theorem refused_content (name : String) {content : Json} (h : Refused (fun c => decode? (variant name c)) content) :
    Refused decode? (variant name content) :=
  refused_variant name (fun _ hc => hc) h

/-- A node of a term, or of a pattern: an alternative with a record. -/
theorem refused_node (name : String) (names : List String) (docs : List Json) (hlength : names.length = docs.length)
    (h : ∀ chosen, SomePart chosen 0 docs →
      decode? (variant name (record (names.zip (replaceItems chosen illegalPair 0 docs)))) = none) :
    Refused decode? (variant name (record (names.zip docs))) :=
  refused_content name (refused_record names docs hlength h)

theorem mapM_replaceItems {items : List Json} (h : ∀ item ∈ items, Refused decode? item) {i : Nat}
    (hpart : SomePart chosen i items) : (replaceItems chosen illegalPair i items).mapM decode? = none := by
  induction items generalizing i with
  | nil => exact hpart.elim
  | cons item items ih =>
    obtain ⟨hitem, hitems⟩ := List.forall_mem_cons.1 h
    rw [replaceItems, List.mapM_cons]
    rcases hpart with hpart | hpart
    · rw [hitem _ hpart]
      rfl
    · rw [ih hitems hpart]
      simp

/-- A list is refused if its items are. The pair in place of the list itself is refused as a list of flags. -/
theorem refused_each {f : β → Json} {l : List β} (hflag : decode? (.bool false) = none)
    (h : ∀ b ∈ l, Refused decode? (f b)) : Refused (each? decode?) (.arr (l.map f)) := by
  intro chosen hplaces
  cases hroot : chosen [] with
  | true =>
    rw [replaceAt_root hroot, illegalPair, each?_arr, List.mapM_cons, hflag]
    rfl
  | false =>
    rw [replaceAt_arr hroot, each?_arr]
    refine mapM_replaceItems (fun item hitem => ?_) (hplaces.somePart _ hroot fun _ _ => rfl)
    obtain ⟨b, hb, rfl⟩ := List.mem_map.1 hitem
    exact h b hb

end Refused

end Json

/-! ## Types -/

theorem Effect.refused (e : Effect) : Json.Refused Effect.ofJson? e.toJson := by
  intro chosen h
  have hroot : chosen [] = true := by
    cases hroot : chosen [] with
    | true => rfl
    | false =>
      -- the flags themselves are no effects
      rcases h.somePart _ hroot (fun _ _ => rfl) with h | h | h
      · exact (h.leaf_elim (by simp [Effect.toJson]) fun _ _ => rfl).elim
      · exact (h.leaf_elim (by simp [Effect.toJson]) fun _ _ => rfl).elim
      · exact h.elim
  rw [Json.replaceAt_root hroot]
  rfl

theorem TypeVar.refused (v : TypeVar) : Json.Refused TypeVar.ofJson? v.toJson := Json.refused_num _

theorem BaseTy.refused (b : BaseTy) : Json.Refused BaseTy.ofJson? b.toJson := by
  cases b <;> exact Json.refused_ofString _

namespace Ty

theorem ofJson?_flag (b : Bool) : ofJson? (.bool b) = none := by
  rw [ofJson?]
  rfl

theorem refused (t : Ty) : Json.Refused ofJson? t.toJson := by
  induction t using Ty.induct with
  | var v =>
    rw [toJson]
    exact Json.refused_variant _ (fun c hc => by rw [ofJson?_var, hc]; rfl) v.refused
  | base b =>
    rw [toJson]
    exact Json.refused_variant _ (fun c hc => by rw [ofJson?_base, hc]; rfl) b.refused
  | option t ih =>
    rw [toJson]
    exact Json.refused_variant _ (fun c hc => by rw [ofJson?_option, hc]; rfl) ih
  | list t ih =>
    rw [toJson]
    exact Json.refused_variant _ (fun c hc => by rw [ofJson?_list, hc]; rfl) ih
  | tuple ts ih =>
    rw [toJson, toJsonEach_eq_map]
    exact Json.refused_variant _ (fun c hc => by rw [ofJson?_tuple, hc]; rfl) (Json.refused_each (ofJson?_flag _) ih)
  | arrow a e r iha ihr =>
    rw [toJson]
    refine Json.refused_content _ fun chosen h => ?_
    have hroot := h.root_eq_false (by simp [Effect.toJson])
    rw [Json.replaceAt_arr hroot]
    simp only [Json.replaceItems, ofJson?_arrow]
    rcases h.somePart _ hroot (fun _ _ => rfl) with h | h | h | h
    · simp [iha _ h]
    · simp [e.refused _ h]
    · simp [ihr _ h]
    · exact h.elim

end Ty

/-! ## Patterns -/

theorem Tag.refused (tag : Tag) : Json.Refused Tag.ofJson? tag.toJson := by
  cases tag with
  | tuple arity => exact Json.refused_content _ (Json.refused_num _)
  | variant name => exact Json.refused_content _ (Json.refused_ofString _)

namespace Pattern

theorem ofJson?_flag (b : Bool) : ofJson? (.bool b) = none := by
  rw [ofJson?]
  rfl

theorem refused (p : Pattern) : Json.Refused ofJson? p.toJson := by
  induction p using Pattern.induct with
  | var name =>
    rw [toJson]
    exact Json.refused_content _ (Json.refused_ofString name)
  | ctor ty tag args ih =>
    rw [toJson, toJsonEach_eq_map]
    refine Json.refused_node _ ["ty", "tag", "args"] [_, _, _] rfl fun chosen h => ?_
    refine (ofJson?_ctor _ _ _).trans ?_
    rcases h with h | h | h | h
    · simp [ty.refused _ h]
    · simp [tag.refused _ h]
    · simp [Json.refused_each (ofJson?_flag _) ih _ h]
    · exact h.elim

end Pattern

/-! ## Terms -/

theorem Literal.refused (l : Literal) : Json.Refused Literal.ofJson? l.toJson := by
  cases l with
  | unit => exact Json.refused_ofString _
  | int n => exact Json.refused_content _ (Json.refused_num _)
  | float x => exact Json.refused_content _ (Json.refused_num _)
  | bool b => exact Json.refused_content _ (Json.refused_bool b)
  | string s => exact Json.refused_content _ (Json.refused_ofString s)

namespace Term

theorem ofJson?_flag (b : Bool) : ofJson? (.bool b) = none := by
  rw [ofJson?]
  rfl

theorem refused_branch {b : Pattern × Term} (h : Json.Refused ofJson? b.2.toJson) :
    Json.Refused branchOfJson? (branchToJson b) := by
  refine Json.refused_record ["pat", "body"] [_, _] rfl fun chosen hpart => ?_
  refine (branchOfJson?_record _ _).trans ?_
  rcases hpart with hpart | hpart | hpart
  · simp [b.1.refused _ hpart]
  · simp [h _ hpart]
  · exact hpart.elim

theorem refused (t : Term) : Json.Refused ofJson? t.toJson := by
  induction t using Term.induct with
  | lit l =>
    rw [toJson]
    exact Json.refused_variant _ (fun c hc => by rw [ofJson?_lit, hc]; rfl) l.refused
  | var ty name =>
    rw [toJson]
    refine Json.refused_node _ ["ty", "name"] [_, _] rfl fun chosen h => ?_
    refine (ofJson?_var _ _).trans ?_
    rcases h with h | h | h
    · simp [ty.refused _ h]
    · simp [Json.refused_ofString name _ h]
    · exact h.elim
  | list ty elems eff ih =>
    rw [toJson, toJsonEach_eq_map]
    refine Json.refused_node _ ["ty", "elems", "eff"] [_, _, _] rfl fun chosen h => ?_
    refine (ofJson?_list _ _ _).trans ?_
    rcases h with h | h | h | h
    · simp [ty.refused _ h]
    · simp [Json.refused_each (ofJson?_flag _) ih _ h]
    · simp [eff.refused _ h]
    · exact h.elim
  | ctor ty tag args eff ih =>
    rw [toJson, toJsonEach_eq_map]
    refine Json.refused_node _ ["ty", "tag", "args", "eff"] [_, _, _, _] rfl fun chosen h => ?_
    refine (ofJson?_ctor _ _ _ _).trans ?_
    rcases h with h | h | h | h | h
    · simp [ty.refused _ h]
    · simp [tag.refused _ h]
    · simp [Json.refused_each (ofJson?_flag _) ih _ h]
    · simp [eff.refused _ h]
    · exact h.elim
  | cases ty scrutinee branches eff ihs ihb =>
    rw [toJson, toJsonBranches_eq_map]
    refine Json.refused_node _ ["ty", "scrutinee", "cases", "eff"] [_, _, _, _] rfl fun chosen h => ?_
    refine (ofJson?_cases _ _ _ _).trans ?_
    rcases h with h | h | h | h | h
    · simp [ty.refused _ h]
    · simp [ihs _ h]
    · simp [Json.refused_each (by rfl) (fun b hb => refused_branch (ihb b hb)) _ h]
    · simp [eff.refused _ h]
    · exact h.elim
  | lambda ty param paramTy body ih =>
    rw [toJson]
    refine Json.refused_node _ ["ty", "param", "param_ty", "body"] [_, _, _, _] rfl fun chosen h => ?_
    refine (ofJson?_lambda _ _ _ _).trans ?_
    rcases h with h | h | h | h | h
    · simp [ty.refused _ h]
    · simp [Json.refused_ofString param _ h]
    · simp [paramTy.refused _ h]
    · simp [ih _ h]
    · exact h.elim
  | apply ty fn argTy arg eff ihf iha =>
    rw [toJson]
    refine Json.refused_node _ ["ty", "fun", "arg_ty", "arg", "eff"] [_, _, _, _, _] rfl fun chosen h => ?_
    refine (ofJson?_apply _ _ _ _ _).trans ?_
    rcases h with h | h | h | h | h | h
    · simp [ty.refused _ h]
    · simp [ihf _ h]
    · simp [argTy.refused _ h]
    · simp [iha _ h]
    · simp [eff.refused _ h]
    · exact h.elim
  | letIn name boundTy bound body ty eff ihbound ihbody =>
    rw [toJson]
    refine Json.refused_node _ ["name", "bound_ty", "bound", "body", "ty", "eff"] [_, _, _, _, _, _] rfl
      fun chosen h => ?_
    refine (ofJson?_letIn _ _ _ _ _ _).trans ?_
    rcases h with h | h | h | h | h | h | h
    · simp [Json.refused_ofString name _ h]
    · simp [boundTy.refused _ h]
    · simp [ihbound _ h]
    · simp [ihbody _ h]
    · simp [ty.refused _ h]
    · simp [eff.refused _ h]
    · exact h.elim
  | cond ty test thenBranch elseBranch eff iht ihthen ihelse =>
    rw [toJson]
    refine Json.refused_node _ ["ty", "cond", "then_branch", "else_branch", "eff"] [_, _, _, _, _] rfl
      fun chosen h => ?_
    refine (ofJson?_cond _ _ _ _ _).trans ?_
    rcases h with h | h | h | h | h | h
    · simp [ty.refused _ h]
    · simp [iht _ h]
    · simp [ihthen _ h]
    · simp [ihelse _ h]
    · simp [eff.refused _ h]
    · exact h.elim

end Term

/-! ## Environments -/

namespace Env

/-- The document of an environment: an object with a field for every name. -/
def toJson (env : Env) : Json := .record (env.toList.map fun binding => (binding.1, binding.2.toJson))

theorem regular_toJson (env : Env) : env.toJson.Regular := by
  refine .obj ?_ ?_
  · rw [List.map_map]
    exact env.nodup_keys
  · intro f hf
    obtain ⟨binding, -, rfl⟩ := List.mem_map.1 hf
    exact binding.2.regular_toJson

theorem mapM_fields {fields : List (String × Json)} (h : (fields.map (·.2)).mapM Ty.ofJson? = none) :
    (fields.mapM fun f => (Ty.ofJson? f.2).map fun t => (f.1, t)) = none := by
  induction fields with
  | nil => cases h
  | cons f fields ih =>
    rw [List.mapM_cons]
    rw [List.map_cons, List.mapM_cons] at h
    cases hf : Ty.ofJson? f.2 with
    | none => rfl
    | some t =>
      rw [hf] at h
      cases hfields : (fields.map (·.2)).mapM Ty.ofJson? with
      | none => rw [ih hfields]; rfl
      | some ts => rw [hfields] at h; cases h

theorem refused (env : Env) : Json.Refused Env.ofJson? env.toJson := by
  have hzip : env.toJson = .record ((env.toList.map (·.1)).zip (env.toList.map fun binding => binding.2.toJson)) := by
    rw [List.zip_map']
    rfl
  rw [hzip]
  refine Json.refused_record _ _ (by simp) fun chosen hpart => ?_
  rw [Env.ofJson?_record, mapM_fields]
  · rfl
  · rw [List.map_snd_zip (by simp [Json.length_replaceItems])]
    refine Json.mapM_replaceItems (fun doc hdoc => ?_) hpart
    obtain ⟨binding, -, rfl⟩ := List.mem_map.1 hdoc
    exact binding.2.refused

end Env

/-! ## Texts -/

namespace Document

theorem regular_illegalPair : Json.illegalPair.Regular :=
  .arr (List.forall_iff_forall_mem.1 ⟨.bool _, .bool _⟩)

/-- A document that is refused for the pair put into it still says something, and the pair is found in it. -/
theorem parse_of_refused {α : Type} {decode? : Json → Option α} {chosen : Json.Place → Bool} {j : Json}
    (hj : j.Regular) (hrefused : j.Refused decode?) (h : j.EffectPlaces chosen) :
    parse decode? (Json.replaceAt chosen .illegalPair j).render = .error .illegalEffect := by
  have hregular : (Json.replaceAt chosen .illegalPair j).Regular := hj.replaceAt regular_illegalPair
  obtain ⟨place, hplace⟩ := h.some_chosen
  obtain ⟨e, he⟩ := h.effect place hplace
  obtain ⟨place', hpair⟩ : ∃ place', (Json.replaceAt chosen .illegalPair j).at? place' = some .illegalPair :=
    Json.exists_at?_replaceAt hplace (by rw [he]; rfl)
  obtain ⟨d, hd, hnodes⟩ := hregular.says
  obtain ⟨y, hy, hnode⟩ := hnodes place' _ hpair
  have hfound : carriesIllegalPair (Json.replaceAt chosen .illegalPair j).render = true := by
    unfold carriesIllegalPair
    rw [Json.parse?_render hregular, Option.bind_some, hd]
    refine (Json.Datum.anyNode_iff _ _ _).2 (.inr ⟨d, List.mem_singleton_self d, y, hnode, ?_⟩)
    cases hy
    rfl
  unfold parse
  rw [Json.parse?_render hregular, Option.bind_some, hrefused chosen h, hfound]
  rfl

end Document

/-- The flags that are no effect, put in place of effects, are never accepted and never taken for another mistake: at
any places of effects, one or many, in the text of a term, of a type or of an environment. -/
theorem Document.parse_illegalPair :
    (∀ (t : Term) (chosen : Json.Place → Bool), t.toJson.EffectPlaces chosen →
        Document.parse Term.ofJson? (Json.replaceAt chosen .illegalPair t.toJson).render = .error .illegalEffect) ∧
      (∀ (t : Ty) (chosen : Json.Place → Bool), t.toJson.EffectPlaces chosen →
        Document.parse Ty.ofJson? (Json.replaceAt chosen .illegalPair t.toJson).render = .error .illegalEffect) ∧
      ∀ (env : Env) (chosen : Json.Place → Bool), env.toJson.EffectPlaces chosen →
        Document.parse Env.ofJson? (Json.replaceAt chosen .illegalPair env.toJson).render = .error .illegalEffect :=
  ⟨fun t _ => parse_of_refused t.regular_toJson t.refused, fun t _ => parse_of_refused t.regular_toJson t.refused,
    fun env _ => parse_of_refused env.regular_toJson env.refused⟩

/-- The type of functions that act. -/
def handlerTy : Ty := .arrow (.base .unit) .weak (.base .unit)

/-- In a list of such functions the effect of the list and the latent effect of its type, in the type alone and as the
type of a name the latent effect. -/
theorem handlers_parse_illegalPair :
    Document.parse Term.ofJson? (Json.replaceAt (fun place => place = [0, 2] ∨ place = [0, 0, 0, 0, 1]) .illegalPair
        (Term.list (.list handlerTy) [] .pure).toJson).render = .error .illegalEffect ∧
      Document.parse Ty.ofJson? (Json.replaceAt (fun place => place = [0, 1]) .illegalPair handlerTy.toJson).render =
        .error .illegalEffect ∧
      Document.parse Env.ofJson? (Json.replaceAt (fun place => place = [0, 0, 1]) .illegalPair
        (Env.toJson (.singleton "handler" handlerTy))).render = .error .illegalEffect := by
  obtain ⟨hterm, hty, henv⟩ := Document.parse_illegalPair
  refine ⟨hterm _ _ ⟨⟨[0, 2], rfl⟩, ?_⟩, hty _ _ ⟨⟨[0, 1], rfl⟩, ?_⟩, henv _ _ ⟨⟨[0, 0, 1], rfl⟩, ?_⟩⟩
  · intro place hplace
    rcases of_decide_eq_true hplace with rfl | rfl
    · exact ⟨.pure, rfl⟩
    · exact ⟨.weak, rfl⟩
  · intro place hplace
    obtain rfl := of_decide_eq_true hplace
    exact ⟨.weak, rfl⟩
  · intro place hplace
    obtain rfl := of_decide_eq_true hplace
    exact ⟨.weak, rfl⟩

end EffectTyping
