/-
The text of a path tells the place. A step is written as letters around its number, if it has one, and the letters hold
no digit; so the number is where the digits are, and the letters on both sides tell the kind of step. No step holds a
slash, so that the text of a path is cut at the slashes into the texts of its steps, and none reads like that of the
path to the root. So a path can be read back from its text (`read?_render`), and paths with the same text are the same.
-/
import EffectTyping.Proofs.Number.Numeral
import EffectTyping.Term.Path

namespace EffectTyping

/-! ## One step -/

namespace Step

/-- The step written with the given letters before and after its number. A step without a number is all letters, and
nothing comes after them. -/
def ofSpelling? (front : String) (number : Nat) (back : String) : Option Step :=
  match front, back with
  | "list[", "]" => some (.listElem number)
  | "ctor[", "]" => some (.ctorArg number)
  | "match.scrutinee", "" => some .scrutinee
  | "case[", "]" => some (.branchBody number)
  | "case[", "].pattern" => some (.branchPattern number)
  | "pattern[", "]" => some (.subpattern number)
  | "fun.body", "" => some .lambdaBody
  | "app.fun", "" => some .applyFn
  | "app.arg", "" => some .applyArg
  | "let.bound", "" => some .letBound
  | "let.body", "" => some .letBody
  | "if.cond", "" => some .condTest
  | "if.then", "" => some .condThen
  | "if.else", "" => some .condElse
  | _, _ => none

/-- The step with the given text: its first digits are the number. -/
def read? (text : List Char) : Option Step :=
  let front := text.takeWhile (!·.isDigit)
  let rest := text.dropWhile (!·.isDigit)
  ofSpelling? (.ofList front) (Numeral.ofDigits (rest.takeWhile Char.isDigit))
    (.ofList (rest.dropWhile Char.isDigit))

theorem toList_numbered (front back : String) (i : Nat) :
    (front ++ toString i ++ back).toList = front.toList ++ (Numeral.digitsOf i ++ back.toList) := by
  rw [String.toList_append, String.toList_append, Numeral.toList_toString, List.append_assoc]

theorem read?_numbered (front back : String) (i : Nat) (hfront : front.toList.all (!·.isDigit) = true)
    (hback : back.toList.head?.all (!·.isDigit) = true) :
    read? (front ++ toString i ++ back).toList = ofSpelling? front i back := by
  have hnumber : ∀ c ∈ (Numeral.digitsOf i ++ back.toList).head?, (!c.isDigit) = false := by
    intro c hc
    rw [List.head?_append_of_ne_nil _ (Numeral.digitsOf_ne_nil i)] at hc
    rw [Numeral.isDigit_of_mem_digitsOf (List.mem_of_mem_head? hc)]; rfl
  have hletter : ∀ c ∈ back.toList.head?, c.isDigit = false := by
    intro c hc
    simpa using (Option.all_eq_true _ _).1 hback c hc
  -- the first digit ends the letters in front, the first letter after it the number
  obtain ⟨hword, hrest⟩ := Numeral.span_append (List.all_eq_true.1 hfront) hnumber
  obtain ⟨hdigits, hend⟩ := Numeral.span_append (fun _ => Numeral.isDigit_of_mem_digitsOf (n := i)) hletter
  rw [toList_numbered, read?, hword, hrest, hdigits, hend, Numeral.ofDigits_digitsOf, String.ofList_toList,
    String.ofList_toList]

theorem read?_render (step : Step) : read? step.render.toList = some step := by
  cases step with
  | listElem i => exact read?_numbered "list[" "]" i rfl rfl
  | ctorArg i => exact read?_numbered "ctor[" "]" i rfl rfl
  | branchBody i => exact read?_numbered "case[" "]" i rfl rfl
  | branchPattern i => exact read?_numbered "case[" "].pattern" i rfl rfl
  | subpattern i => exact read?_numbered "pattern[" "]" i rfl rfl
  | scrutinee | lambdaBody | applyFn | applyArg | letBound | letBody | condTest | condThen | condElse => rfl

theorem slash_not_mem_numbered {front back : String} (i : Nat) (hfront : '/' ∉ front.toList)
    (hback : '/' ∉ back.toList) : '/' ∉ (front ++ toString i ++ back).toList := by
  rw [toList_numbered, List.mem_append, List.mem_append]
  rintro (h | h | h)
  · exact hfront h
  · exact absurd (Numeral.isDigit_of_mem_digitsOf h) (by decide)
  · exact hback h

theorem slash_not_mem_render (step : Step) : '/' ∉ step.render.toList := by
  cases step with
  | listElem i | ctorArg i | branchBody i | branchPattern i | subpattern i =>
    exact slash_not_mem_numbered i (by decide) (by decide)
  | scrutinee | lambdaBody | applyFn | applyArg | letBound | letBody | condTest | condThen | condElse => decide

end Step

/-! ## Paths -/

namespace Path

/-- The path with the given text. -/
def read? (text : String) : Option Path :=
  if text = "root" then some root else ((text.toList.splitOn '/').mapM Step.read?).map mk

theorem splitOn_render {steps : List Step} (h : steps ≠ []) :
    (render ⟨steps⟩).toList.splitOn '/' = steps.map (·.render.toList) := by
  have hrender : render ⟨steps⟩ = "/".intercalate (steps.map Step.render) := by
    cases steps with
    | nil => exact absurd rfl h
    | cons step steps => rfl
  have hslash : ∀ text ∈ steps.map (·.render.toList), '/' ∉ text := by
    intro text htext
    obtain ⟨step, -, rfl⟩ := List.mem_map.1 htext
    exact step.slash_not_mem_render
  rw [hrender, String.toList_intercalate, List.map_map]
  exact List.splitOn_intercalate '/' hslash (mt List.map_eq_nil_iff.1 h)

theorem mapM_read?_render {steps : List Step} (h : steps ≠ []) :
    ((render ⟨steps⟩).toList.splitOn '/').mapM Step.read? = some steps := by
  have hread : Step.read? ∘ (fun step => step.render.toList) = fun step => pure (id step) :=
    funext Step.read?_render
  rw [splitOn_render h, List.mapM_map, hread, List.mapM_pure, List.map_id]
  rfl

/-- Only the path to the root is written as it is. -/
theorem render_ne_root {steps : List Step} (h : steps ≠ []) : render ⟨steps⟩ ≠ "root" := by
  intro hroot
  have hread := mapM_read?_render h
  rw [hroot] at hread
  -- no step reads `root`
  have hnone : ("root".toList.splitOn '/').mapM Step.read? = none := rfl
  rw [hnone] at hread
  cases hread

theorem read?_render (p : Path) : read? p.render = some p := by
  obtain ⟨steps⟩ := p
  by_cases h : steps = []
  · subst h; rfl
  · rw [read?, if_neg (render_ne_root h), mapM_read?_render h]; rfl

/-- The text of a path tells the place: paths with the same text are the same sequence of steps. -/
theorem render_eq_render_iff (p q : Path) : p.render = q.render ↔ p.steps = q.steps := by
  constructor
  · intro h
    have hread := congrArg read? h
    rw [read?_render, read?_render] at hread
    rw [Option.some.inj hread]
  · intro h
    rw [show p = q from congrArg mk h]

end Path

end EffectTyping
