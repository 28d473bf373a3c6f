/-
Documents read back. The text of a document gives its tokens, and its tokens give the document: `parse?_render`, for
the documents that are `Regular`, whose strings are encodings, whose numerals can be read as doubles and whose objects
name each field once.
-/
import EffectTyping.Json.Parser
import EffectTyping.Number.Reading
import EffectTyping.Proofs.Json.Scan

namespace EffectTyping.Json

/-- A document as writers make them. -/
inductive Regular : Json → Prop where
  | null : Regular .null
  | bool (b : Bool) : Regular (.bool b)
  | num {n : Numeral} (readable : n.Readable) (double : n.toDouble?.isSome = true) : Regular (.num n)
  | str (s : String) : Regular (.str (.encode s))
  | arr {items : List Json} (regular : ∀ item ∈ items, Regular item) : Regular (.arr items)
  | obj {fields : List (String × Json)} (distinct : (fields.map (·.1)).Nodup)
      (regular : ∀ field ∈ fields, Regular field.2) : Regular (.obj (fields.map fun f => (.encode f.1, f.2)))

/-! ## The text of a document -/

/-- A string in its quotes. -/
def Quoted.text (q : Quoted) : List Char := '"' :: (q.raw ++ ['"'])

mutual

/-- The characters of a document. -/
def text : Json → List Char
  | .null => ['n', 'u', 'l', 'l']
  | .bool true => ['t', 'r', 'u', 'e']
  | .bool false => ['f', 'a', 'l', 's', 'e']
  | .num n => n.render true
  | .str q => q.text
  | .arr [] => ['[', ']']
  | .arr (item :: items) => '[' :: (text item ++ textItems items)
  | .obj [] => ['\x7b', '\x7d']
  | .obj ((key, value) :: fields) => '\x7b' :: (key.text ++ ':' :: (text value ++ textFields fields))

/-- The characters from after an item to the end of the array. -/
def textItems : List Json → List Char
  | [] => [']']
  | item :: items => ',' :: (text item ++ textItems items)

/-- The characters from after a field to the end of the object. -/
def textFields : List (Quoted × Json) → List Char
  | [] => ['\x7d']
  | (key, value) :: fields => ',' :: (key.text ++ ':' :: (text value ++ textFields fields))

end

theorem toList_writeQuoted (out : String) (q : Quoted) : (writeQuoted out q).toList = out.toList ++ q.text := by
  simp [writeQuoted, Quoted.text]

mutual

theorem toList_write (out : String) : ∀ j, (write out j).toList = out.toList ++ text j
  | .null | .bool true | .bool false | .num _ => by simp [write, text]
  | .str q => by rw [write, text, toList_writeQuoted]
  | .arr [] => by simp [write, writeItems, text]
  | .arr (item :: items) => by
    rw [write, writeItems, if_pos rfl, toList_writeItems _ items, toList_write _ item, text]
    simp
  | .obj [] => by simp [write, writeFields, text]
  | .obj ((key, value) :: fields) => by
    rw [write, writeFields, if_pos rfl, toList_writeFields _ fields, toList_write _ value, text]
    simp [toList_writeQuoted]

theorem toList_writeItems (out : String) :
    ∀ items, ((writeItems out false items).push ']').toList = out.toList ++ textItems items
  | [] => by simp [writeItems, textItems]
  | item :: items => by
    rw [writeItems, toList_writeItems _ items, toList_write _ item, textItems]
    simp

theorem toList_writeFields (out : String) :
    ∀ fields, ((writeFields out false fields).push '\x7d').toList = out.toList ++ textFields fields
  | [] => by simp [writeFields, textFields]
  | (key, value) :: fields => by
    rw [writeFields, toList_writeFields _ fields, toList_write _ value, textFields]
    simp [toList_writeQuoted]

end

theorem toList_render (j : Json) : j.render.toList = j.text := toList_write "" j

/-! ## The tokens of a document -/

mutual

def tokens : Json → List Token
  | .null => [.null]
  | .bool b => [.bool b]
  | .num n => [.num n]
  | .str q => [.str q]
  | .arr [] => [.openArray, .closeArray]
  | .arr (item :: items) => .openArray :: (tokens item ++ tokensItems items)
  | .obj [] => [.openObject, .closeObject]
  | .obj ((key, value) :: fields) => .openObject :: .str key :: .colon :: (tokens value ++ tokensFields fields)

/-- The tokens from after an item to the end of the array. -/
def tokensItems : List Json → List Token
  | [] => [.closeArray]
  | item :: items => .comma :: (tokens item ++ tokensItems items)

/-- The tokens from after a field to the end of the object. -/
def tokensFields : List (Quoted × Json) → List Token
  | [] => [.closeObject]
  | (key, value) :: fields => .comma :: .str key :: .colon :: (tokens value ++ tokensFields fields)

end

/-! ### From the text to the tokens -/

theorem textItems_mark (items : List Json) : ∃ c cs, Scanner.IsMark c ∧ textItems items = c :: cs := by
  cases items with
  | nil => exact ⟨_, _, .inr (.inr (.inl rfl)), by rw [textItems]⟩
  | cons item items => exact ⟨_, _, .inl rfl, by rw [textItems]⟩

theorem textFields_mark (fields : List (Quoted × Json)) : ∃ c cs, Scanner.IsMark c ∧ textFields fields = c :: cs := by
  cases fields with
  | nil => exact ⟨_, _, .inr (.inr (.inr rfl)), by rw [textFields]⟩
  | cons field fields => exact ⟨_, _, .inl rfl, by rw [textFields]⟩

theorem reads_textItems {items : List Json} (h : ∀ item ∈ items, Token.Reads item.text item.tokens) :
    Token.Reads (textItems items) (tokensItems items) := by
  induction items with
  | nil =>
    rw [textItems, tokensItems]
    exact .mark (fun _ => rfl) .nil
  | cons item items ih =>
    obtain ⟨hitem, hitems⟩ := List.forall_mem_cons.1 h
    rw [textItems, tokensItems]
    exact .mark (fun _ => rfl) (hitem.append (ih hitems) (textItems_mark items))

/-- A field, and a text that starts with a mark. -/
theorem reads_field {value : Json} {rest : List Char} {later : List Token} (name : String)
    (h : Token.Reads value.text value.tokens) (hrest : Token.Reads rest later)
    (hmark : ∃ c cs, Scanner.IsMark c ∧ rest = c :: cs) :
    Token.Reads ((Quoted.encode name).text ++ ':' :: (value.text ++ rest))
      (.str (.encode name) :: .colon :: (value.tokens ++ later)) :=
  (Token.Reads.string name).append (.mark (fun _ => rfl) (h.append hrest hmark)) ⟨_, _, .inr (.inl rfl), rfl⟩

theorem reads_textFields {fields : List (String × Json)}
    (h : ∀ field ∈ fields, Token.Reads field.2.text field.2.tokens) :
    Token.Reads (textFields (fields.map fun f => (.encode f.1, f.2)))
      (tokensFields (fields.map fun f => (.encode f.1, f.2))) := by
  induction fields with
  | nil =>
    rw [List.map_nil, textFields, tokensFields]
    exact .mark (fun _ => rfl) .nil
  | cons field fields ih =>
    obtain ⟨hfield, hfields⟩ := List.forall_mem_cons.1 h
    rw [List.map_cons, textFields, tokensFields]
    exact .mark (fun _ => rfl) (reads_field field.1 hfield (ih hfields) (textFields_mark _))

/-- The text of a regular document gives its tokens. -/
theorem Regular.reads {j : Json} (h : j.Regular) : Token.Reads j.text j.tokens := by
  induction h with
  | null =>
    rw [text, tokens]
    exact .single fun _ => rfl
  | bool b =>
    cases b <;> rw [text, tokens] <;> exact .single fun _ => rfl
  | num readable _ =>
    rw [text, tokens]
    exact .numeral readable
  | str s =>
    rw [text, tokens]
    exact .string s
  | @arr items _ ih =>
    cases items with
    | nil =>
      rw [text, tokens]
      exact .mark (fun _ => rfl) (.mark (fun _ => rfl) .nil)
    | cons item items =>
      obtain ⟨hitem, hitems⟩ := List.forall_mem_cons.1 ih
      rw [text, tokens]
      exact .mark (fun _ => rfl) (hitem.append (reads_textItems hitems) (textItems_mark items))
  | @obj fields _ _ ih =>
    cases fields with
    | nil =>
      rw [List.map_nil, text, tokens]
      exact .mark (fun _ => rfl) (.mark (fun _ => rfl) .nil)
    | cons field fields =>
      obtain ⟨hfield, hfields⟩ := List.forall_mem_cons.1 ih
      rw [List.map_cons, text, tokens]
      exact .mark (fun _ => rfl) (reads_field field.1 hfield (reads_textFields hfields) (textFields_mark _))

/-! ### From the tokens to the document -/

namespace Parsing

theorem run_cons {p q : Parsing} {t : Token} (h : p.next t = some q) (ts : List Token) :
    p.run (t :: ts) = q.run ts := by
  rw [run, h]

/-- The first item of an array is read as any other value is: it does not begin with the end. -/
theorem run_firstItem (j : Json) (stack : List Frame) (rest : List Token) :
    run (.firstItem stack) (j.tokens ++ rest) = run (.value (.items [] :: stack)) (j.tokens ++ rest) := by
  cases j with
  | arr items => cases items <;> rw [tokens] <;> rfl
  | obj fields => cases fields <;> rw [tokens] <;> rfl
  | _ => rw [tokens]; rfl

mutual

/-- The machine reads the tokens of a document as that document, whatever it stands in. -/
theorem run_tokens (stack : List Frame) (rest : List Token) :
    ∀ j : Json, run (.value stack) (j.tokens ++ rest) = run (.complete j stack) rest
  | .null | .bool _ | .num _ | .str _ => by rw [tokens]; rfl
  | .arr [] => by rw [tokens]; rfl
  | .arr (item :: items) => by
    rw [tokens, List.cons_append, List.append_assoc]
    refine (run_cons (q := .firstItem stack) rfl _).trans ?_
    rw [run_firstItem, run_tokens _ _ item]
    exact run_tokensItems item [] stack rest items
  | .obj [] => by rw [tokens]; rfl
  | .obj ((key, v) :: fields) => by
    rw [tokens, List.cons_append, List.cons_append, List.cons_append, List.append_assoc]
    refine (run_cons (q := .firstKey stack) rfl _).trans ?_
    refine (run_cons (q := .afterKey [] key stack) rfl _).trans ?_
    refine (run_cons (q := .value (.fields [] key :: stack)) rfl _).trans ?_
    rw [run_tokens _ _ v]
    exact run_tokensFields v [] key stack rest fields

theorem run_tokensItems (v : Json) (done : List Json) (stack : List Frame) (rest : List Token) :
    ∀ items : List Json, run (.complete v (.items done :: stack)) (tokensItems items ++ rest) =
      run (.complete (.arr ((v :: done).reverse ++ items)) stack) rest
  | [] => by
    rw [tokensItems, List.append_nil]
    rfl
  | item :: items => by
    rw [tokensItems, List.cons_append, List.append_assoc]
    refine (run_cons (q := .value (.items (v :: done) :: stack)) rfl _).trans ?_
    rw [run_tokens _ _ item, run_tokensItems item (v :: done) stack rest items]
    simp

theorem run_tokensFields (v : Json) (done : List (Quoted × Json)) (key : Quoted) (stack : List Frame)
    (rest : List Token) :
    ∀ fields : List (Quoted × Json), run (.complete v (.fields done key :: stack)) (tokensFields fields ++ rest) =
      run (.complete (.obj (((key, v) :: done).reverse ++ fields)) stack) rest
  | [] => by
    rw [tokensFields, List.append_nil]
    rfl
  | (key', w) :: fields => by
    rw [tokensFields, List.cons_append, List.cons_append, List.cons_append, List.append_assoc]
    refine (run_cons (q := .nextKey ((key, v) :: done) stack) rfl _).trans ?_
    refine (run_cons (q := .afterKey ((key, v) :: done) key' stack) rfl _).trans ?_
    refine (run_cons (q := .value (.fields ((key, v) :: done) key' :: stack)) rfl _).trans ?_
    rw [run_tokens _ _ w, run_tokensFields w ((key, v) :: done) key' stack rest fields]
    simp

end

end Parsing

theorem ofTokens?_tokens (j : Json) : ofTokens? j.tokens = some j := by
  have hrun := Parsing.run_tokens [] [] j
  rw [List.append_nil] at hrun
  unfold ofTokens?
  rw [hrun]
  rfl

/-- A regular document is read back from its text. -/
theorem parse?_render {j : Json} (h : j.Regular) : parse? j.render = some j := by
  unfold parse?
  rw [toList_render, h.reads.scan, Option.bind_some, ofTokens?_tokens]

end EffectTyping.Json
