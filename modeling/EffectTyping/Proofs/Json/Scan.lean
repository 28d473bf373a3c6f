/-
The characters of a document and its tokens. Every string is the one its escapes stand for, and the machine that reads
characters gives back the tokens of strings, of words and of numerals that can be read. `Token.Reads` is what it does
with a text between two tokens; texts compose wherever the second one starts with a mark, since no number goes on there.
-/
import EffectTyping.Json.Token
import EffectTyping.Proofs.Number.Numeral

namespace EffectTyping.Json

/-! ## Escapes -/

namespace Quoted

/-- The digits to base 16 of a control character give it back. -/
theorem hexUnit?_hexPair {n : Nat} (h : n < 32) :
    hexUnit? '0' '0' (Nat.digitChar (n / 16 % 16)) (Nat.digitChar (n % 16)) = some n := by
  have hall : ∀ n < 32, hexUnit? '0' '0' (Nat.digitChar (n / 16 % 16)) (Nat.digitChar (n % 16)) = some n := by decide
  exact hall n h

theorem resolve_unit {a b c d : Char} {n : Nat} (h : hexUnit? a b c d = some n) (hn : n < 32) (done rest : List Char) :
    resolve done ('\\' :: 'u' :: a :: b :: c :: d :: rest) = resolve (Char.ofNat n :: done) rest := by
  have hlow : isLowSurrogate n = false := by
    simp only [isLowSurrogate, Bool.and_eq_false_imp, decide_eq_true_eq, decide_eq_false_iff_not]
    omega
  have hhigh : isHighSurrogate n = false := by
    simp only [isHighSurrogate, Bool.and_eq_false_imp, decide_eq_true_eq, decide_eq_false_iff_not]
    omega
  rw [resolve, h]
  simp [hlow, hhigh]

theorem resolve_plain {c : Char} (h : c ≠ '\\') (done rest : List Char) :
    resolve done (c :: rest) = resolve (c :: done) rest := by
  rw [resolve]
  all_goals simp [h]

theorem resolve_escaped {e c : Char} (h : escaped? e = some c) (hunit : e ≠ 'u') (done rest : List Char) :
    resolve done ('\\' :: e :: rest) = resolve (c :: done) rest := by
  rw [resolve, h]
  simp [hunit]

/-- A character is written with one character after a backslash, as a unit to base 16, or as it is. -/
theorem encodeChar_cases (c : Char) :
    (∃ e, encodeChar c = ['\\', e] ∧ escaped? e = some c ∧ e ≠ 'u') ∨
      (encodeChar c = ['\\', 'u', '0', '0'] ++ hexPair c.toNat ∧ c.toNat < 0x20) ∨
      (encodeChar c = [c] ∧ c ≠ '"' ∧ c ≠ '\\' ∧ ¬ c.toNat < 0x20) := by
  unfold encodeChar
  split
  · rename_i h; subst h; exact .inl ⟨_, rfl, rfl, by decide⟩
  split
  · rename_i h; subst h; exact .inl ⟨_, rfl, rfl, by decide⟩
  split
  · rename_i h; subst h; exact .inl ⟨_, rfl, rfl, by decide⟩
  split
  · rename_i h; subst h; exact .inl ⟨_, rfl, rfl, by decide⟩
  split
  · rename_i h; subst h; exact .inl ⟨_, rfl, rfl, by decide⟩
  split
  · rename_i h; subst h; exact .inl ⟨_, rfl, rfl, by decide⟩
  split
  · rename_i h; subst h; exact .inl ⟨_, rfl, rfl, by decide⟩
  rename_i hquote hslash _ _ _ _ _
  split
  · rename_i hcontrol
    exact .inr (.inl ⟨rfl, hcontrol⟩)
  · rename_i hcontrol
    exact .inr (.inr ⟨rfl, hquote, hslash, hcontrol⟩)

/-- What a character is written as is read as that character. -/
theorem resolve_encodeChar (c : Char) (done rest : List Char) :
    resolve done (encodeChar c ++ rest) = resolve (c :: done) rest := by
  rcases encodeChar_cases c with ⟨e, hc, he, hunit⟩ | ⟨hc, hcontrol⟩ | ⟨hc, -, hslash, -⟩
  · rw [hc]
    exact resolve_escaped he hunit done rest
  · have hresolved := resolve_unit (hexUnit?_hexPair hcontrol) hcontrol done rest
    rw [Char.ofNat_toNat] at hresolved
    rw [hc]
    exact hresolved
  · rw [hc]
    exact resolve_plain hslash done rest

theorem resolve_encode (cs done : List Char) : resolve done (cs.flatMap encodeChar) = some (done.reverse ++ cs) := by
  induction cs generalizing done with
  | nil => simp [resolve]
  | cons c cs ih =>
    rw [List.flatMap_cons, resolve_encodeChar, ih]
    simp

/-- Every string is read from what it is written as. -/
theorem decode?_encode (s : String) : (encode s).decode? = some s := by
  unfold decode? encode
  rw [resolve_encode]
  simp

/-- A digit is written as it stands. -/
theorem encodeChar_of_isDigit {c : Char} (h : c.isDigit = true) : encodeChar c = [c] := by
  obtain ⟨hlow, hhigh⟩ := Numeral.toNat_bounds h
  have hne (d : Char) (hd : d.toNat < 48 ∨ 57 < d.toNat) : c ≠ d := by
    rintro rfl
    omega
  unfold encodeChar
  rw [if_neg (hne _ (by decide)), if_neg (hne _ (by decide)), if_neg (hne _ (by decide)), if_neg (hne _ (by decide)),
    if_neg (hne _ (by decide)), if_neg (hne _ (by decide)), if_neg (hne _ (by decide)), if_neg (by omega)]

theorem encode_digits {digits : List Char} (h : ∀ c ∈ digits, c.isDigit = true) :
    encode (String.ofList digits) = ⟨digits⟩ := by
  unfold encode
  rw [String.toList_ofList]
  congr 1
  induction digits with
  | nil => rfl
  | cons c cs ih =>
    obtain ⟨hc, hcs⟩ := List.forall_mem_cons.1 h
    rw [List.flatMap_cons, encodeChar_of_isDigit hc, ih hcs]
    rfl

end Quoted

/-! ## The machine -/

namespace Scanner

theorem run_cons {m m' : Scanner} {c : Char} (h : m.next c = some m') (cs : List Char) :
    m.run (c :: cs) = m'.run cs := by
  rw [run, h]

theorem run_append (m : Scanner) (l r : List Char) : m.run (l ++ r) = (m.run l).bind (·.run r) := by
  induction l generalizing m with
  | nil => rfl
  | cons c l ih =>
    rw [List.cons_append, run, run]
    cases m.next c with
    | none => rfl
    | some m' => exact ih m'

theorem run_append_of_run {m m' : Scanner} {l : List Char} (h : m.run l = some m') (r : List Char) :
    m.run (l ++ r) = m'.run r := by
  rw [run_append, h, Option.bind_some]

/-! ### Strings -/

/-- The machine reads what a character is written as and is still in the string. -/
theorem run_encodeChar (c : Char) (raw : List Char) (tokens : List Token) :
    run ⟨.string raw, tokens⟩ (Quoted.encodeChar c) =
      some ⟨.string ((Quoted.encodeChar c).reverse ++ raw), tokens⟩ := by
  rcases Quoted.encodeChar_cases c with ⟨e, hc, he, hunit⟩ | ⟨hc, hcontrol⟩ | ⟨hc, hquote, hslash, hcontrol⟩
  · rw [hc]
    simp [run, next, goTo, hunit, he]
  · have hdigits : ∀ n < 32, (Quoted.hexValue? (Nat.digitChar (n / 16 % 16))).isSome = true ∧
        (Quoted.hexValue? (Nat.digitChar (n % 16))).isSome = true := by decide
    obtain ⟨hfirst, hlast⟩ := hdigits c.toNat hcontrol
    have hzero : (Quoted.hexValue? '0').isSome = true := by decide
    rw [hc]
    simp [Quoted.hexPair, run, next, goTo, hfirst, hlast, hzero]
  · rw [hc, run, next]
    simp only [if_neg hquote, if_neg hslash, if_neg hcontrol]
    rfl

theorem run_encode (cs raw : List Char) (tokens : List Token) :
    run ⟨.string raw, tokens⟩ (cs.flatMap Quoted.encodeChar) =
      some ⟨.string ((cs.flatMap Quoted.encodeChar).reverse ++ raw), tokens⟩ := by
  induction cs generalizing raw with
  | nil => rfl
  | cons c cs ih =>
    rw [List.flatMap_cons, run_append_of_run (run_encodeChar c raw tokens), ih]
    simp

/-! ### Numbers -/

theorem isDigit_eq (c : Char) : PartialNumeral.isDigit c = c.isDigit := rfl

theorem next_number {p q : PartialNumeral} {c : Char} (h : p.next c = some q) (tokens : List Token) :
    next ⟨.number p, tokens⟩ c = some ⟨.number q, tokens⟩ := by
  simp only [next, h]
  rfl

/-- A digit other than zero starts a number. -/
theorem next_gap_of_isDigit {c : Char} (h : c.isDigit = true) (hzero : c ≠ '0') (tokens : List Token) :
    next ⟨.gap, tokens⟩ c = some ⟨.number (.whole false [c]), tokens⟩ := by
  change begin ⟨.gap, tokens⟩ c = _
  unfold begin
  split
  case h_17 => simp only [isDigit_eq, h, if_true]; rfl
  all_goals first | exact absurd h (by decide) | exact absurd rfl hzero

/-- Digits one after the other, in a place where each is added to those before it. -/
theorem run_digits (stage : List Char → PartialNumeral) {digits : List Char}
    (hstage : ∀ before c, c.isDigit = true → (stage before).next c = some (stage (c :: before)))
    (h : ∀ c ∈ digits, c.isDigit = true) (before : List Char) (tokens : List Token) :
    run ⟨.number (stage before), tokens⟩ digits = some ⟨.number (stage (digits.reverse ++ before)), tokens⟩ := by
  induction digits generalizing before with
  | nil => rfl
  | cons c cs ih =>
    obtain ⟨hc, hcs⟩ := List.forall_mem_cons.1 h
    rw [run_cons (next_number (hstage before c hc) tokens), ih hcs]
    simp

/-- The first digits of a number, after its sign. They are complete as they stand, and a point or an exponent may
follow. -/
theorem run_whole {n : Numeral} (h : n.Readable) (tokens : List Token) :
    ∃ p, run ⟨.gap, tokens⟩ ((if n.negative then ['-'] else []) ++ n.whole) = some ⟨.number p, tokens⟩ ∧
      p.finish? = some ⟨n.negative, n.whole, [], none⟩ ∧
      p.next '.' = some (.point n.negative n.whole.reverse) ∧
      p.next 'e' = some (.mark n.negative n.whole.reverse []) := by
  obtain ⟨negative, whole, fraction, exponent⟩ := n
  cases whole with
  | nil => exact absurd rfl h.whole_ne_nil
  | cons c cs =>
    obtain ⟨hc, hcs⟩ := List.forall_mem_cons.1 h.whole_digits
    by_cases hzero : c = '0'
    · -- a zero in front stands alone
      subst hzero
      obtain rfl : cs = [] := (List.cons.inj (h.whole_lead rfl)).2
      refine ⟨.zero negative, ?_, rfl, rfl, rfl⟩
      cases negative <;> rfl
    · refine ⟨.whole negative (cs.reverse ++ [c]), ?_, ?_, ?_, ?_⟩
      · have hrest := run_digits (PartialNumeral.whole negative) (fun before d hd => by
          rw [PartialNumeral.next, isDigit_eq, if_pos hd]) hcs [c] tokens
        cases negative with
        | false => exact (run_cons (next_gap_of_isDigit hc hzero tokens) cs).trans hrest
        | true =>
          have hsign : next ⟨.number .sign, tokens⟩ c = some ⟨.number (.whole true [c]), tokens⟩ := by
            refine next_number ?_ tokens
            rw [PartialNumeral.next, if_neg hzero, isDigit_eq, if_pos hc]
          exact (run_cons hsign cs).trans hrest
      · simp [PartialNumeral.finish?]
      · simp [PartialNumeral.next, PartialNumeral.afterWhole, isDigit_eq]
      · simp [PartialNumeral.next, PartialNumeral.afterWhole, isDigit_eq]

/-- The digits after the point, if there are any. The number is complete with them, and an exponent may follow. -/
theorem run_fraction {n : Numeral} (h : n.Readable) {p : PartialNumeral} (tokens : List Token)
    (hfinish : p.finish? = some ⟨n.negative, n.whole, [], none⟩)
    (hpoint : p.next '.' = some (.point n.negative n.whole.reverse))
    (hmark : p.next 'e' = some (.mark n.negative n.whole.reverse [])) :
    ∃ q, run ⟨.number p, tokens⟩ (if n.fraction = [] then [] else '.' :: n.fraction) = some ⟨.number q, tokens⟩ ∧
      q.finish? = some ⟨n.negative, n.whole, n.fraction, none⟩ ∧
      q.next 'e' = some (.mark n.negative n.whole.reverse n.fraction.reverse) := by
  have hdigits := h.fraction_digits
  cases hfraction : n.fraction with
  | nil => exact ⟨p, rfl, hfinish, hmark⟩
  | cons c cs =>
    rw [hfraction] at hdigits
    obtain ⟨hc, hcs⟩ := List.forall_mem_cons.1 hdigits
    have hfirst : (PartialNumeral.point n.negative n.whole.reverse).next c =
        some (.fraction n.negative n.whole.reverse [c]) := by
      rw [PartialNumeral.next, isDigit_eq, if_pos hc]
    have hrest := run_digits (PartialNumeral.fraction n.negative n.whole.reverse) (fun before d hd => by
      rw [PartialNumeral.next, isDigit_eq, if_pos hd]) hcs [c] tokens
    refine ⟨.fraction n.negative n.whole.reverse (cs.reverse ++ [c]), ?_, ?_, ?_⟩
    · rw [if_neg (List.cons_ne_nil c cs), run_cons (next_number hpoint tokens), run_cons (next_number hfirst tokens)]
      exact hrest
    · simp [PartialNumeral.finish?]
    · simp [PartialNumeral.next, isDigit_eq]

/-- The exponent, with its sign written. -/
theorem run_exponent {q : PartialNumeral} {negative : Bool} {whole fraction digits : List Char} (down : Bool)
    (hmark : q.next 'e' = some (.mark negative whole.reverse fraction.reverse)) (hne : digits ≠ [])
    (hdigits : ∀ c ∈ digits, c.isDigit = true) (tokens : List Token) :
    ∃ r, run ⟨.number q, tokens⟩ ('e' :: (if down then '-' else '+') :: digits) = some ⟨.number r, tokens⟩ ∧
      r.finish? = some ⟨negative, whole, fraction, some ⟨down, digits⟩⟩ := by
  cases digits with
  | nil => exact absurd rfl hne
  | cons c cs =>
    obtain ⟨hc, hcs⟩ := List.forall_mem_cons.1 hdigits
    have hsign : (PartialNumeral.mark negative whole.reverse fraction.reverse).next (if down then '-' else '+') =
        some (.markSign negative whole.reverse fraction.reverse down) := by
      cases down <;> rfl
    have hfirst : (PartialNumeral.markSign negative whole.reverse fraction.reverse down).next c =
        some (.exponent negative whole.reverse fraction.reverse down [c]) := by
      rw [PartialNumeral.next, isDigit_eq, if_pos hc]
    have hrest := run_digits (PartialNumeral.exponent negative whole.reverse fraction.reverse down)
      (fun before d hd => by rw [PartialNumeral.next, isDigit_eq, if_pos hd]) hcs [c] tokens
    refine ⟨.exponent negative whole.reverse fraction.reverse down (cs.reverse ++ [c]), ?_, ?_⟩
    · rw [run_cons (next_number hmark tokens), run_cons (next_number hsign tokens),
        run_cons (next_number hfirst tokens)]
      exact hrest
    · simp [PartialNumeral.finish?]

/-- The machine after a numeral is in a number, which is complete and is that numeral. -/
theorem run_render {n : Numeral} (h : n.Readable) (tokens : List Token) :
    ∃ p, run ⟨.gap, tokens⟩ (n.render true) = some ⟨.number p, tokens⟩ ∧ p.finish? = some n := by
  obtain ⟨p, hp, hfinish, hpoint, hmark⟩ := run_whole h tokens
  obtain ⟨q, hq, hfinish, hmark⟩ := run_fraction h tokens hfinish hpoint hmark
  unfold Numeral.render
  dsimp only
  rw [List.append_assoc, List.append_assoc, ← List.append_assoc, run_append_of_run hp, run_append_of_run hq]
  cases hexponent : n.exponent with
  | none =>
    refine ⟨q, rfl, ?_⟩
    rw [hfinish, ← hexponent]
  | some e =>
    obtain ⟨down, digits⟩ := e
    obtain ⟨r, hr, hfinish⟩ := run_exponent down hmark (h.exponent_ne_nil _ hexponent)
      (h.exponent_digits _ hexponent) tokens
    refine ⟨r, ?_, ?_⟩
    · rw [← hr]
      cases down <;> rfl
    · rw [hfinish, ← hexponent]

/-! ### Between tokens -/

/-- A mark that no number can go on with. -/
def IsMark (c : Char) : Prop := c = ',' ∨ c = ':' ∨ c = ']' ∨ c = '\x7d'

theorem next_number_of_isMark {c : Char} (h : IsMark c) (p : PartialNumeral) : p.next c = none := by
  rcases h with rfl | rfl | rfl | rfl <;> cases p <;> rfl

/-- At a mark a complete number ends, so the machine goes on as it does between two tokens. -/
theorem next_of_finish? {m : Scanner} {tokens : List Token} {c : Char} (h : m.finish? = some tokens) (hc : IsMark c) :
    m.next c = next ⟨.gap, tokens.reverse⟩ c := by
  obtain ⟨place, before⟩ := m
  unfold finish? at h
  dsimp only at h
  split at h
  · cases h
    rw [List.reverse_reverse]
  · rename_i p
    obtain ⟨n, hn, rfl⟩ := Option.map_eq_some_iff.1 h
    rw [List.reverse_reverse]
    simp only [next, next_number_of_isMark hc, hn]
    rfl
  · cases h

end Scanner

/-! ## Texts and tokens -/

/-- A text that starts between two tokens gives the tokens and ends with the last of them complete. -/
def Token.Reads (text : List Char) (tokens : List Token) : Prop :=
  ∀ before, ∃ m, Scanner.run ⟨.gap, before⟩ text = some m ∧ m.finish? = some (before.reverse ++ tokens)

namespace Token.Reads

variable {text rest : List Char} {tokens later : List Token}

theorem scan (h : Reads text tokens) : Token.scan text = some tokens := by
  obtain ⟨m, hm, hfinish⟩ := h []
  unfold Token.scan
  rw [hm]
  exact hfinish

theorem nil : Reads [] [] := fun before => ⟨⟨.gap, before⟩, rfl, by simp [Scanner.finish?]⟩

/-- A token of one character, and what follows it. -/
theorem mark {c : Char} {t : Token} (hc : ∀ m : Scanner, m.begin c = some (m.emit t)) (h : Reads text tokens) :
    Reads (c :: text) (t :: tokens) := by
  intro before
  obtain ⟨m, hm, hfinish⟩ := h (t :: before)
  have hnext : Scanner.next ⟨.gap, before⟩ c = some ⟨.gap, t :: before⟩ := hc ⟨.gap, before⟩
  refine ⟨m, (Scanner.run_cons hnext text).trans hm, ?_⟩
  rw [hfinish]
  simp

/-- A text, and one that starts with a mark. -/
theorem append (h : Reads text tokens) (hrest : Reads rest later) (hmark : ∃ c cs, Scanner.IsMark c ∧ rest = c :: cs) :
    Reads (text ++ rest) (tokens ++ later) := by
  obtain ⟨c, cs, hc, rfl⟩ := hmark
  intro before
  obtain ⟨m, hm, hfinish⟩ := h before
  obtain ⟨m', hm', hfinish'⟩ := hrest (before.reverse ++ tokens).reverse
  refine ⟨m', ?_, ?_⟩
  · rw [Scanner.run_append_of_run hm, Scanner.run, Scanner.next_of_finish? hfinish hc]
    exact hm'
  · rw [hfinish']
    simp

/-- A text that ends a token with its last character. -/
theorem single {t : Token} (h : ∀ before, Scanner.run ⟨.gap, before⟩ text = some ⟨.gap, t :: before⟩) :
    Reads text [t] :=
  fun before => ⟨⟨.gap, t :: before⟩, h before, by simp [Scanner.finish?]⟩

theorem string (s : String) : Reads ('"' :: ((Quoted.encode s).raw ++ ['"'])) [.str (.encode s)] := by
  refine single fun before => ?_
  have hopen : Scanner.next ⟨.gap, before⟩ '"' = some ⟨.string [], before⟩ := rfl
  have hinside := Scanner.run_encode s.toList [] before
  rw [Scanner.run_cons hopen, Quoted.encode, Scanner.run_append_of_run hinside, List.append_nil]
  change some (Scanner.emit _ (.str ⟨_⟩)) = _
  rw [List.reverse_reverse]
  rfl

theorem numeral {n : Numeral} (h : n.Readable) : Reads (n.render true) [.num n] := by
  intro before
  obtain ⟨p, hp, hfinish⟩ := Scanner.run_render h before
  exact ⟨⟨.number p, before⟩, hp, by simp [Scanner.finish?, hfinish]⟩

end Token.Reads

end EffectTyping.Json
