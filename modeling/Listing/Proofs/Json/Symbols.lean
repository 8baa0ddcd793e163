import Listing.Proofs.Json.Lexing
import Listing.Proofs.Json.Numerals
import Listing.Proofs.Json.Units
import Mathlib.Data.List.Chain

/-!
# Texts as rows of symbols

A JSON text is a row of symbols with blanks between them: `Spaced` says that a text is a given row,
whatever the blanks are and however the strings are written. Such a text is cut into the tokens of
its symbols (`Spaced.tokens_eq`). Conversely, the tokens of any text are those of symbols, but for a
last one at which the text stops making sense, and without such a one the text is the row of these
symbols (`isCut_tokens`).
-/

set_option autoImplicit false
set_option relaxedAutoImplicit false

namespace Listing.Json

/-- A mark, a word, a numeral or a string of a text. -/
inductive Symbol where
  | mark (m : Mark)
  | null
  | bool (b : Bool)
  | numeral (n : Numeral)
  | string (units : List UInt16)

namespace Symbol

/-- The token of a symbol. -/
def token : Symbol → Token
  | mark m => .mark m
  | null => .plain (.ofValue .null)
  | bool b => .plain (.ofValue (.bool b))
  | numeral n => .plain ⟨n.value.map .number, .ok ()⟩
  | string units => .string (Quoted.lexeme units)

/-- The characters are the symbol. -/
inductive Spells : Symbol → List Char → Prop
  | mark {c : Char} {m : Mark} (hc : mark? c = some m) : Spells (mark m) [c]
  | null : Spells null ['n', 'u', 'l', 'l']
  | true : Spells (bool true) ['t', 'r', 'u', 'e']
  | false : Spells (bool false) ['f', 'a', 'l', 's', 'e']
  | numeral {n : Numeral} {cs : List Char} (hn : n.Spells cs) : Spells (numeral n) cs
  | string {units : List UInt16} {cs : List Char} (hcs : Quoted.Spells units cs) :
      Spells (string units) ('"' :: (cs ++ ['"']))

/-- The symbol is a mark. -/
def IsMark (s : Symbol) : Prop := ∃ m, s = mark m

end Symbol

/-- Blanks that may stand between two symbols. -/
def IsGap (cs : List Char) : Prop := ∀ c ∈ cs, isSpace c = true

/-- The text is the row of symbols with blanks between them. -/
inductive Spaced : List Symbol → List Char → Prop
  | nil {gap : List Char} (hgap : IsGap gap) : Spaced [] gap
  | cons {gap cs rest : List Char} {s : Symbol} {ss : List Symbol} (hgap : IsGap gap)
      (hs : s.Spells cs) (hrest : Spaced ss rest) : Spaced (s :: ss) (gap ++ (cs ++ rest))

/-- Of two neighbours one is a mark, so that no blank is needed between them. -/
def Apart (ss : List Symbol) : Prop := ss.IsChain fun s s' ↦ s.IsMark ∨ s'.IsMark

variable {gap cs rest : List Char} {s : Symbol} {ss : List Symbol}

/-! ### Rows -/

namespace Spaced

theorem empty : Spaced [] [] := .nil fun _ hc ↦ nomatch hc

theorem symbol (hs : s.Spells cs) (hrest : Spaced ss rest) : Spaced (s :: ss) (cs ++ rest) :=
  have hgap : IsGap [] := fun _ hc ↦ nomatch hc
  .cons hgap hs hrest

theorem mark {c : Char} {m : Mark} (hc : mark? c = some m) (hrest : Spaced ss rest) :
    Spaced (.mark m :: ss) (c :: rest) :=
  symbol (.mark hc) hrest

theorem string {units : List UInt16} (hcs : Quoted.Spells units cs) (hrest : Spaced ss rest) :
    Spaced (.string units :: ss) ('"' :: (cs ++ '"' :: rest)) := by
  have hend : '"' :: (cs ++ ['"']) ++ rest = '"' :: (cs ++ '"' :: rest) := by
    rw [List.cons_append, List.append_assoc, List.singleton_append]
  exact hend ▸ symbol (.string hcs) hrest

/-- A blank may stand in front. -/
theorem blank {c : Char} (hc : isSpace c = true) (h : Spaced ss cs) : Spaced ss (c :: cs) := by
  cases h with
  | nil hgap => exact .nil (List.forall_mem_cons.mpr ⟨hc, hgap⟩)
  | cons hgap hs hrest => exact .cons (List.forall_mem_cons.mpr ⟨hc, hgap⟩) hs hrest

end Spaced

/-! ### From symbols to tokens -/

/-- Blanks are passed over. -/
theorem tokens_gap (hgap : IsGap gap) (cs : List Char) : tokens (gap ++ cs) = tokens cs := by
  induction gap with
  | nil => rfl
  | cons c gap ih =>
    obtain ⟨hc, hgap⟩ := List.forall_mem_cons.mp hgap
    rw [List.cons_append, tokens, if_pos hc, ih hgap]

/-- A numeral begins with a minus sign or a digit. -/
theorem Numeral.Spells.exists_cons {n : Numeral} (h : n.Spells cs) :
    ∃ c tail, cs = c :: tail ∧ (c = '-' ∨ c.isDigit = true) := by
  obtain ⟨hwhole, -, -, -⟩ := h
  rename_i negative whole ds fraction es exponent
  obtain ⟨c, tail, rfl, hc⟩ := hwhole.exists_cons
  cases negative with
  | true => exact ⟨'-', _, rfl, .inl rfl⟩
  | false => exact ⟨c, _, rfl, .inr hc⟩

/-- A symbol is one token. A numeral must not be able to go on with what follows it. -/
theorem Symbol.Spells.tokens_append (h : s.Spells cs) (hrest : ¬s.IsMark → Numeral.Stops rest) :
    tokens (cs ++ rest) = s.token :: tokens rest := by
  cases h with
  | mark hc => exact tokens_mark hc rest
  | null => exact tokens_word rfl rest
  | true => exact tokens_word rfl rest
  | false => exact tokens_word rfl rest
  | @numeral n cs hn =>
    have hstops : Numeral.Stops rest := hrest fun ⟨_, h⟩ ↦ nomatch h
    have hscan := hn.scan hstops
    obtain ⟨c, tail, rfl, hc⟩ := hn.exists_cons
    exact tokens_numeral hc hscan
  | @string units cs hcs =>
    obtain ⟨parts, hscan, -⟩ := hcs.scan rest
    have hend : '"' :: (cs ++ ['"']) ++ rest = '"' :: (cs ++ '"' :: rest) := by
      rw [List.cons_append, List.append_assoc, List.singleton_append]
    have hscanned : (Quoted.scan (cs ++ '"' :: rest)).rest = .ok rest := by rw [hscan]
    rw [hend, tokens_string hscanned, hcs.lexeme_scan]
    rfl

/-- A row that is empty or begins with a mark begins with nothing that goes on with a numeral. -/
theorem Spaced.stops (h : Spaced ss cs) (hmark : ∀ s ∈ ss.head?, s.IsMark) : Numeral.Stops cs := by
  have hblank {c : Char} (hc : isSpace c = true) :
      ¬c.isDigit = true ∧ c ≠ '.' ∧ ¬(c = 'e' ∨ c = 'E') := by
    simp only [isSpace, Bool.or_eq_true, beq_iff_eq, or_assoc] at hc
    rcases hc with rfl | rfl | rfl | rfl <;> decide
  cases h with
  | nil hgap => exact fun c hc ↦ hblank (hgap c (List.mem_of_mem_head? hc))
  | @cons gap cs rest s ss hgap hs hrest =>
    cases gap with
    | cons c gap =>
      rintro _ ⟨⟩
      exact hblank (hgap c List.mem_cons_self)
    | nil =>
      obtain ⟨m, rfl⟩ := hmark s rfl
      cases hs with
      | @mark c m hc =>
        rintro _ ⟨⟩
        unfold mark? at hc
        split at hc
        iterate 6 decide
        cases hc

/-- A text is cut into the tokens of its symbols. -/
theorem Spaced.tokens_eq (h : Spaced ss cs) (hapart : Apart ss) : tokens cs = ss.map Symbol.token := by
  induction h with
  | @nil gap hgap =>
    have hnil := tokens_gap hgap []
    rwa [List.append_nil, tokens] at hnil
  | @cons gap cs rest s ss hgap hs hrest ih =>
    obtain ⟨hnext, htail⟩ := List.isChain_cons.mp hapart
    have hstops : ¬s.IsMark → Numeral.Stops rest := fun hs ↦
      hrest.stops fun s' hs' ↦ (hnext s' hs').resolve_left hs
    rw [tokens_gap hgap, hs.tokens_append hstops, ih htail, List.map_cons]

/-! ### From tokens to symbols -/

/-- A token at which a text stops making sense: it has no value and cannot be passed over. -/
inductive Token.Faulty : Token → Prop
  | stray : Faulty .stray
  | plain {l : Lexeme Plain} (hvalue : ∀ a, l.value ≠ .ok a) (hpassing : l.passing ≠ .ok ()) :
      Faulty (.plain l)
  | string {l : Lexeme String} (hvalue : ∀ s, l.value ≠ .ok s) (hpassing : l.passing ≠ .ok ()) :
      Faulty (.string l)

/-- Nothing, or a last token at which the text stops making sense. -/
def IsBreak (ts : List Token) : Prop := ts = [] ∨ ∃ t, ts = [t] ∧ t.Faulty

/-- The tokens are those of a row of symbols and of a break, and without a break the text is the
row. -/
def IsCut (ts : List Token) (cs : List Char) : Prop :=
  ∃ ss tail, ts = ss.map Symbol.token ++ tail ∧ IsBreak tail ∧ (tail = [] → Spaced ss cs)

variable {ts : List Token}

theorem IsCut.symbol (hs : s.Spells cs) (hrest : IsCut ts rest) :
    IsCut (s.token :: ts) (cs ++ rest) := by
  obtain ⟨ss, tail, rfl, htail, hspaced⟩ := hrest
  exact ⟨s :: ss, tail, rfl, htail, fun hnil ↦ .symbol hs (hspaced hnil)⟩

/-- A blank in front changes nothing. -/
theorem IsCut.blank {c : Char} (hc : isSpace c = true) (h : IsCut ts cs) : IsCut ts (c :: cs) := by
  obtain ⟨ss, tail, rfl, htail, hspaced⟩ := h
  exact ⟨ss, tail, rfl, htail, fun hnil ↦ (hspaced hnil).blank hc⟩

theorem IsCut.faulty {t : Token} (ht : t.Faulty) (cs : List Char) : IsCut [t] cs :=
  ⟨[], [t], rfl, .inr ⟨t, rfl, ht⟩, nofun⟩

/-- The parts of a string that does not end say nothing. -/
theorem Quoted.decode_some (fault : Fault) (parts : List Part) (cs : List Char) :
    decode (some fault) parts ≠ .ok cs := by
  have hmap {c : Char} {x : Except Fault (List Char)} (hx : ∀ cs, x ≠ .ok cs) (cs : List Char) :
      x.map (c :: ·) ≠ .ok cs := by
    cases x with
    | error fault => rintro ⟨⟩
    | ok tail => exact absurd rfl (hx tail)
  fun_induction decode (some fault) parts generalizing cs with
  | case1 => contradiction
  | case3 c parts ih => exact hmap ih cs
  | case6 n _ _ m parts _ ih => exact hmap ih cs
  | case9 n parts _ _ ih => exact hmap ih cs
  | _ => rintro ⟨⟩

/-- A string that does not end has no value and cannot be passed over. -/
theorem Quoted.faulty_of_scan {fault : Fault} (h : (Quoted.scan cs).rest = .error fault) :
    Token.Faulty (.string (Quoted.scan cs).lexeme) := by
  refine .string (fun s ↦ ?_) ?_
  · rw [Scan.lexeme, h]
    dsimp only
    cases hparts : decode (some fault) (Quoted.scan cs).parts with
    | error fault => rintro ⟨⟩
    | ok cs => exact absurd hparts (decode_some fault _ cs)
  · rw [Scan.lexeme, h]
    rintro ⟨⟩

/-- The letters that were expected and what follows them are the text. -/
theorem eq_append_of_afterLetters {letters : List Char} (h : afterLetters letters cs = .ok rest) :
    cs = letters ++ rest := by
  induction letters generalizing cs with
  | nil => exact Except.ok.inj h
  | cons e letters ih =>
    cases cs with
    | nil => cases h
    | cons c cs =>
      rw [afterLetters] at h
      split at h
      · rename_i hc
        rw [hc, ih h, List.cons_append]
      · cases h

/-- A word is the symbol of its value. -/
theorem Symbol.spells_of_word? {c : Char} {value : Plain} {letters : List Char}
    (h : word? c = some (value, letters)) :
    ∃ s : Symbol, s.token = .plain (.ofValue value) ∧ s.Spells (c :: letters) := by
  unfold word? at h
  split at h
  · obtain ⟨rfl, rfl⟩ := Prod.mk.inj (Option.some.inj h)
    exact ⟨null, rfl, .null⟩
  · obtain ⟨rfl, rfl⟩ := Prod.mk.inj (Option.some.inj h)
    exact ⟨bool true, rfl, .true⟩
  · obtain ⟨rfl, rfl⟩ := Prod.mk.inj (Option.some.inj h)
    exact ⟨bool false, rfl, .false⟩
  · exact nomatch h

/-- Every text is cut into the tokens of symbols, up to the place where it stops making sense. -/
theorem isCut_tokens (cs : List Char) : IsCut (tokens cs) cs := by
  fun_induction tokens cs with
  | case1 => exact ⟨[], [], rfl, .inl rfl, fun _ ↦ .empty⟩
  | case2 c rest hc ih => exact ih.blank hc
  | case3 rest _ ih =>
    split
    · rename_i rest' hscan
      obtain ⟨units, body, rfl, hbody⟩ := Quoted.exists_spells_of_scan hscan
      have hend : '"' :: (body ++ '"' :: rest') = '"' :: (body ++ ['"']) ++ rest' := by
        rw [List.cons_append, List.append_assoc, List.singleton_append]
      rw [hbody.lexeme_scan, hend]
      exact (ih rest' hscan).symbol (Symbol.Spells.string hbody)
    · rename_i fault hscan
      exact .faulty (Quoted.faulty_of_scan hscan) _
  | case4 c rest _ _ _ n rest' hscan _ ih =>
    obtain ⟨used, hcs, hn⟩ := Numeral.exists_spells_of_scan hscan
    rw [hcs]
    exact ih.symbol (Symbol.Spells.numeral hn)
  | case5 c rest _ _ _ fault hscan =>
    have hfaulty : Token.Faulty (.plain ⟨.error fault, .error .malformed⟩) := .plain nofun nofun
    exact .faulty hfaulty _
  | case6 c rest _ _ _ m hc ih => exact ih.symbol (Symbol.Spells.mark hc)
  | case7 c rest _ _ _ value letters hword hmark rest' hletters _ ih =>
    obtain ⟨s, htoken, hs⟩ := Symbol.spells_of_word? hword
    rw [eq_append_of_afterLetters hletters, ← htoken]
    exact ih.symbol hs
  | case8 c rest _ _ _ value letters _ _ fault _ =>
    have hfaulty : Token.Faulty (.plain (.ofFault fault)) := .plain nofun nofun
    exact .faulty hfaulty _
  | case9 c rest _ _ _ _ _ => exact .faulty .stray _

end Listing.Json
