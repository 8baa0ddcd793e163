import Listing.Proofs.Sql.Placeholders
import Listing.Proofs.Sql.Precedence

/-!
# Scanning a condition

How a database tells the parts of a condition apart in its text: names and literals between their
marks, placeholders, words, signs and parentheses. `scan` goes through the text character by
character. A placeholder stands for a value, the next one or the one with the given number.

Only behind a name, a word, a number or a literal does it matter what comes next, and there the text
of a condition always goes on with a blank or a parenthesis, or ends. So the pieces of a condition
are found again one by one, whatever stands in the names: the scanner finds the lexemes of the items
of the clause (`Clause.scan_textFrom`).
-/

set_option autoImplicit false
set_option relaxedAutoImplicit false

namespace Listing.Sql

/-! ### Lexemes -/

/-- A word that is no name. -/
inductive Keyword where
  | and
  | or
  | not
  | true
  | upper
  | instr
  | like
  | escape
deriving DecidableEq

/-- The word of a row of letters. -/
def Keyword.ofChars? : List Char → Option Keyword
  | ['A', 'N', 'D'] => some and
  | ['O', 'R'] => some or
  | ['N', 'O', 'T'] => some not
  | ['T', 'R', 'U', 'E'] => some true
  | ['U', 'P', 'P', 'E', 'R'] => some upper
  | ['I', 'N', 'S', 'T', 'R'] => some instr
  | ['L', 'I', 'K', 'E'] => some like
  | ['E', 'S', 'C', 'A', 'P', 'E'] => some escape
  | _ => none

/-- A part of a text as a database tells them apart; a placeholder is its value. -/
inductive Lexeme where
  | keyword (w : Keyword)
  | name (s : String)
  | literal (cs : List Char)
  | value (v : Bound)
  | sign (comparison : Comparison)
  | opening
  | closing
  | comma
deriving DecidableEq

/-- What stands between marks. -/
inductive Quote where
  | name
  | literal
  /-- A literal in which a backslash takes the meaning from the next character. -/
  | escapedLiteral
deriving DecidableEq

namespace Quote

/-- The mark on both sides. -/
def mark (d : Dialect) : Quote → Char
  | name => d.nameMark
  | _ => '\x27'

/-- What the characters between the marks make. -/
def lexeme : Quote → List Char → Lexeme
  | name, cs => .name (String.ofList cs)
  | _, cs => .literal cs

end Quote

/-! ### The scanner -/

/-- What a scanner is in the middle of; the last character that it has read stands first. -/
inductive Mode where
  | between
  | word (cs : List Char)
  | number (n : Nat)
  | inside (q : Quote) (cs : List Char)
  /-- Behind a backslash inside a literal. -/
  | escaping (cs : List Char)
  /-- Behind a mark, which is the last one unless another mark follows. -/
  | behind (q : Quote) (cs : List Char)

/-- Where a scanner stands: the lexemes that it has found, the last one first, and how many of them
are values. -/
structure Scanner where
  lexemes : List Lexeme
  count : Nat
  mode : Mode

namespace Scanner

variable (d : Dialect) (vs : List Bound)

/-- Ends the lexeme that the scanner is in the middle of. -/
def cut? : Scanner → Option Scanner
  | ⟨ls, n, .between⟩ => some ⟨ls, n, .between⟩
  | ⟨ls, n, .word cs⟩ => (Keyword.ofChars? cs.reverse).map fun w ↦ ⟨.keyword w :: ls, n, .between⟩
  | ⟨ls, n, .number k⟩ =>
    if k = 0 then none else vs[k - 1]?.map fun v ↦ ⟨.value v :: ls, n + 1, .between⟩
  | ⟨ls, n, .behind q cs⟩ => some ⟨q.lexeme cs.reverse :: ls, n, .between⟩
  | _ => none

/-- Reads the first character of a lexeme. -/
def start? : Scanner → Char → Option Scanner
  | ⟨ls, n, _⟩, c =>
    match c with
    | ' ' => some ⟨ls, n, .between⟩
    | '(' => some ⟨.opening :: ls, n, .between⟩
    | ')' => some ⟨.closing :: ls, n, .between⟩
    | ',' => some ⟨.comma :: ls, n, .between⟩
    | '=' => some ⟨.sign .equal :: ls, n, .between⟩
    | '<' => some ⟨.sign .lessThan :: ls, n, .between⟩
    | '>' => some ⟨.sign .greaterThan :: ls, n, .between⟩
    | '\x27' => some ⟨ls, n, .inside (if d = .mysql then .escapedLiteral else .literal) []⟩
    | c =>
      if c = d.nameMark then some ⟨ls, n, .inside .name []⟩
      else if c = d.placeholderMark then
        if d = .postgres then some ⟨ls, n, .number 0⟩
        else vs[n]?.map fun v ↦ ⟨.value v :: ls, n + 1, .between⟩
      else if c.isAlpha then some ⟨ls, n, .word [c]⟩
      else none

/-- Reads a character. Of the characters behind a backslash only a backslash and a mark are read. -/
def step? : Scanner → Char → Option Scanner
  | ⟨ls, n, .inside q cs⟩, c =>
    if c = q.mark d then some ⟨ls, n, .behind q cs⟩
    else if c = '\\' ∧ q = .escapedLiteral then some ⟨ls, n, .escaping cs⟩
    else some ⟨ls, n, .inside q (c :: cs)⟩
  | ⟨ls, n, .escaping cs⟩, c =>
    if c = '\\' ∨ c = '\x27' then some ⟨ls, n, .inside .escapedLiteral (c :: cs)⟩ else none
  | ⟨ls, n, .behind q cs⟩, c =>
    if c = q.mark d then some ⟨ls, n, .inside q (c :: cs)⟩
    else (cut? vs ⟨ls, n, .behind q cs⟩).bind (start? d vs · c)
  | ⟨ls, n, .word cs⟩, c =>
    if c.isAlpha then some ⟨ls, n, .word (c :: cs)⟩
    else if c = '\x27' ∧ cs = ['E'] ∧ d = .postgres then some ⟨ls, n, .inside .escapedLiteral []⟩
    else (cut? vs ⟨ls, n, .word cs⟩).bind (start? d vs · c)
  | ⟨ls, n, .number k⟩, c =>
    if c.isDigit then some ⟨ls, n, .number (k * 10 + (c.toNat - 48))⟩
    else (cut? vs ⟨ls, n, .number k⟩).bind (start? d vs · c)
  | ⟨ls, n, .between⟩, c => start? d vs ⟨ls, n, .between⟩ c

end Scanner

/-- The lexemes of a text in which the values stand for the placeholders. -/
def scan (d : Dialect) (vs : List Bound) : Scanner → List Char → Option (List Lexeme)
  | s, [] => (s.cut? vs).map fun t ↦ t.lexemes.reverse
  | s, c :: cs => (s.step? d vs c).bind fun t ↦ scan d vs t cs

/-! ### Breaks between lexemes -/

/-- The character ends whatever stands in front of it outside of marks. -/
def IsBreak (c : Char) : Prop := c = ' ' ∨ c = '(' ∨ c = ')' ∨ c = ','

/-- The text ends, or goes on with a character that ends what stands in front. -/
def Breaks (cs : List Char) : Prop := ∀ c ∈ cs.head?, IsBreak c

section Scan

variable {d : Dialect} {vs : List Bound}

/-- A character that ends a lexeme is no mark. -/
theorem IsBreak.ne_mark {c : Char} (h : IsBreak c) (q : Quote) : c ≠ q.mark d := by
  rcases h with rfl | rfl | rfl | rfl <;> cases q <;> cases d <;> decide

/-- The scanner is behind something that can be the end of a lexeme. -/
def Mode.IsOpen : Mode → Prop
  | .word _ => True
  | .number _ => True
  | .behind _ _ => True
  | _ => False

/-- In front of a character that ends a lexeme the scanner may as well have ended it before. -/
theorem Scanner.step?_of_isBreak {s t : Scanner} {c : Char} (hopen : s.mode.IsOpen)
    (hcut : s.cut? vs = some t) (ht : t.mode = .between) (hc : IsBreak c) :
    s.step? d vs c = t.step? d vs c := by
  have hletter : c.isAlpha = false := by rcases hc with rfl | rfl | rfl | rfl <;> decide
  have hdigit : c.isDigit = false := by rcases hc with rfl | rfl | rfl | rfl <;> decide
  have hmark : c ≠ '\x27' := by rcases hc with rfl | rfl | rfl | rfl <;> decide
  have hstart : t.step? d vs c = t.start? d vs c := by
    obtain ⟨ls, n, mode⟩ := t
    obtain rfl : mode = .between := ht
    rfl
  rw [hstart]
  obtain ⟨ls, n, mode⟩ := s
  cases mode with
  | word cs =>
    rw [step?, if_neg (by simp [hletter]), if_neg fun h ↦ hmark h.1, hcut, Option.bind_some]
  | number k => rw [step?, if_neg (by simp [hdigit]), hcut, Option.bind_some]
  | behind q cs => rw [step?, if_neg (hc.ne_mark q), hcut, Option.bind_some]
  | _ => exact hopen.elim

/-- In front of a break the scanner may as well have ended the lexeme before. -/
theorem scan_of_breaks {s t : Scanner} {cs : List Char} (hopen : s.mode.IsOpen)
    (hcut : s.cut? vs = some t) (ht : t.mode = .between) (hcs : Breaks cs) :
    scan d vs s cs = scan d vs t cs := by
  cases cs with
  | nil =>
    have hself : t.cut? vs = some t := by
      obtain ⟨ls, n, mode⟩ := t
      obtain rfl : mode = .between := ht
      rfl
    rw [scan, scan, hcut, hself]
  | cons c cs => rw [scan, scan, Scanner.step?_of_isBreak hopen hcut ht (hcs c rfl)]

/-! ### Names and placeholders -/

section Name

variable (d vs) (ls : List Lexeme) (n : Nat) (cs : List Char)

/-- The first mark behind a name is taken for its end. -/
theorem Scanner.step?_insideName_mark :
    step? d vs ⟨ls, n, .inside .name cs⟩ d.nameMark = some ⟨ls, n, .behind .name cs⟩ := if_pos rfl

/-- Another character belongs to the name. -/
theorem Scanner.step?_insideName_of_ne {c : Char} (hc : c ≠ d.nameMark) :
    step? d vs ⟨ls, n, .inside .name cs⟩ c = some ⟨ls, n, .inside .name (c :: cs)⟩ :=
  (if_neg hc).trans (if_neg fun h ↦ Quote.noConfusion h.2)

/-- The second of two marks belongs to the name. -/
theorem Scanner.step?_behindName_mark :
    step? d vs ⟨ls, n, .behind .name cs⟩ d.nameMark =
      some ⟨ls, n, .inside .name (d.nameMark :: cs)⟩ := if_pos rfl

end Name

/-- Behind the first mark a name is read to its last mark, whatever it is. -/
theorem scan_insideName (ls : List Lexeme) (n : Nat) (read cs rest : List Char) :
    scan d vs ⟨ls, n, .inside .name read⟩ ((cs.flatMap fun c ↦ if c = d.nameMark then
        [d.nameMark, d.nameMark] else [c]) ++ d.nameMark :: rest) =
      scan d vs ⟨ls, n, .behind .name (cs.reverse ++ read)⟩ rest := by
  induction cs generalizing read with
  | nil =>
    rw [List.flatMap_nil, List.nil_append, scan, Scanner.step?_insideName_mark]
    rfl
  | cons c cs ih =>
    rw [List.flatMap_cons, List.append_assoc, List.reverse_cons, List.append_assoc]
    by_cases hc : c = d.nameMark
    · -- The first of the two marks might have been the last one of the name.
      rw [if_pos hc, List.cons_append, scan, Scanner.step?_insideName_mark, Option.bind_some,
        List.cons_append, scan, Scanner.step?_behindName_mark, Option.bind_some, hc]
      exact ih (d.nameMark :: read)
    · rw [if_neg hc, List.cons_append, scan, Scanner.step?_insideName_of_ne d vs ls n read hc,
        Option.bind_some]
      exact ih (c :: read)

/-- A name in front of a break is read as itself. -/
theorem scan_quoteName (ls : List Lexeme) (n : Nat) (name : String) {rest : List Char}
    (hrest : Breaks rest) :
    scan d vs ⟨ls, n, .between⟩ ((d.quoteName name).toList ++ rest) =
      scan d vs ⟨.name name :: ls, n, .between⟩ rest := by
  have hmark : Scanner.step? d vs ⟨ls, n, .between⟩ d.nameMark =
      some ⟨ls, n, .inside .name []⟩ := by cases d <;> rfl
  rw [Dialect.quoteName, String.toList_ofList, List.append_assoc, List.cons_append, scan, hmark,
    Option.bind_some]
  refine (scan_insideName ls n [] name.toList rest).trans ?_
  have hcut : Scanner.cut? vs ⟨ls, n, .behind .name (name.toList.reverse ++ [])⟩ =
      some ⟨.name name :: ls, n, .between⟩ := by
    rw [Scanner.cut?, List.append_nil, List.reverse_reverse, Quote.lexeme, String.ofList_toList]
  exact scan_of_breaks trivial hcut rfl hrest

/-- The digits of a number are read as the number. -/
theorem scan_digits (ls : List Lexeme) (n k : Nat) {cs : List Char}
    (hdigits : ∀ c ∈ cs, c.isDigit = true) (rest : List Char) :
    scan d vs ⟨ls, n, .number k⟩ (cs ++ rest) =
      scan d vs ⟨ls, n, .number (Nat.ofDigitChars 10 cs k)⟩ rest := by
  induction cs generalizing k with
  | nil => rfl
  | cons c cs ih =>
    rw [List.cons_append, scan, Scanner.step?, if_pos (hdigits c List.mem_cons_self),
      Option.bind_some, ih _ fun c hc ↦ hdigits c (List.mem_cons_of_mem _ hc),
      Nat.ofDigitChars_cons, Nat.mul_comm]
    rfl

/-- A placeholder in front of a break is read as its value. -/
theorem scan_placeholder (ls : List Lexeme) {n : Nat} {v : Bound} (hv : vs[n]? = some v)
    {rest : List Char} (hrest : Breaks rest) :
    scan d vs ⟨ls, n, .between⟩ ((d.placeholder (n + 1)).toList ++ rest) =
      scan d vs ⟨.value v :: ls, n + 1, .between⟩ rest := by
  -- Without a number the placeholder stands for the next value.
  have hnext : ∀ d : Dialect, d ≠ .postgres →
      scan d vs ⟨ls, n, .between⟩ ((d.placeholder (n + 1)).toList ++ rest) =
        scan d vs ⟨.value v :: ls, n + 1, .between⟩ rest := by
    intro d hd
    have hmark : (d.placeholder (n + 1)).toList = ['?'] := by
      cases d with
      | postgres => exact absurd rfl hd
      | _ => simp [Dialect.placeholder]
    have hstep : Scanner.step? d vs ⟨ls, n, .between⟩ '?' =
        vs[n]?.map fun v ↦ ⟨.value v :: ls, n + 1, .between⟩ := by
      cases d with
      | postgres => exact absurd rfl hd
      | _ => rfl
    rw [hmark, List.cons_append, scan, hstep, hv]
    rfl
  cases d with
  | sqlite => exact hnext .sqlite (by decide)
  | mysql => exact hnext .mysql (by decide)
  | postgres =>
    have hdigits : ∀ c ∈ (toString (n + 1)).toList, c.isDigit = true := by
      intro c hc
      rw [Nat.toString_eq_repr, Nat.toList_repr] at hc
      exact Nat.isDigit_of_mem_toDigits (by decide) (by decide) hc
    have hnumber : Nat.ofDigitChars 10 (toString (n + 1)).toList 0 = n + 1 := by
      rw [Nat.toString_eq_repr, Nat.toList_repr, Nat.ofDigitChars_toDigits (by decide) (by decide)]
    have hcut : Scanner.cut? vs ⟨ls, n, .number (n + 1)⟩ =
        some ⟨.value v :: ls, n + 1, .between⟩ := by
      rw [Scanner.cut?, if_neg n.succ_ne_zero, Nat.add_sub_cancel, hv]
      rfl
    rw [Dialect.placeholder, String.toList_append, List.append_assoc]
    refine (scan_digits ls n 0 hdigits rest).trans ?_
    rw [hnumber]
    exact scan_of_breaks trivial hcut rfl hrest

end Scan

/-! ### Scanning pieces -/

/-- The lexemes of the left side of a comparison. -/
def Operand.lexemes : Operand → List Lexeme
  | .column name => [.name name]
  | .upper name => [.keyword .upper, .opening, .name name, .closing]
  | .position name needle =>
    [.keyword .instr, .opening, .name name, .comma, .value needle, .closing]
  | .value v => [.value v]

/-- The lexemes of a comparison. -/
def Atom.lexemes : Atom → List Lexeme
  | .compare lhs comparison rhs => lhs.lexemes ++ [.sign comparison, .value rhs]
  | .like lhs pattern =>
    lhs.lexemes ++ [.keyword .like, .value pattern, .keyword .escape, .literal ['\\']]

/-- The lexemes of an item. -/
def Item.lexemes : Item → List Lexeme
  | .atom a => a.lexemes
  | .truth => [.keyword .true]
  | .not => [.keyword .not]
  | .operator .all => [.keyword .and]
  | .operator .any => [.keyword .or]
  | .opening => [.opening]
  | .closing => [.closing]

/-- The pieces end, or go on with a text that ends what stands in front. -/
def Separated (ps : List Piece) : Prop :=
  ∀ p ∈ ps.head?, ∃ c cs, IsBreak c ∧ p = .verbatim (String.ofList (c :: cs))

theorem Separated.breaks {d : Dialect} {ps : List Piece} (h : Separated ps) (n : Nat) :
    Breaks (Select.textFrom d n ps).toList := by
  cases ps with
  | nil => exact fun c hc ↦ nomatch hc
  | cons p ps =>
    obtain ⟨c, cs, hc, rfl⟩ := h p rfl
    intro c' hc'
    rw [Select.textFrom, String.toList_append, String.toList_ofList] at hc'
    exact Option.some.inj hc' ▸ hc

/-- Scanning the pieces gives the lexemes, whatever goes on behind them, except that open pieces
must be separated from it. -/
def Scans (d : Dialect) (isOpen : Bool) (ps : List Piece) (found : List Lexeme) : Prop :=
  ∀ (vs : List Bound) (n : Nat) (rest : List Piece) (ls : List Lexeme),
    (isOpen = true → Separated rest) → vs.drop n = Select.boundValues (ps ++ rest) →
      ∃ m, vs.drop m = Select.boundValues rest ∧
        scan d vs ⟨ls, n, .between⟩ (Select.textFrom d (n + 1) (ps ++ rest)).toList =
          scan d vs ⟨found.reverse ++ ls, m, .between⟩ (Select.textFrom d (m + 1) rest).toList

namespace Scans

variable {d : Dialect} {isOpen isOpen' : Bool} {ps qs : List Piece} {found found' : List Lexeme}

/-- One row of pieces is scanned after the other. -/
theorem append (hps : Scans d isOpen ps found) (hqs : Scans d isOpen' qs found')
    (hseparated : isOpen = true → ∀ rest, Separated (qs ++ rest)) :
    Scans d isOpen' (ps ++ qs) (found ++ found') := by
  intro vs n rest ls hrest hvs
  rw [List.append_assoc] at hvs ⊢
  obtain ⟨k, hk, hfirst⟩ := hps vs n _ ls (fun h ↦ hseparated h rest) hvs
  obtain ⟨m, hm, hsecond⟩ := hqs vs k rest (found.reverse ++ ls) hrest hk
  refine ⟨m, hm, ?_⟩
  rw [hfirst, hsecond, List.reverse_append, List.append_assoc]

/-- Assumes: the scanner reads a text in front of what may follow. -/
theorem verbatim {s : String}
    (h : ∀ vs ls n cs, (isOpen = true → Breaks cs) →
      scan d vs ⟨ls, n, .between⟩ (s.toList ++ cs) =
        scan d vs ⟨found.reverse ++ ls, n, .between⟩ cs) :
    Scans d isOpen [.verbatim s] found := by
  intro vs n rest ls hrest hvs
  refine ⟨n, hvs, ?_⟩
  rw [List.singleton_append, Select.textFrom, String.toList_append]
  exact h vs ls n _ fun hopen ↦ (hrest hopen).breaks (n + 1)

theorem name (s : String) : Scans d true [.name s] [.name s] := by
  intro vs n rest ls hrest hvs
  refine ⟨n, hvs, ?_⟩
  rw [List.singleton_append, Select.textFrom, String.toList_append]
  exact scan_quoteName ls n s ((hrest rfl).breaks (n + 1))

theorem bound (v : Bound) : Scans d true [.bound v] [.value v] := by
  intro vs n rest ls hrest hvs
  -- The value is the first of those that are left for the pieces from here on.
  have hcons : vs.drop n = v :: Select.boundValues rest := hvs
  have hv : vs[n]? = some v := by
    rw [← List.head?_drop, hcons, List.head?_cons]
  refine ⟨n + 1, ?_, ?_⟩
  · rw [← List.tail_drop, hcons, List.tail_cons]
  · rw [List.singleton_append, Select.textFrom, String.toList_append]
    exact scan_placeholder ls hv ((hrest rfl).breaks (n + 1 + 1))

/-- What is scanned in front of everything is scanned in front of a break. -/
theorem open_of_closed (h : Scans d false ps found) : Scans d true ps found :=
  fun vs n rest ls _ hvs ↦ h vs n rest ls Bool.noConfusion hvs

/-- The closing parenthesis is separated from what stands in front. -/
theorem separated_closing (rest : List Piece) : Separated ([.verbatim ")"] ++ rest) :=
  fun _ hp ↦ ⟨')', [], .inr (.inr (.inl rfl)), (Option.some.inj hp).symm⟩

theorem closing : Scans d false [.verbatim ")"] [.closing] := verbatim fun _ _ _ _ _ ↦ rfl

/-- Pieces behind an opening parenthesis are read up to the closing one. -/
theorem enclosed {s : String} (hopening : Scans d false [.verbatim s] found')
    (h : Scans d isOpen ps found) :
    Scans d true (.verbatim s :: ps ++ [.verbatim ")"]) (found' ++ found ++ [.closing]) := by
  have hinside : Scans d isOpen (.verbatim s :: ps) (found' ++ found) :=
    hopening.append h Bool.noConfusion
  exact (hinside.append closing fun _ ↦ separated_closing).open_of_closed

/-- Items in parentheses are read as they are written. -/
theorem parenthesize {items : List Item} (needed : Bool)
    (h : Scans d true ps (items.flatMap Item.lexemes)) :
    Scans d true (parenthesized needed ps)
      ((Item.parenthesize needed items).flatMap Item.lexemes) := by
  cases needed with
  | false => exact h
  | true =>
    have hopening : Scans d false [.verbatim "("] [.opening] := verbatim fun _ _ _ _ _ ↦ rfl
    rw [Item.parenthesize, if_pos rfl, List.flatMap_append]
    exact enclosed hopening h

end Scans

/-! ### Scanning clauses -/

theorem Operand.scans_pieces (d : Dialect) (o : Operand) : Scans d true o.pieces o.lexemes := by
  cases o with
  | column name => exact Scans.name name
  | value v => exact Scans.bound v
  | upper name =>
    have hupper : Scans d false [.verbatim "UPPER("] [.keyword .upper, .opening] :=
      Scans.verbatim fun _ _ _ _ _ ↦ by cases d <;> rfl
    exact Scans.enclosed hupper (Scans.name name)
  | position name needle =>
    -- A name ends at the comma behind it and a value at the parenthesis.
    have hinstr : Scans d false [.verbatim "INSTR("] [.keyword .instr, .opening] :=
      Scans.verbatim fun _ _ _ _ _ ↦ by cases d <;> rfl
    have hcomma : Scans d false [.verbatim ", "] [.comma] := Scans.verbatim fun _ _ _ _ _ ↦ rfl
    have hseparated : ∀ rest, Separated ([.verbatim ", "] ++ rest) :=
      fun rest p hp ↦ ⟨',', [' '], .inr (.inr (.inr rfl)), (Option.some.inj hp).symm⟩
    have harguments : Scans d true ([.name name] ++ [.verbatim ", "] ++ [.bound needle])
        ([.name name] ++ [.comma] ++ [.value needle]) :=
      ((Scans.name name).append hcomma fun _ ↦ hseparated).append (Scans.bound needle)
        Bool.noConfusion
    exact Scans.enclosed hinstr harguments

/-- A text that begins with a blank is separated from what stands in front. -/
theorem separated_blank {s : String} (cs : List Char) (h : s = String.ofList (' ' :: cs))
    (rest : List Piece) : Separated ([.verbatim s] ++ rest) :=
  fun _ hp ↦ ⟨' ', cs, .inl rfl, h ▸ (Option.some.inj hp).symm⟩

theorem scans_backslashLiteral (d : Dialect) :
    Scans d true [.verbatim d.backslashLiteral] [.literal ['\\']] := by
  have hread : ∃ q : Quote, q.lexeme ['\\'] = .literal ['\\'] ∧ ∀ vs ls n cs,
      scan d vs ⟨ls, n, .between⟩ (d.backslashLiteral.toList ++ cs) =
        scan d vs ⟨ls, n, .behind q ['\\']⟩ cs := by
    cases d with
    | sqlite => exact ⟨.literal, rfl, fun _ _ _ _ ↦ rfl⟩
    | _ => exact ⟨.escapedLiteral, rfl, fun _ _ _ _ ↦ rfl⟩
  obtain ⟨q, hlexeme, hread⟩ := hread
  refine Scans.verbatim fun vs ls n cs hcs ↦ ?_
  have hcut : Scanner.cut? vs ⟨ls, n, .behind q ['\\']⟩ =
      some ⟨.literal ['\\'] :: ls, n, .between⟩ := by
    rw [← hlexeme]
    rfl
  rw [hread]
  exact scan_of_breaks trivial hcut rfl (hcs rfl)

theorem Atom.scans_pieces (d : Dialect) (a : Atom) : Scans d true (a.pieces d) a.lexemes := by
  cases a with
  | compare lhs comparison rhs =>
    have hsign : Scans d false [.verbatim (comparisonSign comparison)] [.sign comparison] :=
      Scans.verbatim fun _ _ _ _ _ ↦ by cases comparison <;> rfl
    have hseparated : ∀ rest, Separated ([.verbatim (comparisonSign comparison)] ++ rest) := by
      cases comparison with
      | equal => exact separated_blank ['=', ' '] rfl
      | lessThan => exact separated_blank ['<', ' '] rfl
      | greaterThan => exact separated_blank ['>', ' '] rfl
    have hright := hsign.append (Scans.bound rhs) Bool.noConfusion
    exact (lhs.scans_pieces d).append hright fun _ rest ↦ hseparated _
  | like lhs pattern =>
    have hlike : Scans d false [.verbatim " LIKE "] [.keyword .like] :=
      Scans.verbatim fun _ _ _ _ _ ↦ by cases d <;> rfl
    have hescape : Scans d false [.verbatim " ESCAPE "] [.keyword .escape] :=
      Scans.verbatim fun _ _ _ _ _ ↦ by cases d <;> rfl
    have hpattern := (hlike.append (Scans.bound pattern) Bool.noConfusion).append hescape
      fun _ ↦ separated_blank ['E', 'S', 'C', 'A', 'P', 'E', ' '] rfl
    have hright := hpattern.append (scans_backslashLiteral d) Bool.noConfusion
    exact (lhs.scans_pieces d).append hright fun _ _ ↦
      separated_blank ['L', 'I', 'K', 'E', ' '] rfl _

theorem Clause.scans_pieces (d : Dialect) (c : Clause) :
    Scans d true (c.pieces d) (c.items.flatMap Item.lexemes) := by
  induction c with
  | truth =>
    refine Scans.verbatim fun vs ls n cs hcs ↦ ?_
    have hword : scan d vs ⟨ls, n, .between⟩ ("TRUE".toList ++ cs) =
        scan d vs ⟨ls, n, .word ['E', 'U', 'R', 'T']⟩ cs := by cases d <;> rfl
    rw [hword]
    exact scan_of_breaks trivial rfl rfl (hcs rfl)
  | atom a =>
    rw [items, List.flatMap_singleton]
    exact a.scans_pieces d
  | not c ih =>
    have hnot : Scans d false [.verbatim "NOT "] [.keyword .not] :=
      Scans.verbatim fun _ _ _ _ _ ↦ by cases d <;> rfl
    exact hnot.append (ih.parenthesize c.isJoin) Bool.noConfusion
  | join kind l r ihl ihr =>
    have hoperator : Scans d false [.verbatim kind.operator] (Item.operator kind).lexemes :=
      Scans.verbatim fun _ _ _ _ _ ↦ by cases kind <;> cases d <;> rfl
    have hseparated : ∀ rest, Separated ([.verbatim kind.operator] ++ rest) := by
      cases kind with
      | all => exact separated_blank ['A', 'N', 'D', ' '] rfl
      | any => exact separated_blank ['O', 'R', ' '] rfl
    have hright := hoperator.append (ihr.parenthesize r.guardedRight) Bool.noConfusion
    rw [items, List.flatMap_append]
    exact (ihl.parenthesize (l.guardedLeft kind)).append hright fun _ rest ↦ hseparated _

/-- The scanner finds the lexemes of the items of a clause in its text. -/
theorem Clause.scan_textFrom (d : Dialect) (c : Clause) :
    scan d (Select.boundValues (c.pieces d)) ⟨[], 0, .between⟩
        (Select.textFrom d 1 (c.pieces d)).toList = some (c.items.flatMap Item.lexemes) := by
  obtain ⟨m, -, hscan⟩ := c.scans_pieces d (Select.boundValues (c.pieces d)) 0 [] []
    (fun _ p hp ↦ nomatch hp) (by rw [List.drop_zero, List.append_nil])
  rw [List.append_nil] at hscan
  rw [hscan, List.append_nil, Select.textFrom]
  exact congrArg some (List.reverse_reverse _)

end Listing.Sql
