import Mathlib.Data.List.Basic
import YellowTree.Lua.Value

/-!
# YellowTree.Lua.Lexer — the tokens of a Lua chunk

The lexer of Lua, as far as it cuts a chunk into tokens: a token is a kind and the piece of the text it stands in.  The
escapes in a string and the form of a numeral are left to whoever reads the tokens.

* `lex_fuel`: the length of the text is enough fuel.
* `lex_last`: behind the last token of a text without a minus sign there are only blanks.
-/

namespace YellowTree

/-! ## Tokens -/

section Tokens

/-- A name or reserved word, a numeral, a string, or anything else. -/
inductive TokenKind where
  | name | numeral | str | sym
  deriving DecidableEq

structure LuaToken where
  kind : TokenKind
  text : LuaString
  deriving DecidableEq

def luaSpace (c : Char) : Bool := c ∈ [' ', '\n', '\r', '\t', Char.ofNat 11, Char.ofNat 12]

theorem isDigit_of_luaSpace {c : Char} (hc : luaSpace c = true) : c.isDigit = false := by
  have hall : [' ', '\n', '\r', '\t', Char.ofNat 11, Char.ofNat 12].Forall fun d => d.isDigit = false := by decide
  exact List.forall_iff_forall_mem.mp hall c (of_decide_eq_true hc)

def isQuote (c : Char) : Bool := c = Char.ofNat 34 || c = Char.ofNat 39

def nameStart (c : Char) : Bool := c.isAlpha || c = '_'

def nameChar (c : Char) : Bool := c.isAlphanum || c = '_'

def hexDigit (c : Char) : Bool := c.isDigit || c ∈ "abcdefABCDEF".toList

end Tokens

/-! ## Cutting off a token

What is left of the text behind a token. -/

section Scan

/-- `read_string`; `skip` behind an escape `\z`. -/
def readString (delim : Char) : Bool → LuaString → Option LuaString
  | _, [] => none
  | skip, c :: s =>
    if skip && luaSpace c then readString delim true s
    else if c = delim then some s
    else if c = '\n' || c = '\r' then none
    else if c = '\\' then
      match s with
      | [] => none
      | '\n' :: '\r' :: s => readString delim false s
      | '\r' :: '\n' :: s => readString delim false s
      | d :: s => readString delim (d = 'z') s
    else readString delim false s

/-- `skip_sep` behind the first bracket: the level of a long bracket. -/
def longOpen (s : LuaString) : Option (ℕ × LuaString) :=
  match s.dropWhile (· = '=') with
  | '[' :: rest => some ((s.takeWhile (· = '=')).length, rest)
  | _ => none

/-- `read_long_string`. -/
def longClose (level : ℕ) : LuaString → Option LuaString
  | [] => none
  | c :: s =>
    if c = ']' ∧ (List.replicate level '=' ++ [']']) <+: s then some (s.drop (level + 1)) else longClose level s

/-- A long string, or the bracket itself. -/
def readBracket (s : LuaString) : Option (TokenKind × LuaString) :=
  match longOpen s with
  | some (level, rest) => (longClose level rest).map (.str, ·)
  | none => if s.head? = some '=' then none else some (.sym, s)

/-- Behind the two dashes: a long comment, or the rest of the line. -/
def readComment (s : LuaString) : Option LuaString :=
  match s with
  | '[' :: s' =>
    match longOpen s' with
    | some (level, rest) => longClose level rest
    | none => some (s.dropWhile fun c => c != '\n' && c != '\r')
  | _ => some (s.dropWhile fun c => c != '\n' && c != '\r')

/-- The loop of `read_numeral`: an exponent mark, a sign behind it, and digits. -/
def numeralLoop (expo : LuaString) : Bool → Bool → LuaString → LuaString
  | _, _, [] => []
  | expoOk, signOk, c :: s =>
    if expoOk && c ∈ expo then numeralLoop expo false true s
    else if signOk && (c = '+' || c = '-') then numeralLoop expo false false s
    else if hexDigit c || c = '.' then numeralLoop expo true false s
    else c :: s

/-- `read_numeral`, behind its first character. -/
def readNumeral (first : Char) (s : LuaString) : LuaString :=
  if first = '0' ∧ (s.head? = some 'x' ∨ s.head? = some 'X') then numeralLoop "Pp".toList true false s.tail
  else numeralLoop "Ee".toList true false s

/-- The symbols of more than one character, the longest first. -/
def longSymbols : List LuaString :=
  ["...".toList, "..".toList, "==".toList, "<=".toList, ">=".toList, "~=".toList, "::".toList]

/-- The longest symbol. -/
def readSymbol (c : Char) (s : LuaString) : LuaString :=
  match longSymbols.find? (· <+: c :: s) with
  | some sym => s.drop (sym.length - 1)
  | none => s

/-- `llex`: the kind of the first token, `none` for blanks and comments, and what is left.  An error is `none`. -/
def scan : LuaString → Option (Option TokenKind × LuaString)
  | [] => none
  | c :: s =>
    if luaSpace c then some (none, s)
    else if c = '-' ∧ s.head? = some '-' then (readComment s.tail).map (none, ·)
    else if c = '[' then (readBracket s).map fun e => (some e.1, e.2)
    else if isQuote c then (readString c false s).map (some .str, ·)
    else if c.isDigit || (c = '.' && (s.head?.map Char.isDigit).getD false) then
      some (some .numeral, readNumeral c s)
    else if nameStart c then some (some .name, s.dropWhile nameChar)
    else some (some .sym, readSymbol c s)

/-- All tokens.  Every one of them takes at least one character. -/
def lex : ℕ → LuaString → Option (List LuaToken)
  | _, [] => some []
  | 0, _ => none
  | fuel + 1, c :: s =>
    match scan (c :: s) with
    | none => none
    | some (kind, rest) =>
      (lex fuel rest).map ((kind.map fun k => ⟨k, (c :: s).take (s.length + 1 - rest.length)⟩).toList ++ ·)

def tokens (s : LuaString) : Option (List LuaToken) := lex s.length s

end Scan

/-! ## What is left is the end of the text -/

section Suffix

variable {s rest : LuaString}

theorem readString_suffix {delim : Char} {skip : Bool} {s : LuaString} :
    readString delim skip s = some rest → rest <:+ s := by
  fun_induction readString delim skip s with
  | case1 => intro h; cases h
  | case2 skip c s hskip ih => exact fun h => (ih h).trans (List.suffix_cons c s)
  | case3 =>
    intro h
    cases h
    exact List.suffix_cons _ _
  | case4 => intro h; cases h
  | case5 => intro h; cases h
  | case6 skip s _ _ _ ih => exact fun h => (ih h).trans ⟨['\\', '\n', '\r'], rfl⟩
  | case7 skip s _ _ _ ih => exact fun h => (ih h).trans ⟨['\\', '\r', '\n'], rfl⟩
  | case8 skip d s _ _ _ _ _ ih => exact fun h => (ih h).trans ⟨['\\', d], rfl⟩
  | case9 skip c s _ _ _ _ ih => exact fun h => (ih h).trans (List.suffix_cons c s)

theorem longOpen_suffix {level : ℕ} (h : longOpen s = some (level, rest)) : rest <:+ s := by
  unfold longOpen at h
  split at h
  case h_1 rest' hdrop =>
    obtain ⟨-, rfl⟩ := Prod.mk.inj (Option.some.inj h)
    have hcons : '[' :: rest' <:+ s := hdrop ▸ List.dropWhile_suffix _
    exact (List.suffix_cons '[' rest').trans hcons
  case h_2 => cases h

theorem longClose_suffix {level : ℕ} : ∀ {s : LuaString}, longClose level s = some rest → rest <:+ s := by
  intro s
  induction s with
  | nil => intro h; cases h
  | cons c s ih =>
    intro h
    unfold longClose at h
    split_ifs at h
    · cases h
      exact (List.drop_suffix _ s).trans (List.suffix_cons c s)
    · exact (ih h).trans (List.suffix_cons c s)

theorem readBracket_suffix {kind : TokenKind} (h : readBracket s = some (kind, rest)) : rest <:+ s := by
  unfold readBracket at h
  split at h
  case h_1 level inner hopen =>
    obtain ⟨r, hr, heq⟩ := Option.map_eq_some_iff.mp h
    obtain ⟨-, rfl⟩ := Prod.mk.inj heq
    exact (longClose_suffix hr).trans (longOpen_suffix hopen)
  case h_2 =>
    split_ifs at h
    cases h
    exact List.suffix_rfl

theorem readComment_suffix (h : readComment s = some rest) : rest <:+ s := by
  have hline : s.dropWhile (fun c => c != '\n' && c != '\r') <:+ s := List.dropWhile_suffix _
  unfold readComment at h
  split at h
  case h_1 s' =>
    split at h
    case h_1 level rest' hopen =>
      exact ((longClose_suffix h).trans (longOpen_suffix hopen)).trans (List.suffix_cons '[' s')
    case h_2 =>
      cases h
      exact hline
  case h_2 =>
    cases h
    exact hline

theorem numeralLoop_suffix {expo : LuaString} : ∀ {s : LuaString} {expoOk signOk : Bool},
    numeralLoop expo expoOk signOk s <:+ s := by
  intro s
  induction s with
  | nil => intro expoOk signOk; exact List.suffix_rfl
  | cons c s ih =>
    intro expoOk signOk
    unfold numeralLoop
    split_ifs
    · exact ih.trans (List.suffix_cons c s)
    · exact ih.trans (List.suffix_cons c s)
    · exact ih.trans (List.suffix_cons c s)
    · exact List.suffix_rfl

theorem readNumeral_suffix (first : Char) (s : LuaString) : readNumeral first s <:+ s := by
  unfold readNumeral
  split_ifs
  · exact numeralLoop_suffix.trans (List.tail_suffix s)
  · exact numeralLoop_suffix

theorem readSymbol_suffix (c : Char) (s : LuaString) : readSymbol c s <:+ s := by
  unfold readSymbol
  split
  · exact List.drop_suffix _ s
  · exact List.suffix_rfl

/-- A token, or a blank or comment, takes at least one character.  Without a minus sign there is no comment. -/
theorem scan_cases {c : Char} {kind : Option TokenKind} (h : scan (c :: s) = some (kind, rest)) :
    rest <:+ s ∧ (kind = none → c = '-' ∨ luaSpace c = true ∧ rest = s) := by
  unfold scan at h
  dsimp only at h
  split_ifs at h with hspace hcomment hbracket hquote hdigit hname
  · cases h
    exact ⟨List.suffix_rfl, fun _ => Or.inr ⟨hspace, rfl⟩⟩
  · obtain ⟨r, hr, heq⟩ := Option.map_eq_some_iff.mp h
    obtain ⟨-, rfl⟩ := Prod.mk.inj heq
    exact ⟨(readComment_suffix hr).trans (List.tail_suffix s), fun _ => Or.inl hcomment.1⟩
  · obtain ⟨⟨k, r⟩, hr, heq⟩ := Option.map_eq_some_iff.mp h
    obtain ⟨rfl, rfl⟩ := Prod.mk.inj heq
    exact ⟨readBracket_suffix hr, fun hnone => by cases hnone⟩
  · obtain ⟨r, hr, heq⟩ := Option.map_eq_some_iff.mp h
    obtain ⟨rfl, rfl⟩ := Prod.mk.inj heq
    exact ⟨readString_suffix hr, fun hnone => by cases hnone⟩
  · cases h
    exact ⟨readNumeral_suffix c s, fun hnone => by cases hnone⟩
  · cases h
    exact ⟨List.dropWhile_suffix _, fun hnone => by cases hnone⟩
  · cases h
    exact ⟨readSymbol_suffix c s, fun hnone => by cases hnone⟩

end Suffix

/-! ## The tokens of a text -/

section Lex

theorem lex_fuel : ∀ (n m : ℕ) (s : LuaString), s.length ≤ n → s.length ≤ m → lex n s = lex m s
  | n, m, [], _, _ => by
    cases n <;> cases m <;> rfl
  | n + 1, m + 1, c :: s, hn, hm => by
    unfold lex
    cases hscan : scan (c :: s) with
    | none => rfl
    | some e =>
      obtain ⟨kind, rest⟩ := e
      have hle : rest.length ≤ s.length := (scan_cases hscan).1.length_le
      rw [List.length_cons] at hn hm
      dsimp only
      rw [lex_fuel n m rest (by omega) (by omega)]

/-- The first token, the tokens behind it, and the texts they stand in. -/
theorem lex_cons {fuel : ℕ} {c : Char} {s : LuaString} {ts : List LuaToken} (h : lex (fuel + 1) (c :: s) = some ts) :
    ∃ kind rest ts', scan (c :: s) = some (kind, rest) ∧ lex fuel rest = some ts' ∧
      ((kind = none ∧ ts = ts') ∨ ∃ t, kind = some t.kind ∧ c :: s = t.text ++ rest ∧ ts = t :: ts') := by
  unfold lex at h
  cases hscan : scan (c :: s) with
  | none =>
    rw [hscan] at h
    cases h
  | some e =>
    obtain ⟨kind, rest⟩ := e
    rw [hscan] at h
    obtain ⟨ts', hts, rfl⟩ := Option.map_eq_some_iff.mp h
    refine ⟨kind, rest, ts', rfl, hts, ?_⟩
    cases kind with
    | none => exact Or.inl ⟨rfl, rfl⟩
    | some k =>
      refine Or.inr ⟨⟨k, (c :: s).take (s.length + 1 - rest.length)⟩, rfl, ?_, rfl⟩
      obtain ⟨w, hw⟩ := (scan_cases hscan).1.trans (List.suffix_cons c s)
      have hlen : w.length + rest.length = s.length + 1 := by
        rw [← List.length_append, hw, List.length_cons]
      have htake : (c :: s).take (s.length + 1 - rest.length) = w := by
        rw [← hw]
        exact List.take_left' (by omega)
      rw [htake]
      exact hw.symm

/-- Where there are no tokens and no minus sign, there are only blanks. -/
theorem lex_nil : ∀ {fuel : ℕ} {s : LuaString}, '-' ∉ s → lex fuel s = some [] → ∀ c ∈ s, luaSpace c = true
  | fuel, [], _, _ => fun c hc => by simp at hc
  | 0, c :: s, _, h => by cases h
  | fuel + 1, c :: s, hminus, h => by
    obtain ⟨kind, rest, ts, hscan, hrest, ⟨rfl, hts⟩ | ⟨t, -, -, hts⟩⟩ := lex_cons h
    · rcases (scan_cases hscan).2 rfl with rfl | ⟨hspace, rfl⟩
      · exact absurd List.mem_cons_self hminus
      · rw [← hts] at hrest
        have hall := lex_nil (fun hmem => hminus (List.mem_cons_of_mem c hmem)) hrest
        exact List.forall_mem_cons.mpr ⟨hspace, hall⟩
    · cases hts

/-- Behind the last token of a text without a minus sign there are only blanks. -/
theorem lex_last {t : LuaToken} : ∀ {fuel : ℕ} {s : LuaString} {ts : List LuaToken}, '-' ∉ s →
    lex fuel s = some (ts ++ [t]) → ∃ u v, s = u ++ t.text ++ v ∧ ∀ c ∈ v, luaSpace c = true
  | fuel, [], ts, _, h => by
    have hnil : lex fuel [] = some [] := by cases fuel <;> rfl
    rw [hnil] at h
    simp at h
  | 0, c :: s, ts, _, h => by cases h
  | fuel + 1, c :: s, ts, hminus, h => by
    obtain ⟨kind, rest, ts', hscan, hrest, hcases⟩ := lex_cons h
    have hsuffix : rest <:+ c :: s := (scan_cases hscan).1.trans (List.suffix_cons c s)
    have hminus' : '-' ∉ rest := fun hmem => hminus (hsuffix.mem hmem)
    -- the last token stands in the rest, or is the first one
    have hlater : ∀ {ts''}, ts' = ts'' ++ [t] → ∃ u v, c :: s = u ++ t.text ++ v ∧ ∀ c ∈ v, luaSpace c = true := by
      intro ts'' hts''
      rw [hts''] at hrest
      obtain ⟨u, v, hsplit, hv⟩ := lex_last hminus' hrest
      obtain ⟨w, hw⟩ := hsuffix
      exact ⟨w ++ u, v, by rw [← hw, hsplit]; simp, hv⟩
    rcases hcases with ⟨-, hts⟩ | ⟨t', -, htext, hts⟩
    · exact hlater hts.symm
    · cases ts with
      | nil =>
        obtain ⟨rfl, rfl⟩ := List.cons.inj hts
        exact ⟨[], rest, htext, lex_nil hminus' hrest⟩
      | cons t'' ts =>
        obtain ⟨-, htail⟩ := List.cons.inj hts
        exact hlater htail.symm

end Lex

end YellowTree
