import Ecma.Token.Numeral
import Ecma.Token.Pattern
import Ecma.Token.Quoted
import Ecma.Token.Template
import Ecma.Token.Trivia

/-!
# The scanner

A scanner is a cursor that also remembers how braces and template substitutions are nested. Its
position, and whether the line has had a token, change as the cursor moves over trivia and tokens.
Which token comes next depends on the text alone: that is `lex`, and a cursor reads the same
(`Cursor.mapRest_lex`).
-/

namespace Ecma

/-! ## Nesting of braces and substitutions -/

/-- How many braces are open, and how many were at the opening of each open substitution. -/
structure Nesting where
  /-- The number of open braces. -/
  depth : Nat
  /-- The depth at each open substitution, the innermost first. -/
  substitutions : List Nat
deriving DecidableEq, Repr

namespace Nesting

/-- Nothing is open. -/
def outermost : Nesting := ⟨0, []⟩

/-- Opens a brace. -/
def openBrace (n : Nesting) : Nesting := { n with depth := n.depth + 1 }

/-- Closes a brace, if one is open. -/
def closeBrace (n : Nesting) : Nesting := { n with depth := n.depth - 1 }

/-- Opens a substitution. -/
def openSubstitution (n : Nesting) : Nesting :=
  { n with substitutions := n.depth :: n.substitutions }

/-- Closes the innermost substitution. -/
def closeSubstitution (n : Nesting) : Nesting :=
  { n with substitutions := n.substitutions.drop 1 }

/-- Whether a closing brace closes a substitution. -/
def atSubstitution (n : Nesting) : Bool := n.substitutions.head? == some n.depth

end Nesting

/-! ## One token -/

/-- What was read at the front of the source, and what is left behind it, as characters or as a
place in the source. -/
structure Lexeme (ρ : Type := List Char) where
  /-- The token. -/
  kind : TokenKind
  /-- What is left behind it. -/
  rest : ρ
  /-- The nesting behind it. -/
  nesting : Nesting
deriving Repr

/-- Applies a function to what is left. -/
def Lexeme.mapRest {ρ σ : Type} (g : ρ → σ) (l : Lexeme ρ) : Lexeme σ := { l with rest := g l.rest }

/-- The token of an outcome: a refusal is an invalid token. -/
def Read.kind {ρ : Type} (f : α → TokenKind) : Read α ρ → TokenKind
  | .done a _ => f a
  | .refused complaint _ => .invalid complaint

@[simp] theorem Read.kind_mapRest {ρ σ : Type} (f : α → TokenKind) (g : ρ → σ) (r : Read α ρ) :
    (r.mapRest g).kind f = r.kind f := by
  cases r <;> rfl

/-- The literal, keyword or identifier that a name is. -/
def kindOfName (name : List Char) : TokenKind :=
  let s := String.ofList name
  if s = "true" then .boolean true
  else if s = "false" then .boolean false
  else if s = "null" then .null
  else
    match Keyword.ofText? s with
    | some k => .keyword k
    | none => .identifier s

/-- The token of a template part, given how it is called when closed and when not. -/
def kindOfTemplate (closed opened : TemplatePart) (b : TemplateBody) : TokenKind :=
  .template (if b.closed then closed else opened) (b.cooked.map Text.mk) (String.ofList b.raw)

/-- The nesting behind a template part that started at the given nesting. -/
def nestingOfTemplate {ρ : Type} (n : Nesting) : Read TemplateBody ρ → Nesting
  | .done b _ => if b.closed then n else n.openSubstitution
  | .refused _ _ => n

/-- A template part from behind its opening character. -/
def lexTemplate (closed opened : TemplatePart) (n : Nesting) (cs : List Char) : Lexeme :=
  let r := readTemplate cs
  ⟨r.kind (kindOfTemplate closed opened), r.rest, nestingOfTemplate n r⟩

/-- The nesting behind a punctuator. -/
def nestingOfPunctuator (n : Nesting) : Punctuator → Nesting
  | .leftBrace => n.openBrace
  | .rightBrace => n.closeBrace
  | _ => n

/-- A punctuator from its first character on. -/
def lexPunctuator (n : Nesting) (c : Char) (cs : List Char) : Lexeme :=
  match Punctuator.readFrom? c cs with
  | some (p, rest) => ⟨.punctuator p, rest, nestingOfPunctuator n p⟩
  | none => ⟨.invalid (.unexpected c), cs, n⟩

/-- A lexeme that leaves the nesting alone. -/
def lexRead {ρ : Type} (n : Nesting) (f : α → TokenKind) (r : Read α ρ) : Lexeme ρ :=
  ⟨r.kind f, r.rest, n⟩

/-- The token at the front of a source that starts with no trivia. -/
def lex (strict : Bool) (goal : Goal) (n : Nesting) : List Char → Lexeme
  | [] => ⟨.endOfSource, [], n⟩
  | c :: cs =>
    if c == '\\' || isIdentifierStart c then lexRead n kindOfName (readName true (c :: cs))
    else if c == '\'' || c == '"' then
      lexRead n (fun units => .string ⟨units⟩) (readString (.ofStrict strict) c cs)
    else if c == '\x60' then lexTemplate .whole .head n cs
    else if c == '\x7d' && n.atSubstitution then lexTemplate .tail .middle n.closeSubstitution cs
    else if c == '/' && goal == .regExp then
      lexRead n (fun (p, f) => .regExp (String.ofList p) (String.ofList f)) (readRegExp cs)
    else if isDecimalDigit c || (c == '.' && cs.head?.any isDecimalDigit) then
      lexRead n id (readNumber strict c cs)
    else lexPunctuator n c cs

namespace Cursor

/-- A template part from behind its opening character. This is `read_template_literal` and
`read_template_continuation`. -/
def lexTemplate (closed opened : TemplatePart) (n : Nesting) (k : Cursor) : Lexeme Cursor :=
  let r := k.readTemplate
  ⟨r.kind (kindOfTemplate closed opened), r.rest, nestingOfTemplate n r⟩

/-- The token behind its first character, which starts no name. -/
def lexBehind (strict : Bool) (goal : Goal) (n : Nesting) (c : Char) (k : Cursor) : Lexeme Cursor :=
  if c == '\'' || c == '"' then
    lexRead n (fun units => .string ⟨units⟩) (k.readString (.ofStrict strict) c)
  else if c == '\x60' then k.lexTemplate .whole .head n
  else if c == '\x7d' && n.atSubstitution then k.lexTemplate .tail .middle n.closeSubstitution
  else if c == '/' && goal == .regExp then
    lexRead n (fun (p, f) => .regExp (String.ofList p) (String.ofList f)) (k.read readRegExp)
  else if isDecimalDigit c || (c == '.' && k.rest.head?.any isDecimalDigit) then
    lexRead n id (k.read (readNumber strict c))
  else (lexPunctuator n c k.rest).mapRest k.advanceTo

/-- The token at a cursor that is at no trivia. The line has a token then, but has none again as
soon as the token passes the end of it. This is `scan_token`. -/
def lex (strict : Bool) (goal : Goal) (n : Nesting) (k : Cursor) : Lexeme Cursor :=
  match k.rest with
  | [] => ⟨.endOfSource, k, n⟩
  | c :: _ =>
    let k := { k with lineStart := false }
    if c == '\\' || isIdentifierStart c then lexRead n kindOfName (k.readName true)
    else k.advance.lexBehind strict goal n c

end Cursor

/-! ## The scanner state -/

/-- A scanner in the middle of a source. -/
structure Scanner extends Cursor where
  /-- The open braces and substitutions. -/
  nesting : Nesting
  /-- Whether the code is strict. -/
  strict : Bool
deriving Repr

namespace Scanner

/-- A scanner at the start of a source. -/
def ofString (source : String) (strict : Bool) : Scanner :=
  ⟨⟨source.toList, .start, true⟩, .outermost, strict⟩

/-- The token of a comment that the source does not close, which a cursor moved over. -/
def takeUnclosed (s : Scanner) (start stop : Cursor) : Token × Scanner :=
  (⟨.invalid .unterminatedComment, String.ofList (textBefore start.rest stop.rest), start.position,
      true⟩,
    { s with toCursor := { stop with lineStart := false } })

/-- The token at a cursor behind a gap, which may hold a line terminator. Behind an invalid token
the line has a token in any case. -/
def takeToken (s : Scanner) (goal : Goal) (newline : Bool) (k : Cursor) : Token × Scanner :=
  let l := k.lex s.strict goal s.nesting
  let k' := if l.kind.isInvalid then { l.rest with lineStart := false } else l.rest
  (⟨l.kind, String.ofList (textBefore k.rest k'.rest), k.position, newline⟩,
    { s with toCursor := k', nesting := l.nesting })

/-- The next token. This is `next_token`. -/
def next (goal : Goal) (s : Scanner) : Token × Scanner :=
  match s.skipTrivia false with
  | .unclosed start stop => s.takeUnclosed start stop
  | .gap newline k => s.takeToken goal newline k

/-- The next token, with the goal that the token before it gives. This is `next_after`. -/
def nextAfter (previous : Option TokenKind) (s : Scanner) : Token × Scanner :=
  s.next (.after previous)

end Scanner

/-! ## Progress -/

theorem lexTemplate_suffix (closed opened : TemplatePart) (n : Nesting) (cs : List Char) :
    (lexTemplate closed opened n cs).rest <:+ cs := local_readTemplate cs

theorem lexPunctuator_suffix (n : Nesting) (c : Char) (cs : List Char) :
    (lexPunctuator n c cs).rest <:+ cs := by
  have h := Punctuator.readFrom?_suffix c cs
  unfold lexPunctuator
  split
  · rename_i p rest heq
    exact h (p, rest) heq
  · exact List.suffix_rfl

/-- A name whose first character may start one, or is a backslash, is not empty. -/
theorem rest_readName_suffix (c : Char) (cs : List Char)
    (h : (c == '\\' || isIdentifierStart c) = true) : (readName true (c :: cs)).rest <:+ cs := by
  generalize hi : c :: cs = input
  fun_cases readName true input with
  | case1 => cases hi
  | case2 body complaint rest heq =>
    cases hi
    have hp := local_readPairedCodePoint body
    rw [heq] at hp
    exact hp.trans (List.suffix_cons ..)
  | case3 body codePoint rest heq d hd =>
    cases hi
    have hp := local_readPairedCodePoint body
    rw [heq, Read.rest_done] at hp
    rw [Read.rest_map]
    exact (local_readName false rest).trans (hp.trans (List.suffix_cons ..))
  | case4 body codePoint rest heq hd =>
    cases hi
    have hp := local_readPairedCodePoint body
    rw [heq, Read.rest_done] at hp
    exact hp.trans (List.suffix_cons ..)
  | case5 =>
    cases hi
    exact List.drop_suffix 1 cs
  | case6 =>
    cases hi
    rw [Read.rest_map]
    exact local_readName false cs
  | case7 _ _ hb hp =>
    cases hi
    simp_all [isIdentifierPart]

/-- Every token but the end of the source takes at least one character, and takes from the front
only. -/
theorem rest_lex_suffix (strict : Bool) (goal : Goal) (n : Nesting) (c : Char) (cs : List Char) :
    (lex strict goal n (c :: cs)).rest <:+ cs := by
  unfold lex
  dsimp only
  split
  · rename_i h
    exact rest_readName_suffix c cs h
  split
  · exact local_readString _ c cs
  split
  · exact lexTemplate_suffix ..
  split
  · exact lexTemplate_suffix ..
  split
  · exact local_readRegExp cs
  split
  · exact local_readNumber strict c cs
  · exact lexPunctuator_suffix ..

theorem rest_lex_length {strict : Bool} {goal : Goal} {n : Nesting} {cs : List Char}
    (h : (lex strict goal n cs).kind ≠ .endOfSource) :
    (lex strict goal n cs).rest.length < cs.length := by
  cases cs with
  | nil => exact absurd rfl h
  | cons c cs =>
    have := (rest_lex_suffix strict goal n c cs).length_le
    simp only [List.length_cons]
    omega

namespace Lexeme

variable {α ρ σ : Type} {n : Nesting}

theorem mapRest_lexRead (f : α → TokenKind) (g : ρ → σ) (r : Read α ρ) :
    (lexRead n f r).mapRest g = lexRead n f (r.mapRest g) := by
  cases r <;> rfl

end Lexeme

namespace Cursor

theorem lex_nil {k : Cursor} (h : k.rest = []) (strict : Bool) (goal : Goal) (n : Nesting) :
    k.lex strict goal n = ⟨.endOfSource, k, n⟩ := by
  rw [lex, h]

theorem mapRest_lexTemplate (closed opened : TemplatePart) (n : Nesting) (k : Cursor) :
    (k.lexTemplate closed opened n).mapRest rest = Ecma.lexTemplate closed opened n k.rest := by
  unfold lexTemplate Ecma.lexTemplate
  rw [← mapRest_readTemplate]
  cases k.readTemplate <;> rfl

theorem mapRest_lexBehind (strict : Bool) (goal : Goal) (n : Nesting) {c : Char}
    (hname : ¬(c == '\\' || isIdentifierStart c) = true) (k : Cursor) :
    (k.lexBehind strict goal n c).mapRest rest = Ecma.lex strict goal n (c :: k.rest) := by
  simp only [lexBehind, Ecma.lex, if_neg hname]
  split
  · rw [Lexeme.mapRest_lexRead, mapRest_readString]
  split
  · exact mapRest_lexTemplate .whole .head n k
  split
  · exact mapRest_lexTemplate .tail .middle n.closeSubstitution k
  split
  · rw [Lexeme.mapRest_lexRead, mapRest_read local_readRegExp]
  split
  · rw [Lexeme.mapRest_lexRead, mapRest_read (local_readNumber strict c)]
  · rw [Lexeme.mapRest, Lexeme.mapRest, rest_advanceTo (lexPunctuator_suffix n c k.rest)]

/-- From a cursor, a token is read as its text says. -/
theorem mapRest_lex (strict : Bool) (goal : Goal) (n : Nesting) (k : Cursor) :
    (k.lex strict goal n).mapRest rest = Ecma.lex strict goal n k.rest := by
  cases hrest : k.rest with
  | nil =>
    rw [lex_nil hrest, Lexeme.mapRest, hrest]
    rfl
  | cons c cs =>
    simp only [lex, hrest]
    split
    · rename_i hname
      rw [Lexeme.mapRest_lexRead, readName_eq, mapRest_read (local_readName true)]
      exact (if_pos hname).symm
    · rename_i hname
      rw [mapRest_lexBehind strict goal n hname, rest_advance rfl]

theorem kind_lex (strict : Bool) (goal : Goal) (n : Nesting) (k : Cursor) :
    (k.lex strict goal n).kind = (Ecma.lex strict goal n k.rest).kind :=
  congrArg Lexeme.kind (mapRest_lex strict goal n k)

theorem rest_lex (strict : Bool) (goal : Goal) (n : Nesting) (k : Cursor) :
    (k.lex strict goal n).rest.rest = (Ecma.lex strict goal n k.rest).rest :=
  congrArg Lexeme.rest (mapRest_lex strict goal n k)

theorem nesting_lex (strict : Bool) (goal : Goal) (n : Nesting) (k : Cursor) :
    (k.lex strict goal n).nesting = (Ecma.lex strict goal n k.rest).nesting :=
  congrArg Lexeme.nesting (mapRest_lex strict goal n k)

end Cursor

namespace Scanner

theorem rest_takeToken (s : Scanner) (goal : Goal) (newline : Bool) (k : Cursor) :
    (s.takeToken goal newline k).2.rest = (k.lex s.strict goal s.nesting).rest.rest := by
  unfold takeToken
  dsimp only
  split <;> rfl

/-- Unless the source is at its end, the next token takes some of it. -/
theorem rest_next_length {goal : Goal} {s : Scanner} (h : (s.next goal).1.kind ≠ .endOfSource) :
    (s.next goal).2.rest.length < s.rest.length := by
  have hs := (Cursor.rest_skipTrivia_suffix false s.toCursor).length_le
  unfold next at h ⊢
  split at h
  · rename_i start stop heq
    have hlt : stop.rest.length < s.rest.length := Cursor.rest_unclosed_lt heq
    exact hlt
  · rename_i newline k heq
    rw [heq] at hs
    have hlex : (lex s.strict goal s.nesting k.rest).kind ≠ .endOfSource := by
      rw [← Cursor.kind_lex]
      exact h
    rw [rest_takeToken, Cursor.rest_lex]
    exact Nat.lt_of_lt_of_le (rest_lex_length hlex) hs

/-- All tokens from here on, the end of the source last. Each goal comes from the last token that is
not invalid. -/
def tokensAfter (previous : Option TokenKind) (s : Scanner) : List Token :=
  if _h : (s.nextAfter previous).1.kind = .endOfSource then
    [(s.nextAfter previous).1]
  else
    let t := (s.nextAfter previous).1
    t :: tokensAfter (if t.kind.isSignificant then some t.kind else previous)
      (s.nextAfter previous).2
termination_by s.rest.length
decreasing_by exact rest_next_length _h

/-- All tokens of the source, the end of the source last. This is `tokenize_all`. -/
def tokens (s : Scanner) : List Token := s.tokensAfter none

end Scanner

/-- All tokens of a source text. -/
def tokenize (source : String) (strict : Bool) : List Token :=
  (Scanner.ofString source strict).tokens

end Ecma
