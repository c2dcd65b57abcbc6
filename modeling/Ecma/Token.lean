import Ecma.Number.Double
import Ecma.Text
import Ecma.Token.Complaint
import Ecma.Token.Keyword
import Ecma.Token.Position
import Ecma.Token.Punctuator

/-!
# Tokens

The tokens of the language. Source text that is no token gives an invalid token that carries the
complaint about it, so that scanning can go on behind it. Whether a slash divides or opens a regular
expression is decided by the token before it.
-/

namespace Ecma

/-- Which part of a template a token is. -/
inductive TemplatePart where
  /-- From backtick to backtick. -/
  | whole
  /-- From the opening backtick to the first substitution. -/
  | head
  /-- Between two substitutions. -/
  | middle
  /-- From the last substitution to the closing backtick. -/
  | tail
deriving DecidableEq, Repr

/-- What a token is. -/
inductive TokenKind where
  /-- A name that is no keyword and no literal. -/
  | identifier (name : String)
  /-- A keyword. -/
  | keyword (word : Keyword)
  /-- A number. -/
  | number (value : Double)
  /-- A number in the old octal notation. -/
  | legacyOctal (value : Double)
  /-- A big integer. -/
  | bigInt (value : Nat)
  /-- A string. -/
  | string (value : Text)
  /-- A truth value. -/
  | boolean (value : Bool)
  /-- The null literal. -/
  | null
  /-- A regular expression. -/
  | regExp (pattern flags : String)
  /-- A part of a template, with its cooked value if all its escapes are well formed. -/
  | template (part : TemplatePart) (cooked : Option Text) (raw : String)
  /-- A punctuator. -/
  | punctuator (p : Punctuator)
  /-- Text that is no token. -/
  | invalid (complaint : Complaint)
  /-- The end of the source. -/
  | endOfSource
deriving DecidableEq, Repr

namespace TokenKind

/-- Whether a slash right behind the token divides. -/
def endsExpression : TokenKind → Bool
  | identifier _ | number _ | legacyOctal _ | bigInt _ | string _ | boolean _ | null | regExp _ _ =>
    true
  | template part _ _ => part = .whole || part = .tail
  | keyword k => k.endsExpression
  | punctuator p => p.endsExpression
  | invalid _ | endOfSource => false

/-- Whether the token stands for text that is no token. -/
def isInvalid : TokenKind → Bool
  | invalid _ => true
  | _ => false

/-- Whether the token counts as the one before the next token. -/
def isSignificant (k : TokenKind) : Bool := !k.isInvalid

end TokenKind

/-- How a slash is to be read. -/
inductive Goal where
  /-- A slash opens a regular expression. -/
  | regExp
  /-- A slash divides. -/
  | divide
deriving DecidableEq, Repr

/-- The goal behind a token, or at the start of the source. -/
def Goal.after (previous : Option TokenKind) : Goal :=
  if previous.any TokenKind.endsExpression then divide else regExp

/-- A token with its place in the source. -/
structure Token where
  /-- What it is. -/
  kind : TokenKind
  /-- The source text that it was read from. -/
  raw : String
  /-- The position of its first character. -/
  position : Position
  /-- Whether a line terminator stands between it and the token before it. -/
  newlineBefore : Bool
deriving DecidableEq, Repr

/-- The text of a complaint at a position. -/
def Position.report (p : Position) (message : String) : String :=
  toString p.line ++ ":" ++ toString p.column ++ ": " ++ message

end Ecma
