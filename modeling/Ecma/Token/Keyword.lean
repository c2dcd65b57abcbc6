/-!
# Keywords

The reserved words that the scanner tells apart from identifiers, contextual ones included. The
words for the truth values and for null are literals and no keywords.
-/

namespace Ecma

/-- A keyword. -/
inductive Keyword where
  | kAsync
  | kAwait
  | kBreak
  | kCase
  | kCatch
  | kClass
  | kConst
  | kContinue
  | kDebugger
  | kDefault
  | kDelete
  | kDo
  | kElse
  | kEnum
  | kExport
  | kExtends
  | kFinally
  | kFor
  | kFunction
  | kIf
  | kImport
  | kIn
  | kInstanceof
  | kLet
  | kNew
  | kOf
  | kReturn
  | kStatic
  | kSuper
  | kSwitch
  | kThis
  | kThrow
  | kTry
  | kTypeof
  | kVar
  | kVoid
  | kWhile
  | kWith
  | kYield
deriving DecidableEq, Repr

namespace Keyword

/-- All keywords, in alphabetical order. -/
def all : List Keyword :=
  [.kAsync, .kAwait, .kBreak, .kCase, .kCatch, .kClass, .kConst, .kContinue, .kDebugger, .kDefault,
    .kDelete, .kDo, .kElse, .kEnum, .kExport, .kExtends, .kFinally, .kFor, .kFunction, .kIf,
    .kImport, .kIn, .kInstanceof, .kLet, .kNew, .kOf, .kReturn, .kStatic, .kSuper, .kSwitch,
    .kThis, .kThrow, .kTry, .kTypeof, .kVar, .kVoid, .kWhile, .kWith, .kYield]

/-- The spelling of a keyword. -/
def text : Keyword → String
  | kAsync => "async"
  | kAwait => "await"
  | kBreak => "break"
  | kCase => "case"
  | kCatch => "catch"
  | kClass => "class"
  | kConst => "const"
  | kContinue => "continue"
  | kDebugger => "debugger"
  | kDefault => "default"
  | kDelete => "delete"
  | kDo => "do"
  | kElse => "else"
  | kEnum => "enum"
  | kExport => "export"
  | kExtends => "extends"
  | kFinally => "finally"
  | kFor => "for"
  | kFunction => "function"
  | kIf => "if"
  | kImport => "import"
  | kIn => "in"
  | kInstanceof => "instanceof"
  | kLet => "let"
  | kNew => "new"
  | kOf => "of"
  | kReturn => "return"
  | kStatic => "static"
  | kSuper => "super"
  | kSwitch => "switch"
  | kThis => "this"
  | kThrow => "throw"
  | kTry => "try"
  | kTypeof => "typeof"
  | kVar => "var"
  | kVoid => "void"
  | kWhile => "while"
  | kWith => "with"
  | kYield => "yield"

/-- The keyword with a spelling, if there is one. This is `from_str`. -/
def ofText? (s : String) : Option Keyword := all.find? fun k => k.text == s

/-- Whether the keyword may stand where an expression ends, being used as a plain name or being an
expression of its own. -/
def endsExpression : Keyword → Bool
  | kThis | kSuper | kLet | kOf | kAsync | kStatic => true
  | _ => false

theorem mem_all (k : Keyword) : k ∈ all := by
  cases k <;> decide

end Keyword

end Ecma
