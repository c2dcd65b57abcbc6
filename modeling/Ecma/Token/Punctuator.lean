import Ecma.Number.Digits

/-!
# Punctuators

The punctuators with their spellings. `Punctuator.readFrom?` takes the longest one from the front of
the source; an optional chain mark is not taken apart from a number that starts with its point.
-/

namespace Ecma

/-- A punctuator. -/
inductive Punctuator where
  | leftBrace
  | rightBrace
  | leftParen
  | rightParen
  | leftBracket
  | rightBracket
  | dot
  | ellipsis
  | semicolon
  | comma
  | lessThan
  | greaterThan
  | lessThanEqual
  | greaterThanEqual
  | equal
  | notEqual
  | strictEqual
  | strictNotEqual
  | plus
  | minus
  | star
  | percent
  | exponent
  | increment
  | decrement
  | leftShift
  | rightShift
  | unsignedRightShift
  | ampersand
  | pipe
  | caret
  | bang
  | tilde
  | logicalAnd
  | logicalOr
  | nullishCoalescing
  | question
  | optionalChain
  | colon
  | assign
  | plusAssign
  | minusAssign
  | starAssign
  | percentAssign
  | exponentAssign
  | leftShiftAssign
  | rightShiftAssign
  | unsignedRightShiftAssign
  | ampersandAssign
  | pipeAssign
  | caretAssign
  | logicalAndAssign
  | logicalOrAssign
  | nullishAssign
  | arrow
  | slash
  | slashAssign
deriving DecidableEq, Repr

namespace Punctuator

/-- The spelling of a punctuator. -/
def spelling : Punctuator → String
  | leftBrace => "\x7b"
  | rightBrace => "\x7d"
  | leftParen => "("
  | rightParen => ")"
  | leftBracket => "["
  | rightBracket => "]"
  | dot => "."
  | ellipsis => "..."
  | semicolon => ";"
  | comma => ","
  | lessThan => "<"
  | greaterThan => ">"
  | lessThanEqual => "<="
  | greaterThanEqual => ">="
  | equal => "=="
  | notEqual => "!="
  | strictEqual => "==="
  | strictNotEqual => "!=="
  | plus => "+"
  | minus => "-"
  | star => "*"
  | percent => "%"
  | exponent => "**"
  | increment => "++"
  | decrement => "--"
  | leftShift => "<<"
  | rightShift => ">>"
  | unsignedRightShift => ">>>"
  | ampersand => "&"
  | pipe => "|"
  | caret => "^"
  | bang => "!"
  | tilde => "~"
  | logicalAnd => "&&"
  | logicalOr => "||"
  | nullishCoalescing => "??"
  | question => "?"
  | optionalChain => "?."
  | colon => ":"
  | assign => "="
  | plusAssign => "+="
  | minusAssign => "-="
  | starAssign => "*="
  | percentAssign => "%="
  | exponentAssign => "**="
  | leftShiftAssign => "<<="
  | rightShiftAssign => ">>="
  | unsignedRightShiftAssign => ">>>="
  | ampersandAssign => "&="
  | pipeAssign => "|="
  | caretAssign => "^="
  | logicalAndAssign => "&&="
  | logicalOrAssign => "||="
  | nullishAssign => "??="
  | arrow => "=>"
  | slash => "/"
  | slashAssign => "/="

/-- All punctuators. -/
def all : List Punctuator :=
  [.leftBrace, .rightBrace, .leftParen, .rightParen, .leftBracket, .rightBracket, .dot, .ellipsis,
    .semicolon, .comma, .lessThan, .greaterThan, .lessThanEqual, .greaterThanEqual, .equal,
    .notEqual, .strictEqual, .strictNotEqual, .plus, .minus, .star, .percent, .exponent,
    .increment, .decrement, .leftShift, .rightShift, .unsignedRightShift, .ampersand, .pipe,
    .caret, .bang, .tilde, .logicalAnd, .logicalOr, .nullishCoalescing, .question, .optionalChain,
    .colon, .assign, .plusAssign, .minusAssign, .starAssign, .percentAssign, .exponentAssign,
    .leftShiftAssign, .rightShiftAssign, .unsignedRightShiftAssign, .ampersandAssign, .pipeAssign,
    .caretAssign, .logicalAndAssign, .logicalOrAssign, .nullishAssign, .arrow, .slash,
    .slashAssign]

/-- The assigning punctuator if an equals sign comes next, and else the plain one. This is
`with_assign`. -/
def orAssign (plain assigned : Punctuator) : List Char → Punctuator × List Char
  | '=' :: cs => (assigned, cs)
  | cs => (plain, cs)

/-- The punctuator that starts with a greater-than sign. -/
def readGreater : List Char → Punctuator × List Char
  | '>' :: '>' :: cs => orAssign unsignedRightShift unsignedRightShiftAssign cs
  | '>' :: cs => orAssign rightShift rightShiftAssign cs
  | cs => orAssign greaterThan greaterThanEqual cs

/-- The punctuator that starts with a question mark. -/
def readQuestion : List Char → Punctuator × List Char
  | '?' :: cs => orAssign nullishCoalescing nullishAssign cs
  | '.' :: cs => if cs.head?.any isDecimalDigit then (question, '.' :: cs) else (optionalChain, cs)
  | cs => (question, cs)

/-- The punctuator that starts with an equals sign. -/
def readEqual : List Char → Punctuator × List Char
  | '=' :: cs => orAssign equal strictEqual cs
  | '>' :: cs => (arrow, cs)
  | cs => (assign, cs)

/-- The punctuator that starts with a point. -/
def readDot : List Char → Punctuator × List Char
  | '.' :: '.' :: cs => (ellipsis, cs)
  | cs => (dot, cs)

/-- An exclamation mark, alone or in one of the two inequality signs. -/
def readBang : List Char → Punctuator × List Char
  | '=' :: cs => orAssign notEqual strictNotEqual cs
  | cs => (bang, cs)

/-- A character that may be doubled, with an assigning form for the single and for the double one.
-/
def readDoubled (c : Char) (single singleAssign double doubleAssign : Punctuator) :
    List Char → Punctuator × List Char
  | d :: cs =>
    if d = c then orAssign double doubleAssign cs else orAssign single singleAssign (d :: cs)
  | [] => (single, [])

/-- A sign that may be doubled, with an assigning form for the single one. -/
def readSign (c : Char) (single singleAssign double : Punctuator) :
    List Char → Punctuator × List Char
  | d :: cs => if d = c then (double, cs) else orAssign single singleAssign (d :: cs)
  | [] => (single, [])

/-- The longest punctuator that starts with a character, and what is left behind it. This is
`read_punctuator`. -/
def readFrom? (c : Char) (cs : List Char) : Option (Punctuator × List Char) :=
  match c with
  | '\x7b' => some (leftBrace, cs)
  | '\x7d' => some (rightBrace, cs)
  | '(' => some (leftParen, cs)
  | ')' => some (rightParen, cs)
  | '[' => some (leftBracket, cs)
  | ']' => some (rightBracket, cs)
  | ';' => some (semicolon, cs)
  | ',' => some (comma, cs)
  | '~' => some (tilde, cs)
  | ':' => some (colon, cs)
  | '.' => some (readDot cs)
  | '?' => some (readQuestion cs)
  | '<' => some (readDoubled '<' lessThan lessThanEqual leftShift leftShiftAssign cs)
  | '>' => some (readGreater cs)
  | '=' => some (readEqual cs)
  | '!' => some (readBang cs)
  | '+' => some (readSign '+' plus plusAssign increment cs)
  | '-' => some (readSign '-' minus minusAssign decrement cs)
  | '*' => some (readDoubled '*' star starAssign exponent exponentAssign cs)
  | '/' => some (orAssign slash slashAssign cs)
  | '%' => some (orAssign percent percentAssign cs)
  | '&' => some (readDoubled '&' ampersand ampersandAssign logicalAnd logicalAndAssign cs)
  | '|' => some (readDoubled '|' pipe pipeAssign logicalOr logicalOrAssign cs)
  | '^' => some (orAssign caret caretAssign cs)
  | _ => none

/-- Whether a slash behind the punctuator divides. -/
def endsExpression : Punctuator → Bool
  | rightParen | rightBracket | increment | decrement => true
  | _ => false

/-! ## What is left is a suffix -/

theorem orAssign_suffix (plain assigned : Punctuator) (cs : List Char) :
    (orAssign plain assigned cs).2 <:+ cs := by
  unfold orAssign
  split
  · exact List.suffix_cons ..
  · exact List.suffix_rfl

theorem readGreater_suffix (cs : List Char) : (readGreater cs).2 <:+ cs := by
  unfold readGreater
  split
  · exact (orAssign_suffix ..).trans ((List.suffix_cons ..).trans (List.suffix_cons ..))
  · exact (orAssign_suffix ..).trans (List.suffix_cons ..)
  · exact orAssign_suffix ..

theorem readQuestion_suffix (cs : List Char) : (readQuestion cs).2 <:+ cs := by
  unfold readQuestion
  split
  · exact (orAssign_suffix ..).trans (List.suffix_cons ..)
  · split
    · exact List.suffix_rfl
    · exact List.suffix_cons ..
  · exact List.suffix_rfl

theorem readEqual_suffix (cs : List Char) : (readEqual cs).2 <:+ cs := by
  unfold readEqual
  split
  · exact (orAssign_suffix ..).trans (List.suffix_cons ..)
  · exact List.suffix_cons ..
  · exact List.suffix_rfl

theorem readDot_suffix (cs : List Char) : (readDot cs).2 <:+ cs := by
  unfold readDot
  split
  · exact (List.suffix_cons ..).trans (List.suffix_cons ..)
  · exact List.suffix_rfl

theorem readBang_suffix (cs : List Char) : (readBang cs).2 <:+ cs := by
  unfold readBang
  split
  · exact (orAssign_suffix ..).trans (List.suffix_cons ..)
  · exact List.suffix_rfl

theorem readDoubled_suffix (c : Char) (p q r s : Punctuator) (cs : List Char) :
    (readDoubled c p q r s cs).2 <:+ cs := by
  unfold readDoubled
  split
  · split
    · exact (orAssign_suffix ..).trans (List.suffix_cons ..)
    · exact orAssign_suffix ..
  · exact List.suffix_rfl

theorem readSign_suffix (c : Char) (p q r : Punctuator) (cs : List Char) :
    (readSign c p q r cs).2 <:+ cs := by
  unfold readSign
  split
  · split
    · exact List.suffix_cons ..
    · exact orAssign_suffix ..
  · exact List.suffix_rfl

/-- A punctuator consumes its first character, and more from the front only. -/
theorem readFrom?_suffix (c : Char) (cs : List Char) :
    ∀ r ∈ readFrom? c cs, r.2 <:+ cs := by
  unfold readFrom?
  split <;>
    simp [orAssign_suffix, readGreater_suffix, readQuestion_suffix, readEqual_suffix,
      readDot_suffix, readBang_suffix, readDoubled_suffix, readSign_suffix]

end Punctuator

end Ecma
