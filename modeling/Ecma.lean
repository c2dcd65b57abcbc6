import Ecma.Action
import Ecma.Engine
import Ecma.Engine.Conversion
import Ecma.Engine.Perform
import Ecma.Fault
import Ecma.Heap
import Ecma.Number.Decimal
import Ecma.Number.Digits
import Ecma.Number.Double
import Ecma.Number.Numeric
import Ecma.Number.Positional
import Ecma.Number.Power
import Ecma.Number.Radix
import Ecma.Number.Rounding
import Ecma.Number.Shortest
import Ecma.Object
import Ecma.Object.Summary
import Ecma.OrderedMap
import Ecma.Program
import Ecma.Property
import Ecma.Realm
import Ecma.Realm.Bindings
import Ecma.Realm.Collect
import Ecma.Realm.Fresh
import Ecma.Realm.Properties
import Ecma.Realm.Reachable
import Ecma.Realm.Variables
import Ecma.Scope
import Ecma.Script
import Ecma.Script.Answer
import Ecma.Script.Run
import Ecma.Script.Session
import Ecma.Text
import Ecma.Text.Index
import Ecma.Text.Quotation
import Ecma.Text.Wtf8
import Ecma.Token
import Ecma.Token.Complaint
import Ecma.Token.Cursor
import Ecma.Token.Escape
import Ecma.Token.Keyword
import Ecma.Token.Name
import Ecma.Token.Numeral
import Ecma.Token.Pattern
import Ecma.Token.Position
import Ecma.Token.Punctuator
import Ecma.Token.Quoted
import Ecma.Token.Read
import Ecma.Token.Scanner
import Ecma.Token.Template
import Ecma.Token.Trivia
import Ecma.Unicode.Blank
import Ecma.Unicode.IdentifierContinue
import Ecma.Unicode.IdentifierStart
import Ecma.Unicode.Unmarked
import Ecma.Value
import Ecma.Value.Equality
import Ecma.Proofs.Collection
import Ecma.Proofs.Arena
import Ecma.Proofs.CodePoint
import Ecma.Proofs.Mirror
import Ecma.Proofs.Gap
import Ecma.Proofs.Kind
import Ecma.Proofs.LineEnd
import Ecma.Proofs.Carrying
import Ecma.Proofs.Tiling
import Ecma.Proofs.ByteForm
import Ecma.Proofs.Spelling
import Ecma.Proofs.Nesting
import Ecma.Proofs.Lookahead
import Ecma.Proofs.Enclosed
import Ecma.Proofs.Spacing
import Ecma.Proofs.Lineage
import Ecma.Proofs.Ground
import Ecma.Proofs.Watch
import Ecma.Proofs.Ancestry
import Ecma.Proofs.ScopeStep
import Ecma.Proofs.Stability
import Ecma.Proofs.Resolution
import Ecma.Proofs.Assignment
import Ecma.Proofs.Location
import Ecma.Proofs.Canonical
import Ecma.Proofs.Ascii
import Ecma.Proofs.Strictness
import Ecma.Proofs.LineStart
import Ecma.Proofs.Declaration
import Ecma.Proofs.Linking
import Ecma.Proofs.Index
import Ecma.Proofs.OwnKeys
import Ecma.Proofs.Quiet
import Ecma.Proofs.Bracket
import Ecma.Proofs.Exhaustion
import Ecma.Proofs.Rendering
import Ecma.Proofs.Utf8
import Ecma.Proofs.EscapeGrammar
import Ecma.Proofs.Elements
import Ecma.Proofs.TemplateValue
import Ecma.Proofs.NumberGrammar
import Ecma.Proofs.NumberReading
import Ecma.Proofs.LongestNumber
import Ecma.Proofs.Trimming
import Ecma.Proofs.NumberText
import Ecma.Proofs.LiteralText
import Ecma.Proofs.Whitespace
import Ecma.Proofs.NameSpelling
import Ecma.Proofs.PatternGrammar
import Ecma.Proofs.LineBreak
import Ecma.Proofs.OwnProperty
import Ecma.Proofs.ReadBack
import Ecma.Proofs.ElementEdit
import Ecma.Proofs.Inheritance
import Ecma.Proofs.Turn
import Ecma.Proofs.Removal
import Ecma.Proofs.NewKeys
import Ecma.Proofs.IndexRange
import Ecma.Proofs.LooseEquality
import Ecma.Proofs.Hoisting
import Ecma.Proofs.WholeNumber
import Ecma.Proofs.NestedArray
import Ecma.Proofs.Copying
import Ecma.Proofs.LongestPunctuator
import Ecma.Proofs.SymbolKey
import Ecma.Proofs.PositionalValue
