import Ecma.Object
import Ecma.Text.Quotation

/-!
# Summaries of objects

A summary names an object's handle and kind, the units of its keys, its prototype and the function
it is, all on one line and in a fixed order. Values of properties are left out.
-/

namespace Ecma

/-- Texts in brackets, with commas between them. -/
def bracketed (parts : List String) : String := "[" ++ ", ".intercalate parts ++ "]"

/-- A text in a wrapper that says whether it is there. -/
def wrapped : Option String → String
  | some s => "Some(" ++ s ++ ")"
  | none => "None"

/-- The units of a text as a list of numbers. -/
def Text.unitList (t : Text) : String := bracketed (t.units.map fun u => toString u.toNat)

/-- The summary of a text. -/
def Text.summary (t : Text) : String := "JsString \x7b code_units: " ++ t.unitList ++ " \x7d"

/-- The name of a kind in summaries. -/
def ObjectKind.summary : ObjectKind → String
  | ordinary => "Ordinary"
  | kind => kind.className

/-- The summary of a function. -/
def Callable.summary {κ : Type} (f : Callable κ) : String :=
  "JsFunction(" ++ quotation f.name ++ ", " ++ toString f.arity ++ ")"

/-- The summary of an object. -/
def Object.summary {κ : Type} (o : Object κ) : String :=
  "JsObjectData \x7b id: " ++ toString o.id.index ++ ", kind: " ++ o.kind.summary
    ++ ", properties: " ++ bracketed (o.properties.keys.map Text.summary)
    ++ ", prototype: " ++ wrapped (o.prototype.map fun p => toString p.index)
    ++ ", callable: " ++ wrapped (o.callable.map Callable.summary) ++ ", .. \x7d"

end Ecma
