import Ecma.Realm.Variables

/-!
# Fresh realms

Every realm starts with the nine prototypes and a global object, linked to a global scope. The names
for undefined and the two special numbers are properties that cannot be changed, and the name of the
global object itself is a variable.
-/

namespace Ecma.Realm

variable {κ : Type}

/-- A realm without objects. -/
def bare (options : Options) : Realm κ :=
  { heap := .empty, scopes := #[.make .global []], producers := #[], globalScope := ⟨0⟩,
    globalObject := ⟨0⟩, nextSymbol := 1, joining := [], options }

/-- The prototype of the errors of a class. This is what `allocate_error_prototype` allocates. -/
def errorPrototype (kind : ErrorKind) : Object κ :=
  let parent := if kind = .error then Intrinsic.object.id else (Intrinsic.error .error).id
  let o := (Object.make .ordinary (some parent) : Object κ)
  let o := o.putHidden (.ofString "name") (.ofString kind.name)
  o.putHidden (.ofString "message") (.string .empty)

/-- The prototype in each of the first cells. -/
def intrinsicObject : Intrinsic → Object κ
  | .object => .make .ordinary none
  | .function =>
    { Object.make .function (some Intrinsic.object.id) with
      callable := some ⟨"", 0, .idle, [], []⟩ }
  | .array => { Object.make .array (some Intrinsic.object.id) with elements := some #[] }
  | .iterator => .make .ordinary (some Intrinsic.object.id)
  | .error kind => errorPrototype kind

/-- The names that every program can use and none can change. -/
def fixedNames : List (String × Value) :=
  [("undefined", .undefined), ("NaN", .number .nan), ("Infinity", .number .infinity)]

/-- A realm at its start. This is `with_options`. -/
def fresh (options : Options) : Realm κ :=
  let r := Intrinsic.all.foldl (fun r i => (r.allocate (intrinsicObject i)).2) (bare options)
  let (global, r) := r.createObject
  let r := r.link r.globalScope global
  let r := r.modifyObject global fun o =>
    fixedNames.foldl
      (fun o (name, v) => o.putProperty (.ofString name) (.data v false false false)) o
  r.defineBuiltin "globalThis" (.object global)

end Ecma.Realm
