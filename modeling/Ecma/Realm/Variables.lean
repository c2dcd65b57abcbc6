import Ecma.Realm

/-!
# Variables behind properties

An object may stand in for the variables of a scope. Writing to one side then has to reach the
other: `publish` carries a variable to the object, `sync` a property to the variable, and `unlink`
drops the variable of a deleted property.
-/

namespace Ecma.Realm

variable {κ : Type}

/-- Carries the value of a variable over to the object that stands in for its scope. A property with
accessors is left alone; a new property can be enumerated and written but not deleted. This is
`mirror_global_var`. -/
def publish (r : Realm κ) (o : ObjectId) (name : String) (v : Value) :
    Except Fault Unit × Realm κ :=
  match r.heap.get? o with
  | none => (.error (.collected o), r)
  | some data =>
    let key := Text.ofString name
    let p := match data.properties.get? key with
      | some p => p.withValue v
      | none => .data v true true false
    (.ok (), r.replaceObject o (data.putProperty key p))

/-- Carries a stored value of an object over to the variable of that name in the scope that the
object stands in for. Keys that are not well formed name no variable. This is
`sync_global_binding`. -/
def sync (r : Realm κ) (data : Object κ) (key : Text) : Realm κ :=
  match data.scope, (data.properties.get? key).bind Property.value?, key.toString? with
  | some s, some v, some name => r.modifyScope s fun scope => scope.setVar name v
  | _, _, _ => r

/-- Drops the variable behind a deleted property. This is `unlink_global_binding`. -/
def unlink (r : Realm κ) (data : Object κ) (key : Text) : Realm κ :=
  match data.scope, key.toString? with
  | some s, some name => r.modifyScope s fun scope => scope.dropVar name
  | _, _ => r

/-- Carries a variable to an object that is linked to its scope, if there is one. -/
def publishLinked (r : Realm κ) (linked : Option ObjectId) (name : String) (v : Value) :
    Except Fault Unit × Realm κ :=
  match linked with
  | some o => r.publish o name v
  | none => (.ok (), r)

/-- Makes an object stand in for a scope. Variables without a property of their name become hidden
properties. A scope without scopes around it becomes the global one. This is `set_global_object`,
which makes the properties in the order of a hash map; here they come in the order of
declaration. -/
def link (r : Realm κ) (s : ScopeId) (o : ObjectId) : Realm κ :=
  let scope := r.scope s
  let r := r.modifyScope s fun scope => { scope with linked := some o }
  let r := if scope.outer.isEmpty then { r with globalScope := s, globalObject := o } else r
  r.modifyObject o fun data =>
    scope.vars.entries.foldl
      (fun data (name, b) =>
        let key := Text.ofString name
        if data.properties.contains key then data else data.putHidden key b.value)
      { data with scope := some s }

/-- Adds a variable to the global scope and a hidden property to the global object. -/
def defineBuiltin (r : Realm κ) (name : String) (v : Value) : Realm κ :=
  let r := r.modifyScope r.globalScope fun s => s.putVar name (.init .varName v)
  r.modifyObject r.globalObject fun data => data.putHidden (.ofString name) v

end Ecma.Realm
