import Ecma.Engine.Conversion

/-!
# Answering requests

An engine answers every request of a program. A library of programs makes an engine for every depth:
at depth zero nothing ends, and at the next depth user code runs with its requests answered by the
engine of the depth before.
-/

namespace Ecma

variable {κ σ : Type}

namespace Engine

/-- Carries out a request. -/
def perform (e : Engine κ σ) : (r : Request κ) → Action κ σ r.Reply
  | .create kind prototype => Action.change (·.create kind prototype)
  | .createArray elements => Action.change (·.createArray elements)
  | .createFunction f => Action.change (·.createFunction f)
  | .createConstructor call construct => Action.change (·.createConstructor call construct)
  | .createError kind message => Action.change (·.createError kind message)
  | .createIterator code => Action.change (·.createIterator code)
  | .createSymbol description => Action.change (·.createSymbol description)
  | .errorValue f => Action.change (·.errorValue f)
  | .get o key receiver => e.get o key receiver
  | .set o key v => e.set o key v
  | .define o key d => Action.changeOrFail fun r => (r.define o key d).map fun r => ((), r)
  | .delete o key => Action.changeOrFail (·.delete o key)
  | .setPrototype o proto => Action.changeOrFail (·.setPrototype o proto)
  | .preventExtensions o =>
    Action.changeOrFail fun r => (r.preventExtensions o).map fun r => ((), r)
  | .writeHidden o key v => Action.modifyRealm (·.modifyObject o (·.putHidden key v))
  | .writePrototype o proto =>
    Action.modifyRealm (·.modifyObject o fun data => { data with prototype := proto })
  | .writeSlot o name v =>
    Action.modifyRealm (·.modifyObject o fun data =>
      { data with slots := data.slots.insert name v })
  | .writeElements o elements =>
    Action.modifyRealm (·.modifyObject o fun data => { data with elements := elements })
  | .call f this args => e.call f this args
  | .construct f args => e.construct f args
  | .iteratorNext o => e.iteratorNext o
  | .toText v => e.toText v
  | .toNumber v => e.toNumber v
  | .toPropertyKey v => e.toPropertyKey v
  | .toPrimitive v hint => e.toPrimitive hint v
  | .looselyEqual a b => e.looselyEqual a b
  | .addScope kind parent => Action.change (·.addScope kind parent)
  | .createUninitialized s name kind => Action.modifyRealm (·.createUninitialized s name kind)
  | .declare s name kind v => Action.changeAndTry (·.declare s name kind v)
  | .getBinding s name => e.getBinding s name
  | .setBinding s name v => e.setBinding s name v
  | .setInScope s name v => Action.changeAndTry (·.setInScope s name v)
  | .declareVar s name v deletable => Action.changeAndTry (·.declareVar s name v deletable)
  | .hoistFunction s name v => Action.changeAndTry (·.hoistFunction s name v)
  | .link s o => Action.modifyRealm (·.link s o)
  | .defineBuiltin name v => Action.modifyRealm (·.defineBuiltin name v)
  | .collect scopes values => Action.change (·.collect scopes values)
  | .collectIfDue scopes values => Action.change (·.collectIfDue scopes values)

end Engine

namespace Library

/-- The engine that runs programs of the library nested up to a depth. -/
def engine (lib : Library κ σ) : Nat → Engine κ σ
  | 0 =>
    { apply := fun _ _ _ => Action.diverge
      produce := fun _ _ => Action.diverge
      text := fun _ => Action.diverge }
  | depth + 1 =>
    { apply := fun c this args => (lib.apply c this args).run fun r => (lib.engine depth).perform r
      produce := fun c i => (lib.produce c i).run fun r => (lib.engine depth).perform r
      text := fun v => (lib.engine depth).toText v }

/-- Runs a program whose requests may nest up to a depth. -/
def run (lib : Library κ σ) {α : Type} (depth : Nat) (p : Program κ σ α) : Action κ σ α :=
  p.run (lib.engine depth).perform

end Library

end Ecma
