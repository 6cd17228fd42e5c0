/-
Evaluating a whole source.

The fields are evaluated and declared in order, then all methods are declared, and then
the entry point is called.  So a method's body may call any method, while a field's value
may call only what the scope around the source provides.
-/
import Parlance.Evaluator.Basic
import Parlance.Syntax.Assembly

namespace Parlance

/-- The value that a field begins with. -/
def Pass.initialValue (pass : Pass) (fuel : Nat) : Option Expr → Eval Value
  | some e => eval pass [] fuel e
  | none => return .nil

/-- Evaluates a field and declares it. -/
def Pass.declareField (pass : Pass) (fuel : Nat) (f : Field) : Eval Unit := do
  let v ← pass.initialValue fuel f.value
  let _ ← Eval.declare pass [] f.name v

/-- Does with a node of another form what is done with a field, as far as its parts go: the value
is evaluated before the name is needed. -/
def Pass.declareStray (pass : Pass) (fuel : Nat) (s : Sketch) : Eval Unit := do
  match s.part? "value" with
  | none => throw (.fault (.limit .strayNode))
  | some (.value v) => Eval.fail (.unhandledExpression v.variant)
  | some value =>
    let v ← pass.initialValue fuel value.toExpr?
    match s.name? with
    | none => throw (.fault (.limit .strayNode))
    | some name =>
      let _ ← Eval.declare pass [] name v

/-- Declares what stands in a place for a field. -/
def Pass.declareFieldPlace (pass : Pass) (fuel : Nat) : FieldPlace → Eval Unit
  | .field f | .declaration f => pass.declareField fuel f
  | .hole (.stray s) => pass.declareStray fuel s
  | .hole .unlisted => throw (.fault (.limit .missingPart))

/-- Declares a method. Its parameters and its result take every value. -/
def Pass.declareMethod (pass : Pass) (m : Method) : Eval Unit := do
  let types := List.replicate m.parameters.length (some Builtin.any.type)
  let (_, σ) ← Eval.read fun σ =>
    σ.declareFunction pass.scope.top m.name types (some Builtin.any.type)
      (some (.method m pass)) none
  set σ
  Eval.report (.declaredMethod m.name m.parameters.length)

/-- Declares what stands in a place for a method. -/
def Pass.declareMethodPlace (pass : Pass) : MethodPlace → Eval Unit
  | .method m | .untyped m => pass.declareMethod m
  | .hole h => throw (.fault h.methodFault)

/-- Declares what a source declares. -/
def Pass.declareSource (pass : Pass) (fuel : Nat) (s : Source) : Eval Unit := do
  s.fields.forM (pass.declareFieldPlace fuel)
  s.methods.forM pass.declareMethodPlace

/-- Calls the entry point. -/
def Pass.enter (pass : Pass) (fuel : Nat) : Eval Value := do
  let main ← Eval.read fun σ => σ.scopeFunction pass.scope "main" 0
  Eval.report .entering
  let v ← invoke fuel main []
  Eval.report (.returned (← Eval.text v))
  return v

/-- Evaluates a source: the value of its entry point. -/
def Pass.evaluate (pass : Pass) (fuel : Nat) (s : Source) : Eval Value := do
  pass.declareSource fuel s
  pass.enter fuel

end Parlance
