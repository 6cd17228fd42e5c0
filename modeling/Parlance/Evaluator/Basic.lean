/-
Evaluation.

Expressions have values, statements an outcome: they complete, or a `RETURN` has run and
its value is on the way up to the call of the method.  Calls, branches, iterations and
loop bodies open a frame, and close it when they are left in either way.

A program may run for ever, so evaluation is given fuel, spent by one at every step down;
running out of it is an outcome of its own, apart from every fault.
-/
import Parlance.Evaluator.Locals
import Parlance.Evaluator.Host
import Parlance.Operator.Evaluation
import Parlance.Checker.Expr

namespace Parlance

/-- What a statement comes to. -/
inductive Outcome where
  /-- It completed, and left these frames. -/
  | completed (locals : Locals)
  /-- A `RETURN` has run. -/
  | returned (value : Value)
deriving Inhabited

namespace Eval

/-- Declares a variable: in the innermost frame, or in the scope's own table outside of all
blocks. -/
def declare (pass : Pass) (locals : Locals) (name : Name) (value : Value) : Eval Locals :=
  match locals with
  | frame :: outer => do
    let frame ← lift ((Frame.declare frame name value).mapError .binding)
    return frame :: outer
  | [] => do
    let (_, σ) ← read fun σ => σ.declareVariable pass.scope.top name none value none
    set σ
    return []

/-- The outcome of a block, its frame dropped. -/
def leave : Outcome → Outcome
  | .completed locals => .completed locals.tail
  | .returned v => .returned v

end Eval

/-! ### The evaluator -/

mutual

/-- The value of an expression. -/
def eval (pass : Pass) (locals : Locals) : (fuel : Nat) → Expr → Eval Value
  | 0, _ => throw .outOfFuel
  | fuel + 1, e =>
    match e with
    | .literal v _ => pure v
    | .group e _ => eval pass locals fuel e
    | .binary op l r _ => do
      let left ← eval pass locals fuel l
      match ← Eval.lift (binarySettled op left) with
      | some b => return .boolean b
      | none =>
        let right ← eval pass locals fuel r
        Eval.lift (binaryApply op left right)
    | .access name _ _ =>
      match locals.get? name with
      | some v => pure v
      | none => do
        let s ← Eval.read fun σ => σ.scopeVariable pass.scope name
        return s.value
    | .member receiver name _ _ => do
      let owner ← eval pass locals fuel receiver
      let members ← Eval.read fun σ => σ.membersOfValue pass.registry owner
      let s ← Eval.read fun σ => σ.memberVariable members name
      return s.value
    | .call name arguments _ _ => do
      let values ← evalAll pass locals fuel arguments
      let r ← Eval.read fun σ => σ.scopeFunction pass.scope name values.length
      invoke fuel r values
    | .memberCall receiver name arguments _ _ => do
      let owner ← eval pass locals fuel receiver
      let values ← evalAll pass locals fuel arguments
      let members ← Eval.read fun σ => σ.membersOfValue pass.registry owner
      let r ← Eval.read fun σ => σ.memberFunction members name (values.length + 1)
      invoke fuel r (owner :: values)
    | .hole h => throw (.fault (h.fault fun n => .run (.unhandledExpression n)))

/-- The values of expressions, one after the other. -/
def evalAll (pass : Pass) (locals : Locals) : (fuel : Nat) → List Expr → Eval (List Value)
  | 0, _ => throw .outOfFuel
  | _ + 1, [] => pure []
  | fuel + 1, e :: es => do
    let v ← eval pass locals fuel e
    let vs ← evalAll pass locals fuel es
    return v :: vs

/-- The answer of a function. -/
def invoke : (fuel : Nat) → Routine → List Value → Eval Value
  | 0, _, _ => throw .outOfFuel
  | fuel + 1, r, arguments =>
    match r.implementation? with
    | none => throw (.fault (.binding (.noImplementation r.function.name)))
    | some .print => do
      let v ← Eval.lift (hostArgument arguments 0)
      Eval.write ((← Eval.text v) ++ "\n")
      return .nil
    | some (.host action traced) => do
      if traced then
        Eval.write (← Eval.lift ((traceLine r.function.name arguments).mapError .limit))
      Eval.host action arguments
    | some (.method m pass) => do
      let frame ← Eval.lift ((Frame.declareAll [] (m.parameters.zip arguments)).mapError .binding)
      match ← execAll pass fuel [frame] m.body with
      | .returned v => return v
      | .completed _ => return .nil

/-- The outcome of a statement. -/
def exec (pass : Pass) : (fuel : Nat) → Locals → Stmt → Eval Outcome
  | 0, _, _ => throw .outOfFuel
  | fuel + 1, locals, s =>
    match s with
    | .expression e => do
      let _ ← eval pass locals fuel e
      return .completed locals
    | .declaration name _ value _ => do
      let v ← match value with
        | some e => eval pass locals fuel e
        | none => pure .nil
      return .completed (← Eval.declare pass locals name v)
    | .assignment target value =>
      match target with
      | .access name _ _ =>
        match locals.get? name with
        | some _ => do
          let v ← eval pass locals fuel value
          return .completed (locals.set name v)
        | none => do
          let s ← Eval.read fun σ => σ.scopeVariable pass.scope name
          let v ← eval pass locals fuel value
          modify (·.setValue s.var v)
          return .completed locals
      | .member receiver name _ _ => do
        let owner ← eval pass locals fuel receiver
        let members ← Eval.read fun σ => σ.membersOfValue pass.registry owner
        let s ← Eval.read fun σ => σ.memberVariable members name
        let v ← eval pass locals fuel value
        modify (·.setValue s.var v)
        return .completed locals
      | other => Eval.fail (.assignmentTarget other.nodeName)
    | .conditional condition thenBody elseBody => do
      let b ← Eval.lift (← eval pass locals fuel condition).truth
      block pass fuel locals [] (if b then thenBody else elseBody)
    | .forEach name value body => do
      match ← eval pass locals fuel value with
      | .iterable items => iterate pass fuel locals name items body
      | v => Eval.fail (.notIterable v.kind)
    | .whileLoop condition body => loop pass fuel locals condition body
    | .returning value => do
      return .returned (← eval pass locals fuel value)
    | .hole h => throw (.fault (h.fault fun n => .run (.unhandledStatement n)))

/-- The outcome of statements, one after the other, up to the first that returns. -/
def execAll (pass : Pass) : (fuel : Nat) → Locals → List Stmt → Eval Outcome
  | 0, _, _ => throw .outOfFuel
  | _ + 1, locals, [] => return .completed locals
  | fuel + 1, locals, s :: ss => do
    match ← exec pass fuel locals s with
    | .returned v => return .returned v
    | .completed locals => execAll pass fuel locals ss

/-- The outcome of a block entered with a frame. -/
def block (pass : Pass) : (fuel : Nat) → Locals → Frame → List Stmt → Eval Outcome
  | 0, _, _, _ => throw .outOfFuel
  | fuel + 1, locals, frame, body => do
    return Eval.leave (← execAll pass fuel (frame :: locals) body)

/-- The outcome of a body for each of some integers, up to the first that returns. -/
def iterate (pass : Pass) :
    (fuel : Nat) → Locals → Name → List Int → List Stmt → Eval Outcome
  | 0, _, _, _, _ => throw .outOfFuel
  | _ + 1, locals, _, [], _ => return .completed locals
  | fuel + 1, locals, name, i :: is, body => do
    match ← block pass fuel locals [(name, .integer i)] body with
    | .returned v => return .returned v
    | .completed locals => iterate pass fuel locals name is body

/-- The outcome of a body as long as a condition holds. -/
def loop (pass : Pass) : (fuel : Nat) → Locals → Expr → List Stmt → Eval Outcome
  | 0, _, _, _ => throw .outOfFuel
  | fuel + 1, locals, condition, body => do
    if ← Eval.lift (← eval pass locals fuel condition).truth then
      match ← block pass fuel locals [] body with
      | .returned v => return .returned v
      | .completed locals => loop pass fuel locals condition body
    else return .completed locals

end

end Parlance
