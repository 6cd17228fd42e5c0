/-
Checking with a state.

A pass that checks may be asked for one check after the other, and keeps a state between them:
the store in which it declares, the blocks that are open around the place of the check, and the
method whose body is being checked.  A check that opens a block closes it, and a check that turns
to the body of a method puts back the method that was there before, whether the body passes or
not.  What a `RETURN` may answer is looked up when it is reached, by the method that is there.

The checker that answers what becomes of a store has no such state: it hands the place of a check
down and the store along.  Here the same checks are written the other way, so that what they leave
behind in the state can be asked.  That both come to the same is proved.
-/
import Parlance.Checker.Source

namespace Parlance

/-- What a pass that checks keeps. -/
structure Analyzer where
  store : Store
  /-- The blocks that are open, the innermost first. -/
  blocks : Blocks
  /-- The method whose body is being checked. -/
  method? : Option Method

/-- A check that works on what the pass keeps. -/
abbrev Analysis (α : Type) := StateM Analyzer α

namespace Analyzer

/-- What a new pass keeps. -/
def new (σ : Store) : Analyzer := ⟨σ, [], none⟩

/-- The place where the check stands. Names mean the same there whatever may be returned. -/
def place (a : Analyzer) (pass : Pass) (returns? : Option Ty := none) : Context :=
  ⟨a.store, pass, a.blocks, returns?⟩

/-- The state after a variable has been declared in the innermost block, or outside of all blocks
in the scope of the pass. -/
def extend (a : Analyzer) (pass : Pass) : Option Variable → Analyzer
  | none => a
  | some v =>
    if a.blocks.isEmpty then { a with store := pass.addVariable v a.store }
    else { a with blocks := a.blocks.add v }

/-- Checks inside one more block, and closes it. -/
def inBlock {α : Type} (block : List Variable) (check : Analysis α) : Analysis α := do
  modify fun a => { a with blocks := block :: a.blocks }
  let r ← check
  modify fun a => { a with blocks := a.blocks.tail }
  return r

/-- Checks inside a method, and puts back the one before. -/
def inMethod {α : Type} (m : Method) (check : Analysis α) : Analysis α := do
  let saved := (← get).method?
  modify fun a => { a with method? := some m }
  let r ← check
  modify fun a => { a with method? := saved }
  return r

variable (pass : Pass)

/-- Declares a variable where the check stands. -/
def declare (name : Name) (type : Option Ty) : Analysis (Except Fault Variable) := do
  match ((← get).place pass).declare name type with
  | .error f => return .error f
  | .ok v =>
    modify fun a => a.extend pass (some v)
    return .ok v

/-! ### Expressions -/

mutual

/-- Checks an expression. -/
def checkExpr : Expr → Analysis (Expr × Except Fault (Option Ty))
  | .literal v old => return Expr.settle (.literal v) old ((literalType v).map some)
  | .group e old =>
    if e.isBinary then do
      let (e, found) ← checkExpr e
      return Expr.settle (.group e) old found
    else return (.group e old, .error (.check (.redundantGroup e.nodeName)))
  | .binary op l r old => do
    match ← checkExpr l with
    | (l, .error f) => return (.binary op l r old, .error f)
    | (l, .ok tl) =>
      match ← checkExpr r with
      | (r, .error f) => return (.binary op l r old, .error f)
      | (r, .ok tr) => return Expr.settle (.binary op l r) old ((binaryType op tl tr).map some)
  | .access name bound old => do
    let c := (← get).place pass
    return Expr.resolve (.access name) bound old (c.variableOf name >>= typed name)
  | .member receiver name bound old =>
    if receiver.isAccess then do
      match ← checkExpr receiver with
      | (receiver, .error f) => return (.member receiver name bound old, .error f)
      | (receiver, .ok owner) =>
        let c := (← get).place pass
        return Expr.resolve (.member receiver name) bound old
          (Ty.known owner >>= fun t => c.memberOf t name >>= typed name)
    else return (.member receiver name bound old, .error (.check (.receiver receiver.nodeName)))
  | .call name arguments bound old => do
    match ← checkExprs arguments with
    | (arguments, .error f) => return (.call name arguments bound old, .error f)
    | (arguments, .ok types) =>
      let c := (← get).place pass
      return Expr.resolve (.call name arguments) bound old
        (c.functionOf name types.length >>= fun f => f.applied f.parameterTypes types)
  | .memberCall receiver name arguments bound old => do
    match ← checkExprs arguments with
    | (arguments, .error f) => return (.memberCall receiver name arguments bound old, .error f)
    | (arguments, .ok types) =>
      if receiver.isAccess then
        match ← checkExpr receiver with
        | (receiver, .error f) => return (.memberCall receiver name arguments bound old, .error f)
        | (receiver, .ok owner) =>
          let c := (← get).place pass
          return Expr.resolve (.memberCall receiver name arguments) bound old
            (Ty.known owner >>= fun t => c.memberFunctionOf t name (types.length + 1) >>= fun f =>
              f.applied (f.parameterTypes.drop 1) types)
      else
        return (.memberCall receiver name arguments bound old,
          .error (.check (.receiver receiver.nodeName)))
  | .hole h => return (.hole h, .error (h.fault fun n => .check (.unhandledExpression n)))

/-- Checks expressions one after the other, up to the first fault. -/
def checkExprs : List Expr → Analysis (List Expr × Except Fault (List (Option Ty)))
  | [] => return ([], .ok [])
  | e :: es => do
    match ← checkExpr e with
    | (e, .error f) => return (e :: es, .error f)
    | (e, .ok t) =>
      match ← checkExprs es with
      | (es, .error f) => return (e :: es, .error f)
      | (es, .ok ts) => return (e :: es, .ok (t :: ts))

end

/-- Checks the value of a declaration against the type it names. -/
def checkDeclared (name : Name) (typeName : Option Text) (value : Option Expr) :
    Analysis (Option Expr × Except Fault (Option Ty)) :=
  match value, typeName with
  | none, none => return (none, .error (.check (.needsType name)))
  | none, some n => return (none, (((← get).place pass).type n).map some)
  | some e, none => do
    let (e, found) ← checkExpr pass e
    return (some e, found)
  | some e, some n => do
    match ((← get).place pass).type n with
    | .error f => return (some e, .error f)
    | .ok declared =>
      let (e, found) ← checkExpr pass e
      return (some e, found.bind fun t => (declared.require t).map fun _ => some declared)

/-- Checks a condition. -/
def checkCondition (condition : Expr) : Analysis (Expr × Except Fault Unit) := do
  let (condition, found) ← checkExpr pass condition
  return (condition, found.bind fun t => (Builtin.boolean.type.require t).map fun _ => ())

/-! ### Statements -/

mutual

/-- Checks a statement, and declares its variable if it has one. -/
def checkStmt : Stmt → Analysis (Stmt × Except Fault Unit)
  | .expression e =>
    if e.isCall then do
      let (e, found) ← checkExpr pass e
      return (.expression e, found.map fun _ => ())
    else return (.expression e, .error (.check (.notCall e.nodeName)))
  | .declaration name typeName value bound => do
    match ← checkDeclared pass name typeName value with
    | (value, .error f) => return (.declaration name typeName value bound, .error f)
    | (value, .ok t) =>
      match ← declare pass name t with
      | .error f => return (.declaration name typeName value bound, .error f)
      | .ok v => return (.declaration name typeName value (some v), .ok ())
  | .assignment target value =>
    if target.isAccess then do
      match ← checkExpr pass target with
      | (target, .error f) => return (.assignment target value, .error f)
      | (target, .ok expected) =>
        let (value, found) ← checkExpr pass value
        return (.assignment target value, found.bind (allowAssignment expected))
    else return (.assignment target value, .error (.check (.assignmentTarget target.nodeName)))
  | .conditional condition thenBody elseBody => do
    match ← checkCondition pass condition with
    | (condition, .error f) => return (.conditional condition thenBody elseBody, .error f)
    | (condition, .ok _) =>
      if thenBody.isEmpty then
        return (.conditional condition thenBody elseBody, .error (.check .emptyThen))
      else
        match ← inBlock [] (checkStmts thenBody) with
        | (thenBody, .error f) => return (.conditional condition thenBody elseBody, .error f)
        | (thenBody, .ok _) =>
          let (elseBody, found) ← inBlock [] (checkStmts elseBody)
          return (.conditional condition thenBody elseBody, found)
  | .forEach name value body => do
    let (value, found) ← checkExpr pass value
    match found.bind allowIterable with
    | .error f => return (.forEach name value body, .error f)
    | .ok _ =>
      if body.isEmpty then return (.forEach name value body, .error (.check .emptyFor))
      else
        let item : Variable :=
          ⟨name, name, some Builtin.integer.type, .block (← get).blocks.length⟩
        let (body, found) ← inBlock [item] (checkStmts body)
        return (.forEach name value body, found)
  | .whileLoop condition body => do
    match ← checkCondition pass condition with
    | (condition, .error f) => return (.whileLoop condition body, .error f)
    | (condition, .ok _) =>
      let (body, found) ← inBlock [] (checkStmts body)
      return (.whileLoop condition body, found)
  | .returning value => do
    let a ← get
    match a.method? with
    | none => return (.returning value, .error (.check .returnOutside))
    | some m =>
      match (a.place pass).resultType m.returnTypeName with
      | .error f => return (.returning value, .error f)
      | .ok expected =>
        let (value, found) ← checkExpr pass value
        return (.returning value, found.bind (allowResult expected))
  | .hole h => return (.hole h, .error (h.fault fun n => .check (.unhandledStatement n)))

/-- Checks the statements of a block one after the other, up to the first fault. -/
def checkStmts : List Stmt → Analysis (List Stmt × Except Fault Unit)
  | [] => return ([], .ok ())
  | s :: ss => do
    match ← checkStmt s with
    | (s, .error f) => return (s :: ss, .error f)
    | (s, .ok _) =>
      let (ss, found) ← checkStmts ss
      return (s :: ss, found)

end

/-! ### Sources -/

/-- Checks a field and declares it. -/
def checkField (f : Field) : Analysis (Field × Except Fault Unit) := do
  match ← checkDeclared pass f.name f.typeName f.value with
  | (value, .error fault) => return ({ f with value }, .error fault)
  | (value, .ok t) =>
    match ← declare pass f.name t with
    | .error fault => return ({ f with value }, .error fault)
    | .ok v => return ({ f with value, bound := some v }, .ok ())

/-- Checks what stands in a place for a field. -/
def checkFieldPlace : FieldPlace → Analysis (FieldPlace × Except Fault Unit)
  | .field f => do
    let (f, verdict) ← checkField pass f
    return (.field f, verdict)
  | .declaration f => do
    let (f, verdict) ← checkField pass f
    return (.declaration f, verdict)
  | .hole h => return (.hole h, .error (h.fault fun _ => .limit .strayNode))

/-- Declares a method and checks its body. -/
def checkMethod (m : Method) : Analysis (Method × Except Fault Unit) := do
  match m.signature ((← get).place pass) with
  | .error f => return (m, .error f)
  | .ok (types, result) =>
    match (← get).store.declareFunction pass.scope.top m.name (types.map some) (some result) none
      none with
    | .error f => return (m, .error (.binding f))
    | .ok (function, σ) =>
      modify fun a => { a with store := σ.report (.checkedMethod m.name types.length) }
      let m := { m with bound := some function }
      match parameterBlock (m.parameters.zip types) [] with
      | .error f => return (m, .error (.binding f))
      | .ok block =>
        let (body, verdict) ← inBlock block (inMethod m (checkStmts pass m.body))
        return ({ m with body }, verdict)

/-- Checks what stands in a place for a method. -/
def checkMethodPlace : MethodPlace → Analysis (MethodPlace × Except Fault Unit)
  | .method m => do
    let (m, verdict) ← checkMethod pass m
    return (.method m, verdict)
  | .untyped m => return (.untyped m, .error (.limit .missingPart))
  | .hole h => return (.hole h, .error h.methodFault)

/-- Checks one tree after the other, up to the first fault. -/
def checkInTurn {α : Type} (check : α → Analysis (α × Except Fault Unit)) :
    List α → Analysis (List α × Except Fault Unit)
  | [] => return ([], .ok ())
  | x :: xs => do
    match ← check x with
    | (x, .error f) => return (x :: xs, .error f)
    | (x, .ok _) =>
      let (xs, verdict) ← checkInTurn check xs
      return (x :: xs, verdict)

/-- Checks a source. -/
def check (s : Source) : Analysis (Source × Except Fault Unit) := do
  match s.checkEntryPoint with
  | .error f => return (s, .error f)
  | .ok _ =>
    match ← checkInTurn (checkFieldPlace pass) s.fields with
    | (fields, .error f) => return ({ s with fields }, .error f)
    | (fields, .ok _) =>
      match ← checkInTurn (checkMethodPlace pass) s.methods with
      | (methods, .error f) => return (⟨fields, methods⟩, .error f)
      | (methods, .ok _) =>
        modify fun a =>
          { a with store := a.store.report (.analysed fields.length methods.length) }
        return (⟨fields, methods⟩, .ok ())

end Analyzer

end Parlance
