/-
Checking a whole source.

A source needs an entry point, a method `main` without parameters that promises an
Integer.  Then its fields are checked in order and after them its methods, each being
declared in the scope of the pass: a field after its value has been checked, a method
before its body is.  So a field sees the fields before it, and a method all fields, the
methods before it and itself.

The check stops at the first fault.  What had been declared by then stays declared.
-/
import Parlance.Checker.Stmt

namespace Parlance

/-- What a check leaves behind: the tree with its annotations, the verdict, and the store. -/
structure Checked (α : Type) where
  tree : α
  verdict : Except Fault Unit
  store : Store

/-- What a check leaves behind, the tree being part of another one. -/
def Checked.map {α β : Type} (f : α → β) (c : Checked α) : Checked β :=
  ⟨f c.tree, c.verdict, c.store⟩

/-- The place outside of all blocks. -/
def Pass.context (pass : Pass) (σ : Store) : Context :=
  ⟨σ, pass, [], none⟩

/-- Checks an expression outside of all blocks. -/
def Pass.checkExpr (pass : Pass) (e : Expr) (σ : Store) : Expr × Except Fault (Option Ty) :=
  e.check (pass.context σ)

/-- The store after a variable has been declared outside of all blocks. -/
def Pass.addVariable (pass : Pass) (v : Variable) (σ : Store) : Store :=
  σ.modifyTable pass.scope.top fun t => t.addSlot ⟨v, .nil⟩

/-- Checks a statement outside of all blocks. -/
def Pass.checkStmt (pass : Pass) (s : Stmt) (σ : Store) : Checked Stmt :=
  match s.check (pass.context σ) with
  | (s, .ok (some v)) => ⟨s, .ok (), pass.addVariable v σ⟩
  | (s, .ok none) => ⟨s, .ok (), σ⟩
  | (s, .error f) => ⟨s, .error f, σ⟩

/-! ### Fields -/

/-- Checks a field and declares it. -/
def Pass.checkField (pass : Pass) (f : Field) (σ : Store) : Checked Field :=
  let c := pass.context σ
  let (value, found) := checkDeclared c f.name f.typeName f.value
  match found.bind (c.declare f.name) with
  | .ok v => ⟨{ f with value, bound := some v }, .ok (), pass.addVariable v σ⟩
  | .error fault => ⟨{ f with value }, .error fault, σ⟩

/-- Checks what stands in a place for a field. -/
def Pass.checkFieldPlace (pass : Pass) (p : FieldPlace) (σ : Store) : Checked FieldPlace :=
  match p with
  | .field f => (pass.checkField f σ).map .field
  | .declaration f => (pass.checkField f σ).map .declaration
  | .hole h => ⟨.hole h, .error (h.fault fun _ => .limit .strayNode), σ⟩

/-- Checks one tree after the other, up to the first fault. -/
def checkInOrder {α : Type} (check : α → Store → Checked α) :
    List α → Store → Checked (List α)
  | [], σ => ⟨[], .ok (), σ⟩
  | a :: as, σ =>
    match check a σ with
    | ⟨a, .error f, σ⟩ => ⟨a :: as, .error f, σ⟩
    | ⟨a, .ok _, σ⟩ =>
      let rest := checkInOrder check as σ
      ⟨a :: rest.tree, rest.verdict, rest.store⟩

/-! ### Methods -/

/-- The block of a method's parameters, no two of which may have one name. -/
def parameterBlock : List (Name × Ty) → List Variable → Except BindingFault (List Variable)
  | [], block => .ok block
  | (name, type) :: rest, block =>
    if block.any fun v => v.name == name then .error (.duplicateName name)
    else parameterBlock rest (block ++ [⟨name, name, some type, .block 0⟩])

/-- The types of names, up to the first name that has none. -/
def Context.types (c : Context) : List Name → Except Fault (List Ty)
  | [] => .ok []
  | n :: ns =>
    match c.type? n with
    | .error f => .error f
    | .ok t => (types c ns).map (t :: ·)

/-- The result type that a method promises; without a name it is `Nil`. -/
def Context.resultType (c : Context) : Option Text → Except Fault Ty
  | none => .ok Builtin.nil.type
  | some n => c.type n

/-- The parameter types and the result type of a method. -/
def Method.signature (m : Method) (c : Context) : Except Fault (List Ty × Ty) :=
  if m.parameters.length ≠ m.parameterTypeNames.length then
    .error (.check (.parameterLists m.name m.parameters.length m.parameterTypeNames.length))
  else
    match c.types m.parameterTypeNames with
    | .error f => .error f
    | .ok ts => (c.resultType m.returnTypeName).map (ts, ·)

/-- Checks the body of a method whose signature is known. -/
def Method.checkBody (m : Method) (c : Context) (types : List Ty) (result : Ty) :
    List Stmt × Except Fault Unit :=
  match parameterBlock (m.parameters.zip types) [] with
  | .error f => (m.body, .error (.binding f))
  | .ok block => Stmt.checkAll { c with blocks := [block], returns? := some result } m.body

/-- Declares a method and checks its body. -/
def Pass.checkMethod (pass : Pass) (m : Method) (σ : Store) : Checked Method :=
  match m.signature (pass.context σ) with
  | .error f => ⟨m, .error f, σ⟩
  | .ok (types, result) =>
    match σ.declareFunction pass.scope.top m.name (types.map some) (some result) none none with
    | .error f => ⟨m, .error (.binding f), σ⟩
    | .ok (function, σ) =>
      let σ := σ.report (.checkedMethod m.name types.length)
      let (body, verdict) := m.checkBody (pass.context σ) types result
      ⟨{ m with body, bound := some function }, verdict, σ⟩

/-- Checks what stands in a place for a method. -/
def Pass.checkMethodPlace (pass : Pass) (p : MethodPlace) (σ : Store) : Checked MethodPlace :=
  match p with
  | .method m => (pass.checkMethod m σ).map .method
  | .untyped m => ⟨.untyped m, .error (.limit .missingPart), σ⟩
  | .hole h => ⟨.hole h, .error h.methodFault, σ⟩

/-! ### Sources -/

/-- Whether a method is an entry point. -/
def Method.isEntryPoint (m : Method) : Bool :=
  m.name == some "main" && m.parameters.isEmpty

/-- The entry point that stands in a place for a method, if one does. The parameters of a node
are looked at only if its name is that of entry points. -/
def MethodPlace.entryPoint? : MethodPlace → Except Fault (Option Method)
  | method m | untyped m => .ok (if m.isEntryPoint then some m else none)
  | hole (.stray s) =>
    match s.name? with
    | none => .error (.limit .strayNode)
    | some name =>
      if name = some "main" then .error (Hole.stray s).methodFault else .ok none
  | hole .unlisted => .error (.limit .missingPart)

/-- The entry points of a source, in order. -/
def Source.entryPoints (s : Source) : Except Fault (List Method) := do
  return (← s.methods.mapM MethodPlace.entryPoint?).filterMap id

/-- Refuses a source without an entry point, or whose last one does not promise an Integer. -/
def Source.checkEntryPoint (s : Source) : Except Fault Unit := do
  match (← s.entryPoints).getLast? with
  | none => throw (.check .noEntryPoint)
  | some m =>
    if m.returnTypeName = some Builtin.integer.name then return ()
    else throw (.check (.entryPointResult ((nonempty? m.returnTypeName).getD Builtin.nil.name)))

/-- Checks a source. -/
def Pass.check (pass : Pass) (s : Source) (σ : Store) : Checked Source :=
  match s.checkEntryPoint with
  | .error f => ⟨s, .error f, σ⟩
  | .ok _ =>
    match checkInOrder pass.checkFieldPlace s.fields σ with
    | ⟨fields, .error f, σ⟩ => ⟨{ s with fields }, .error f, σ⟩
    | ⟨fields, .ok _, σ⟩ =>
      match checkInOrder pass.checkMethodPlace s.methods σ with
      | ⟨methods, .error f, σ⟩ => ⟨⟨fields, methods⟩, .error f, σ⟩
      | ⟨methods, .ok _, σ⟩ =>
        ⟨⟨fields, methods⟩, .ok (), σ.report (.analysed fields.length methods.length)⟩

end Parlance
