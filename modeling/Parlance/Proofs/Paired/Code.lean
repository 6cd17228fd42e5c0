/-
Code that is alike.

Two pieces of code are alike when they differ, beside what a likeness leaves open, only in the
names of a method's own variables, these being renamed alike throughout.  A name that stands for a
variable and is renamed must be the method's own wherever it stands, so that it never means a
variable of the scope; every other name stays as it is.

A likeness leaves open annotations, the types that declarations name and the values of literals:
what matters of them is different to a check, to a run, and to a reader of annotated trees.
-/
import Mathlib.Data.List.Forall2
import Parlance.Syntax.Assembly

namespace Parlance

/-! ### Renaming -/

/-- Names for the variables of a method. -/
structure Renaming where
  name : Name → Name
  /-- The names that stand for parameters of the method wherever no nearer variable has them. -/
  own : Name → Prop
  injective : ∀ {m n}, name m = name n → m = n

theorem Renaming.name_eq_iff (ν : Renaming) {m n : Name} : ν.name m = ν.name n ↔ m = n :=
  ⟨ν.injective, congrArg ν.name⟩

/-- Every name stays as it is. -/
def Renaming.same : Renaming :=
  ⟨id, fun _ => False, id⟩

/-- A name under which a variable may be looked up: it is the method's own, or stays as it is. -/
def Renaming.Allows (ν : Renaming) (n : Name) : Prop :=
  ν.own n ∨ ν.name n = n

/-! ### Code -/

/-- What pieces of code that are alike agree in, beside their shape. -/
structure Likeness where
  /-- The values that literals may have. -/
  literals : Value → Prop
  /-- The ways in which methods may be renamed. -/
  renamings : Renaming → Prop
  /-- The types that declarations name, the value of the first one being given. -/
  typeNames : Option Expr → Option Text → Option Text → Prop
  types : Option Ty → Option Ty → Prop
  bound : Option Variable → Option Variable → Prop
  callee : Option Function → Option Function → Prop

/-- Expressions that are alike. -/
inductive Expr.Alike (k : Likeness) (ν : Renaming) : Expr → Expr → Prop
  | literal {v : Value} {t t' : Option Ty} (h : k.literals v) (ht : k.types t t') :
      Expr.Alike k ν (.literal v t) (.literal v t')
  | group {e e' : Expr} {t t' : Option Ty} (h : Expr.Alike k ν e e') (ht : k.types t t') :
      Expr.Alike k ν (.group e t) (.group e' t')
  | binary {op : Name} {l l' r r' : Expr} {t t' : Option Ty} (hl : Expr.Alike k ν l l')
      (hr : Expr.Alike k ν r r') (ht : k.types t t') :
      Expr.Alike k ν (.binary op l r t) (.binary op l' r' t')
  | access {n : Name} {v v' : Option Variable} {t t' : Option Ty} (h : ν.Allows n)
      (hv : k.bound v v') (ht : k.types t t') :
      Expr.Alike k ν (.access n v t) (.access (ν.name n) v' t')
  | member {r r' : Expr} {n : Name} {v v' : Option Variable} {t t' : Option Ty}
      (h : Expr.Alike k ν r r') (hv : k.bound v v') (ht : k.types t t') :
      Expr.Alike k ν (.member r n v t) (.member r' n v' t')
  | call {n : Name} {as as' : List Expr} {f f' : Option Function} {t t' : Option Ty}
      (h : List.Forall₂ (Expr.Alike k ν) as as') (hf : k.callee f f') (ht : k.types t t') :
      Expr.Alike k ν (.call n as f t) (.call n as' f' t')
  | memberCall {r r' : Expr} {n : Name} {as as' : List Expr} {f f' : Option Function}
      {t t' : Option Ty} (hr : Expr.Alike k ν r r') (h : List.Forall₂ (Expr.Alike k ν) as as')
      (hf : k.callee f f') (ht : k.types t t') :
      Expr.Alike k ν (.memberCall r n as f t) (.memberCall r' n as' f' t')
  | hole {h : Hole} : Expr.Alike k ν (.hole h) (.hole h)

/-- Statements that are alike. -/
inductive Stmt.Alike (k : Likeness) (ν : Renaming) : Stmt → Stmt → Prop
  | expression {e e' : Expr} (h : e.Alike k ν e') :
      Stmt.Alike k ν (.expression e) (.expression e')
  | declaration {n : Name} {t t' : Option Text} {e e' : Option Expr} {v v' : Option Variable}
      (h : Option.Rel (Expr.Alike k ν) e e') (ht : k.typeNames e t t') (hv : k.bound v v') :
      Stmt.Alike k ν (.declaration n t e v) (.declaration (ν.name n) t' e' v')
  | assignment {t t' v v' : Expr} (ht : t.Alike k ν t') (hv : v.Alike k ν v') :
      Stmt.Alike k ν (.assignment t v) (.assignment t' v')
  | conditional {c c' : Expr} {a a' b b' : List Stmt} (hc : c.Alike k ν c')
      (ha : List.Forall₂ (Stmt.Alike k ν) a a') (hb : List.Forall₂ (Stmt.Alike k ν) b b') :
      Stmt.Alike k ν (.conditional c a b) (.conditional c' a' b')
  | forEach {n : Name} {v v' : Expr} {b b' : List Stmt} (hv : v.Alike k ν v')
      (hb : List.Forall₂ (Stmt.Alike k ν) b b') :
      Stmt.Alike k ν (.forEach n v b) (.forEach (ν.name n) v' b')
  | whileLoop {c c' : Expr} {b b' : List Stmt} (hc : c.Alike k ν c')
      (hb : List.Forall₂ (Stmt.Alike k ν) b b') :
      Stmt.Alike k ν (.whileLoop c b) (.whileLoop c' b')
  | returning {e e' : Expr} (h : e.Alike k ν e') :
      Stmt.Alike k ν (.returning e) (.returning e')
  | hole {h : Hole} : Stmt.Alike k ν (.hole h) (.hole h)

/-- Fields that are alike. Outside of methods nothing is renamed. -/
structure Field.Alike (k : Likeness) (f f' : Field) : Prop where
  name : f'.name = f.name
  typeName : k.typeNames f.value f.typeName f'.typeName
  value : Option.Rel (Expr.Alike k .same) f.value f'.value
  bound : k.bound f.bound f'.bound

/-- What stands in two places for fields, and is alike. A node of another form has an expression
in it that is evaluated. -/
inductive FieldPlace.Alike (k : Likeness) : FieldPlace → FieldPlace → Prop
  | field {f f' : Field} (h : f.Alike k f') : FieldPlace.Alike k (.field f) (.field f')
  | declaration {f f' : Field} (h : f.Alike k f') :
      FieldPlace.Alike k (.declaration f) (.declaration f')
  | stray {s : Sketch} (value : ∀ part, s.part? "value" = some part →
        Option.Rel (Expr.Alike k .same) part.toExpr? part.toExpr?) :
      FieldPlace.Alike k (.hole (.stray s)) (.hole (.stray s))
  | unlisted : FieldPlace.Alike k (.hole .unlisted) (.hole .unlisted)

/-- Methods that are alike, the variables of the one being renamed. -/
structure Method.Alike (k : Likeness) (ν : Renaming) (m m' : Method) : Prop where
  name : m'.name = m.name
  parameters : m'.parameters = m.parameters.map ν.name
  own : ∀ n, ν.own n → n ∈ m.parameters
  parameterTypeNames : m'.parameterTypeNames = m.parameterTypeNames
  returnTypeName : m'.returnTypeName = m.returnTypeName
  body : List.Forall₂ (Stmt.Alike k ν) m.body m'.body
  bound : k.callee m.bound m'.bound

/-- What stands in two places for methods, and is alike. -/
inductive MethodPlace.Alike (k : Likeness) : MethodPlace → MethodPlace → Prop
  | method {m m' : Method} {ν : Renaming} (hν : k.renamings ν) (h : m.Alike k ν m') :
      MethodPlace.Alike k (.method m) (.method m')
  | untyped {m m' : Method} {ν : Renaming} (hν : k.renamings ν) (h : m.Alike k ν m') :
      MethodPlace.Alike k (.untyped m) (.untyped m')
  | hole {h : Hole} : MethodPlace.Alike k (.hole h) (.hole h)

/-- Sources that are alike, place by place. -/
structure Source.Alike (k : Likeness) (s s' : Source) : Prop where
  fields : List.Forall₂ (FieldPlace.Alike k) s.fields s'.fields
  methods : List.Forall₂ (MethodPlace.Alike k) s.methods s'.methods

end Parlance
