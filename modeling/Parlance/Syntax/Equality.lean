/-
Equality of trees.

Two trees are equal when they have the same shape, names and literals.  Annotations do not
count, and neither does the scale of a decimal literal: payloads are equal when they are
the same number.
-/
import Parlance.Syntax.Basic

namespace Parlance

/-- Whether two values are equal as payloads of literals. -/
def Value.samePayload : Value → Value → Bool
  | .decimal a, .decimal b => a.sameNumber b
  | a, b => a.same b

mutual

/-- Whether two sketches are equal. -/
def Sketch.equal : Sketch → Sketch → Bool
  | .absent, .absent => true
  | .value v, .value w => v.samePayload w
  | .text s, .text t => s == t
  | .list as, .list bs => equalSketches as bs
  | .node f as, .node g bs => f == g && equalSketches as bs
  | _, _ => false

/-- Whether two lists of sketches are equal. -/
def equalSketches : List Sketch → List Sketch → Bool
  | [], [] => true
  | a :: as, b :: bs => a.equal b && equalSketches as bs
  | _, _ => false

end

/-- Whether two holes are equal. -/
def Hole.equal : Hole → Hole → Bool
  | .stray s, .stray t => s.equal t
  | .unlisted, .unlisted => true
  | _, _ => false

mutual

/-- Whether two expressions are equal. -/
def Expr.equal : Expr → Expr → Bool
  | .literal v _, .literal w _ => v.samePayload w
  | .group e _, .group f _ => e.equal f
  | .binary o l r _, .binary p m s _ => o == p && l.equal m && r.equal s
  | .access n _ _, .access m _ _ => n == m
  | .member r n _ _, .member s m _ _ => r.equal s && n == m
  | .call n as _ _, .call m bs _ _ => n == m && equalExprs as bs
  | .memberCall r n as _ _, .memberCall s m bs _ _ => r.equal s && n == m && equalExprs as bs
  | .hole h, .hole k => h.equal k
  | _, _ => false

/-- Whether two lists of expressions are equal. -/
def equalExprs : List Expr → List Expr → Bool
  | [], [] => true
  | a :: as, b :: bs => a.equal b && equalExprs as bs
  | _, _ => false

end

/-- Whether two expressions that may be missing are equal. -/
def equalOption : Option Expr → Option Expr → Bool
  | none, none => true
  | some a, some b => a.equal b
  | _, _ => false

mutual

/-- Whether two statements are equal. -/
def Stmt.equal : Stmt → Stmt → Bool
  | .expression e, .expression f => e.equal f
  | .declaration n t v _, .declaration m u w _ => n == m && t == u && equalOption v w
  | .assignment t v, .assignment u w => t.equal u && v.equal w
  | .conditional c a b, .conditional d p q => c.equal d && equalStmts a p && equalStmts b q
  | .forEach n v b, .forEach m w q => n == m && v.equal w && equalStmts b q
  | .whileLoop c b, .whileLoop d q => c.equal d && equalStmts b q
  | .returning v, .returning w => v.equal w
  | .hole h, .hole k => h.equal k
  | _, _ => false

/-- Whether two lists of statements are equal. -/
def equalStmts : List Stmt → List Stmt → Bool
  | [], [] => true
  | a :: as, b :: bs => a.equal b && equalStmts as bs
  | _, _ => false

end

/-- Whether two fields are equal. -/
def Field.equal (f g : Field) : Bool :=
  f.name == g.name && f.typeName == g.typeName && equalOption f.value g.value

/-- Whether two methods are equal. -/
def Method.equal (m n : Method) : Bool :=
  m.name == n.name && m.parameters == n.parameters
    && m.parameterTypeNames == n.parameterTypeNames && m.returnTypeName == n.returnTypeName
    && equalStmts m.body n.body

/-- Whether the same stands in two places for fields. -/
def FieldPlace.equal : FieldPlace → FieldPlace → Bool
  | .field f, .field g | .declaration f, .declaration g => f.equal g
  | .hole h, .hole k => h.equal k
  | _, _ => false

/-- Whether the same stands in two places for methods. -/
def MethodPlace.equal : MethodPlace → MethodPlace → Bool
  | .method m, .method n | .untyped m, .untyped n => m.equal n
  | .hole h, .hole k => h.equal k
  | _, _ => false

/-- Whether two lists agree item by item. -/
def allAgree {α : Type} (agree : α → α → Bool) : List α → List α → Bool
  | [], [] => true
  | a :: as, b :: bs => agree a b && allAgree agree as bs
  | _, _ => false

/-- Whether two sources are equal. -/
def Source.equal (s t : Source) : Bool :=
  allAgree FieldPlace.equal s.fields t.fields && allAgree MethodPlace.equal s.methods t.methods

end Parlance
