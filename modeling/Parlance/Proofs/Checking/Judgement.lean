/-
What it means for an annotated tree to be typed.

`Expr.Typed c e t` says of an expression with its annotations that it has type `t` in the
place `c`, and `Stmt.Typed c s d` of a statement that it is in order there and declares
`d`.  The rules say what the checker decides without saying how: every premise is a fact
about the parts, about what a name means in the place, or about what a type accepts.
Each rule fixes the annotations of its node, so the judgement speaks of the tree that a
check leaves behind and not of the one it was given.

A variable joins its block after the statement that declares it, so the judgement on a
list of statements moves from place to place while that on an expression stays in one.
-/
import Mathlib.Data.List.Forall2
import Parlance.Checker.Source
import Parlance.Proofs.Syntax.Binders

namespace Parlance

/-- Both types are known, and a target of the first accepts a source of the second. -/
def Ty.Takes (target source : Option Ty) : Prop :=
  ∃ t s, target = some t ∧ source = some s ∧ t.accepts s = true

namespace Expr

mutual

/-- The expression, as it is annotated, has that type in the place `c`. -/
inductive Typed (c : Context) : Expr → Option Ty → Prop
  | literal {v : Value} {t : Ty} (h : literalType v = .ok t) :
      Typed c (.literal v (some t)) (some t)
  | group {e : Expr} {t : Option Ty} (hb : e.isBinary = true) (h : Typed c e t) :
      Typed c (.group e t) t
  | binary {op : Name} {l r : Expr} {tl tr : Option Ty} {t : Ty} (hl : Typed c l tl)
      (hr : Typed c r tr) (h : binaryType op tl tr = .ok t) :
      Typed c (.binary op l r (some t)) (some t)
  | access {name : Name} {v : Variable} {t : Ty} (hv : c.variableOf name = .ok v)
      (ht : v.type = some t) : Typed c (.access name (some v) (some t)) (some t)
  | member {receiver : Expr} {owner : Ty} {name : Name} {v : Variable} {t : Ty}
      (ha : receiver.isAccess = true) (hr : Typed c receiver (some owner))
      (hv : c.memberOf owner name = .ok v) (ht : v.type = some t) :
      Typed c (.member receiver name (some v) (some t)) (some t)
  | call {name : Name} {arguments : List Expr} {types : List (Option Ty)} {f : Function}
      (has : AllTyped c arguments types) (hf : c.functionOf name types.length = .ok f)
      (ht : List.Forall₂ Ty.Takes f.parameterTypes types) :
      Typed c (.call name arguments (some f) f.returnType) f.returnType
  | memberCall {receiver : Expr} {owner : Ty} {name : Name} {arguments : List Expr}
      {types : List (Option Ty)} {f : Function} (has : AllTyped c arguments types)
      (ha : receiver.isAccess = true) (hr : Typed c receiver (some owner))
      (hf : c.memberFunctionOf owner name (types.length + 1) = .ok f)
      (ht : List.Forall₂ Ty.Takes (f.parameterTypes.drop 1) types) :
      Typed c (.memberCall receiver name arguments (some f) f.returnType) f.returnType

/-- The expressions have those types, one by one. -/
inductive AllTyped (c : Context) : List Expr → List (Option Ty) → Prop
  | nil : AllTyped c [] []
  | cons {e : Expr} {es : List Expr} {t : Option Ty} {ts : List (Option Ty)}
      (h : Typed c e t) (hs : AllTyped c es ts) : AllTyped c (e :: es) (t :: ts)

end

theorem AllTyped.length_eq {c : Context} {es : List Expr} {ts : List (Option Ty)}
    (h : AllTyped c es ts) : es.length = ts.length := by
  cases h with
  | nil => rfl
  | cons _ hs => rw [List.length_cons, List.length_cons, hs.length_eq]

/-- The annotation of a typed expression is its type. -/
theorem Typed.type?_eq {c : Context} {e : Expr} {t : Option Ty} (h : e.Typed c t) :
    e.type? = t := by
  cases h <;> rfl

theorem AllTyped.types_eq {c : Context} {es : List Expr} {ts : List (Option Ty)}
    (h : AllTyped c es ts) : es.map type? = ts := by
  cases h with
  | nil => rfl
  | cons h hs => rw [List.map_cons, h.type?_eq, hs.types_eq]

end Expr

/-- A variable declared in the place `c` with that type name and value, either of which may be
missing, has that type. -/
inductive Declared (c : Context) : Option Text → Option Expr → Option Ty → Prop
  | unset {name : Text} {t : Ty} (h : c.type name = .ok t) : Declared c (some name) none (some t)
  | inferred {e : Expr} {t : Option Ty} (h : e.Typed c t) : Declared c none (some e) t
  | given {name : Text} {e : Expr} {declared : Ty} {t : Option Ty}
      (hd : c.type name = .ok declared) (h : e.Typed c t) (ht : Ty.Takes (some declared) t) :
      Declared c (some name) (some e) (some declared)

theorem Declared.value_typed {c : Context} {typeName : Option Text} {e : Expr} {t : Option Ty}
    (h : Declared c typeName (some e) t) : ∃ u, e.Typed c u := by
  cases h with
  | inferred he => exact ⟨_, he⟩
  | given _ he _ => exact ⟨_, he⟩

/-! A declaration changes the innermost block of its place, and nothing else of it. -/

namespace Context

@[simp] theorem tail_extend (c : Context) (declared : Option Variable) :
    (c.extend declared).blocks.tail = c.blocks.tail := by
  cases declared with
  | none => rfl
  | some v => cases hb : c.blocks <;> simp [extend, Blocks.add, hb]

@[simp] theorem returns?_extend (c : Context) (declared : Option Variable) :
    (c.extend declared).returns? = c.returns? := by
  cases declared <;> rfl

theorem extend_ne_nil {c : Context} {declared : Option Variable} (h : c.blocks ≠ []) :
    (c.extend declared).blocks ≠ [] := by
  cases declared with
  | none => exact h
  | some v =>
    cases hb : c.blocks with
    | nil => exact absurd hb h
    | cons block outer => simp [extend, Blocks.add, hb]

end Context

namespace Stmt

mutual

/-- The statement, as it is annotated, is in order in the place `c` and declares that variable. -/
inductive Typed : Context → Stmt → Option Variable → Prop
  | expression {c : Context} {e : Expr} {t : Option Ty} (hc : e.isCall = true)
      (h : e.Typed c t) : Typed c (.expression e) none
  | declaration {c : Context} {name : Name} {typeName : Option Text} {value : Option Expr}
      {t : Option Ty} {v : Variable} (h : Declared c typeName value t)
      (hv : c.declare name t = .ok v) :
      Typed c (.declaration name typeName value (some v)) (some v)
  | assignment {c : Context} {target value : Expr} {tt tv : Option Ty}
      (ha : target.isAccess = true) (ht : target.Typed c tt) (hv : value.Typed c tv)
      (h : Ty.Takes tt tv) : Typed c (.assignment target value) none
  | conditional {c : Context} {condition : Expr} {thenBody elseBody : List Stmt}
      {t : Option Ty} (hc : condition.Typed c t)
      (hb : Ty.Takes (some Builtin.boolean.type) t) (hne : thenBody ≠ [])
      (ht : AllTyped (c.enter []) thenBody) (he : AllTyped (c.enter []) elseBody) :
      Typed c (.conditional condition thenBody elseBody) none
  | forEach {c : Context} {name : Name} {value : Expr} {body : List Stmt} {t : Ty}
      (hv : value.Typed c (some t)) (hi : t.is .integerIterable = true) (hne : body ≠ [])
      (hs : AllTyped (c.enter [c.blocks.item name]) body) : Typed c (.forEach name value body) none
  | whileLoop {c : Context} {condition : Expr} {body : List Stmt} {t : Option Ty}
      (hc : condition.Typed c t) (hb : Ty.Takes (some Builtin.boolean.type) t)
      (hs : AllTyped (c.enter []) body) : Typed c (.whileLoop condition body) none
  | returning {c : Context} {value : Expr} {expected t : Ty}
      (hr : c.returns? = some expected) (hv : value.Typed c (some t))
      (h : expected.accepts t = true) : Typed c (.returning value) none

/-- The statements are in order one after the other, each in the place that those before it
leave. -/
inductive AllTyped : Context → List Stmt → Prop
  | nil {c : Context} : AllTyped c []
  | cons {c : Context} {s : Stmt} {declared : Option Variable} {ss : List Stmt}
      (h : Typed c s declared) (hs : AllTyped (c.extend declared) ss) : AllTyped c (s :: ss)

end

/-- A statement that passed the check is annotated with the variable it declares. -/
theorem Typed.declared?_eq {c : Context} {s : Stmt} {d : Option Variable}
    (h : s.Typed c d) : s.declared? = d := by
  cases h <;> rfl

end Stmt

end Parlance
