/-
The parts of a typed tree.

Every node somewhere in a typed tree is in order itself.  Its place is not that of the whole,
for there are more blocks around it, but these do not matter to what functions mean, nor to
what a method returns: all of the places have the same pass, the same store and the same
result.  So each call in the tree is annotated with the function that its name and the number
of its arguments mean there.
-/
import Parlance.Proofs.Checking.Source
import Parlance.Proofs.Operators.Hostless
import Parlance.Syntax.Traversal

namespace Parlance

/-! ### Expressions -/

mutual

/-- Everything in an expression that is typed is an expression typed in the same place. -/
theorem Expr.Typed.exists_part {c : Context} {e : Expr} {n : Node} {t : Option Ty}
    (h : e.Typed c t) (hn : n ∈ e.walk) : ∃ part u, n = .expr part ∧ part.Typed c u := by
  cases h with
  | literal hv =>
    cases List.mem_singleton.mp hn
    exact ⟨_, _, rfl, .literal hv⟩
  | group hb he =>
    rcases List.mem_cons.mp hn with rfl | hn
    · exact ⟨_, _, rfl, .group hb he⟩
    · exact he.exists_part hn
  | binary hl hr hop =>
    rcases List.mem_cons.mp hn with rfl | hn
    · exact ⟨_, _, rfl, .binary hl hr hop⟩
    · rcases List.mem_append.mp hn with hn | hn
      · exact hl.exists_part hn
      · exact hr.exists_part hn
  | access hv ht =>
    cases List.mem_singleton.mp hn
    exact ⟨_, _, rfl, .access hv ht⟩
  | member ha hr hv ht =>
    rcases List.mem_cons.mp hn with rfl | hn
    · exact ⟨_, _, rfl, .member ha hr hv ht⟩
    · exact hr.exists_part hn
  | call has hf ht =>
    rcases List.mem_cons.mp hn with rfl | hn
    · exact ⟨_, _, rfl, .call has hf ht⟩
    · exact has.exists_part hn
  | memberCall has ha hr hf ht =>
    rcases List.mem_cons.mp hn with rfl | hn
    · exact ⟨_, _, rfl, .memberCall has ha hr hf ht⟩
    · rcases List.mem_append.mp hn with hn | hn
      · exact hr.exists_part hn
      · exact has.exists_part hn

theorem Expr.AllTyped.exists_part {c : Context} {es : List Expr} {n : Node}
    {ts : List (Option Ty)} (h : AllTyped c es ts) (hn : n ∈ walkExprs es) :
    ∃ part u, n = .expr part ∧ part.Typed c u := by
  cases h with
  | nil => cases hn
  | cons he hes =>
    rcases List.mem_append.mp hn with hn | hn
    · exact he.exists_part hn
    · exact hes.exists_part hn

end

/-- A literal that is typed is no object. -/
theorem Expr.Typed.hostless {c : Context} {v : Value} {t u : Option Ty}
    (h : (Expr.literal v t).Typed c u) : v.Hostless := by
  cases h with
  | literal hv => exact literalType_hostless hv

theorem Declared.exists_part {c : Context} {typeName : Option Text} {value : Option Expr} {n : Node}
    {t : Option Ty} (h : Declared c typeName value t) (hn : n ∈ walkOption value) :
    ∃ part u, n = .expr part ∧ part.Typed c u := by
  cases value with
  | none => cases hn
  | some e =>
    obtain ⟨_, he⟩ := h.value_typed
    exact he.exists_part hn

theorem Declared.part {c : Context} {typeName : Option Text} {value : Option Expr}
    {t : Option Ty} (h : Declared c typeName value t) {part : Expr}
    (hp : .expr part ∈ walkOption value) : ∃ u, part.Typed c u := by
  obtain ⟨_, u, he, ht⟩ := h.exists_part hp
  cases he
  exact ⟨u, ht⟩

/-! ### Statements -/

/-- The expression is typed in a place with this pass and this store. -/
def Expr.TypedIn (pass : Pass) (σ : Store) (e : Expr) : Prop :=
  ∃ c t, c.pass = pass ∧ c.store = σ ∧ e.Typed c t

theorem Expr.typedIn {c : Context} {e : Expr} (h : ∃ t, e.Typed c t) :
    e.TypedIn c.pass c.store := by
  obtain ⟨t, h⟩ := h
  exact ⟨c, t, rfl, rfl, h⟩

@[simp] theorem Context.pass_extend (c : Context) (declared : Option Variable) :
    (c.extend declared).pass = c.pass := by
  cases declared <;> rfl

@[simp] theorem Context.store_extend (c : Context) (declared : Option Variable) :
    (c.extend declared).store = c.store := by
  cases declared <;> rfl

/-- The node is a statement or an expression that is in order in a place of the same method as
`c`, in other blocks perhaps. -/
inductive Node.TypedNear (c : Context) : Node → Prop
  | expr {d : Context} {e : Expr} {t : Option Ty} (hp : d.pass = c.pass) (hs : d.store = c.store)
      (h : e.Typed d t) : TypedNear c (.expr e)
  | stmt {d : Context} {s : Stmt} {declared : Option Variable} (hp : d.pass = c.pass)
      (hs : d.store = c.store) (hr : d.returns? = c.returns?) (h : s.Typed d declared) :
      TypedNear c (.stmt s)

namespace Node.TypedNear

variable {c d : Context} {n : Node}

theorem here {s : Stmt} {declared : Option Variable} (h : s.Typed c declared) :
    TypedNear c (.stmt s) :=
  .stmt rfl rfl rfl h

theorem of_part (h : ∃ part u, n = .expr part ∧ part.Typed c u) : n.TypedNear c := by
  obtain ⟨part, u, rfl, h⟩ := h
  exact .expr rfl rfl h

/-- What is near a place is near every place of the same method. -/
theorem moved (h : n.TypedNear d) (hp : d.pass = c.pass) (hs : d.store = c.store)
    (hr : d.returns? = c.returns?) : n.TypedNear c := by
  cases h with
  | expr hp' hs' h => exact .expr (hp'.trans hp) (hs'.trans hs) h
  | stmt hp' hs' hr' h => exact .stmt (hp'.trans hp) (hs'.trans hs) (hr'.trans hr) h

end Node.TypedNear

mutual

/-- Everything in a statement that is in order is in order in a place of the same method. -/
theorem Stmt.Typed.near {c : Context} {s : Stmt} {n : Node} {declared : Option Variable}
    (h : s.Typed c declared) (hn : n ∈ s.walk) : n.TypedNear c := by
  cases h with
  | expression hc he =>
    rcases List.mem_cons.mp hn with rfl | hn
    · exact .here (.expression hc he)
    · exact .of_part (he.exists_part hn)
  | declaration hd hv =>
    rcases List.mem_cons.mp hn with rfl | hn
    · exact .here (.declaration hd hv)
    · exact .of_part (hd.exists_part hn)
  | assignment ha ht hv hk =>
    rcases List.mem_cons.mp hn with rfl | hn
    · exact .here (.assignment ha ht hv hk)
    · rcases List.mem_append.mp hn with hn | hn
      · exact .of_part (ht.exists_part hn)
      · exact .of_part (hv.exists_part hn)
  | conditional hc hb hne ht he =>
    rcases List.mem_cons.mp hn with rfl | hn
    · exact .here (.conditional hc hb hne ht he)
    · rcases List.mem_append.mp hn with hn | hn
      · exact .of_part (hc.exists_part hn)
      · rcases List.mem_append.mp hn with hn | hn
        · exact (ht.near hn).moved rfl rfl rfl
        · exact (he.near hn).moved rfl rfl rfl
  | forEach hv hi hne hs =>
    rcases List.mem_cons.mp hn with rfl | hn
    · exact .here (.forEach hv hi hne hs)
    · rcases List.mem_append.mp hn with hn | hn
      · exact .of_part (hv.exists_part hn)
      · exact (hs.near hn).moved rfl rfl rfl
  | whileLoop hc hb hs =>
    rcases List.mem_cons.mp hn with rfl | hn
    · exact .here (.whileLoop hc hb hs)
    · rcases List.mem_append.mp hn with hn | hn
      · exact .of_part (hc.exists_part hn)
      · exact (hs.near hn).moved rfl rfl rfl
  | returning hr hv hk =>
    rcases List.mem_cons.mp hn with rfl | hn
    · exact .here (.returning hr hv hk)
    · exact .of_part (hv.exists_part hn)

theorem Stmt.AllTyped.near {c : Context} {ss : List Stmt} {n : Node} (h : AllTyped c ss)
    (hn : n ∈ walkStmts ss) : n.TypedNear c := by
  cases h with
  | nil => cases hn
  | @cons _ _ declared _ hs hss =>
    rcases List.mem_append.mp hn with hn | hn
    · exact hs.near hn
    · exact (hss.near hn).moved (c.pass_extend declared) (c.store_extend declared)
        (c.returns?_extend declared)

end

/-- Every expression in statements that are in order is typed with the same pass and store. -/
theorem Stmt.AllTyped.part {c : Context} {ss : List Stmt} {part : Expr} (h : AllTyped c ss)
    (hp : .expr part ∈ walkStmts ss) : part.TypedIn c.pass c.store := by
  cases h.near hp with
  | expr hp hs he => exact ⟨_, _, hp, hs, he⟩

/-! ### Calls -/

/-- A call that is typed is annotated with the function that it means in its place. -/
theorem Expr.TypedIn.call {pass : Pass} {σ : Store} {name : Name} {arguments : List Expr}
    {bound : Option Function} {t : Option Ty}
    (h : (Expr.call name arguments bound t).TypedIn pass σ) :
    ∃ r, bound = some r.function ∧
      σ.findFunction name arguments.length pass.scope.tables = some r := by
  obtain ⟨c, u, rfl, rfl, h⟩ := h
  cases h with
  | call has hf _ =>
    obtain ⟨r, hr, rfl⟩ := Context.functionOf_ok.mp hf
    exact ⟨r, rfl, has.length_eq ▸ hr⟩

end Parlance
