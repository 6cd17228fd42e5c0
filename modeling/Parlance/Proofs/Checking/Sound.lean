/-
A tree that passes the check is typed.

The proof follows the check function by function.  First come the decisions it is made of,
each read as the fact that it decides when it answers without a fault; then the check of a
node, by induction on the tree, with the facts of its parts at hand.

The tree that is typed is the one the check answers.  So the induction also has to know
that a node keeps its form while its annotations change, since the rules for a group, a
receiver and a statement ask for the form of a part.
-/
import Parlance.Proofs.Basic
import Parlance.Proofs.Checking.Judgement
import Parlance.Proofs.Store.Tables

namespace Parlance

/-! ### What the decisions decide -/

theorem Ty.known_ok {t : Option Ty} {s : Ty} : known t = .ok s ↔ t = some s := by
  cases t <;> simp [known]

theorem Ty.require_ok {target s : Ty} {source : Option Ty} :
    target.require source = .ok s ↔ source = some s ∧ target.accepts s = true := by
  cases source with
  | none => simp [require]
  | some s' =>
    by_cases h : target.accepts s' = true
    · simp only [require, h, if_true, Except.ok.injEq, Option.some.injEq]
      exact ⟨fun e => ⟨e, e ▸ h⟩, And.left⟩
    · simp only [require, h, Bool.false_eq_true, if_false, reduceCtorEq, false_iff]
      rintro ⟨e, h'⟩
      cases e
      exact h h'

theorem Ty.takes_of_require {target s : Ty} {source : Option Ty}
    (h : target.require source = .ok s) : Ty.Takes (some target) source := by
  obtain ⟨hs, ha⟩ := Ty.require_ok.mp h
  exact ⟨target, s, rfl, hs, ha⟩

theorem requireAll_ok {parameters arguments : List (Option Ty)}
    (hl : parameters.length = arguments.length) (h : requireAll parameters arguments = .ok ()) :
    List.Forall₂ Ty.Takes parameters arguments := by
  induction parameters generalizing arguments with
  | nil =>
    cases arguments with
    | nil => exact .nil
    | cons a as => simp at hl
  | cons p ps ih =>
    cases arguments with
    | nil => simp at hl
    | cons a as =>
      simp only [requireAll, bind_ok] at h
      obtain ⟨t, ht, s, hs, h⟩ := h
      rw [Ty.known_ok] at ht
      subst ht
      exact .cons (Ty.takes_of_require hs) (ih (by simpa using hl) h)

theorem typed_ok {name : Name} {v w : Variable} {t : Option Ty}
    (h : typed name v = .ok (w, t)) : w = v ∧ ∃ s, v.type = some s ∧ t = some s := by
  unfold typed at h
  split at h
  · next s hs =>
    cases h
    exact ⟨rfl, s, hs, rfl⟩
  · cases h

theorem Function.applied_ok {f g : Function} {parameters arguments : List (Option Ty)}
    {t : Option Ty} (h : f.applied parameters arguments = .ok (g, t)) :
    g = f ∧ t = f.returnType ∧ requireAll parameters arguments = .ok () := by
  unfold applied at h
  obtain ⟨⟨⟩, hr, he⟩ := Except.map_ok.mp h
  cases he
  exact ⟨rfl, rfl, hr⟩

theorem allowAssignment_ok {target source : Option Ty}
    (h : allowAssignment target source = .ok ()) : Ty.Takes target source := by
  simp only [allowAssignment, bind_ok] at h
  obtain ⟨t, ht, s, hs, -⟩ := h
  rw [Ty.known_ok] at ht
  subst ht
  exact Ty.takes_of_require hs

theorem allowResult_ok {expected : Ty} {got : Option Ty}
    (h : allowResult expected got = .ok ()) :
    ∃ t, got = some t ∧ expected.accepts t = true := by
  simp only [allowResult, bind_ok, Ty.known_ok] at h
  obtain ⟨t, ht, h⟩ := h
  refine ⟨t, ht, ?_⟩
  by_cases ha : expected.accepts t = true
  · exact ha
  · simp [ha, throw, throwThe, MonadExceptOf.throw] at h

theorem allowIterable_ok {got : Option Ty} (h : allowIterable got = .ok ()) :
    ∃ t, got = some t ∧ t.is .integerIterable = true := by
  simp only [allowIterable, bind_ok, Ty.known_ok] at h
  obtain ⟨t, ht, h⟩ := h
  refine ⟨t, ht, ?_⟩
  by_cases ha : t.is .integerIterable = true
  · exact ha
  · simp [ha, throw, throwThe, MonadExceptOf.throw] at h

namespace Operator

theorem comparisonType_ok {l r : Option Ty} {t : Ty} (h : comparisonType l r = .ok t) :
    t = Builtin.boolean.type ∧ ∃ l' r', l = some l' ∧ r = some r' ∧ l'.same r' = true ∧
      Builtin.comparable.type.accepts l' = true := by
  simp only [comparisonType, bind_ok, Ty.require_ok] at h
  obtain ⟨l', ⟨hl, ha⟩, r', ⟨hr, -⟩, h⟩ := h
  by_cases hs : l'.same r' = true
  · rw [if_pos hs] at h
    cases h
    exact ⟨rfl, l', r', hl, hr, hs, ha⟩
  · rw [if_neg hs] at h
    cases h

theorem logicalType_ok {l r : Option Ty} {t : Ty} (h : logicalType l r = .ok t) :
    t = Builtin.boolean.type ∧ Ty.Takes (some Builtin.boolean.type) l ∧
      Ty.Takes (some Builtin.boolean.type) r := by
  simp only [logicalType, bind_ok] at h
  obtain ⟨l', hl, r', hr, h⟩ := h
  cases h
  exact ⟨rfl, Ty.takes_of_require hl, Ty.takes_of_require hr⟩

theorem numberType_ok {op : Arithmetic} {l r : Option Ty} {t : Ty}
    (h : numberType op l r = .ok t) :
    (t.name = Builtin.integer.name ∨ t.name = Builtin.decimal.name) ∧ l = some t ∧
      ∃ s, r = some s ∧ s.name = t.name := by
  simp only [numberType, bind_ok, Ty.known_ok] at h
  obtain ⟨l', rfl, h⟩ := h
  by_cases hn : (l'.is .integer || l'.is .decimal) = true
  · rw [if_pos hn, bind_ok] at h
    obtain ⟨r', hr, h⟩ := h
    by_cases hs : r'.same l' = true
    · rw [if_pos hs] at h
      cases h
      refine ⟨?_, rfl, r', Ty.known_ok.mp hr, by simpa [Ty.same] using hs⟩
      simpa [Ty.is] using hn
    · rw [if_neg hs] at h
      cases h
  · rw [if_neg hn] at h
    cases h

end Operator

theorem Context.variableOf_ok {c : Context} {name : Name} {v : Variable} :
    c.variableOf name = .ok v ↔ c.blocks.find? name = some v ∨
      c.blocks.find? name = none ∧ ∃ s, c.store.scopeVariable c.pass.scope name = .ok s ∧
        s.var = v := by
  unfold variableOf
  cases c.blocks.find? name with
  | some w => simp
  | none =>
    cases c.store.scopeVariable c.pass.scope name with
    | ok s => simp
    | error f => simp

theorem Context.type_ok {c : Context} {name : Text} {t : Ty} :
    c.type name = .ok t ↔ c.store.type? c.pass.registry name = some t := by
  unfold type Store.type
  cases c.store.type? c.pass.registry name <;> simp [Except.mapError]

theorem Context.functionOf_ok {c : Context} {name : Name} {count : Nat} {f : Function} :
    c.functionOf name count = .ok f ↔
      ∃ r, c.store.findFunction name count c.pass.scope.tables = some r ∧ r.function = f := by
  simp only [functionOf, ← Store.scopeFunction_ok]
  cases c.store.scopeFunction c.pass.scope name count <;> simp

theorem Context.memberOf_ok {c : Context} {owner : Ty} {name : Name} {v : Variable} :
    c.memberOf owner name = .ok v ↔
      ∃ s, (c.store.table (c.store.membersOfType c.pass.registry owner)).slot? name = some s
        ∧ s.var = v := by
  simp only [memberOf, ← Store.memberVariable_ok]
  cases c.store.memberVariable (c.store.membersOfType c.pass.registry owner) name <;> simp

theorem Context.memberFunctionOf_ok {c : Context} {owner : Ty} {name : Name} {count : Nat}
    {f : Function} : c.memberFunctionOf owner name count = .ok f ↔
      ∃ r, (c.store.table (c.store.membersOfType c.pass.registry owner)).routine? name count
        = some r ∧ r.function = f := by
  simp only [memberFunctionOf, ← Store.memberFunction_ok]
  cases c.store.memberFunction (c.store.membersOfType c.pass.registry owner) name count <;> simp

/-- The function that a name and a number of arguments mean has as many parameters. -/
theorem Context.arity_of_functionOf {c : Context} {name : Name} {count : Nat} {f : Function}
    (h : c.functionOf name count = .ok f) : f.parameterTypes.length = count := by
  obtain ⟨r, hr, rfl⟩ := functionOf_ok.mp h
  obtain ⟨id, -, hr⟩ := List.exists_of_findSome?_eq_some hr
  exact (Table.mem_of_routine? hr).2.2

theorem Context.arity_of_memberFunctionOf {c : Context} {owner : Ty} {name : Name} {count : Nat}
    {f : Function} (h : c.memberFunctionOf owner name count = .ok f) :
    f.parameterTypes.length = count := by
  obtain ⟨r, hr, rfl⟩ := memberFunctionOf_ok.mp h
  exact (Table.mem_of_routine? hr).2.2

/-! ### Expressions -/

namespace Expr

theorem settle_ok {node : Option Ty → Expr} {old t : Option Ty} {e : Expr}
    {found : Except Fault (Option Ty)} (h : settle node old found = (e, .ok t)) :
    found = .ok t ∧ e = node t := by
  cases found with
  | ok t' =>
    simp only [settle, Prod.mk.injEq, Except.ok.injEq] at h
    obtain ⟨rfl, rfl⟩ := h
    exact ⟨rfl, rfl⟩
  | error f => simp [settle] at h

theorem resolve_ok {α : Type} {node : Option α → Option Ty → Expr} {bound : Option α}
    {old t : Option Ty} {e : Expr} {found : Except Fault (α × Option Ty)}
    (h : resolve node bound old found = (e, .ok t)) :
    ∃ b, found = .ok (b, t) ∧ e = node (some b) t := by
  cases found with
  | ok r =>
    obtain ⟨b, t'⟩ := r
    simp only [resolve, Prod.mk.injEq, Except.ok.injEq] at h
    obtain ⟨rfl, rfl⟩ := h
    exact ⟨b, rfl, rfl⟩
  | error f => simp [resolve] at h

/-! A node keeps its form. -/

/-- The forms that the check asks for, of two nodes, are the same. -/
structure SameForm (e e' : Expr) : Prop where
  isBinary : e'.isBinary = e.isBinary
  isAccess : e'.isAccess = e.isAccess
  isCall : e'.isCall = e.isCall

private theorem settle_form {e : Expr} {node : Option Ty → Expr} {old : Option Ty}
    {found : Except Fault (Option Ty)} (h : ∀ t, SameForm e (node t)) :
    SameForm e (settle node old found).1 := by
  cases found <;> exact h _

private theorem resolve_form {α : Type} {e : Expr} {node : Option α → Option Ty → Expr}
    {bound : Option α} {old : Option Ty} {found : Except Fault (α × Option Ty)}
    (h : ∀ b t, SameForm e (node b t)) : SameForm e (resolve node bound old found).1 := by
  cases found <;> exact h _ _

theorem sameForm_check (c : Context) (e : Expr) : SameForm e (e.check c).1 := by
  cases e <;> simp only [check] <;> (repeat' split)
  all_goals
    first
    | exact ⟨rfl, rfl, rfl⟩
    | exact settle_form fun _ => ⟨rfl, rfl, rfl⟩
    | exact resolve_form fun _ _ => ⟨rfl, rfl, rfl⟩

theorem sameForm_of_check {c : Context} {e e' : Expr} {found : Except Fault (Option Ty)}
    (h : e.check c = (e', found)) : SameForm e e' := by
  have := sameForm_check c e
  rwa [h] at this

mutual

/-- **An expression that passes the check has the type that the check answers.** -/
theorem check_typed {c : Context} {e e' : Expr} {t : Option Ty} (h : e.check c = (e', .ok t)) :
    Typed c e' t := by
  cases e with
  | literal v old =>
    obtain ⟨hf, rfl⟩ := settle_ok h
    obtain ⟨s, hs, rfl⟩ := Except.map_ok.mp hf
    exact .literal hs
  | group inner old =>
    simp only [check] at h
    split at h
    · next hb =>
      obtain ⟨hf, rfl⟩ := settle_ok h
      exact .group ((sameForm_check c inner).isBinary.trans hb) (check_typed (Prod.ext rfl hf))
    · cases h
  | binary op l r old =>
    simp only [check] at h
    split at h
    · cases h
    · next l' tl hl =>
      split at h
      · cases h
      · next r' tr hr =>
        obtain ⟨hf, rfl⟩ := settle_ok h
        obtain ⟨s, hs, rfl⟩ := Except.map_ok.mp hf
        exact .binary (check_typed hl) (check_typed hr) hs
  | access name bound old =>
    obtain ⟨v, hf, rfl⟩ := resolve_ok h
    obtain ⟨v', hv, ht⟩ := bind_ok.mp hf
    obtain ⟨rfl, s, hs, rfl⟩ := typed_ok ht
    exact .access hv hs
  | member receiver name bound old =>
    simp only [check] at h
    split at h
    · next ha =>
      split at h
      · cases h
      · next r' owner hr =>
        obtain ⟨v, hf, rfl⟩ := resolve_ok h
        obtain ⟨o, ho, hf⟩ := bind_ok.mp hf
        obtain ⟨v', hv, ht⟩ := bind_ok.mp hf
        obtain ⟨rfl, s, hs, rfl⟩ := typed_ok ht
        rw [Ty.known_ok] at ho
        subst ho
        exact .member ((sameForm_of_check hr).isAccess.trans ha) (check_typed hr) hv hs
    · cases h
  | call name arguments bound old =>
    simp only [check] at h
    split at h
    · cases h
    · next as types has =>
      obtain ⟨g, hg, rfl⟩ := resolve_ok h
      obtain ⟨f, hf, ht⟩ := bind_ok.mp hg
      obtain ⟨rfl, rfl, hr⟩ := Function.applied_ok ht
      exact .call (checkAll_typed has) hf (requireAll_ok (Context.arity_of_functionOf hf) hr)
  | memberCall receiver name arguments bound old =>
    simp only [check] at h
    split at h
    · cases h
    · next as types has =>
      split at h
      · next ha =>
        split at h
        · cases h
        · next r' owner hr =>
          obtain ⟨g, hg, rfl⟩ := resolve_ok h
          obtain ⟨o, ho, hg⟩ := bind_ok.mp hg
          obtain ⟨f, hf, ht⟩ := bind_ok.mp hg
          obtain ⟨rfl, rfl, hq⟩ := Function.applied_ok ht
          rw [Ty.known_ok] at ho
          subst ho
          refine .memberCall (checkAll_typed has) ((sameForm_of_check hr).isAccess.trans ha)
            (check_typed hr) hf (requireAll_ok ?_ hq)
          rw [List.length_drop, Context.arity_of_memberFunctionOf hf, Nat.add_sub_cancel]
      · cases h
  | hole h' => simp [check] at h

theorem checkAll_typed {c : Context} {es es' : List Expr} {ts : List (Option Ty)}
    (h : checkAll c es = (es', .ok ts)) : AllTyped c es' ts := by
  cases es with
  | nil =>
    cases h
    exact .nil
  | cons e es =>
    simp only [checkAll] at h
    split at h
    · cases h
    · next e' t he =>
      split at h
      · cases h
      · next es' ts' hes =>
        cases h
        exact .cons (check_typed he) (checkAll_typed hes)

end

end Expr

/-! ### Statements -/

theorem checkDeclared_typed {c : Context} {name : Name} {typeName : Option Text}
    {value value' : Option Expr} {t : Option Ty}
    (h : checkDeclared c name typeName value = (value', .ok t)) :
    Declared c typeName value' t := by
  cases value with
  | none =>
    cases typeName with
    | none => simp [checkDeclared] at h
    | some n =>
      simp only [checkDeclared, Prod.mk.injEq] at h
      obtain ⟨rfl, h⟩ := h
      obtain ⟨s, hs, rfl⟩ := Except.map_ok.mp h
      exact .unset hs
  | some e =>
    cases typeName with
    | none =>
      simp only [checkDeclared, Prod.mk.injEq] at h
      obtain ⟨rfl, h⟩ := h
      exact .inferred (Expr.check_typed (Prod.ext rfl h))
    | some n =>
      simp only [checkDeclared] at h
      split at h
      · cases h
      · next declared hd =>
        simp only [Prod.mk.injEq] at h
        obtain ⟨rfl, h⟩ := h
        obtain ⟨s, hs, h⟩ := Except.bind_ok.mp h
        obtain ⟨s', hs', rfl⟩ := Except.map_ok.mp h
        exact .given hd (Expr.check_typed (Prod.ext rfl hs)) (Ty.takes_of_require hs')

theorem checkCondition_typed {c : Context} {e e' : Expr} {u : Unit}
    (h : checkCondition c e = (e', .ok u)) :
    ∃ t, e'.Typed c t ∧ Ty.Takes (some Builtin.boolean.type) t := by
  simp only [checkCondition, Prod.mk.injEq] at h
  obtain ⟨rfl, h⟩ := h
  obtain ⟨t, ht, h⟩ := Except.bind_ok.mp h
  obtain ⟨s, hs, -⟩ := Except.map_ok.mp h
  exact ⟨t, Expr.check_typed (Prod.ext rfl ht), Ty.takes_of_require hs⟩

namespace Stmt

private theorem checkAll_ne_nil {c : Context} {ss ss' : List Stmt} {found : Except Fault Unit}
    (h : checkAll c ss = (ss', found)) (hne : ¬ss.isEmpty = true) : ss' ≠ [] := by
  cases ss with
  | nil => exact absurd rfl hne
  | cons s ss =>
    simp only [checkAll] at h
    split at h <;> cases h <;> exact List.cons_ne_nil _ _

mutual

/-- **A statement that passes the check is in order and declares the variable that the check
answers.** -/
theorem check_typed {c : Context} {s s' : Stmt} {declared : Option Variable}
    (h : s.check c = (s', .ok declared)) : Typed c s' declared := by
  cases s with
  | expression e =>
    simp only [check] at h
    split at h
    · next hc =>
      simp only [Prod.mk.injEq] at h
      obtain ⟨rfl, h⟩ := h
      obtain ⟨t, ht, rfl⟩ := Except.map_ok.mp h
      exact .expression ((Expr.sameForm_check c e).isCall.trans hc)
        (Expr.check_typed (Prod.ext rfl ht))
    · cases h
  | declaration name typeName value bound =>
    simp only [check] at h
    split at h
    · next v hv =>
      cases h
      obtain ⟨t, ht, hv⟩ := Except.bind_ok.mp hv
      exact .declaration (checkDeclared_typed (Prod.ext rfl ht)) hv
    · cases h
  | assignment target value =>
    simp only [check] at h
    split at h
    · next ha =>
      split at h
      · cases h
      · next target' expected ht =>
        simp only [Prod.mk.injEq] at h
        obtain ⟨rfl, h⟩ := h
        obtain ⟨t, hv, h⟩ := Except.bind_ok.mp h
        obtain ⟨⟨⟩, hw, rfl⟩ := Except.map_ok.mp h
        exact .assignment ((Expr.sameForm_of_check ht).isAccess.trans ha) (Expr.check_typed ht)
          (Expr.check_typed (Prod.ext rfl hv)) (allowAssignment_ok hw)
    · cases h
  | conditional condition thenBody elseBody =>
    simp only [check] at h
    split at h
    · cases h
    · next condition' u hc =>
      obtain ⟨t, ht, hb⟩ := checkCondition_typed hc
      split at h
      · cases h
      · next hne =>
        split at h
        · cases h
        · next thenBody' u' hthen =>
          simp only [Prod.mk.injEq] at h
          obtain ⟨rfl, h⟩ := h
          obtain ⟨u', helse, rfl⟩ := Except.map_ok.mp h
          exact .conditional ht hb (checkAll_ne_nil hthen hne) (checkAll_typed hthen)
            (checkAll_typed (Prod.ext rfl helse))
  | forEach name value body =>
    simp only [check] at h
    split at h
    · cases h
    · next u hv =>
      obtain ⟨t, ht, hi⟩ := Except.bind_ok.mp hv
      obtain ⟨s, rfl, hs⟩ := allowIterable_ok hi
      split at h
      · cases h
      · next hne =>
        simp only [Prod.mk.injEq] at h
        obtain ⟨rfl, h⟩ := h
        obtain ⟨u', hb, rfl⟩ := Except.map_ok.mp h
        exact .forEach (Expr.check_typed (Prod.ext rfl ht)) hs
          (checkAll_ne_nil rfl hne) (checkAll_typed (Prod.ext rfl hb))
  | whileLoop condition body =>
    simp only [check] at h
    split at h
    · cases h
    · next condition' u hc =>
      obtain ⟨t, ht, hb⟩ := checkCondition_typed hc
      simp only [Prod.mk.injEq] at h
      obtain ⟨rfl, h⟩ := h
      obtain ⟨u', hs, rfl⟩ := Except.map_ok.mp h
      exact .whileLoop ht hb (checkAll_typed (Prod.ext rfl hs))
  | returning value =>
    simp only [check] at h
    split at h
    · cases h
    · next expected hr =>
      simp only [Prod.mk.injEq] at h
      obtain ⟨rfl, h⟩ := h
      obtain ⟨t, ht, h⟩ := Except.bind_ok.mp h
      obtain ⟨⟨⟩, hres, rfl⟩ := Except.map_ok.mp h
      obtain ⟨s, rfl, ha⟩ := allowResult_ok hres
      exact .returning hr (Expr.check_typed (Prod.ext rfl ht)) ha
  | hole h' => simp [check] at h

theorem checkAll_typed {c : Context} {ss ss' : List Stmt} {u : Unit}
    (h : checkAll c ss = (ss', .ok u)) : AllTyped c ss' := by
  cases ss with
  | nil =>
    cases h
    exact .nil
  | cons s ss =>
    simp only [checkAll] at h
    split at h
    · cases h
    · next s' declared hs =>
      simp only [Prod.mk.injEq] at h
      obtain ⟨rfl, h⟩ := h
      exact .cons (check_typed hs) (checkAll_typed (Prod.ext rfl h))

end

end Stmt

end Parlance
