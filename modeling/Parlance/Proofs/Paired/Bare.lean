/-
Alike up to annotations.

A likeness that leaves annotations open does not tell a tree from another one with the same bare
tree.  So a tree that a check has annotated is alike whatever the tree that was given is alike, and
the other way round, also under a likeness that asks for less.
-/
import Parlance.Proofs.Paired.Code
import Parlance.Proofs.Syntax.Bare

namespace Parlance

/-- The second likeness asks no more than the first one, and leaves annotations open. -/
structure Likeness.Looser (k k' : Likeness) : Prop where
  literals : ∀ {v}, k.literals v → k'.literals v
  renamings : ∀ {ν}, k.renamings ν → k'.renamings ν
  /-- Nor do annotations matter to the type that a declaration names. -/
  typeNames : ∀ {e t t'} (e' : Option Expr), k.typeNames e t t' → k'.typeNames e' t t'
  types : ∀ t t', k'.types t t'
  bound : ∀ v v', k'.bound v v'
  callee : ∀ f f', k'.callee f f'

variable {k k' : Likeness} {ν : Renaming}

/-! ### Expressions -/

mutual

theorem Expr.Alike.of_bare (hk : k.Looser k') : (e : Expr) → {e₀ e' : Expr} →
    e₀.Alike k ν e' → e.bare = e₀.bare → e.Alike k' ν e'
  | .literal _ _, _, _, h, hb => by
    cases h with
    | literal hv _ =>
      cases hb
      exact .literal (hk.literals hv) (hk.types _ _)
    | _ => cases hb
  | .group e _, _, _, h, hb => by
    cases h with
    | group he _ =>
      simp only [Expr.bare, Expr.group.injEq, and_true] at hb
      exact .group (he.of_bare hk e hb) (hk.types _ _)
    | _ => cases hb
  | .binary _ l r _, _, _, h, hb => by
    cases h with
    | binary hl hr _ =>
      simp only [Expr.bare, Expr.binary.injEq, and_true] at hb
      obtain ⟨rfl, hbl, hbr⟩ := hb
      exact .binary (hl.of_bare hk l hbl) (hr.of_bare hk r hbr) (hk.types _ _)
    | _ => cases hb
  | .access _ _ _, _, _, h, hb => by
    cases h with
    | access hn _ _ =>
      cases hb
      exact .access hn (hk.bound _ _) (hk.types _ _)
    | _ => cases hb
  | .member r _ _ _, _, _, h, hb => by
    cases h with
    | member hr _ _ =>
      simp only [Expr.bare, Expr.member.injEq, and_true] at hb
      obtain ⟨hbr, rfl⟩ := hb
      exact .member (hr.of_bare hk r hbr) (hk.bound _ _) (hk.types _ _)
    | _ => cases hb
  | .call _ as _ _, _, _, h, hb => by
    cases h with
    | call has _ _ =>
      simp only [Expr.bare, Expr.call.injEq, and_true] at hb
      obtain ⟨rfl, hbas⟩ := hb
      exact .call (alike_of_bareExprs hk as has hbas) (hk.callee _ _) (hk.types _ _)
    | _ => cases hb
  | .memberCall r _ as _ _, _, _, h, hb => by
    cases h with
    | memberCall hr has _ _ =>
      simp only [Expr.bare, Expr.memberCall.injEq, and_true] at hb
      obtain ⟨hbr, rfl, hbas⟩ := hb
      exact .memberCall (hr.of_bare hk r hbr) (alike_of_bareExprs hk as has hbas)
        (hk.callee _ _) (hk.types _ _)
    | _ => cases hb
  | .hole _, _, _, h, hb => by
    cases h with
    | hole =>
      cases hb
      exact .hole
    | _ => cases hb

theorem alike_of_bareExprs (hk : k.Looser k') : (es : List Expr) → {es₀ es' : List Expr} →
    List.Forall₂ (Expr.Alike k ν) es₀ es' → bareExprs es = bareExprs es₀ →
    List.Forall₂ (Expr.Alike k' ν) es es'
  | [], _, _, h, hb => by
    cases h with
    | nil => exact .nil
    | cons _ _ => cases hb
  | e :: es, _, _, h, hb => by
    cases h with
    | nil => cases hb
    | cons he hes =>
      simp only [bareExprs, List.cons.injEq] at hb
      exact .cons (he.of_bare hk e hb.1) (alike_of_bareExprs hk es hes hb.2)

end

theorem alike_of_bareOption (hk : k.Looser k') {e e₀ e' : Option Expr}
    (h : Option.Rel (Expr.Alike k ν) e₀ e') (hb : e.map Expr.bare = e₀.map Expr.bare) :
    Option.Rel (Expr.Alike k' ν) e e' := by
  cases h with
  | none =>
    cases e with
    | none => exact .none
    | some _ => cases hb
  | some he =>
    cases e with
    | none => cases hb
    | some e => exact .some (he.of_bare hk e (Option.some.inj hb))

/-! ### Statements -/

mutual

theorem Stmt.Alike.of_bare (hk : k.Looser k') : (s : Stmt) → {s₀ s' : Stmt} →
    s₀.Alike k ν s' → s.bare = s₀.bare → s.Alike k' ν s'
  | .expression e, _, _, h, hb => by
    cases h with
    | expression he => exact .expression (he.of_bare hk e (Stmt.expression.inj hb))
    | _ => cases hb
  | .declaration _ _ e _, _, _, h, hb => by
    cases h with
    | declaration he htn _ =>
      simp only [Stmt.bare, Stmt.declaration.injEq, and_true] at hb
      obtain ⟨rfl, rfl, hbe⟩ := hb
      exact .declaration (alike_of_bareOption hk he hbe) (hk.typeNames _ htn) (hk.bound _ _)
    | _ => cases hb
  | .assignment t v, _, _, h, hb => by
    cases h with
    | assignment ht hv =>
      obtain ⟨hbt, hbv⟩ := Stmt.assignment.inj hb
      exact .assignment (ht.of_bare hk t hbt) (hv.of_bare hk v hbv)
    | _ => cases hb
  | .conditional c a b, _, _, h, hb => by
    cases h with
    | conditional hc ha hb' =>
      obtain ⟨hbc, hba, hbb⟩ := Stmt.conditional.inj hb
      exact .conditional (hc.of_bare hk c hbc) (alike_of_bareStmts hk a ha hba)
        (alike_of_bareStmts hk b hb' hbb)
    | _ => cases hb
  | .forEach _ v b, _, _, h, hb => by
    cases h with
    | forEach hv hb' =>
      obtain ⟨rfl, hbv, hbb⟩ := Stmt.forEach.inj hb
      exact .forEach (hv.of_bare hk v hbv) (alike_of_bareStmts hk b hb' hbb)
    | _ => cases hb
  | .whileLoop c b, _, _, h, hb => by
    cases h with
    | whileLoop hc hb' =>
      obtain ⟨hbc, hbb⟩ := Stmt.whileLoop.inj hb
      exact .whileLoop (hc.of_bare hk c hbc) (alike_of_bareStmts hk b hb' hbb)
    | _ => cases hb
  | .returning e, _, _, h, hb => by
    cases h with
    | returning he => exact .returning (he.of_bare hk e (Stmt.returning.inj hb))
    | _ => cases hb
  | .hole _, _, _, h, hb => by
    cases h with
    | hole =>
      cases hb
      exact .hole
    | _ => cases hb

theorem alike_of_bareStmts (hk : k.Looser k') : (ss : List Stmt) → {ss₀ ss' : List Stmt} →
    List.Forall₂ (Stmt.Alike k ν) ss₀ ss' → bareStmts ss = bareStmts ss₀ →
    List.Forall₂ (Stmt.Alike k' ν) ss ss'
  | [], _, _, h, hb => by
    cases h with
    | nil => exact .nil
    | cons _ _ => cases hb
  | s :: ss, _, _, h, hb => by
    cases h with
    | nil => cases hb
    | cons hs hss =>
      simp only [bareStmts, List.cons.injEq] at hb
      exact .cons (hs.of_bare hk s hb.1) (alike_of_bareStmts hk ss hss hb.2)

end

/-! ### Sources -/

theorem Field.Alike.of_bare (hk : k.Looser k') {f f₀ f' : Field} (h : f₀.Alike k f')
    (hb : f.bare = f₀.bare) : f.Alike k' f' := by
  simp only [Field.bare, Field.mk.injEq, and_true] at hb
  obtain ⟨hname, htype, hvalue⟩ := hb
  exact ⟨hname ▸ h.name, hk.typeNames _ (htype ▸ h.typeName),
    alike_of_bareOption hk h.value hvalue, hk.bound _ _⟩

theorem FieldPlace.Alike.of_bare (hk : k.Looser k') {f f₀ f' : FieldPlace} (h : f₀.Alike k f')
    (hb : f.bare = f₀.bare) : f.Alike k' f' := by
  cases h with
  | field h =>
    cases f with
    | field f => exact .field (h.of_bare hk (FieldPlace.field.inj hb))
    | _ => cases hb
  | declaration h =>
    cases f with
    | declaration f => exact .declaration (h.of_bare hk (FieldPlace.declaration.inj hb))
    | _ => cases hb
  | stray h =>
    cases f with
    | hole g =>
      cases hb
      exact .stray fun part hpart => alike_of_bareOption hk (h part hpart) rfl
    | _ => cases hb
  | unlisted =>
    cases f with
    | hole g =>
      cases hb
      exact .unlisted
    | _ => cases hb

theorem Method.Alike.of_bare (hk : k.Looser k') {m m₀ m' : Method} (h : m₀.Alike k ν m')
    (hb : m.bare = m₀.bare) : m.Alike k' ν m' := by
  simp only [Method.bare, Method.mk.injEq, and_true] at hb
  obtain ⟨hname, hps, hts, hr, hbody⟩ := hb
  exact ⟨hname ▸ h.name, hps ▸ h.parameters, hps ▸ h.own, hts ▸ h.parameterTypeNames,
    hr ▸ h.returnTypeName, alike_of_bareStmts hk m.body h.body hbody, hk.callee _ _⟩

theorem MethodPlace.Alike.of_bare (hk : k.Looser k') {m m₀ m' : MethodPlace} (h : m₀.Alike k m')
    (hb : m.bare = m₀.bare) : m.Alike k' m' := by
  cases h with
  | method hν h =>
    cases m with
    | method m => exact .method (hk.renamings hν) (h.of_bare hk (MethodPlace.method.inj hb))
    | _ => cases hb
  | untyped hν h =>
    cases m with
    | untyped m => exact .untyped (hk.renamings hν) (h.of_bare hk (MethodPlace.untyped.inj hb))
    | _ => cases hb
  | hole =>
    cases m with
    | hole g =>
      cases hb
      exact .hole
    | _ => cases hb

/-- A tree is alike whatever another tree with the same bare tree is alike, under a likeness that is
looser. -/
theorem Source.Alike.of_bare (hk : k.Looser k') {s s₀ s' : Source} (h : s₀.Alike k s')
    (hb : s.bare = s₀.bare) : s.Alike k' s' := by
  have places {α : Type} {R R' : α → α → Prop} {f : α → α}
      (hR : ∀ {a b c}, R b c → f a = f b → R' a c) {as bs cs : List α}
      (h : List.Forall₂ R bs cs) (hf : as.map f = bs.map f) : List.Forall₂ R' as cs := by
    induction h generalizing as with
    | nil =>
      cases List.map_eq_nil_iff.mp hf
      exact .nil
    | cons h _ ih =>
      cases as with
      | nil => cases hf
      | cons a as =>
        obtain ⟨ha, has⟩ := List.cons.inj hf
        exact .cons (hR h ha) (ih has)
  obtain ⟨hfields, hmethods⟩ := Source.mk.inj hb
  exact ⟨places (fun h hb => h.of_bare hk hb) h.fields hfields,
    places (fun h hb => h.of_bare hk hb) h.methods hmethods⟩

end Parlance
