/-
Code that is alike is checked alike.

Under a lawful collation, code that is alike and is checked in places that correspond is accepted
in the second place if it is accepted in the first, and is annotated with what corresponds.  The
proof is by induction on what it means that the first tree is typed, with one case for each rule.
-/
import Parlance.Proofs.Paired.Collation

namespace Parlance

/-! ### What is alike has one form -/

theorem Expr.Alike.sameForm {k : Likeness} {ν : Renaming} {e e' : Expr} (h : e.Alike k ν e') :
    Expr.SameForm e e' := by
  cases h <;> exact ⟨rfl, rfl, rfl⟩

namespace Collation

variable {k : Collation} {p p' : Pass} {ν : Renaming} {c c' : Context}

/-! ### Expressions -/

mutual

/-- **An expression that is alike one that is typed passes the check**, with a type that
corresponds. -/
theorem Lawful.check (hk : k.Lawful p p') (h : k.Places p p' ν c c') {e e₀ : Expr}
    {t : Option Ty} (ht : e.Typed c t) (he : e.Alike k.given ν e₀) :
    ∃ e' t', e₀.check c' = (e', .ok t') ∧ e.Alike k.tree ν e' ∧ k.Open t t' := by
  cases ht with
  | @literal v t hv =>
    cases he with
    | literal _ _ =>
      have same : k.Open (some t) (some t) := .some (hk.literalType hv)
      exact ⟨.literal v (some t), some t, by rw [Expr.check, hv]; rfl, .literal trivial same, same⟩
  | group hb hinner =>
    cases he with
    | group he _ =>
      obtain ⟨e', t', hcheck, halike, hT⟩ := hk.check h hinner he
      refine ⟨.group e' t', t', ?_, .group halike hT, hT⟩
      rw [Expr.check, if_pos (he.sameForm.isBinary.trans hb), hcheck]
      rfl
  | @binary op _ _ _ _ _ hl hr hop =>
    cases he with
    | binary hel her _ =>
      obtain ⟨l', tl', hcl, hal, hTl⟩ := hk.check h hl hel
      obtain ⟨r', tr', hcr, har, hTr⟩ := hk.check h hr her
      obtain ⟨t', ht', hT⟩ := hk.binaryType hTl hTr hop
      refine ⟨.binary op l' r' (some t'), some t', ?_, .binary hal har (.some hT), .some hT⟩
      simp only [Expr.check, hcl, hcr, ht', Except.map, Expr.settle]
  | @access n v _ hv hvt =>
    cases he with
    | access hn _ _ =>
      obtain ⟨v', hv', hV⟩ := h.variableOf hk hn hv
      have htype := hV.type
      rw [hvt] at htype
      generalize hvt' : v'.type = t' at htype
      cases htype with
      | @some _ t' hT =>
        refine ⟨.access (ν.name n) (some v') (some t'), some t', ?_,
          .access hn (.some hV) (.some hT), .some hT⟩
        simp only [Expr.check, hv', bind, Except.bind, typed, hvt', Expr.resolve]
  | @member _ owner n v _ ha hr hv hvt =>
    cases he with
    | member he _ _ =>
      obtain ⟨r', owner', hcr, har, hTr⟩ := hk.check h hr he
      cases hTr with
      | some hTr =>
        obtain ⟨v', hv', hV⟩ := h.memberOf hk hTr hv
        have htype := hV.type
        rw [hvt] at htype
        generalize hvt' : v'.type = t' at htype
        cases htype with
        | @some _ t' hT =>
          refine ⟨.member r' n (some v') (some t'), some t', ?_,
            .member har (.some hV) (.some hT), .some hT⟩
          simp only [Expr.check, if_pos (he.sameForm.isAccess.trans ha), hcr, Ty.known, hv', bind,
            Except.bind, typed, hvt', Expr.resolve]
  | @call n _ ts f has hf htakes =>
    cases he with
    | call hes _ _ =>
      obtain ⟨as', ts', hcheck, halike, hTs⟩ := hk.checkAll h has hes
      obtain ⟨f', hf', hF⟩ := h.functionOf hk hf
      refine ⟨.call n as' (some f') f'.returnType, f'.returnType, ?_,
        .call halike (.some hF) hF.returnType, hF.returnType⟩
      rw [hTs.length_eq] at hf'
      simp only [Expr.check, hcheck, hf', bind, Except.bind, Function.applied,
        hk.requireAll hF.parameterTypes hTs htakes, Except.map, Expr.resolve]
  | @memberCall _ owner n _ ts f has ha hr hf htakes =>
    cases he with
    | memberCall he hes _ _ =>
      obtain ⟨as', ts', hcheck, halike, hTs⟩ := hk.checkAll h has hes
      obtain ⟨r', owner', hcr, har, hTr⟩ := hk.check h hr he
      cases hTr with
      | some hTr =>
        obtain ⟨f', hf', hF⟩ := h.memberFunctionOf hk hTr hf
        refine ⟨.memberCall r' n as' (some f') f'.returnType, f'.returnType, ?_,
          .memberCall har halike (.some hF) hF.returnType, hF.returnType⟩
        rw [hTs.length_eq] at hf'
        have hdrop := List.forall₂_drop 1 hF.parameterTypes
        simp only [Expr.check, hcheck, if_pos (he.sameForm.isAccess.trans ha), hcr, Ty.known, hf',
          bind, Except.bind, Function.applied, hk.requireAll hdrop hTs htakes, Except.map,
          Expr.resolve]

theorem Lawful.checkAll (hk : k.Lawful p p') (h : k.Places p p' ν c c') {es es₀ : List Expr}
    {ts : List (Option Ty)} (hts : Expr.AllTyped c es ts)
    (hes : List.Forall₂ (Expr.Alike k.given ν) es es₀) :
    ∃ es' ts', Expr.checkAll c' es₀ = (es', .ok ts') ∧
      List.Forall₂ (Expr.Alike k.tree ν) es es' ∧ List.Forall₂ k.Open ts ts' := by
  cases hts with
  | nil =>
    cases hes
    exact ⟨[], [], rfl, .nil, .nil⟩
  | cons ht hts =>
    cases hes with
    | cons he hes =>
      obtain ⟨e', t', hcheck, halike, hT⟩ := hk.check h ht he
      obtain ⟨es', ts', hchecks, halikes, hTs⟩ := hk.checkAll h hts hes
      refine ⟨e' :: es', t' :: ts', ?_, .cons halike halikes, .cons hT hTs⟩
      simp only [Expr.checkAll, hcheck, hchecks]

end

/-! ### Declarations -/

/-- The value of a declaration, and the type of what it declares, if both sides name the same
type. -/
theorem Lawful.checkDeclared_same (hk : k.Lawful p p') (h : k.Places p p' ν c c') {n : Name}
    {typeName : Option Text} {e e₀ : Option Expr} {t : Option Ty}
    (ht : Declared c typeName e t) (he : Option.Rel (Expr.Alike k.given ν) e e₀) :
    ∃ e' t', Parlance.checkDeclared c' n typeName e₀ = (e', .ok t') ∧
      Option.Rel (Expr.Alike k.tree ν) e e' ∧ k.Open t t' := by
  cases ht with
  | unset hname =>
    cases he
    obtain ⟨t', ht', hT⟩ := h.type hk hname
    refine ⟨none, some t', ?_, .none, .some hT⟩
    simp only [Parlance.checkDeclared, ht', Except.map]
  | inferred ht =>
    cases he with
    | some he =>
      obtain ⟨e', t', hcheck, halike, hT⟩ := hk.check h ht he
      refine ⟨some e', t', ?_, .some halike, hT⟩
      simp only [Parlance.checkDeclared, hcheck]
  | given hname ht htakes =>
    cases he with
    | some he =>
      obtain ⟨d', hd', hD⟩ := h.type hk hname
      obtain ⟨e', t', hcheck, halike, hT⟩ := hk.check h ht he
      obtain ⟨_, s, ⟨⟩, rfl, haccepts⟩ := hk.takes (.some hD) hT htakes
      refine ⟨some e', some d', ?_, .some halike, .some hD⟩
      simp only [Parlance.checkDeclared, hd', hcheck, Except.bind,
        Ty.require_ok.mpr ⟨rfl, haccepts⟩, Except.map]

/-- The value of a declaration, and the type of what it declares. -/
theorem Lawful.checkDeclared (hk : k.Lawful p p') (h : k.Places p p' ν c c') {n : Name}
    {typeName typeName' : Option Text} {e e₀ : Option Expr} {t : Option Ty}
    (ht : Declared c typeName e t) (he : Option.Rel (Expr.Alike k.given ν) e e₀)
    (hn : k.typeNames e typeName typeName') :
    ∃ e' t', Parlance.checkDeclared c' n typeName' e₀ = (e', .ok t') ∧
      Option.Rel (Expr.Alike k.tree ν) e e' ∧ k.Open t t' := by
  rcases hk.typeNames hn with rfl | ⟨hvalue, rfl⟩
  · exact hk.checkDeclared_same h ht he
  · cases ht with
    | unset _ => cases hvalue
    | inferred ht => exact hk.checkDeclared_same h (.inferred ht) he
    | given hname ht _ =>
      -- The type of the value takes the place of the one that was named.
      obtain ⟨e', t', hcheck, halike, hT⟩ :=
        hk.checkDeclared_same h (n := n) (.inferred ht) he
      rw [Context.type_ok, h.pass] at hname
      exact ⟨e', t', hcheck, halike, hk.inferred h.stores hn hname (ht.type?_eq ▸ hT)⟩

/-- The variable that a declaration makes in a block. -/
theorem Places.declare (h : k.Places p p' ν c c') (hne : c.blocks ≠ []) {n : Name}
    {t t' : Option Ty} (ht : k.Open t t') {v : Variable} (hv : c.declare n t = .ok v) :
    ∃ v', c'.declare (ν.name n) t' = .ok v' ∧ v'.name = ν.name v.name ∧ k.Variables v v' := by
  have hblocks := h.blocks
  unfold Context.declare at hv ⊢
  generalize c.blocks = bs at hblocks hv hne
  generalize c'.blocks = bs' at hblocks
  cases hblocks with
  | nil => exact absurd rfl hne
  | @cons b b' outer outer' hb houter =>
    simp only at hv ⊢
    split at hv
    · cases hv
    · next hfree =>
      cases hv
      have hfree' : ¬(b'.any fun v => v.name == ν.name n) = true := by
        rw [List.any_eq_true] at hfree ⊢
        rintro ⟨v', hv', hname'⟩
        obtain ⟨v, hv, hname, -⟩ := exists_left_of_forall₂ hb hv'
        refine hfree ⟨v, hv, ?_⟩
        rw [beq_iff_eq, hname] at hname'
        rw [beq_iff_eq, ν.injective hname']
      refine ⟨⟨ν.name n, ν.name n, t', .block outer'.length⟩, ?_, rfl, h.names n, h.names n, ht⟩
      rw [if_neg hfree']

/-! ### Statements -/

theorem Lawful.checkCondition (hk : k.Lawful p p') (h : k.Places p p' ν c c') {e e₀ : Expr}
    {t : Option Ty} (ht : e.Typed c t) (hb : Ty.Takes (some Builtin.boolean.type) t)
    (he : e.Alike k.given ν e₀) :
    ∃ e', Parlance.checkCondition c' e₀ = (e', .ok ()) ∧ e.Alike k.tree ν e' := by
  obtain ⟨e', t', hcheck, halike, hT⟩ := hk.check h ht he
  obtain ⟨_, s, ⟨⟩, rfl, haccepts⟩ := hk.takes (.some (hk.builtin .boolean)) hT hb
  refine ⟨e', ?_, halike⟩
  simp only [Parlance.checkCondition, hcheck, Except.bind, Ty.require_ok.mpr ⟨rfl, haccepts⟩,
    Except.map]

mutual

/-- **A statement that is alike one that is in order passes the check.** -/
theorem Lawful.checkStmt (hk : k.Lawful p p') {c c' : Context} (h : k.Places p p' ν c c')
    (hne : c.blocks ≠ []) {s s₀ : Stmt} {d : Option Variable} (ht : s.Typed c d)
    (hs : s.Alike k.given ν s₀) :
    ∃ s' d', s₀.check c' = (s', .ok d') ∧ s.Alike k.tree ν s' ∧
      Option.Rel (fun v v' => v'.name = ν.name v.name ∧ k.Variables v v') d d' := by
  cases ht with
  | expression hc ht =>
    cases hs with
    | expression he =>
      obtain ⟨e', t', hcheck, halike, -⟩ := hk.check h ht he
      refine ⟨.expression e', none, ?_, .expression halike, .none⟩
      simp only [Stmt.check, if_pos (he.sameForm.isCall.trans hc), hcheck, Except.map]
  | @declaration _ n typeName value t v ht hv =>
    cases hs with
    | declaration he htypeName _ =>
      obtain ⟨e', t', hcheck, halike, hT⟩ :=
        hk.checkDeclared h (n := ν.name n) ht he htypeName
      obtain ⟨v', hv', hname, hV⟩ := h.declare hne hT hv
      refine ⟨.declaration (ν.name n) _ e' (some v'), some v', ?_,
        .declaration halike htypeName (.some hV), .some ⟨hname, hV⟩⟩
      simp only [Stmt.check, hcheck, Except.bind, hv']
  | assignment ha htarget hvalue htakes =>
    cases hs with
    | assignment het hev =>
      obtain ⟨e', t', hcheck, halike, hT⟩ := hk.check h htarget het
      obtain ⟨v', u', hcheckv, halikev, hU⟩ := hk.check h hvalue hev
      obtain ⟨t, u, rfl, rfl, haccepts⟩ := hk.takes hT hU htakes
      refine ⟨.assignment e' v', none, ?_, .assignment halike halikev, .none⟩
      simp only [Stmt.check, if_pos (het.sameForm.isAccess.trans ha), hcheck, hcheckv,
        Except.bind, allowAssignment, Ty.known, bind, Ty.require_ok.mpr ⟨rfl, haccepts⟩]
      rfl
  | conditional hc hb hthen ha hb' =>
    cases hs with
    | conditional hec hea heb =>
      obtain ⟨c₁, hcheck, halike⟩ := hk.checkCondition h hc hb hec
      obtain ⟨a', hchecka, halikea⟩ := hk.checkStmts (h.enter .nil) (List.cons_ne_nil _ _) ha hea
      obtain ⟨b', hcheckb, halikeb⟩ := hk.checkStmts (h.enter .nil) (List.cons_ne_nil _ _) hb' heb
      refine ⟨.conditional c₁ a' b', none, ?_, .conditional halike halikea halikeb, .none⟩
      simp only [Stmt.check, hcheck, if_neg (isEmpty_of_forall₂ hea hthen), hchecka, hcheckb,
        Except.map]
  | @forEach _ n _ _ t hv hi hbody hss =>
    cases hs with
    | forEach hev heb =>
      obtain ⟨v', t', hcheck, halike, hT⟩ := hk.check h hv hev
      cases hT with
      | some hT =>
        have item : k.Variables (c.blocks.item n) (c'.blocks.item (ν.name n)) :=
          ⟨h.names n, h.names n, .some (hk.builtin .integer)⟩
        obtain ⟨b', hcheckb, halikeb⟩ :=
          hk.checkStmts (h.enter (.cons ⟨rfl, item⟩ .nil)) (List.cons_ne_nil _ _) hss heb
        refine ⟨.forEach (ν.name n) v' b', none, ?_, .forEach halike halikeb, .none⟩
        have hi' := (hk.isKnown (.some hT) .integerIterable).trans hi
        simp only [Ty.isKnown, Option.any_some] at hi'
        simp only [Stmt.check, hcheck, Except.bind, allowIterable, Ty.known, bind, hi', if_true,
          pure, Except.pure, if_neg (isEmpty_of_forall₂ heb hbody)]
        simp only [Blocks.item] at hcheckb
        simp only [hcheckb, Except.map]
  | whileLoop hc hb hss =>
    cases hs with
    | whileLoop hec heb =>
      obtain ⟨c₁, hcheck, halike⟩ := hk.checkCondition h hc hb hec
      obtain ⟨b', hcheckb, halikeb⟩ := hk.checkStmts (h.enter .nil) (List.cons_ne_nil _ _) hss heb
      refine ⟨.whileLoop c₁ b', none, ?_, .whileLoop halike halikeb, .none⟩
      simp only [Stmt.check, hcheck, hcheckb, Except.map]
  | returning hr hv haccepts =>
    cases hs with
    | returning he =>
      have hreturns := h.returns
      rw [hr] at hreturns
      generalize hr' : c'.returns? = r' at hreturns
      obtain ⟨v', t', hcheck, halike, hT⟩ := hk.check h hv he
      cases hreturns with
      | some hR =>
        cases hT with
        | some hT =>
          refine ⟨.returning v', none, ?_, .returning halike, .none⟩
          simp only [Stmt.check, hr', hcheck, Except.bind, allowResult, Ty.known, bind,
            (hk.accepts hR hT).trans haccepts, if_true]
          rfl

theorem Lawful.checkStmts (hk : k.Lawful p p') {c c' : Context} (h : k.Places p p' ν c c')
    (hne : c.blocks ≠ []) {ss ss₀ : List Stmt} (ht : Stmt.AllTyped c ss)
    (hs : List.Forall₂ (Stmt.Alike k.given ν) ss ss₀) :
    ∃ ss', Stmt.checkAll c' ss₀ = (ss', .ok ()) ∧ List.Forall₂ (Stmt.Alike k.tree ν) ss ss' := by
  cases ht with
  | nil =>
    cases hs
    exact ⟨[], rfl, .nil⟩
  | cons ht hts =>
    cases hs with
    | cons hs hss =>
      obtain ⟨s', d', hcheck, halike, hD⟩ := hk.checkStmt h hne ht hs
      obtain ⟨ss', hchecks, halikes⟩ :=
        hk.checkStmts (h.extend hD) (Context.extend_ne_nil hne) hts hss
      refine ⟨s' :: ss', ?_, .cons halike halikes⟩
      simp only [Stmt.checkAll, hcheck, hchecks]

end

end Collation

end Parlance
