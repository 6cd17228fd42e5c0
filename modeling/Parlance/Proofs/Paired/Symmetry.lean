/-
Renaming back.

If one renaming undoes another, code that is alike under the one is alike the other way round
under the other.
-/
import Parlance.Proofs.Paired.Code

namespace Parlance

/-- Whatever is not asked for in trees is alike both ways round. -/
structure Likeness.Symmetric (k : Likeness) : Prop where
  typeNames : ∀ {e e' t t'}, k.typeNames e t t' → k.typeNames e' t' t
  types : ∀ {t t'}, k.types t t' → k.types t' t
  bound : ∀ {v v'}, k.bound v v' → k.bound v' v
  callee : ∀ {f f'}, k.callee f f' → k.callee f' f

/-- The first renaming is undone by the second, which allows the names that the first one makes of
those it allows. -/
structure Renaming.Undone (ν ν' : Renaming) : Prop where
  name : ∀ n, ν'.name (ν.name n) = n
  allows : ∀ {n}, ν.Allows n → ν'.Allows (ν.name n)

variable {k : Likeness} {ν ν' : Renaming}

mutual

theorem Expr.Alike.symm (hk : k.Symmetric) (hν : ν.Undone ν') : (e : Expr) → {e' : Expr} →
    e.Alike k ν e' → e'.Alike k ν' e
  | .literal _ _, _, h => by
    cases h with
    | literal hv ht => exact .literal hv (hk.types ht)
  | .group e _, _, h => by
    cases h with
    | group he ht => exact .group (he.symm hk hν e) (hk.types ht)
  | .binary _ l r _, _, h => by
    cases h with
    | binary hl hr ht => exact .binary (hl.symm hk hν l) (hr.symm hk hν r) (hk.types ht)
  | .access n _ _, _, h => by
    cases h with
    | access hn hv ht =>
      have back : (Expr.access (ν.name n) _ _).Alike k ν' (.access (ν'.name (ν.name n)) _ _) :=
        .access (hν.allows hn) (hk.bound hv) (hk.types ht)
      rwa [hν.name] at back
  | .member r _ _ _, _, h => by
    cases h with
    | member hr hv ht => exact .member (hr.symm hk hν r) (hk.bound hv) (hk.types ht)
  | .call _ as _ _, _, h => by
    cases h with
    | call has hf ht => exact .call (alike_exprs_symm hk hν as has) (hk.callee hf) (hk.types ht)
  | .memberCall r _ as _ _, _, h => by
    cases h with
    | memberCall hr has hf ht =>
      exact .memberCall (hr.symm hk hν r) (alike_exprs_symm hk hν as has) (hk.callee hf)
        (hk.types ht)
  | .hole _, _, h => by
    cases h
    exact .hole

theorem alike_exprs_symm (hk : k.Symmetric) (hν : ν.Undone ν') : (es : List Expr) →
    {es' : List Expr} → List.Forall₂ (Expr.Alike k ν) es es' →
    List.Forall₂ (Expr.Alike k ν') es' es
  | [], _, h => by
    cases h
    exact .nil
  | e :: es, _, h => by
    cases h with
    | cons he hes => exact .cons (he.symm hk hν e) (alike_exprs_symm hk hν es hes)

end

theorem alike_option_symm (hk : k.Symmetric) (hν : ν.Undone ν') {e e' : Option Expr}
    (h : Option.Rel (Expr.Alike k ν) e e') : Option.Rel (Expr.Alike k ν') e' e := by
  cases h with
  | none => exact .none
  | some h => exact .some (h.symm hk hν _)

mutual

theorem Stmt.Alike.symm (hk : k.Symmetric) (hν : ν.Undone ν') : (s : Stmt) → {s' : Stmt} →
    s.Alike k ν s' → s'.Alike k ν' s
  | .expression e, _, h => by
    cases h with
    | expression he => exact .expression (he.symm hk hν e)
  | .declaration n _ _ _, _, h => by
    cases h with
    | declaration he ht hv =>
      have back : (Stmt.declaration (ν.name n) _ _ _).Alike k ν'
          (.declaration (ν'.name (ν.name n)) _ _ _) :=
        .declaration (alike_option_symm hk hν he) (hk.typeNames ht) (hk.bound hv)
      rwa [hν.name] at back
  | .assignment t v, _, h => by
    cases h with
    | assignment ht hv => exact .assignment (ht.symm hk hν t) (hv.symm hk hν v)
  | .conditional c a b, _, h => by
    cases h with
    | conditional hc ha hb =>
      exact .conditional (hc.symm hk hν c) (alike_stmts_symm hk hν a ha)
        (alike_stmts_symm hk hν b hb)
  | .forEach n v b, _, h => by
    cases h with
    | forEach hv hb =>
      have back : (Stmt.forEach (ν.name n) _ _).Alike k ν' (.forEach (ν'.name (ν.name n)) _ _) :=
        .forEach (hv.symm hk hν v) (alike_stmts_symm hk hν b hb)
      rwa [hν.name] at back
  | .whileLoop c b, _, h => by
    cases h with
    | whileLoop hc hb => exact .whileLoop (hc.symm hk hν c) (alike_stmts_symm hk hν b hb)
  | .returning e, _, h => by
    cases h with
    | returning he => exact .returning (he.symm hk hν e)
  | .hole _, _, h => by
    cases h
    exact .hole

theorem alike_stmts_symm (hk : k.Symmetric) (hν : ν.Undone ν') : (ss : List Stmt) →
    {ss' : List Stmt} → List.Forall₂ (Stmt.Alike k ν) ss ss' →
    List.Forall₂ (Stmt.Alike k ν') ss' ss
  | [], _, h => by
    cases h
    exact .nil
  | s :: ss, _, h => by
    cases h with
    | cons hs hss => exact .cons (hs.symm hk hν s) (alike_stmts_symm hk hν ss hss)

end

/-- Methods are alike the other way round, if what the second renaming calls the method's own are
names that the first one has made of its own. -/
theorem Method.Alike.symm (hk : k.Symmetric) (hν : ν.Undone ν')
    (hown : ∀ n, ν'.own n → ∃ m, ν.own m ∧ ν.name m = n) {m m' : Method}
    (h : m.Alike k ν m') : m'.Alike k ν' m where
  name := h.name.symm
  parameters := by
    rw [h.parameters, List.map_map, show ν'.name ∘ ν.name = id from funext hν.name, List.map_id]
  own n hn := by
    obtain ⟨n₀, hn₀, rfl⟩ := hown n hn
    rw [h.parameters]
    exact List.mem_map_of_mem (h.own n₀ hn₀)
  parameterTypeNames := h.parameterTypeNames.symm
  returnTypeName := h.returnTypeName.symm
  body := alike_stmts_symm hk hν m.body h.body
  bound := hk.callee h.bound

end Parlance
