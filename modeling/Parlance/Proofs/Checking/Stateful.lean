/-
The checker with a state.

The checks that work on a state come to the same trees and the same verdicts as those that are
handed the place and the store.  They close the blocks that they open and put back the method that
they replace, so outside of all blocks nothing but the store is another afterwards.

A check of expressions leaves the whole state as it is.  A check of statements in a block leaves
all of it but that block.  This goes by induction on the tree.  What may be returned is known from
the method in the one form, by the name of its result type, and handed down in the other, so the
two only agree where that name has been looked up with the answer that is handed down.
-/
import Parlance.Checker.Analyzer
import Parlance.Proofs.Checking.Certified

namespace Parlance.Analyzer

variable {pass : Pass} {a b : Analyzer} {α β : Type}

theorem run_bind_of {x : Analysis α} {f : α → Analysis β} {r : α} (h : x.run a = (r, b)) :
    (x >>= f).run a = (f r).run b := by
  change (f (x.run a).1).run (x.run a).2 = _
  rw [h]

theorem run_get (a : Analyzer) : (get : Analysis Analyzer).run a = (a, a) :=
  rfl

/-! ### Expressions -/

section Expressions

variable (a : Analyzer) (returns? : Option Ty)

mutual

/-- A check of an expression only reads. -/
theorem run_checkExpr :
    (e : Expr) → (checkExpr pass e).run a = (e.check (a.place pass returns?), a)
  | .literal v old => rfl
  | .group e old => by
    rw [checkExpr, Expr.check]
    split
    · rw [run_bind_of (run_checkExpr e)]
      rfl
    · rfl
  | .binary op l r old => by
    rw [checkExpr, Expr.check, run_bind_of (run_checkExpr l)]
    rcases l.check (a.place pass returns?) with ⟨l, _ | tl⟩
    · rfl
    · dsimp only
      rw [run_bind_of (run_checkExpr r)]
      rcases r.check (a.place pass returns?) with ⟨r, _ | tr⟩ <;> rfl
  | .access name bound old => rfl
  | .member receiver name bound old => by
    rw [checkExpr, Expr.check]
    split
    · rw [run_bind_of (run_checkExpr receiver)]
      rcases receiver.check (a.place pass returns?) with ⟨receiver, _ | owner⟩ <;> rfl
    · rfl
  | .call name arguments bound old => by
    rw [checkExpr, Expr.check, run_bind_of (run_checkExprs arguments)]
    rcases Expr.checkAll (a.place pass returns?) arguments with ⟨arguments, _ | types⟩ <;> rfl
  | .memberCall receiver name arguments bound old => by
    rw [checkExpr, Expr.check, run_bind_of (run_checkExprs arguments)]
    rcases Expr.checkAll (a.place pass returns?) arguments with ⟨arguments, _ | types⟩
    · rfl
    · dsimp only
      split
      · rw [run_bind_of (run_checkExpr receiver)]
        rcases receiver.check (a.place pass returns?) with ⟨receiver, _ | owner⟩ <;> rfl
      · rfl
  | .hole h => rfl

theorem run_checkExprs :
    (es : List Expr) →
      (checkExprs pass es).run a = (Expr.checkAll (a.place pass returns?) es, a)
  | [] => rfl
  | e :: es => by
    rw [checkExprs, Expr.checkAll, run_bind_of (run_checkExpr e)]
    rcases e.check (a.place pass returns?) with ⟨e, _ | t⟩
    · rfl
    · dsimp only
      rw [run_bind_of (run_checkExprs es)]
      rcases Expr.checkAll (a.place pass returns?) es with ⟨es, _ | ts⟩ <;> rfl

end

theorem run_checkDeclared (name : Name) (typeName : Option Text) (value : Option Expr) :
    (checkDeclared pass name typeName value).run a =
      (Parlance.checkDeclared (a.place pass returns?) name typeName value, a) := by
  unfold checkDeclared Parlance.checkDeclared
  split
  · rfl
  · rfl
  · rw [run_bind_of (run_checkExpr a returns? _)]
    rfl
  · next n =>
    rw [run_bind_of (run_get a)]
    dsimp only
    cases h : (a.place pass returns?).type n with
    | error f =>
      rw [show (a.place pass).type n = .error f from h]
      rfl
    | ok declared =>
      rw [show (a.place pass).type n = .ok declared from h]
      dsimp only
      rw [run_bind_of (run_checkExpr a returns? _)]
      rfl

theorem run_checkCondition (condition : Expr) :
    (checkCondition pass condition).run a =
      (Parlance.checkCondition (a.place pass returns?) condition, a) := by
  rw [checkCondition, run_bind_of (run_checkExpr a returns? condition)]
  rfl

end Expressions

/-! ### Statements -/

/-- The result type that is handed down is that of the method whose body is checked. -/
def Returns (a : Analyzer) (pass : Pass) : Option Ty → Prop
  | none => a.method? = none
  | some t => ∃ m, a.method? = some m ∧ (a.place pass).resultType m.returnTypeName = .ok t

/-- What it comes to in the state that a statement is answered like this. -/
def answered (a : Analyzer) (pass : Pass) :
    Stmt × Except Fault (Option Variable) → (Stmt × Except Fault Unit) × Analyzer
  | (s, .ok declared) => ((s, .ok ()), a.extend pass declared)
  | (s, .error f) => ((s, .error f), a)

theorem answered_map (a : Analyzer) (s : Stmt) (found : Except Fault Unit) :
    a.answered pass (s, found.map fun _ => none) = ((s, found), a) := by
  cases found <;> rfl

theorem answered_bind (a : Analyzer) (s : Stmt) (found : Except Fault α)
    (allow : α → Except Fault Unit) :
    a.answered pass (s, found.bind fun t => (allow t).map fun _ => none) =
      ((s, found.bind allow), a) := by
  cases found with
  | error f => rfl
  | ok t => exact answered_map a s (allow t)

theorem run_declare (a : Analyzer) (returns? : Option Ty) (name : Name) (type : Option Ty) :
    (declare pass name type).run a =
      match (a.place pass returns?).declare name type with
      | .ok v => (.ok v, a.extend pass (some v))
      | .error f => (.error f, a) := by
  rw [declare, run_bind_of (run_get a)]
  cases h : (a.place pass returns?).declare name type with
  | error f =>
    rw [show (a.place pass).declare name type = .error f from h]
    rfl
  | ok v =>
    rw [show (a.place pass).declare name type = .ok v from h]
    rfl

/-- A check in a block that changes nothing but the block changes nothing. -/
theorem run_inBlock {check : Analysis α} {block block' : List Variable} {r : α}
    (h : check.run { a with blocks := block :: a.blocks } =
      (r, { a with blocks := block' :: a.blocks })) :
    (inBlock block check).run a = (r, a) := by
  change (do
    let r ← check
    modify fun a => { a with blocks := a.blocks.tail }
    return r : Analysis α).run { a with blocks := block :: a.blocks } = (r, a)
  rw [run_bind_of h]
  rfl

theorem place_enter (a : Analyzer) (returns? : Option Ty) (block : List Variable) :
    ({ a with blocks := block :: a.blocks } : Analyzer).place pass returns? =
      (a.place pass returns?).enter block :=
  rfl

/-- A declaration inside of a block goes to that block. -/
theorem extend_of_blocks {block : List Variable} {outer : Blocks} (h : a.blocks = block :: outer)
    (declared : Option Variable) :
    a.extend pass declared = { a with blocks := (block ++ declared.toList) :: outer } := by
  cases declared with
  | none => rw [Option.toList_none, List.append_nil, ← h, extend]
  | some v =>
    simp only [extend, h, List.isEmpty_cons, Bool.false_eq_true, if_false]
    rfl

/-- The place after it is the one that the other form hands on. -/
theorem place_extend {block : List Variable} {outer : Blocks} (h : a.blocks = block :: outer)
    (declared : Option Variable) (returns? : Option Ty) :
    (a.place pass returns?).extend declared = (a.extend pass declared).place pass returns? := by
  cases declared with
  | none => rfl
  | some v =>
    rw [extend_of_blocks h]
    simp only [Context.extend, place, h]
    rfl

/-- Opening a block changes nothing about the method. -/
theorem Returns.enter {returns? : Option Ty} (h : a.Returns pass returns?)
    (block : List Variable) :
    ({ a with blocks := block :: a.blocks } : Analyzer).Returns pass returns? :=
  h

mutual

theorem run_checkStmt {returns? : Option Ty} (a : Analyzer) (ha : a.Returns pass returns?) :
    (s : Stmt) → (checkStmt pass s).run a = a.answered pass (s.check (a.place pass returns?))
  | .expression e => by
    rw [checkStmt, Stmt.check]
    split
    · rw [run_bind_of (run_checkExpr a returns? e)]
      rcases e.check (a.place pass returns?) with ⟨e, _ | t⟩ <;> rfl
    · rfl
  | .declaration name typeName value bound => by
    rw [checkStmt, Stmt.check, run_bind_of (run_checkDeclared a returns? name typeName value)]
    rcases Parlance.checkDeclared (a.place pass returns?) name typeName value with ⟨value, f | t⟩
    · rfl
    · dsimp only
      rw [run_bind_of (run_declare a returns? name t)]
      change _ = a.answered pass (match (a.place pass returns?).declare name t with
        | .ok v => _
        | .error f => _)
      cases (a.place pass returns?).declare name t <;> rfl
  | .assignment target value => by
    rw [checkStmt, Stmt.check]
    split
    · rw [run_bind_of (run_checkExpr a returns? target)]
      rcases target.check (a.place pass returns?) with ⟨target, f | expected⟩
      · rfl
      · dsimp only
        rw [run_bind_of (run_checkExpr a returns? value)]
        exact (answered_bind a _ _ _).symm
    · rfl
  | .conditional condition thenBody elseBody => by
    rw [checkStmt, Stmt.check, run_bind_of (run_checkCondition a returns? condition)]
    rcases Parlance.checkCondition (a.place pass returns?) condition with ⟨condition, f | _⟩
    · rfl
    · dsimp only
      split
      · rfl
      · obtain ⟨_, hthen⟩ := run_checkStmts _ (ha.enter []) rfl thenBody
        rw [run_bind_of (run_inBlock hthen), place_enter]
        rcases Stmt.checkAll ((a.place pass returns?).enter []) thenBody with ⟨thenBody, f | _⟩
        · rfl
        · obtain ⟨_, helse⟩ := run_checkStmts _ (ha.enter []) rfl elseBody
          dsimp only
          rw [run_bind_of (run_inBlock helse), place_enter]
          exact (answered_map a _ _).symm
  | .forEach name value body => by
    rw [checkStmt, Stmt.check, run_bind_of (run_checkExpr a returns? value)]
    rcases value.check (a.place pass returns?) with ⟨value, found⟩
    dsimp only
    cases found.bind allowIterable with
    | error f => rfl
    | ok _ =>
      dsimp only
      split
      · rfl
      · obtain ⟨_, hbody⟩ := run_checkStmts _
          (ha.enter [⟨name, name, some Builtin.integer.type, .block a.blocks.length⟩]) rfl body
        rw [run_bind_of (run_get a), run_bind_of (run_inBlock hbody), place_enter]
        exact (answered_map a _ _).symm
  | .whileLoop condition body => by
    rw [checkStmt, Stmt.check, run_bind_of (run_checkCondition a returns? condition)]
    rcases Parlance.checkCondition (a.place pass returns?) condition with ⟨condition, f | _⟩
    · rfl
    · obtain ⟨_, hbody⟩ := run_checkStmts _ (ha.enter []) rfl body
      dsimp only
      rw [run_bind_of (run_inBlock hbody), place_enter]
      exact (answered_map a _ _).symm
  | .returning value => by
    rw [checkStmt, run_bind_of (run_get a)]
    cases returns? with
    | none =>
      rw [show a.method? = none from ha]
      rfl
    | some expected =>
      obtain ⟨m, hm, hresult⟩ := ha
      rw [hm]
      dsimp only
      rw [hresult]
      dsimp only
      rw [run_bind_of (run_checkExpr a (some expected) value)]
      rw [Stmt.check]
      exact (answered_bind a _ _ _).symm
  | .hole h => rfl

theorem run_checkStmts {returns? : Option Ty} (a : Analyzer) (ha : a.Returns pass returns?)
    {block : List Variable} {outer : Blocks} (hb : a.blocks = block :: outer) :
    (ss : List Stmt) → ∃ block', (checkStmts pass ss).run a =
      (Stmt.checkAll (a.place pass returns?) ss, { a with blocks := block' :: outer })
  | [] => ⟨block, by rw [← hb]; rfl⟩
  | s :: ss => by
    rw [checkStmts, Stmt.checkAll, run_bind_of (run_checkStmt a ha s)]
    rcases s.check (a.place pass returns?) with ⟨s, f | declared⟩
    · exact ⟨block, by rw [← hb]; rfl⟩
    · have hextend : a.extend pass declared = _ := extend_of_blocks hb declared
      have ha' : (a.extend pass declared).Returns pass returns? := by
        rw [hextend]
        exact ha
      obtain ⟨block'', hrest⟩ := run_checkStmts (a.extend pass declared) ha'
        (by rw [hextend]) ss
      refine ⟨block'', ?_⟩
      dsimp only [answered]
      rw [run_bind_of hrest, place_extend hb, hextend]
      rfl

end

/-! ### Outside of all blocks -/

/-- The state after a check outside of all blocks, beside what it answers. -/
def kept (a : Analyzer) (c : Checked α) : (α × Except Fault Unit) × Analyzer :=
  ((c.tree, c.verdict), { a with store := c.store })

/-- The first check comes to the same in the state as the second does with the store. -/
def ComesTo (first : Analysis (α × Except Fault Unit)) (second : Store → Checked α) : Prop :=
  ∀ a : Analyzer, a.blocks = [] → first.run a = a.kept (second a.store)

/-- A statement outside of all blocks and all methods. -/
theorem run_checkStmt_outside (ha : a.blocks = []) (hm : a.method? = none) (s : Stmt) :
    (checkStmt pass s).run a = a.kept (pass.checkStmt s a.store) := by
  obtain ⟨σ, blocks, method?⟩ := a
  cases ha
  have hnone : Returns ⟨σ, [], method?⟩ pass none := hm
  rw [run_checkStmt _ hnone, Pass.checkStmt]
  change answered _ pass (s.check (pass.context σ)) = _
  rcases s.check (pass.context σ) with ⟨s, _ | _ | v⟩ <;> rfl

theorem comesTo_checkField (f : Field) : ComesTo (checkField pass f) (pass.checkField f) := by
  rintro ⟨σ, blocks, method?⟩ rfl
  have hplace : place ⟨σ, [], method?⟩ pass = pass.context σ := rfl
  rw [checkField, run_bind_of (run_checkDeclared _ none _ _ _), hplace]
  unfold Pass.checkField
  dsimp only
  generalize Parlance.checkDeclared (pass.context σ) f.name f.typeName f.value = r
  obtain ⟨value, fault | t⟩ := r
  · rfl
  · dsimp only [Except.bind]
    rw [run_bind_of (run_declare _ none _ _), hplace]
    cases (pass.context σ).declare f.name t <;> rfl

theorem comesTo_checkFieldPlace (p : FieldPlace) :
    ComesTo (checkFieldPlace pass p) (pass.checkFieldPlace p) := by
  intro a ha
  cases p with
  | field f =>
    rw [checkFieldPlace, run_bind_of (comesTo_checkField f a ha)]
    rfl
  | declaration f =>
    rw [checkFieldPlace, run_bind_of (comesTo_checkField f a ha)]
    rfl
  | hole h => rfl

/-- A method is put back, whatever the check does with it. -/
theorem run_inMethod {m : Method} {check : Analysis α} {r : α}
    (h : check.run { a with method? := some m } = (r, b)) :
    (inMethod m check).run a = (r, { b with method? := a.method? }) := by
  change (do
    let r ← check
    modify fun b => { b with method? := a.method? }
    return r : Analysis α).run { a with method? := some m } = _
  rw [run_bind_of h]
  rfl

theorem comesTo_checkMethod (m : Method) : ComesTo (checkMethod pass m) (pass.checkMethod m) := by
  rintro ⟨σ, blocks, method?⟩ rfl
  have hplace : place ⟨σ, [], method?⟩ pass = pass.context σ := rfl
  rw [checkMethod, run_bind_of (run_get _), hplace]
  unfold Pass.checkMethod
  dsimp only
  cases hsignature : m.signature (pass.context σ) with
  | error f => rfl
  | ok signature =>
    obtain ⟨types, result⟩ := signature
    dsimp only
    rw [run_bind_of (run_get _)]
    dsimp only
    cases hd : σ.declareFunction pass.scope.top m.name (types.map some) (some result) none none with
    | error f => rfl
    | ok declared =>
      obtain ⟨function, τ⟩ := declared
      dsimp only
      set ρ := τ.report (.checkedMethod m.name types.length)
      rw [run_bind_of (show (modify _ : Analysis Unit).run _ = ((), ⟨ρ, [], method?⟩) from rfl)]
      unfold Method.checkBody
      cases parameterBlock (m.parameters.zip types) [] with
      | error f => rfl
      | ok block =>
        have hreturns : Returns ⟨ρ, [block], some { m with bound := some function }⟩ pass
            (some result) := by
          have hsame : (pass.context σ).SameTypes (place ⟨ρ, [block], none⟩ pass) :=
            .of_registries (σ.kept_declareFunction hd).2 rfl
          exact ⟨_, rfl, (hsame.resultType _).trans (Method.signature_ok hsignature).2.2⟩
        obtain ⟨block', hbody⟩ := run_checkStmts _ hreturns rfl m.body
        have hmethod := run_inMethod (a := ⟨ρ, [block], method?⟩) hbody
        dsimp only
        rw [run_bind_of (run_inBlock (a := ⟨ρ, [], method?⟩) hmethod)]
        rfl

theorem comesTo_checkMethodPlace (p : MethodPlace) :
    ComesTo (checkMethodPlace pass p) (pass.checkMethodPlace p) := by
  intro a ha
  cases p with
  | method m =>
    rw [checkMethodPlace, run_bind_of (comesTo_checkMethod m a ha)]
    rfl
  | untyped m => rfl
  | hole h => rfl

theorem comesTo_checkInTurn {first : α → Analysis (α × Except Fault Unit)}
    {second : α → Store → Checked α} (h : ∀ x, ComesTo (first x) (second x)) (xs : List α) :
    ComesTo (checkInTurn first xs) (checkInOrder second xs) := by
  induction xs with
  | nil => exact fun a _ => rfl
  | cons x xs ih =>
    intro a ha
    rw [checkInTurn, checkInOrder, run_bind_of (h x a ha)]
    rcases second x a.store with ⟨x, f | _, σ⟩
    · rfl
    · dsimp only [kept]
      rw [run_bind_of (ih ⟨σ, a.blocks, a.method?⟩ ha)]
      rfl

/-- **The checker with a state comes to the same as the one without**, whatever method is there. -/
theorem comesTo_check (s : Source) : ComesTo (check pass s) (pass.check s) := by
  intro a ha
  rw [check, Pass.check]
  cases s.checkEntryPoint with
  | error f => rfl
  | ok _ =>
    dsimp only
    rw [run_bind_of (comesTo_checkInTurn comesTo_checkFieldPlace s.fields a ha)]
    rcases checkInOrder pass.checkFieldPlace s.fields a.store with ⟨fields, f | _, σ⟩
    · rfl
    · dsimp only [kept]
      rw [run_bind_of
        (comesTo_checkInTurn comesTo_checkMethodPlace s.methods ⟨σ, a.blocks, a.method?⟩ ha)]
      rcases checkInOrder pass.checkMethodPlace s.methods σ with ⟨methods, f | _, τ⟩ <;> rfl

end Parlance.Analyzer
