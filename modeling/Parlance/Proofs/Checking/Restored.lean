/-
The method that is put back.

Every check ends with the method with which it began, in whatever state it began and however it
ends.  Most checks never set one.  The check of a method does, and what makes it put back the one
before is that it asks nothing of the check of the body for this.
-/
import Parlance.Proofs.Checking.Stateful

namespace Parlance.Analyzer

variable {pass : Pass} {α β : Type}

/-- After the check the method is the one before, in whatever state it has been begun. -/
def Restores (check : Analysis α) : Prop :=
  ∀ a : Analyzer, (check.run a).2.method? = a.method?

theorem restores_pure (r : α) : Restores (pure r : Analysis α) :=
  fun _ => rfl

theorem restores_get : Restores (get : Analysis Analyzer) :=
  fun _ => rfl

theorem restores_modify {f : Analyzer → Analyzer} (h : ∀ a, (f a).method? = a.method?) :
    Restores (modify f : Analysis Unit) :=
  h

theorem Restores.bind {x : Analysis α} {f : α → Analysis β} (hx : Restores x)
    (hf : ∀ r, Restores (f r)) : Restores (x >>= f) :=
  fun a => (hf _ _).trans (hx a)

/-- What leaves the whole state as it is leaves the method. -/
theorem restores_of_reads {x : Analysis α} (h : ∀ a, ∃ r, x.run a = (r, a)) : Restores x := by
  intro a
  obtain ⟨r, hr⟩ := h a
  rw [hr]

theorem restores_inBlock {check : Analysis α} (h : Restores check) (block : List Variable) :
    Restores (inBlock block check) :=
  fun a => h { a with blocks := block :: a.blocks }

/-- Whatever a check does with the method that is set for it, the one before is put back. -/
theorem restores_inMethod (m : Method) (check : Analysis α) : Restores (inMethod m check) :=
  fun _ => rfl

/-! ### Statements -/

theorem restores_checkExpr (e : Expr) : Restores (checkExpr pass e) :=
  restores_of_reads fun a => ⟨_, run_checkExpr a none e⟩

theorem restores_checkDeclared (name : Name) (typeName : Option Text) (value : Option Expr) :
    Restores (checkDeclared pass name typeName value) :=
  restores_of_reads fun a => ⟨_, run_checkDeclared a none name typeName value⟩

theorem restores_checkCondition (condition : Expr) : Restores (checkCondition pass condition) :=
  restores_of_reads fun a => ⟨_, run_checkCondition a none condition⟩

theorem restores_declare (name : Name) (type : Option Ty) : Restores (declare pass name type) := by
  refine restores_get.bind fun a => ?_
  split
  · exact restores_pure _
  · refine (restores_modify fun b => ?_).bind fun _ => restores_pure _
    simp only [extend]
    split <;> rfl

mutual

theorem restores_checkStmt : (s : Stmt) → Restores (checkStmt pass s)
  | .expression e => by
    rw [checkStmt]
    split
    · exact (restores_checkExpr e).bind fun _ => restores_pure _
    · exact restores_pure _
  | .declaration name typeName value bound => by
    rw [checkStmt]
    refine (restores_checkDeclared name typeName value).bind fun _ => ?_
    split
    · exact restores_pure _
    · refine (restores_declare name _).bind fun _ => ?_
      split <;> exact restores_pure _
  | .assignment target value => by
    rw [checkStmt]
    split
    · refine (restores_checkExpr target).bind fun _ => ?_
      split
      · exact restores_pure _
      · exact (restores_checkExpr value).bind fun _ => restores_pure _
    · exact restores_pure _
  | .conditional condition thenBody elseBody => by
    rw [checkStmt]
    refine (restores_checkCondition condition).bind fun _ => ?_
    split
    · exact restores_pure _
    · split
      · exact restores_pure _
      · refine (restores_inBlock (restores_checkStmts thenBody) []).bind fun _ => ?_
        split
        · exact restores_pure _
        · exact (restores_inBlock (restores_checkStmts elseBody) []).bind fun _ => restores_pure _
  | .forEach name value body => by
    rw [checkStmt]
    refine (restores_checkExpr value).bind fun _ => ?_
    dsimp only
    split
    · exact restores_pure _
    · split
      · exact restores_pure _
      · refine restores_get.bind fun _ => ?_
        exact (restores_inBlock (restores_checkStmts body) _).bind fun _ => restores_pure _
  | .whileLoop condition body => by
    rw [checkStmt]
    refine (restores_checkCondition condition).bind fun _ => ?_
    split
    · exact restores_pure _
    · exact (restores_inBlock (restores_checkStmts body) []).bind fun _ => restores_pure _
  | .returning value => by
    rw [checkStmt]
    refine restores_get.bind fun _ => ?_
    split
    · exact restores_pure _
    · split
      · exact restores_pure _
      · exact (restores_checkExpr value).bind fun _ => restores_pure _
  | .hole h => by
    rw [checkStmt]
    exact restores_pure _

theorem restores_checkStmts : (ss : List Stmt) → Restores (checkStmts pass ss)
  | [] => by
    rw [checkStmts]
    exact restores_pure _
  | s :: ss => by
    rw [checkStmts]
    refine (restores_checkStmt s).bind fun _ => ?_
    split
    · exact restores_pure _
    · exact (restores_checkStmts ss).bind fun _ => restores_pure _

end

/-! ### Sources -/

theorem restores_checkField (f : Field) : Restores (checkField pass f) := by
  refine (restores_checkDeclared f.name f.typeName f.value).bind fun _ => ?_
  split
  · exact restores_pure _
  · refine (restores_declare f.name _).bind fun _ => ?_
    split <;> exact restores_pure _

theorem restores_checkFieldPlace (p : FieldPlace) : Restores (checkFieldPlace pass p) := by
  cases p with
  | field f => exact (restores_checkField f).bind fun _ => restores_pure _
  | declaration f => exact (restores_checkField f).bind fun _ => restores_pure _
  | hole h => exact restores_pure _

theorem restores_checkMethod (m : Method) : Restores (checkMethod pass m) := by
  refine restores_get.bind fun _ => ?_
  split
  · exact restores_pure _
  · refine restores_get.bind fun _ => ?_
    split
    · exact restores_pure _
    · refine Restores.bind (restores_modify ?_) fun _ => ?_
      · exact fun _ => rfl
      dsimp only
      split
      · exact restores_pure _
      · exact (restores_inBlock (restores_inMethod _ _) _).bind fun _ => restores_pure _

theorem restores_checkMethodPlace (p : MethodPlace) : Restores (checkMethodPlace pass p) := by
  cases p with
  | method m => exact (restores_checkMethod m).bind fun _ => restores_pure _
  | untyped m => exact restores_pure _
  | hole h => exact restores_pure _

theorem restores_checkInTurn {check : α → Analysis (α × Except Fault Unit)}
    (h : ∀ x, Restores (check x)) : (xs : List α) → Restores (checkInTurn check xs)
  | [] => restores_pure _
  | x :: xs => by
    rw [checkInTurn]
    refine (h x).bind fun _ => ?_
    split
    · exact restores_pure _
    · exact (restores_checkInTurn h xs).bind fun _ => restores_pure _

theorem restores_check (s : Source) : Restores (check pass s) := by
  unfold check
  split
  · exact restores_pure _
  · refine (restores_checkInTurn restores_checkFieldPlace s.fields).bind fun _ => ?_
    split
    · exact restores_pure _
    · refine (restores_checkInTurn restores_checkMethodPlace s.methods).bind fun _ => ?_
      split
      · exact restores_pure _
      · refine Restores.bind (restores_modify ?_) fun _ => restores_pure _
        exact fun _ => rfl

end Parlance.Analyzer
