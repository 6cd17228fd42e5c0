/-
Leaving out what stands after a `RETURN`.

A list of statements is trimmed by leaving out everything after its first `RETURN`, and trimming
the lists inside the statements that are left.  Nothing else of a tree changes, and what stands in
holes is no statement of the tree.
-/
import Parlance.Syntax.Basic

namespace Parlance

mutual

/-- A statement, the lists inside of it trimmed. -/
def Stmt.trim : Stmt → Stmt
  | .expression e => .expression e
  | .declaration name typeName value v => .declaration name typeName value v
  | .assignment target value => .assignment target value
  | .conditional condition thenBody elseBody =>
    .conditional condition (trimStmts thenBody) (trimStmts elseBody)
  | .forEach name value body => .forEach name value (trimStmts body)
  | .whileLoop condition body => .whileLoop condition (trimStmts body)
  | .returning value => .returning value
  | .hole h => .hole h

/-- The statements up to and including the first `RETURN`, the lists inside of them trimmed. -/
def trimStmts : List Stmt → List Stmt
  | [] => []
  | .returning value :: _ => [.returning value]
  | s :: ss => s.trim :: trimStmts ss

end

/-- A method with its body trimmed. -/
def Method.trim (m : Method) : Method :=
  { m with body := trimStmts m.body }

/-- What stands in a place for a method, trimmed. -/
def MethodPlace.trim : MethodPlace → MethodPlace
  | method m => method m.trim
  | untyped m => untyped m.trim
  | hole h => hole h

/-- A source with every list of statements in it trimmed. -/
def Source.trim (s : Source) : Source :=
  { s with methods := s.methods.map MethodPlace.trim }

/-- Whether a statement is a `RETURN`. -/
def Stmt.isReturn : Stmt → Bool
  | returning _ => true
  | _ => false

@[simp] theorem Stmt.isReturn_trim (s : Stmt) : s.trim.isReturn = s.isReturn := by
  cases s <;> simp [trim, isReturn]

/-- A statement that is no `RETURN` is kept, and what stands after it is trimmed. -/
theorem trimStmts_cons {s : Stmt} (hs : s.isReturn = false) (ss : List Stmt) :
    trimStmts (s :: ss) = s.trim :: trimStmts ss := by
  cases s with
  | returning value => cases hs
  | _ => rw [trimStmts]; nofun

/-- What stands before the first `RETURN` is kept, and nothing that stands after it. -/
theorem trimStmts_append_returning {before : List Stmt} (h : ∀ s ∈ before, s.isReturn = false)
    (value : Expr) (after : List Stmt) :
    trimStmts (before ++ .returning value :: after)
      = before.map Stmt.trim ++ [.returning value] := by
  induction before with
  | nil => rfl
  | cons s ss ih =>
    obtain ⟨hs, hss⟩ := List.forall_mem_cons.mp h
    rw [List.cons_append, trimStmts_cons hs, ih hss]
    rfl

@[simp] theorem isEmpty_trimStmts (ss : List Stmt) : (trimStmts ss).isEmpty = ss.isEmpty := by
  cases ss with
  | nil => simp [trimStmts]
  | cons s ss => cases s <;> simp [trimStmts]

mutual

/-- What is trimmed already stays as it is. -/
theorem Stmt.trim_trim (s : Stmt) : s.trim.trim = s.trim := by
  cases s with
  | conditional condition thenBody elseBody =>
    simp only [Stmt.trim, trimStmts_trimStmts]
  | forEach name value body => simp only [Stmt.trim, trimStmts_trimStmts]
  | whileLoop condition body => simp only [Stmt.trim, trimStmts_trimStmts]
  | _ => rfl

theorem trimStmts_trimStmts (ss : List Stmt) : trimStmts (trimStmts ss) = trimStmts ss := by
  match ss with
  | [] => simp only [trimStmts]
  | s :: ss =>
    cases hs : s.isReturn with
    | false =>
      rw [trimStmts_cons hs, trimStmts_cons (s.isReturn_trim.trans hs), Stmt.trim_trim,
        trimStmts_trimStmts ss]
    | true =>
      cases s with
      | returning value => simp only [trimStmts]
      | _ => cases hs

end

@[simp] theorem Method.trim_trim (m : Method) : m.trim.trim = m.trim := by
  simp only [trim, trimStmts_trimStmts]

@[simp] theorem MethodPlace.trim_trim (p : MethodPlace) : p.trim.trim = p.trim := by
  cases p <;> simp [trim]

@[simp] theorem Source.trim_trim (s : Source) : s.trim.trim = s.trim := by
  simp [trim]

end Parlance
