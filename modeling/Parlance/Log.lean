/-
Log records.

The passes report their progress.  A record is kept as what happened, and becomes a line
only where it is shown.
-/
import Parlance.Fault

namespace Parlance

/-- A report of progress. -/
inductive LogRecord where
  /-- The checker has declared a method. -/
  | checkedMethod (name : Name) (arity : Nat)
  /-- The checker has gone through a source. -/
  | analysed (fields methods : Nat)
  /-- The program in a file has passed the checker. -/
  | passed (path : Text)
  /-- The evaluator has declared a method. -/
  | declaredMethod (name : Name) (arity : Nat)
  /-- The evaluator is about to call the entry point. -/
  | entering
  /-- The entry point has returned. -/
  | returned (text : Text)
deriving DecidableEq, Repr

/-- A record as a line, without the line's end. -/
def LogRecord.line : LogRecord → Text
  | checkedMethod n k => "plc.analyzer: registered method " ++ n.getD "" ++ "/" ++ Fault.count k
  | analysed f m =>
    "plc.analyzer: analysis complete: " ++ Fault.count f ++ " fields, " ++ Fault.count m
      ++ " methods"
  | passed p => "plc.cli: " ++ p ++ ": analysis passed"
  | declaredMethod n k => "plc.interpreter: registered method " ++ n.getD "" ++ "/" ++ Fault.count k
  | entering => "plc.interpreter: invoking main/0"
  | returned t => "plc.interpreter: main/0 returned " ++ t

end Parlance
