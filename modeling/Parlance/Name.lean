/-
Names.

A variable, a function, a member and an operator are known by name.  In a tree that was put
together by hand a name may be missing.  Tables and scopes only compare names, and to them
a missing name is one name more; but no message can be made about it.
-/
import Parlance.Text.Basic

namespace Parlance

/-- The name of something, which may be missing. -/
abbrev Name := Option Text

/-- A text that is given, unless it is empty. -/
def nonempty? (given : Option Text) : Option Text :=
  given.filter (· ≠ "")

end Parlance
