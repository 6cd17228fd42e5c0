/-
What the check of the entry point reads.

Of the places for methods it reads only which of them hold an entry point and what these promise.
So two sources that agree in this, place by place, pass it alike.
-/
import Parlance.Checker.Source
import Parlance.Proofs.Basic

namespace Parlance

/-- The result type that the entry point in a place names, if one stands there. -/
def MethodPlace.promise? (p : MethodPlace) : Except Fault (Option (Option Text)) :=
  p.entryPoint?.map (Option.map Method.returnTypeName)

/-- The places of a source, by what the entry points in them promise. -/
theorem mapM_promise? (ps : List MethodPlace) : (ps.map MethodPlace.promise?).mapM id
    = (ps.mapM MethodPlace.entryPoint?).map (List.map (Option.map Method.returnTypeName)) := by
  induction ps with
  | nil => rfl
  | cons p ps ih =>
    rw [List.map_cons, List.mapM_cons, List.mapM_cons, ih, MethodPlace.promise?]
    cases p.entryPoint? with
    | error f => rfl
    | ok o => cases ps.mapM MethodPlace.entryPoint? <;> rfl

/-- The check of the entry point, told by the promises alone. -/
theorem Source.checkEntryPoint_eq (s : Source) : s.checkEntryPoint
    = ((s.methods.map MethodPlace.promise?).mapM id).bind fun promises =>
        match (promises.filterMap id).getLast? with
        | none => .error (.check .noEntryPoint)
        | some promise =>
          if promise = some Builtin.integer.name then .ok ()
          else .error (.check (.entryPointResult
            ((nonempty? promise).getD Builtin.nil.name))) := by
  rw [mapM_promise?]
  unfold checkEntryPoint entryPoints
  cases s.methods.mapM MethodPlace.entryPoint? with
  | error f => rfl
  | ok os =>
    have promises : (os.map (Option.map Method.returnTypeName)).filterMap id
        = (os.filterMap id).map Method.returnTypeName := by
      rw [List.filterMap_map, List.map_filterMap]
      rfl
    simp only [Except.map, Except.bind, bind, pure, Except.pure, promises, List.getLast?_map]
    cases (os.filterMap id).getLast? <;> rfl

/-- Sources with the same promises pass the check of the entry point alike. -/
theorem Source.checkEntryPoint_congr {s s' : Source}
    (h : s'.methods.map MethodPlace.promise? = s.methods.map MethodPlace.promise?) :
    s'.checkEntryPoint = s.checkEntryPoint := by
  rw [s.checkEntryPoint_eq, s'.checkEntryPoint_eq, h]

/-- Methods that agree in name, result and whether they take anything are entry points alike. -/
theorem Method.entryPoint_congr {m m' : Method} (hname : m'.name = m.name)
    (hparameters : m'.parameters.isEmpty = m.parameters.isEmpty)
    (hreturn : m'.returnTypeName = m.returnTypeName) :
    (if m'.isEntryPoint then some m' else none).map Method.returnTypeName
      = (if m.isEntryPoint then some m else none).map Method.returnTypeName := by
  have : m'.isEntryPoint = m.isEntryPoint := by
    simp only [Method.isEntryPoint, hname, hparameters]
  rw [this]
  split
  · exact congrArg some hreturn
  · rfl

end Parlance
