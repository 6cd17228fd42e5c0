/-
Leaving groups out.

An expression is ungrouped by putting what a group holds in the place of the group, wherever one
stands in it.  A group of groups leaves what the innermost one holds, and nothing else of the tree
changes, annotations included.  A walk then meets the nodes that it met before, but for the groups.

In a single place it matters whether there is a group: what an assignment sets must be an access,
and a group is none, whatever it holds.  So for statements it is left open what becomes of the
target.  The groups in targets may be left out as all others are, which is what ungrouping means.
Or a target that is a group stays one, and then the statement still means the same.
-/
import Parlance.Checker.Expr
import Parlance.Proofs.Syntax.Bare

namespace Parlance

/-! ### Expressions -/

/-- Whether a node is a group. -/
def Expr.isGroup : Expr → Bool
  | group .. => true
  | _ => false

mutual

/-- An expression without its groups. -/
def Expr.ungroup : Expr → Expr
  | .literal v t => .literal v t
  | .group e _ => e.ungroup
  | .binary op l r t => .binary op l.ungroup r.ungroup t
  | .access name v t => .access name v t
  | .member receiver name v t => .member receiver.ungroup name v t
  | .call name arguments f t => .call name (ungroupExprs arguments) f t
  | .memberCall receiver name arguments f t =>
    .memberCall receiver.ungroup name (ungroupExprs arguments) f t
  | .hole h => .hole h

/-- Expressions without their groups. -/
def ungroupExprs : List Expr → List Expr
  | [] => []
  | e :: es => e.ungroup :: ungroupExprs es

end

/-- An expression without the groups inside of it. One that is a group stays as it is. -/
def Expr.ungroupInside : Expr → Expr
  | .group e t => .group e t
  | e => e.ungroup

namespace Expr

/-- What is ungrouped is no group. -/
@[simp] theorem isGroup_ungroup (e : Expr) : e.ungroup.isGroup = false := by
  induction e using Expr.ungroup.induct (motive_2 := fun _ => True) <;> simp_all [ungroup, isGroup]

theorem ungroupInside_of_not_isGroup {e : Expr} (h : e.isGroup = false) :
    e.ungroupInside = e.ungroup := by
  cases e with
  | group e t => cases h
  | _ => rfl

theorem nodeName_ungroup {e : Expr} (h : e.isGroup = false) : e.ungroup.nodeName = e.nodeName := by
  cases e with
  | group e t => cases h
  | _ => simp only [ungroup] <;> rfl

theorem type?_ungroup {e : Expr} (h : e.isGroup = false) : e.ungroup.type? = e.type? := by
  cases e with
  | group e t => cases h
  | _ => simp only [ungroup, type?]

@[simp] theorem isGroup_ungroupInside (e : Expr) : e.ungroupInside.isGroup = e.isGroup := by
  cases e with
  | group e t => rfl
  | _ => exact isGroup_ungroup _

theorem isAccess_ungroup {e : Expr} (h : e.isAccess = true) : e.ungroup.isAccess = true := by
  cases e with
  | access name v t => rfl
  | member receiver name v t => simp only [ungroup, isAccess]
  | _ => cases h

theorem isCall_ungroup {e : Expr} (h : e.isCall = true) : e.ungroup.isCall = true := by
  cases e with
  | call name arguments f t => simp only [ungroup, isCall]
  | memberCall receiver name arguments f t => simp only [ungroup, isCall]
  | _ => cases h

end Expr

mutual

/-- What is ungrouped already stays as it is. -/
theorem Expr.ungroup_ungroup (e : Expr) : e.ungroup.ungroup = e.ungroup := by
  cases e with
  | literal v t | access name v t | hole h => rfl
  | group e t => rw [Expr.ungroup, e.ungroup_ungroup]
  | binary op l r t => simp only [Expr.ungroup, l.ungroup_ungroup, r.ungroup_ungroup]
  | member receiver name v t => simp only [Expr.ungroup, receiver.ungroup_ungroup]
  | call name arguments f t => simp only [Expr.ungroup, ungroupExprs_ungroupExprs arguments]
  | memberCall receiver name arguments f t =>
    simp only [Expr.ungroup, receiver.ungroup_ungroup, ungroupExprs_ungroupExprs arguments]

theorem ungroupExprs_ungroupExprs (es : List Expr) :
    ungroupExprs (ungroupExprs es) = ungroupExprs es := by
  match es with
  | [] => rfl
  | e :: es => simp only [ungroupExprs, e.ungroup_ungroup, ungroupExprs_ungroupExprs es]

end

/-! ### Expressions that are the same ungrouped -/

/-- No groups, but nodes of one form, whose parts are the same ungrouped. -/
inductive Expr.Matches : Expr → Expr → Prop
  | literal (v : Value) (t : Option Ty) : Matches (.literal v t) (.literal v t)
  | binary (op : Name) {l l' r r' : Expr} (t : Option Ty) (hl : l.ungroup = l'.ungroup)
      (hr : r.ungroup = r'.ungroup) : Matches (.binary op l r t) (.binary op l' r' t)
  | access (name : Name) (v : Option Variable) (t : Option Ty) :
      Matches (.access name v t) (.access name v t)
  | member {e e' : Expr} (name : Name) (v : Option Variable) (t : Option Ty)
      (h : e.ungroup = e'.ungroup) : Matches (.member e name v t) (.member e' name v t)
  | call (name : Name) {as as' : List Expr} (f : Option Function) (t : Option Ty)
      (h : ungroupExprs as = ungroupExprs as') : Matches (.call name as f t) (.call name as' f t)
  | memberCall {e e' : Expr} (name : Name) {as as' : List Expr} (f : Option Function)
      (t : Option Ty) (h : e.ungroup = e'.ungroup) (has : ungroupExprs as = ungroupExprs as') :
      Matches (.memberCall e name as f t) (.memberCall e' name as' f t)
  | hole (h : Hole) : Matches (.hole h) (.hole h)

theorem Expr.matches_of_ungroup_eq {e e' : Expr} (he : e.isGroup = false)
    (he' : e'.isGroup = false) (h : e.ungroup = e'.ungroup) : e.Matches e' := by
  cases e with
  | group e t => cases he
  | literal v t =>
    cases e' with
    | group e t => cases he'
    | literal v' t' =>
      simp only [ungroup, literal.injEq] at h
      obtain ⟨rfl, rfl⟩ := h
      exact .literal v t
    | _ => simp [ungroup] at h
  | binary op l r t =>
    cases e' with
    | group e t => cases he'
    | binary op' l' r' t' =>
      simp only [ungroup, binary.injEq] at h
      obtain ⟨rfl, hl, hr, rfl⟩ := h
      exact .binary op t hl hr
    | _ => simp [ungroup] at h
  | access name v t =>
    cases e' with
    | group e t => cases he'
    | access name' v' t' =>
      simp only [ungroup, access.injEq] at h
      obtain ⟨rfl, rfl, rfl⟩ := h
      exact .access name v t
    | _ => simp [ungroup] at h
  | member e name v t =>
    cases e' with
    | group e t => cases he'
    | member e' name' v' t' =>
      simp only [ungroup, member.injEq] at h
      obtain ⟨h, rfl, rfl, rfl⟩ := h
      exact .member name v t h
    | _ => simp [ungroup] at h
  | call name as f t =>
    cases e' with
    | group e t => cases he'
    | call name' as' f' t' =>
      simp only [ungroup, call.injEq] at h
      obtain ⟨rfl, h, rfl, rfl⟩ := h
      exact .call name f t h
    | _ => simp [ungroup] at h
  | memberCall e name as f t =>
    cases e' with
    | group e t => cases he'
    | memberCall e' name' as' f' t' =>
      simp only [ungroup, memberCall.injEq] at h
      obtain ⟨h, rfl, has, rfl, rfl⟩ := h
      exact .memberCall name f t h has
    | _ => simp [ungroup] at h
  | hole g =>
    cases e' with
    | group e t => cases he'
    | hole g' =>
      simp only [ungroup, hole.injEq] at h
      obtain rfl := h
      exact .hole g
    | _ => simp [ungroup] at h

/-- What is the same but for the groups inside of it is one group, or matches. -/
theorem Expr.matches_of_ungroupInside_eq {e e' : Expr} (h : e.ungroupInside = e'.ungroupInside) :
    (e = e' ∧ e.isGroup = true) ∨ e.Matches e' := by
  have same : e.isGroup = e'.isGroup := by
    rw [← e.isGroup_ungroupInside, ← e'.isGroup_ungroupInside, h]
  cases he : e.isGroup with
  | true =>
    have he' := same.symm.trans he
    cases e with
    | group e t =>
      cases e' with
      | group e' t' => exact .inl ⟨h, he⟩
      | _ => cases he'
    | _ => cases he
  | false =>
    have he' := same.symm.trans he
    rw [ungroupInside_of_not_isGroup he, ungroupInside_of_not_isGroup he'] at h
    exact .inr (matches_of_ungroup_eq he he' h)

/-! ### Statements -/

mutual

/-- A statement without the groups in its expressions, the targets of assignments changed by
`t`. -/
def Stmt.ungroupWith (t : Expr → Expr) : Stmt → Stmt
  | .expression e => .expression e.ungroup
  | .declaration name typeName value v =>
    .declaration name typeName (value.map Expr.ungroup) v
  | .assignment target value => .assignment (t target) value.ungroup
  | .conditional condition thenBody elseBody =>
    .conditional condition.ungroup (ungroupStmtsWith t thenBody) (ungroupStmtsWith t elseBody)
  | .forEach name value body => .forEach name value.ungroup (ungroupStmtsWith t body)
  | .whileLoop condition body => .whileLoop condition.ungroup (ungroupStmtsWith t body)
  | .returning value => .returning value.ungroup
  | .hole h => .hole h

/-- Statements without the groups in their expressions, the targets of assignments changed by
`t`. -/
def ungroupStmtsWith (t : Expr → Expr) : List Stmt → List Stmt
  | [] => []
  | s :: ss => s.ungroupWith t :: ungroupStmtsWith t ss

end

/-- A method whose body is ungrouped, the targets of assignments changed by `t`. -/
def Method.ungroupWith (t : Expr → Expr) (m : Method) : Method :=
  { m with body := ungroupStmtsWith t m.body }

/-- A field without the groups in its value. -/
def Field.ungroup (f : Field) : Field :=
  { f with value := f.value.map Expr.ungroup }

/-- What stands in a place for a field, ungrouped. -/
def FieldPlace.ungroup : FieldPlace → FieldPlace
  | field f => field f.ungroup
  | declaration f => declaration f.ungroup
  | hole h => hole h

/-- What stands in a place for a method, ungrouped, the targets of assignments changed by `t`. -/
def MethodPlace.ungroupWith (t : Expr → Expr) : MethodPlace → MethodPlace
  | method m => method (m.ungroupWith t)
  | untyped m => untyped (m.ungroupWith t)
  | hole h => hole h

/-- A source that is ungrouped, the targets of assignments changed by `t`. -/
def Source.ungroupWith (t : Expr → Expr) (s : Source) : Source :=
  ⟨s.fields.map FieldPlace.ungroup, s.methods.map (MethodPlace.ungroupWith t)⟩

/-- A source without any group. -/
def Source.ungroup (s : Source) : Source :=
  s.ungroupWith Expr.ungroup

/-- Whether a node is an assignment whose target is a group. -/
def Node.setsGroup : Node → Bool
  | stmt (.assignment target _) => target.isGroup
  | _ => false

/-- No assignment has a group for its target. -/
def Source.TargetsUngrouped (s : Source) : Prop :=
  ∀ n ∈ s.walk, n.setsGroup = false

instance (s : Source) : Decidable s.TargetsUngrouped :=
  inferInstanceAs (Decidable (∀ n ∈ s.walk, n.setsGroup = false))

/-! ### Targets -/

section Targets

variable {t t' : Expr → Expr}

@[simp] theorem isEmpty_ungroupStmtsWith (ss : List Stmt) :
    (ungroupStmtsWith t ss).isEmpty = ss.isEmpty := by
  cases ss <;> rfl

mutual

/-- Only what becomes of targets that are met makes a difference. -/
theorem Stmt.ungroupWith_congr (s : Stmt)
    (h : ∀ target value, .stmt (.assignment target value) ∈ s.walk → t target = t' target) :
    s.ungroupWith t = s.ungroupWith t' := by
  cases s with
  | assignment target value =>
    rw [Stmt.ungroupWith, Stmt.ungroupWith, h target value (by simp [Stmt.walk])]
  | conditional condition thenBody elseBody =>
    rw [Stmt.ungroupWith, Stmt.ungroupWith,
      ungroupStmtsWith_congr thenBody fun e v hn => h e v (by simp [Stmt.walk, hn]),
      ungroupStmtsWith_congr elseBody fun e v hn => h e v (by simp [Stmt.walk, hn])]
  | forEach name value body | whileLoop value body =>
    rw [Stmt.ungroupWith, Stmt.ungroupWith,
      ungroupStmtsWith_congr body fun e v hn => h e v (by simp [Stmt.walk, hn])]
  | _ => rfl

theorem ungroupStmtsWith_congr (ss : List Stmt)
    (h : ∀ target value, .stmt (.assignment target value) ∈ walkStmts ss →
      t target = t' target) : ungroupStmtsWith t ss = ungroupStmtsWith t' ss := by
  match ss with
  | [] => rfl
  | s :: ss =>
    rw [ungroupStmtsWith, ungroupStmtsWith,
      s.ungroupWith_congr fun e v hn => h e v (by simp [walkStmts, hn]),
      ungroupStmtsWith_congr ss fun e v hn => h e v (by simp [walkStmts, hn])]

end

theorem MethodPlace.ungroupWith_congr (p : MethodPlace)
    (h : ∀ target value, .stmt (.assignment target value) ∈ p.walk → t target = t' target) :
    p.ungroupWith t = p.ungroupWith t' := by
  cases p with
  | method m | untyped m =>
    simp only [ungroupWith, Method.ungroupWith,
      ungroupStmtsWith_congr m.body fun e v hn => h e v (List.mem_cons_of_mem _ hn)]
  | hole g => rfl

mutual

/-- What is ungrouped twice is ungrouped once, and its targets are changed twice. -/
theorem Stmt.ungroupWith_ungroupWith (s : Stmt) :
    (s.ungroupWith t).ungroupWith t' = s.ungroupWith (t' ∘ t) := by
  cases s with
  | declaration name typeName value v =>
    simp only [Stmt.ungroupWith, Option.map_map, Function.comp_def, Expr.ungroup_ungroup]
  | conditional condition thenBody elseBody =>
    simp only [Stmt.ungroupWith, Expr.ungroup_ungroup,
      ungroupStmtsWith_ungroupStmtsWith thenBody, ungroupStmtsWith_ungroupStmtsWith elseBody]
  | forEach name value body =>
    simp only [Stmt.ungroupWith, Expr.ungroup_ungroup, ungroupStmtsWith_ungroupStmtsWith body]
  | whileLoop condition body =>
    simp only [Stmt.ungroupWith, Expr.ungroup_ungroup, ungroupStmtsWith_ungroupStmtsWith body]
  | _ => simp only [Stmt.ungroupWith, Expr.ungroup_ungroup, Function.comp]

theorem ungroupStmtsWith_ungroupStmtsWith (ss : List Stmt) :
    ungroupStmtsWith t' (ungroupStmtsWith t ss) = ungroupStmtsWith (t' ∘ t) ss := by
  match ss with
  | [] => rfl
  | s :: ss =>
    simp only [ungroupStmtsWith, s.ungroupWith_ungroupWith, ungroupStmtsWith_ungroupStmtsWith ss]

end

theorem MethodPlace.ungroupWith_ungroupWith (p : MethodPlace) :
    (p.ungroupWith t).ungroupWith t' = p.ungroupWith (t' ∘ t) := by
  cases p with
  | method m | untyped m =>
    simp only [ungroupWith, Method.ungroupWith, ungroupStmtsWith_ungroupStmtsWith]
  | hole g => rfl

end Targets

@[simp] theorem FieldPlace.ungroup_ungroup (p : FieldPlace) : p.ungroup.ungroup = p.ungroup := by
  cases p with
  | field f | declaration f =>
    simp only [ungroup, Field.ungroup, Option.map_map, Function.comp_def, Expr.ungroup_ungroup]
  | hole g => rfl

/-- If no target is a group, it makes no difference that such targets are left alone, neither for
the source nor for the one without groups. -/
theorem Source.ungroupWith_inside {s : Source} (h : s.TargetsUngrouped) :
    s.ungroup.ungroupWith Expr.ungroupInside = s.ungroupWith Expr.ungroupInside := by
  have targets : Expr.ungroupInside ∘ Expr.ungroup = Expr.ungroup := by
    funext e
    rw [Function.comp, Expr.ungroupInside_of_not_isGroup e.isGroup_ungroup, e.ungroup_ungroup]
  have fields : (s.fields.map FieldPlace.ungroup).map FieldPlace.ungroup
      = s.fields.map FieldPlace.ungroup := by
    simp
  have methods : (s.methods.map (MethodPlace.ungroupWith Expr.ungroup)).map
      (MethodPlace.ungroupWith Expr.ungroupInside)
        = s.methods.map (MethodPlace.ungroupWith Expr.ungroupInside) := by
    rw [List.map_map]
    refine List.map_congr_left fun p hp => ?_
    rw [Function.comp, p.ungroupWith_ungroupWith, targets]
    refine p.ungroupWith_congr fun target value hn => ?_
    have met : .stmt (.assignment target value) ∈ s.walk :=
      List.mem_cons_of_mem _ (List.mem_append_right _ (List.mem_flatMap.mpr ⟨p, hp, hn⟩))
    exact (Expr.ungroupInside_of_not_isGroup (h _ met)).symm
  unfold ungroup
  rw [ungroupWith, ungroupWith, ungroupWith, fields, methods]

/-! ### Walks -/

/-- Whether a node is a group. -/
def Node.isGroup : Node → Bool
  | expr e => e.isGroup
  | _ => false

/-- A node without the groups below it. -/
def Node.ungroup : Node → Node
  | .source s => .source s.ungroup
  | .field f => .field f.ungroup
  | .method m => .method (m.ungroupWith Expr.ungroup)
  | .stmt s => .stmt (s.ungroupWith Expr.ungroup)
  | .expr e => .expr e.ungroup
  | .stray s => .stray s
  | .gap => .gap

/-- The nodes that are not groups, ungrouped. -/
def ungroupNodes (ns : List Node) : List Node :=
  (ns.filter fun n => !n.isGroup).map Node.ungroup

theorem ungroupNodes_append (ns ms : List Node) :
    ungroupNodes (ns ++ ms) = ungroupNodes ns ++ ungroupNodes ms := by
  simp [ungroupNodes]

theorem ungroupNodes_cons {n : Node} (h : n.isGroup = false) (ns : List Node) :
    ungroupNodes (n :: ns) = n.ungroup :: ungroupNodes ns := by
  simp [ungroupNodes, h]

theorem ungroupNodes_group (e : Expr) (t : Option Ty) (ns : List Node) :
    ungroupNodes (.expr (.group e t) :: ns) = ungroupNodes ns :=
  rfl

theorem ungroupNodes_flatMap {α : Type} (walk : α → List Node) (as : List α) :
    ungroupNodes (as.flatMap walk) = as.flatMap fun a => ungroupNodes (walk a) := by
  induction as with
  | nil => rfl
  | cons a as ih => simp only [List.flatMap_cons, ungroupNodes_append, ih]

theorem Hole.ungroup_walk (h : Hole) : ungroupNodes h.walk = h.walk := by
  have kept : (h.walk.filter fun n => !n.isGroup) = h.walk := by
    refine List.filter_eq_self.mpr fun n hn => ?_
    have := h.outside_walk n hn
    cases n with
    | stray s | gap => rfl
    | _ => exact this.elim
  rw [ungroupNodes, kept]
  refine h.map_walk fun n hn => ?_
  cases n with
  | stray s | gap => rfl
  | _ => exact hn.elim

mutual

theorem Expr.walk_ungroup : (e : Expr) → e.ungroup.walk = ungroupNodes e.walk
  | .literal _ _ | .access _ _ _ => rfl
  | .group e t => by
    rw [Expr.ungroup, Expr.walk, ungroupNodes_group, e.walk_ungroup]
  | .member r _ _ _ => by
    rw [Expr.walk, ungroupNodes_cons rfl, Node.ungroup, Expr.ungroup, Expr.walk, r.walk_ungroup]
  | .binary _ l r _ => by
    rw [Expr.walk, ungroupNodes_cons rfl, Node.ungroup, Expr.ungroup, Expr.walk,
      ungroupNodes_append, l.walk_ungroup, r.walk_ungroup]
  | .call _ as _ _ => by
    rw [Expr.walk, ungroupNodes_cons rfl, Node.ungroup, Expr.ungroup, Expr.walk,
      walkExprs_ungroup as]
  | .memberCall r _ as _ _ => by
    rw [Expr.walk, ungroupNodes_cons rfl, Node.ungroup, Expr.ungroup, Expr.walk,
      ungroupNodes_append, r.walk_ungroup, walkExprs_ungroup as]
  | .hole h => h.ungroup_walk.symm

theorem walkExprs_ungroup : (es : List Expr) →
    walkExprs (ungroupExprs es) = ungroupNodes (walkExprs es)
  | [] => rfl
  | e :: es => by
    rw [ungroupExprs, walkExprs, walkExprs, ungroupNodes_append, e.walk_ungroup,
      walkExprs_ungroup es]

end

theorem walkOption_ungroup (e : Option Expr) :
    walkOption (e.map Expr.ungroup) = ungroupNodes (walkOption e) := by
  cases e with
  | none => rfl
  | some e => exact e.walk_ungroup

mutual

theorem Stmt.walk_ungroup : (s : Stmt) →
    (s.ungroupWith Expr.ungroup).walk = ungroupNodes s.walk
  | .expression e | .returning e => by
    rw [Stmt.walk, ungroupNodes_cons rfl, Node.ungroup, Stmt.ungroupWith, Stmt.walk,
      e.walk_ungroup]
  | .declaration _ _ v _ => by
    rw [Stmt.walk, ungroupNodes_cons rfl, Node.ungroup, Stmt.ungroupWith, Stmt.walk,
      walkOption_ungroup v]
  | .assignment t v => by
    rw [Stmt.walk, ungroupNodes_cons rfl, Node.ungroup, Stmt.ungroupWith, Stmt.walk,
      ungroupNodes_append, t.walk_ungroup, v.walk_ungroup]
  | .conditional c a b => by
    rw [Stmt.walk, ungroupNodes_cons rfl, Node.ungroup, Stmt.ungroupWith, Stmt.walk,
      ungroupNodes_append, ungroupNodes_append, c.walk_ungroup, walkStmts_ungroup a,
      walkStmts_ungroup b]
  | .forEach _ e b | .whileLoop e b => by
    rw [Stmt.walk, ungroupNodes_cons rfl, Node.ungroup, Stmt.ungroupWith, Stmt.walk,
      ungroupNodes_append, e.walk_ungroup, walkStmts_ungroup b]
  | .hole h => h.ungroup_walk.symm

theorem walkStmts_ungroup : (ss : List Stmt) →
    walkStmts (ungroupStmtsWith Expr.ungroup ss) = ungroupNodes (walkStmts ss)
  | [] => rfl
  | s :: ss => by
    rw [ungroupStmtsWith, walkStmts, walkStmts, ungroupNodes_append, s.walk_ungroup,
      walkStmts_ungroup ss]

end

theorem FieldPlace.walk_ungroup (p : FieldPlace) : p.ungroup.walk = ungroupNodes p.walk := by
  cases p with
  | field f | declaration f =>
    rw [walk, ungroupNodes_cons rfl, ← walkOption_ungroup]
    rfl
  | hole h => exact h.ungroup_walk.symm

theorem MethodPlace.walk_ungroup (p : MethodPlace) :
    (p.ungroupWith Expr.ungroup).walk = ungroupNodes p.walk := by
  cases p with
  | method m | untyped m =>
    rw [walk, ungroupNodes_cons rfl, ← walkStmts_ungroup]
    rfl
  | hole h => exact h.ungroup_walk.symm

/-- A walk through the ungrouped source meets the nodes of the source that are not groups. -/
theorem Source.walk_ungroup (s : Source) : s.ungroup.walk = ungroupNodes s.walk := by
  have fields : s.ungroup.fields.flatMap FieldPlace.walk
      = ungroupNodes (s.fields.flatMap FieldPlace.walk) := by
    simp only [ungroupNodes_flatMap, ← FieldPlace.walk_ungroup, ← List.flatMap_map]
    rfl
  have methods : s.ungroup.methods.flatMap MethodPlace.walk
      = ungroupNodes (s.methods.flatMap MethodPlace.walk) := by
    simp only [ungroupNodes_flatMap, ← MethodPlace.walk_ungroup, ← List.flatMap_map]
    rfl
  rw [walk, walk, ungroupNodes_cons rfl, ungroupNodes_append, fields, methods]
  rfl

/-- There is no group in an ungrouped source. -/
theorem Source.isGroup_of_mem_walk_ungroup {s : Source} {n : Node} (hn : n ∈ s.ungroup.walk) :
    n.isGroup = false := by
  rw [walk_ungroup, ungroupNodes, List.mem_map] at hn
  obtain ⟨m, -, rfl⟩ := hn
  cases m with
  | expr e => exact e.isGroup_ungroup
  | _ => rfl

/-- A node that is no group keeps its name and its type. -/
theorem Node.label?_ungroup {n : Node} (h : n.isGroup = false) : n.ungroup.label? = n.label? := by
  have name : n.ungroup.name? = n.name? := by
    cases n with
    | expr e => exact congrArg some (Expr.nodeName_ungroup h)
    | stmt s => cases s <;> simp only [ungroup, Stmt.ungroupWith, name?] <;> rfl
    | field p | method p => cases p <;> rfl
    | _ => rfl
  have type : n.ungroup.type? = n.type? := by
    cases n with
    | expr e => exact Expr.type?_ungroup h
    | _ => rfl
  rw [label?, label?, name, type]

/-- The nodes of an ungrouped source have the names and types that they have in the source. -/
theorem Source.labels_ungroup (s : Source) : s.ungroup.walk.map Node.label?
    = (s.walk.filter fun n => !n.isGroup).map Node.label? := by
  rw [walk_ungroup, ungroupNodes, List.map_map]
  refine List.map_congr_left fun n hn => ?_
  exact Node.label?_ungroup (by simpa using (List.mem_filter.mp hn).2)

end Parlance
