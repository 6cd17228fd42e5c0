/-
The name of a parameter is the method's own affair.

A parameter of a method may be given any other name, in the list of parameters and wherever a
variable is declared or accessed in the body, as long as the name is not that of a variable in the
method yet.  It may be that of a field, of a variable of the host or of a variable in another
method.  The source that results is accepted if the first one is, with the same types, and it runs
the same.

The renaming behind this exchanges the two names.  Nothing in the method tells it from the
replacement, since the new name does not occur there, but it can be undone.
-/
import Parlance.Proofs.Paired.Checked
import Parlance.Proofs.Paired.Symmetry
import Parlance.Proofs.Paired.Walk
import Parlance.Proofs.Renamed.Running
import Parlance.Proofs.Running.Safe

namespace Parlance

/-! ### Renaming a parameter -/

/-- One name in place of another. -/
def Name.replace (x y : Text) (n : Name) : Name :=
  if n = some x then some y else n

/-- What stands in a place for a method, with variables renamed. -/
def MethodPlace.rename (f : Name → Name) : MethodPlace → MethodPlace
  | method m => method (m.rename f)
  | untyped m => untyped (m.rename f)
  | hole h => hole h

/-- The source with one name of a variable replaced by another in one of its methods. -/
def Source.renameVariable (s : Source) (i : Nat) (x y : Text) : Source :=
  { s with methods := s.methods.modify i (MethodPlace.rename (Name.replace x y)) }

/-- The parameter `x` of the method may be named `y`, which is no variable's name in it. -/
structure Method.MayRename (m : Method) (x y : Text) : Prop where
  parameter : some x ∈ m.parameters
  fresh : some y ∉ m.parameters
  unused : ∀ n ∈ walkStmts m.body, n.variable? ≠ some (some y)

/-- Two runs end alike: with the same value, or with faults that are reported alike, or both for
want of fuel, and with the same values in all variables and the same output. -/
inductive EndsAlike :
    EStateM.Result Stop Store Value → EStateM.Result Stop Store Value → Prop
  | value {v : Value} {σ τ : Store} (h : σ.SameValues τ) : EndsAlike (.ok v σ) (.ok v τ)
  | fault {f g : Fault} {σ τ : Store} (hf : f.Similar g) (h : σ.SameValues τ) :
      EndsAlike (.error (.fault f) σ) (.error (.fault g) τ)
  | outOfFuel {σ τ : Store} (h : σ.SameValues τ) :
      EndsAlike (.error .outOfFuel σ) (.error .outOfFuel τ)

namespace Renamed

variable {x y : Text}

/-- The exchange of two names, the first of which is a parameter's. -/
def swap (x y : Text) : Renaming where
  name n := if n = some x then some y else if n = some y then some x else n
  own n := n = some x
  injective := by grind

theorem swap_name (x y : Text) : (swap x y).name (some x) = some y := by
  simp only [swap, if_true]

theorem swap_eq_replace {n : Name} (hn : n ≠ some y) : (swap x y).name n = n.replace x y := by
  simp only [swap, Name.replace, if_neg hn]

theorem swap_undone (x y : Text) : (swap x y).Undone (swap y x) := by
  have back (n : Name) : (swap y x).name ((swap x y).name n) = n := by
    simp only [swap]
    grind
  refine ⟨back, ?_⟩
  rintro n (rfl | hn)
  · exact .inl (by simp only [swap, if_true])
  · refine .inr ?_
    rw [back, hn]

/-! ### The two methods -/

variable {k : Likeness} {m : Method}

theorem rename_eq (h : m.MayRename x y) :
    m.rename (Name.replace x y) = m.rename (swap x y).name := by
  have parameters : m.parameters.map (Name.replace x y) = m.parameters.map (swap x y).name :=
    List.map_congr_left fun n hn =>
      (swap_eq_replace fun he => h.fresh (he ▸ hn)).symm
  have body : renameStmts (Name.replace x y) m.body = renameStmts (swap x y).name m.body :=
    renameStmts_congr m.body fun n hn name hname =>
      (swap_eq_replace fun he => h.unused n hn (he ▸ hname)).symm
  rw [Method.rename, Method.rename, parameters, body]

/-- The method and itself with its parameter renamed. -/
theorem alike_method (hk : k.Reflexive) (hliterals : ∀ v, k.literals v) (h : m.MayRename x y) :
    m.Alike k (swap x y) (m.rename (Name.replace x y)) := by
  rw [rename_eq h]
  refine m.alike_rename hk (fun n hn => hn ▸ h.parameter) fun n hn => ?_
  unfold Node.Fits
  split
  · exact hliterals _
  · next name _ _ =>
    -- Any name but the parameter's may be that of a variable outside, so it has to stay.
    by_cases hx : name = some x
    · exact .inl hx
    · have hy : name ≠ some y := fun he => h.unused _ hn (congrArg some he)
      refine .inr ?_
      rw [swap_eq_replace hy, Name.replace, if_neg hx]
  · trivial

/-! ### The two sources -/

section Sources

variable {s : Source} {i : Nat} (hm : (s.methods[i]?.bind MethodPlace.method?) = some m)
include hm

/-- What holds of the method and its counterpart holds of the places in which they stand. -/
theorem of_method {R : MethodPlace → MethodPlace → Prop}
    (hmethod : R (.method m) (.method (m.rename (Name.replace x y))))
    (huntyped : R (.untyped m) (.untyped (m.rename (Name.replace x y)))) :
    ∀ p, s.methods[i]? = some p → R p (p.rename (Name.replace x y)) := by
  intro p hp
  rw [hp] at hm
  cases p with
  | hole g => cases hm
  | _ =>
    cases hm
    assumption

variable (h : m.MayRename x y) (hk : k.Reflexive) (hliterals : ∀ v, k.literals v)
  (hsame : k.renamings .same)
include h hk hliterals hsame

theorem alike_source (hswap : k.renamings (swap x y)) : s.Alike k (s.renameVariable i x y) := by
  have refl := Source.alike_refl hk hsame (Source.fits_of_literals hliterals s)
  have renamed := alike_method hk hliterals h
  exact ⟨refl.fields, forall₂_modify (List.forall₂_same.mp refl.methods)
    (of_method hm (.method hswap renamed) (.untyped hswap renamed))⟩

theorem source_alike (hsymm : k.Symmetric) (hswap : k.renamings (swap y x)) :
    (s.renameVariable i x y).Alike k s := by
  have refl := Source.alike_refl hk hsame (Source.fits_of_literals hliterals s)
  have renamed := (alike_method hk hliterals h).symm hsymm (swap_undone x y) fun n hn =>
    ⟨some x, rfl, (swap_name x y).trans hn.symm⟩
  have unchanged : ∀ p ∈ s.methods, flip (MethodPlace.Alike k) p p :=
    fun p hp => List.forall₂_same.mp refl.methods p hp
  have methods : List.Forall₂ (flip (MethodPlace.Alike k)) s.methods
      (s.renameVariable i x y).methods :=
    forall₂_modify unchanged (of_method hm (.method hswap renamed) (.untyped hswap renamed))
  exact ⟨refl.fields, methods.flip⟩

end Sources

/-! ### Checking -/

/-- Checks of sources with other names of variables: what is declared outside of methods is the
same, and types are. -/
def collation : Collation where
  types := Eq
  names _ _ := True
  typeNames _ := Eq
  stores := Eq

theorem open_refl (t : Option Ty) : collation.Open t t := by
  cases t with
  | none => exact .none
  | some t => exact .some rfl

theorem eq_of_open {t t' : Option Ty} (h : collation.Open t t') : t' = t := by
  cases h with
  | none => rfl
  | some h => rw [show _ = _ from h]

theorem variables_refl (v : Variable) : collation.Variables v v :=
  ⟨trivial, trivial, open_refl _⟩

theorem functions_refl (f : Function) : collation.Functions f f :=
  ⟨rfl, rfl, List.forall₂_same.mpr fun t _ => open_refl t, open_refl _⟩

theorem collation_lawful (p : Pass) : collation.Lawful p p where
  name_eq h := congrArg Ty.name (show _ = _ from h).symm
  builtin _ := rfl
  names _ := trivial
  typeNames h := .inl (Eq.symm h)
  inferred _ h := nomatch (show some _ = none from h)
  type h ht := ⟨_, (show _ = _ from h) ▸ ht, rfl⟩
  scopeVariable h hs := ⟨_, (show _ = _ from h) ▸ hs, variables_refl _⟩
  scopeFunction h hr := ⟨_, (show _ = _ from h) ▸ hr, functions_refl _⟩
  memberVariable h ht hs := by
    cases h
    cases ht
    exact ⟨_, hs, variables_refl _⟩
  memberFunction h ht hr := by
    cases h
    cases ht
    exact ⟨_, hr, functions_refl _⟩
  addVariable h ht hfree := by
    cases h
    cases eq_of_open ht
    exact ⟨hfree, rfl⟩
  declareFunction h hts hr hd := by
    cases h
    cases hr
    cases List.forall₂_eq_eq_eq ▸ (show List.Forall₂ Eq _ _ from hts)
    exact ⟨_, _, hd, functions_refl _, rfl⟩
  report r h := congrArg (Store.report · r) (show _ = _ from h)

theorem tree_types : collation.tree.TypesBy id :=
  Correspondence.tree_typesBy _ fun h => (show _ = _ from h).symm

theorem given_reflexive : collation.given.Reflexive :=
  ⟨fun _ _ => rfl, fun _ => trivial, fun _ => trivial, fun _ => trivial⟩

theorem given_loose : collation.given.Looser collation.given :=
  Correspondence.given_loose fun _ h => h

theorem given_symmetric : collation.given.Symmetric :=
  ⟨Eq.symm, fun _ => trivial, fun _ => trivial, fun _ => trivial⟩

/-! ### Running -/

theorem similar_swap (x y : Text) : code.renamings (swap x y) := by
  intro n
  simp only [swap]
  split
  · next hn => rw [hn]; rfl
  · split
    · next hn => rw [hn]; rfl
    · rfl

theorem endsAlike {r r' : EStateM.Result Stop Store Value}
    (h : pairing.Results pairing.Same r r') : EndsAlike r r' := by
  cases h with
  | ok h hs =>
    cases h.1
    exact .value (Relocation.Stores.sameValues Eq.symm hs)
  | fault h hs => exact .fault h (Relocation.Stores.sameValues Eq.symm hs)
  | outOfFuel hs => exact .outOfFuel (Relocation.Stores.sameValues Eq.symm hs)
  | excused h => exact (Relocation.not_narrows Eq.symm h.2).elim

/-- **Renaming a parameter cannot be observed.** The source is accepted if it was accepted before,
and then each node has the same types. Whether it is accepted or not, it runs the same: both runs
have the same value, or stop for faults that are reported alike, and leave the same values in all
variables outside of methods and the same output. -/
theorem rename_unobservable {s : Source} {i : Nat} {m : Method} {x y : Text}
    (hm : (s.methods[i]?.bind MethodPlace.method?) = some m) (h : m.MayRename x y) (host : Host)
    (σ : Store) :
    ((s.analyze host σ).verdict = .ok () ↔
      ((s.renameVariable i x y).analyze host σ).verdict = .ok ()) ∧
    ((s.analyze host σ).verdict = .ok () →
      List.Forall₂ Node.SameTypes (s.analyze host σ).tree.walk
        ((s.renameVariable i x y).analyze host σ).tree.walk) ∧
    ∀ fuel, EndsAlike (s.evaluate host fuel σ) ((s.renameVariable i x y).evaluate host fuel σ) := by
  have lawful := collation_lawful (host.checker σ).1
  have there := alike_source hm h given_reflexive (fun _ => trivial) (fun _ => trivial)
    fun _ => trivial
  have back := source_alike hm h given_reflexive (fun _ => trivial) (fun _ => trivial)
    given_symmetric fun _ => trivial
  refine ⟨⟨fun hs => ?_, fun hs => ?_⟩, fun hs => ?_, fun fuel => endsAlike ?_⟩
  · exact (lawful.checkSource given_loose rfl there hs).1
  · exact (lawful.checkSource given_loose rfl back hs).1
  · exact ((lawful.checkSource given_loose rfl there hs).2.walk tree_types).imp
      fun _ _ h => h.sameTypes
  · have alike := alike_source hm h code_reflexive (fun _ => trivial) (fun _ => .refl _)
      (similar_swap x y)
    exact pairing_lawful.evaluate (Relocation.passes_refl _) alike (Relocation.stores_refl _ rfl)

/-- A method that adds up the numbers from its parameter down. It shadows its parameter in a branch,
calls a method that changes a field, and calls itself. -/
def summing : Method where
  name := "sum"
  parameters := ["n"]
  parameterTypeNames := ["Integer"]
  returnTypeName := "Integer"
  body :=
    [.conditional (.binary "==" (.access "n" none none) (.literal (.integer 0) none) none)
      [.declaration "n" none (some (.literal (.integer 7) none)) none,
        .returning (.access "n" none none)] [],
      .expression (.call "step" [] none none),
      .returning (.binary "+" (.access "n" none none)
        (.call "sum" [.binary "-" (.access "n" none none) (.literal (.integer 1) none) none]
          none none) none)]
  bound := none

/-- A source that counts in the field `total` how often it adds. -/
def counting : Source where
  fields := [.field ⟨"total", none, some (.literal (.integer 0) none), none⟩]
  methods :=
    [.method ⟨"step", [], [], none,
        [.assignment (.access "total" none none)
          (.binary "+" (.access "total" none none) (.literal (.integer 1) none) none)], none⟩,
      .method summing,
      .method ⟨"main", [], [], some "Integer",
        [.returning (.binary "*" (.call "sum" [.literal (.integer 2) none] none none)
          (.access "total" none none) none)], none⟩]

/-- The parameter may be named like the field: the method that is called still finds the field. -/
theorem rename_unobservable_total :
    (counting.methods[1]?.bind MethodPlace.method?) = some summing ∧
    summing.MayRename "n" "total" ∧
    ((counting.renameVariable 1 "n" "total").analyze .none .initial).verdict = .ok () ∧
    ∃ σ, (counting.renameVariable 1 "n" "total").evaluate .none 30 .initial
      = .ok (.integer 20) σ := by
  have place : (counting.methods[1]?.bind MethodPlace.method?) = some summing := rfl
  have may : summing.MayRename "n" "total" := by
    refine ⟨by decide, by decide, ?_⟩
    simp [summing, walkStmts, Stmt.walk, Expr.walk, walkExprs, walkOption, Node.variable?]
  obtain ⟨verdict, -, ends⟩ := rename_unobservable place may .none .initial
  obtain ⟨τ, run⟩ := Eval.exists_of_answer? (a := Value.integer 20) (σ := .initial)
    (x := counting.evaluate .none 30) (by decide +kernel)
  have alike := ends 30
  rw [run] at alike
  generalize (counting.renameVariable 1 "n" "total").evaluate .none 30 .initial = r at alike
  cases alike with
  | value _ => exact ⟨place, may, verdict.mp (by decide +kernel), _, rfl⟩

end Renamed

end Parlance
