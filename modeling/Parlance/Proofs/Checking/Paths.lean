/-
What the check has established at a place of a method.

The check goes through the body of a method as the text does, and at each place it has declared
the variables that are in scope there: so the statements from there on are in order in the blocks
that are read off the text.  Each of these variables is made by the node of the method that the
text has in the same position, and by no other node in scope, since the names of a block are
distinct and a variable knows the depth of its block.
-/
import Mathlib.Data.List.Nodup
import Parlance.Proofs.Checking.Source
import Parlance.Proofs.Syntax.Paths

namespace Parlance

/-! ### Blocks in which every variable has a description of its own -/

/-- A variable with a name that is free joins a block. -/
theorem nodup_names_append {block : List Variable} {v : Variable}
    (hn : (block.map Variable.name).Nodup)
    (hfree : ¬(block.any fun w => w.name == v.name) = true) :
    ((block ++ [v]).map Variable.name).Nodup := by
  rw [List.map_append]
  refine List.nodup_append.mpr ⟨hn, List.nodup_singleton _, ?_⟩
  rintro n hmem n' hmem' rfl
  obtain ⟨w, hw, hname⟩ := List.mem_map.mp hmem
  rw [List.map_cons, List.map_nil, List.mem_singleton] at hmem'
  exact hfree (List.any_eq_true.mpr ⟨w, hw, by simpa using hname.trans hmem'⟩)

/-- No two variables of a block have one name, and each knows the depth of its block. -/
inductive Blocks.Distinct : Blocks → Prop
  | nil : Distinct []
  | cons {block : List Variable} {outer : Blocks} (names : (block.map Variable.name).Nodup)
      (homes : ∀ v ∈ block, v.home = .block outer.length) (h : Distinct outer) :
      Distinct (block :: outer)

namespace Blocks.Distinct

variable {blocks : Blocks}

theorem home_lt (h : blocks.Distinct) {v : Variable} (hv : v ∈ blocks.flatten) :
    ∃ depth < blocks.length, v.home = .block depth := by
  induction h with
  | nil => cases hv
  | cons _ homes _ ih =>
    rcases List.mem_append.mp hv with hv | hv
    · exact ⟨_, Nat.lt_succ_self _, homes v hv⟩
    · obtain ⟨depth, hlt, hhome⟩ := ih hv
      exact ⟨depth, Nat.lt_succ_of_lt hlt, hhome⟩

theorem nodup (h : blocks.Distinct) : blocks.flatten.Nodup := by
  induction h with
  | nil => exact List.nodup_nil
  | cons names homes h ih =>
    refine List.nodup_append.mpr ⟨names.of_map _, ih, ?_⟩
    rintro v hv w hw rfl
    obtain ⟨depth, hlt, hhome⟩ := h.home_lt hw
    rw [homes v hv] at hhome
    cases hhome
    exact Nat.lt_irrefl _ hlt

/-- A declaration keeps the blocks distinct. -/
theorem grow {c : Context} (h : c.blocks.Distinct) (hne : c.blocks ≠ []) {name : Name}
    {t : Option Ty} {v : Variable} (hv : c.declare name t = .ok v) :
    Distinct (grow (some v) c.blocks) := by
  obtain ⟨σ, pass, blocks, returns?⟩ := c
  cases h with
  | nil => exact absurd rfl hne
  | @cons block outer names homes h =>
    simp only [Context.declare] at hv
    split at hv
    · cases hv
    · next hfree =>
      cases hv
      refine .cons (nodup_names_append names hfree) ?_ h
      intro w hw
      rcases List.mem_append.mp hw with hw | hw
      · exact homes w hw
      · rw [List.mem_singleton.mp hw]

end Blocks.Distinct

/-! ### Places of a method -/

/-- The check has found a method in order: in this place, that of the body, its parameters are
declared and the statements of the body are typed. -/
structure Method.Checked (m : Method) (c : Context) : Prop where
  blocks : c.blocks = [m.parameterVariables]
  names : m.parameterVariables.map Variable.name = m.parameters
  distinct : m.parameters.Nodup
  body : Stmt.AllTyped c m.body

/-- Parameters that have got a block have distinct names. -/
theorem nodup_of_parameterBlock {names : List Name} {types : List Ty} {block block' : List Variable}
    (hn : (block.map Variable.name).Nodup)
    (h : parameterBlock (names.zip types) block = .ok block') :
    (block'.map Variable.name).Nodup := by
  induction names generalizing types block with
  | nil =>
    cases h
    exact hn
  | cons name names ih =>
    cases types with
    | nil =>
      cases h
      exact hn
    | cons t types =>
      rw [List.zip_cons_cons, parameterBlock] at h
      split at h
      · cases h
      · next hfree => exact ih (nodup_names_append hn hfree) h

/-- A method that is in order has been checked in a place of that pass and store. -/
theorem Pass.AddsMethod.checked {pass : Pass} {σ τ : Store} {m : Method} {f : Function}
    (h : pass.AddsMethod σ m f τ) : ∃ c, c.pass = pass ∧ c.store = τ ∧ m.Checked c := by
  obtain ⟨types, result, block, hl, hpt, -, -, -, hblock, hbody⟩ := h.body
  have hvars : block = m.parameterVariables := by
    rw [Method.parameterVariables, h.bound]
    simpa [← hpt] using parameterBlock_ok hl hblock
  have hnames : m.parameterVariables.map Variable.name = m.parameters := by
    rw [← hvars, parameterBlock_ok hl hblock]
    exact List.ext_getElem (by simp [hl]) fun i hi hi' => by simp
  refine ⟨_, rfl, rfl, hvars ▸ rfl, hnames, ?_, hbody⟩
  have hnil : (List.map Variable.name []).Nodup := List.nodup_nil
  rw [← hnames, ← hvars]
  exact nodup_of_parameterBlock hnil hblock

/-- The place of the check that a place in the text stands for, when `c` is that of the body. -/
def Method.context (m : Method) (c : Context) (p : Path) : Context :=
  { c with blocks := m.blocks p }

namespace Method.Checked

variable {m : Method} {c : Context} {p : Path} {ss : List Stmt} (h : m.Checked c)

include h

/-- The statements from a place on are in order there. -/
theorem rest (hr : p.rest? m.body = some ss) : Stmt.AllTyped (m.context c p) ss := by
  induction p generalizing ss with
  | start =>
    cases hr
    have hc : m.context c .start = c := by rw [Method.context, Method.blocks, ← h.blocks]
    exact hc ▸ h.body
  | next p ih =>
    obtain ⟨s, hs⟩ := Path.rest?_next.mp hr
    cases ih hs with
    | @cons _ _ d _ hd hss =>
      have hc : (m.context c p).extend d = m.context c (.next p) := by
        have hblocks : m.blocks (.next p) = grow d (m.blocks p) := by
          rw [Method.blocks, Path.stmt?_of_rest? hs, Option.bind_some, hd.declared?_eq]
        simp only [Context.extend_eq, Method.context, hblocks]
      exact hc ▸ hss
  | inThen p ih =>
    obtain ⟨e, ss', after, hs⟩ := Path.rest?_inThen.mp hr
    cases ih hs with
    | cons hd _ =>
      cases hd with
      | conditional _ _ _ ht _ => exact ht
  | inElse p ih =>
    obtain ⟨e, ss', after, hs⟩ := Path.rest?_inElse.mp hr
    cases ih hs with
    | cons hd _ =>
      cases hd with
      | conditional _ _ _ _ he => exact he
  | inFor p ih =>
    obtain ⟨name, e, after, hs⟩ := Path.rest?_inFor.mp hr
    cases ih hs with
    | cons hd _ =>
      cases hd with
      | forEach _ _ _ hss =>
        have hc : (m.context c p).enter [(m.context c p).blocks.item name]
            = m.context c (.inFor p) := by
          simp only [Method.context, Context.enter, Method.blocks, Path.stmt?_of_rest? hs]
        exact hc ▸ hss
  | inWhile p ih =>
    obtain ⟨e, after, hs⟩ := Path.rest?_inWhile.mp hr
    cases ih hs with
    | cons hd _ =>
      cases hd with
      | whileLoop _ _ hss => exact hss

/-- The statement at a place declares what it is annotated with. -/
theorem stmt {s : Stmt} (hr : p.rest? m.body = some (s :: ss)) :
    s.Typed (m.context c p) s.declared? := by
  cases h.rest hr with
  | cons hs _ => exact hs.declared?_eq.symm ▸ hs

omit h in
theorem blocks_ne_nil (p : Path) : m.blocks p ≠ [] := by
  induction p with
  | start => exact List.cons_ne_nil _ _
  | next p ih =>
    intro hnil
    have hlen := congrArg List.length hnil
    rw [Method.blocks, length_grow] at hlen
    exact ih (List.length_eq_zero_iff.mp hlen)
  | inFor p =>
    rw [Method.blocks]
    split <;> exact List.cons_ne_nil _ _
  | _ => exact List.cons_ne_nil _ _

theorem distinct_blocks (hr : p.rest? m.body = some ss) : (m.blocks p).Distinct := by
  induction p generalizing ss with
  | start =>
    refine .cons (h.names ▸ h.distinct) ?_ .nil
    intro v hv
    unfold Method.parameterVariables at hv
    split at hv
    · obtain ⟨i, hi⟩ := List.mem_iff_getElem?.mp hv
      obtain ⟨n, t, -, -, rfl⟩ := List.getElem?_zipWith_eq_some.mp hi
      rfl
    · obtain ⟨n, -, rfl⟩ := List.mem_map.mp hv
      rfl
  | next p ih =>
    obtain ⟨s, hs⟩ := Path.rest?_next.mp hr
    have hd := h.stmt hs
    rw [Method.blocks, Path.stmt?_of_rest? hs, Option.bind_some]
    cases hdecl : s.declared? with
    | none => simpa using ih hs
    | some v =>
      rw [hdecl] at hd
      cases hd with
      | declaration _ hv => exact (ih hs).grow (c := m.context c p) (blocks_ne_nil p) hv
  | inFor p ih =>
    obtain ⟨name, e, after, hs⟩ := Path.rest?_inFor.mp hr
    simp only [Method.blocks, Path.stmt?_of_rest? hs]
    refine .cons (List.nodup_singleton _) ?_ (ih hs)
    intro v hv
    rw [List.mem_singleton.mp hv]
    rfl
  | inThen p ih =>
    obtain ⟨_, _, _, hs⟩ := Path.rest?_inThen.mp hr
    exact .cons List.nodup_nil nofun (ih hs)
  | inElse p ih =>
    obtain ⟨_, _, _, hs⟩ := Path.rest?_inElse.mp hr
    exact .cons List.nodup_nil nofun (ih hs)
  | inWhile p ih =>
    obtain ⟨_, _, hs⟩ := Path.rest?_inWhile.mp hr
    exact .cons List.nodup_nil nofun (ih hs)

/-- The nodes in scope at a place make the variables in scope there, one by one. -/
theorem map_makers (hr : p.rest? m.body = some ss) :
    (m.makers p).map (List.map (Maker.made? m)) = (m.blocks p).map (List.map some) := by
  induction p generalizing ss with
  | start =>
    have hlen : m.parameterVariables.length = m.parameters.length := by
      rw [← h.names, List.length_map]
    rw [Method.makers, Method.blocks, List.map_singleton, List.map_singleton,
      Method.parameterMakers, List.map_map, ← hlen]
    refine congrArg (fun xs => [xs]) (List.ext_getElem (by simp) fun i hi hi' => ?_)
    simp only [List.getElem_map, List.getElem_range, Function.comp, Maker.made?]
    exact List.getElem?_eq_getElem _
  | next p ih =>
    obtain ⟨s, hs⟩ := Path.rest?_next.mp hr
    have hd := h.stmt hs
    have hstmt := Path.stmt?_of_rest? hs
    rw [Method.makers, Method.blocks, map_grow, map_grow, ih hs, hstmt, Option.bind_some,
      Option.bind_some]
    congr 1
    cases s with
    | declaration name typeName value bound =>
      cases hd with
      | declaration _ _ => simp [Stmt.declares?, Stmt.declared?, Maker.made?, hstmt]
    | _ => rfl
  | inFor p ih =>
    obtain ⟨name, e, after, hs⟩ := Path.rest?_inFor.mp hr
    have hstmt := Path.stmt?_of_rest? hs
    simp only [Method.makers, Method.blocks, hstmt, List.map_cons, ih hs, List.map_nil,
      Maker.made?]
  | inThen p ih =>
    obtain ⟨_, _, _, hs⟩ := Path.rest?_inThen.mp hr
    exact congrArg ([] :: ·) (ih hs)
  | inElse p ih =>
    obtain ⟨_, _, _, hs⟩ := Path.rest?_inElse.mp hr
    exact congrArg ([] :: ·) (ih hs)
  | inWhile p ih =>
    obtain ⟨_, _, hs⟩ := Path.rest?_inWhile.mp hr
    exact congrArg ([] :: ·) (ih hs)

/-- No two nodes in scope at a place make variables that are described alike. -/
theorem maker_unique (hr : p.rest? m.body = some ss) {a b : Maker}
    (ha : a ∈ (m.makers p).flatten) (hb : b ∈ (m.makers p).flatten)
    (heq : a.made? m = b.made? m) : a = b := by
  have hnodup : ((m.makers p).flatten.map (Maker.made? m)).Nodup := by
    rw [List.map_flatten, h.map_makers hr, ← List.map_flatten]
    exact (h.distinct_blocks hr).nodup.map (fun _ _ => Option.some.inj)
  exact List.inj_on_of_nodup_map hnodup ha hb heq

end Method.Checked

end Parlance
