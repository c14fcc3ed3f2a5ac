import Dataflow.Numbering
import Dataflow.Proofs.Defects

/-!
# Symbolic terms

What value numbering is an economy of: a run that keeps for every value not a number but the whole
term it stands for.  A constant or parameter stands for itself, an operator for the application of
that operator to the terms of its operands, and a value of which nothing is known for `unresolved`.
Terms grow without bound and are never compared during the run.

Two terms are the same computation if one becomes the other by exchanging operands of commutative
operators, at any places inside it (`Term.Same`).
-/

namespace Dataflow

/-! ## Terms -/

/-- What a value stands for. -/
inductive Term where
  /-- Nothing is known. -/
  | unresolved
  /-- A constant or parameter. -/
  | leaf (v : ValueId)
  /-- An operator applied to two terms. -/
  | app (op : Operator) (lhs rhs : Term)
deriving DecidableEq, Repr

namespace Term

/-- **The same up to exchanging operands** of commutative operators, anywhere inside. -/
inductive Same : Term → Term → Prop where
  | unresolved : Same .unresolved .unresolved
  | leaf (v : ValueId) : Same (.leaf v) (.leaf v)
  | app (op : Operator) {a b c d : Term} (hac : Same a c) (hbd : Same b d) :
      Same (.app op a b) (.app op c d)
  | swap (op : Operator) (hop : op.isCommutative = true) {a b c d : Term} (had : Same a d)
      (hbc : Same b c) : Same (.app op a b) (.app op c d)

/-- Every term is the same computation as itself. -/
theorem Same.refl (t : Term) : Same t t := by
  induction t with
  | unresolved => exact .unresolved
  | leaf v => exact .leaf v
  | app op a b iha ihb => exact .app op iha ihb

/-- An exchange can be taken back. -/
theorem Same.symm {t u : Term} (h : Same t u) : Same u t := by
  induction h with
  | unresolved => exact .unresolved
  | leaf v => exact .leaf v
  | app op _ _ hca hdb => exact .app op hca hdb
  | swap op hop _ _ hda hcb => exact .swap op hop hcb hda

/-- Exchanges can be made one after the other; two at one place undo each other. -/
theorem Same.trans {t u w : Term} (h : Same t u) : Same u w → Same t w := by
  induction h generalizing w with
  | unresolved => exact id
  | leaf v => exact id
  | app op hac hbd iha ihb =>
    intro h
    cases h with
    | app _ hce hdf => exact .app op (iha hce) (ihb hdf)
    | swap _ hop hcf hde => exact .swap op hop (iha hcf) (ihb hde)
  | swap op hop had hbc iha ihb =>
    intro h
    cases h with
    | app _ hce hdf => exact .swap op hop (iha hdf) (ihb hce)
    -- exchanged twice
    | swap _ _ hcf hde => exact .app op (iha hde) (ihb hcf)

end Term

/-! ## The symbolic run -/

/-- Whether a value is a constant or a parameter. -/
def Func.isLeaf (f : Func) (v : ValueId) : Bool :=
  match f.values[v.index]? with
  | some (.const _) | some (.arg _) => true
  | _ => false

/-- The term of each value that has been assigned one. -/
abbrev Valuation := ValueId → Option Term

namespace Valuation

/-- No value has a term yet. -/
def blank : Valuation := fun _ => none

/-- Gives a value a term. -/
def assign (t : Valuation) (v : ValueId) (term : Term) : Valuation :=
  fun w => if w = v then some term else t w

/-- Gives a term to a result, if there is one. -/
def give (t : Valuation) (result : Option ValueId) (term : Term) : Valuation :=
  result.elim t fun v => t.assign v term

/-- The term of a value.  A constant or parameter without one stands for itself from now on; any
other value without one is unresolved. -/
def query (f : Func) (t : Valuation) (v : ValueId) : Term × Valuation :=
  match t v with
  | some term => (term, t)
  | none => if f.isLeaf v then (.leaf v, t.assign v (.leaf v)) else (.unresolved, t)

/-- What a binary operator computes, its left operand being looked at before the right one. -/
def apply (f : Func) (t : Valuation) (op : Operator) (lhs rhs : ValueId) : Term × Valuation :=
  let (a, t) := t.query f lhs
  let (b, t) := t.query f rhs
  (.app op a b, t)

/-- One instruction: a store assigns to its pointer, a load to its result if the pointer has a term,
an operator to its result; anything else changes nothing. -/
def step (f : Func) (t : Valuation) (inst : Instruction) : Valuation :=
  match inst.action with
  | .store value ptr =>
    let (term, t) := t.query f value
    t.assign ptr term
  | .load ptr =>
    match t ptr with
    | some term => t.give inst.result term
    | none => t
  | .binary op lhs rhs =>
    let (term, t) := t.apply f op lhs rhs
    t.give inst.result term
  | .other .. => t

/-- What an instruction computes, if it is a binary operator. -/
def computes? (f : Func) (t : Valuation) (inst : Instruction) : Option Term :=
  match inst.action with
  | .binary op lhs rhs => some (t.apply f op lhs rhs).1
  | _ => none

/-- The terms after these listings; one that does not exist changes nothing. -/
def after (f : Func) (done : List (BlockId × InstId)) : Valuation :=
  done.foldl (fun t p => match f.insts[p.2.index]? with
    | some inst => t.step f inst
    | none => t) blank

/-- **One more listing** takes one more step of the symbolic run. -/
theorem after_concat {f : Func} {done : List (BlockId × InstId)} {b : BlockId} {i : InstId}
    {inst : Instruction} (h : f.insts[i.index]? = some inst) :
    after f (done ++ [(b, i)]) = (after f done).step f inst := by
  simp [after, h]

end Valuation

namespace Func

variable {f : Func}

/-- The term that `i` computes if it comes after these listings; only a binary operator computes
one. -/
def computed? (f : Func) (before : List (BlockId × InstId)) (i : InstId) : Option Term :=
  (f.insts[i.index]?).bind ((Valuation.after f before).computes? f)

/-- What a value stands for in the end. -/
def finalTerm (f : Func) (v : ValueId) : Term := (Valuation.after f f.programOrder v).getD .unresolved

/-- **Recomputation**: coming after these listings, `i` computes what one of them computed
already. -/
def Recomputes (f : Func) (before : List (BlockId × InstId)) (i : InstId) : Prop :=
  ∃ t, f.computed? before i = some t ∧ ∃ earlier c j later u,
    before = earlier ++ (c, j) :: later ∧ f.computed? earlier j = some u ∧ t.Same u

/-- The terms computed in the course of these listings, in order. -/
def computedTerms (f : Func) (done : List (BlockId × InstId)) : List Term :=
  (withBefore done).filterMap fun (before, p) => f.computed? before p.2

/-- What an instruction computes is a matter of the terms that its operands have by then. -/
theorem computed?_eq {before : List (BlockId × InstId)} {i : InstId} {inst : Instruction}
    (h : f.insts[i.index]? = some inst) :
    f.computed? before i = (Valuation.after f before).computes? f inst := by
  rw [computed?, h, Option.bind_some]

/-- One more listing computes one more term, or none. -/
theorem computedTerms_concat {done : List (BlockId × InstId)} {b : BlockId} {i : InstId} :
    f.computedTerms (done ++ [(b, i)]) = f.computedTerms done ++ (f.computed? done i).toList := by
  unfold computedTerms
  rw [withBefore_concat, List.filterMap_append]
  cases h : f.computed? done i <;> simp [h]

/-- A term was computed if some listing computed it, when its turn came. -/
theorem mem_computedTerms {done : List (BlockId × InstId)} {u : Term} :
    u ∈ f.computedTerms done ↔
      ∃ earlier c j later, done = earlier ++ (c, j) :: later ∧ f.computed? earlier j = some u := by
  unfold computedTerms
  rw [List.mem_filterMap]
  constructor
  · rintro ⟨⟨earlier, c, j⟩, hmem, hu⟩
    obtain ⟨later, hsplit⟩ := mem_withBefore.mp hmem
    exact ⟨earlier, c, j, later, hsplit, hu⟩
  · rintro ⟨earlier, c, j, later, hsplit, hu⟩
    exact ⟨(earlier, c, j), mem_withBefore.mpr ⟨later, hsplit⟩, hu⟩

/-- **Recomputation in terms of the past**: the term computed is one of those before it, up to
exchanged operands. -/
theorem recomputes_iff {before : List (BlockId × InstId)} {i : InstId} :
    f.Recomputes before i ↔
      ∃ t, f.computed? before i = some t ∧ ∃ u ∈ f.computedTerms before, t.Same u := by
  constructor
  · rintro ⟨t, ht, earlier, c, j, later, u, hsplit, hu, hsame⟩
    exact ⟨t, ht, u, mem_computedTerms.mpr ⟨earlier, c, j, later, hsplit, hu⟩, hsame⟩
  · rintro ⟨t, ht, u, hmem, hsame⟩
    obtain ⟨earlier, c, j, later, hsplit, hu⟩ := mem_computedTerms.mp hmem
    exact ⟨t, ht, earlier, c, j, later, u, hsplit, hu, hsame⟩

end Func

end Dataflow
