import Dataflow.Proofs.Terms
import Mathlib.Data.Option.NAry

/-!
# Terms tell what a run computes

A run on data: every value is a cell that holds a datum, and the listed instructions run once each
in program order.  What data are, and what operators do to them, is left open (`Machine`).

1. **Terms have values** (`Term.eval`): a leaf is worth what its cell held at the beginning, and
   terms that are the same up to exchanged operands are worth the same.

2. **A cell holds what its term is worth** (`Holds`), if anything is known about it: the symbolic
   run and the run on data go in step.  A datum without a term lands only in a result, so it has to
   be seen that the result has no term yet that it would belie.  It could have one only from a store
   that came before, and such stores are excluded (`Func.StoresComeLate`).
-/

namespace Dataflow

/-! ## Data -/

/-- **What operators do to data**, and what other instructions leave behind. -/
structure Machine (D : Type*) where
  /-- What an operator makes of its operands. -/
  compute : Operator → D → D → D
  /-- Operators that commute do so on data; the others may. -/
  comm : ∀ op, op.isCommutative = true → ∀ x y, compute op x y = compute op y x
  /-- The datum that an instruction leaves in its result if it does not load or compute one. -/
  leftover : InstId → D

/-- What each value holds. -/
abbrev Cells (D : Type*) := ValueId → D

variable {D : Type*}

namespace Cells

/-- Writes a datum to a value. -/
def set (cells : Cells D) (v : ValueId) (d : D) : Cells D := fun w => if w = v then d else cells w

/-- Writes a datum to a result, if there is one. -/
def give (cells : Cells D) (result : Option ValueId) (d : D) : Cells D :=
  result.elim cells fun v => cells.set v d

theorem set_self (cells : Cells D) (v : ValueId) : cells.set v (cells v) = cells := by
  funext w
  unfold set
  split
  · next hw => rw [hw]
  · rfl

end Cells

namespace Machine

/-- What an instruction computes, if it is a binary operator. -/
def computes? (m : Machine D) (cells : Cells D) (inst : Instruction) : Option D :=
  match inst.action with
  | .binary op lhs rhs => some (m.compute op (cells lhs) (cells rhs))
  | _ => none

/-- One instruction: a store copies the value's datum to the pointer, a load the pointer's to the
result, and an operator computes the result's.  A result of anything else, a store included, gets
what is left there. -/
def step (m : Machine D) (cells : Cells D) (i : InstId) (inst : Instruction) : Cells D :=
  match inst.action with
  | .store value ptr => (cells.set ptr (cells value)).give inst.result (m.leftover i)
  | .load ptr => cells.give inst.result (cells ptr)
  | .binary op lhs rhs => cells.give inst.result (m.compute op (cells lhs) (cells rhs))
  | .other .. => cells.give inst.result (m.leftover i)

/-- What the values hold after these listings; one that does not exist changes nothing. -/
def after (m : Machine D) (f : Func) (init : Cells D) (done : List (BlockId × InstId)) : Cells D :=
  done.foldl (fun cells p => match f.insts[p.2.index]? with
    | some inst => m.step cells p.2 inst
    | none => cells) init

/-- The datum that `i` computes if it runs after these listings. -/
def computed? (m : Machine D) (f : Func) (init : Cells D) (before : List (BlockId × InstId))
    (i : InstId) : Option D :=
  (f.insts[i.index]?).bind (m.computes? (m.after f init before))

theorem after_concat {m : Machine D} {f : Func} {init : Cells D} {done : List (BlockId × InstId)}
    {b : BlockId} {i : InstId} {inst : Instruction} (h : f.insts[i.index]? = some inst) :
    m.after f init (done ++ [(b, i)]) = m.step (m.after f init done) i inst := by
  simp [after, h]

end Machine

/-! ## The value of a term -/

namespace Term

/-- What a term is worth, given what the leaves held at the beginning.  A term with something
unresolved inside is worth nothing. -/
def eval (m : Machine D) (init : Cells D) : Term → Option D
  | .unresolved => none
  | .leaf v => some (init v)
  | .app op a b => Option.map₂ (m.compute op) (a.eval m init) (b.eval m init)

/-- **Exchanging operands does not change the value.** -/
theorem Same.eval_eq {t u : Term} (h : t.Same u) (m : Machine D) (init : Cells D) :
    t.eval m init = u.eval m init := by
  induction h with
  | unresolved => rfl
  | leaf v => rfl
  | app op _ _ ha hb => rw [eval, ha, hb, eval]
  | swap op hop _ _ ha hb =>
    rw [eval, ha, hb, eval]
    exact Option.map₂_comm (m.comm op hop)

/-- If the term is an application, something is known about its operands. -/
def OperandsKnown : Term → Prop
  | .app _ a b => a ≠ .unresolved ∧ b ≠ .unresolved
  | _ => True

end Term

/-! ## Where results and stores go -/

namespace Func

/-- The result of an instruction. -/
def resultOf? (f : Func) (i : InstId) : Option ValueId := (f.insts[i.index]?).bind Instruction.result

/-- The pointer of an instruction that stores. -/
def storeTarget? (f : Func) (i : InstId) : Option ValueId :=
  (f.insts[i.index]?).bind fun inst => match inst.action with
    | .store _ ptr => some ptr
    | _ => none

/-- `i` does not store to the result of `j`. -/
def Avoids (f : Func) (i j : InstId) : Prop := ∀ v ∈ f.storeTarget? i, f.resultOf? j ≠ some v

instance (f : Func) (i j : InstId) : Decidable (f.Avoids i j) :=
  inferInstanceAs (Decidable (∀ v ∈ f.storeTarget? i, f.resultOf? j ≠ some v))

/-- **No store comes before its target is computed**: none goes to the result of an instruction that
is listed there or later. -/
def StoresComeLate (f : Func) : Prop :=
  (∀ p ∈ f.programOrder, f.Avoids p.2 p.2) ∧ f.programOrder.Pairwise fun p q => f.Avoids p.2 q.2

instance (f : Func) : Decidable f.StoresComeLate := inferInstanceAs (Decidable (_ ∧ _))

/-- Every operator is applied to operands of which something is known. -/
def OperandsKnown (f : Func) : Prop := ∀ u ∈ f.computedTerms f.programOrder, u.OperandsKnown

variable {f : Func} {before after : List (BlockId × InstId)} {b : BlockId} {i : InstId}

theorem StoresComeLate.avoids (h : f.StoresComeLate)
    (horder : f.programOrder = before ++ (b, i) :: after) :
    ∀ q ∈ (b, i) :: after, f.Avoids i q.2 := by
  obtain ⟨hself, hpairs⟩ := h
  rw [horder] at hself hpairs
  have hafter := (List.pairwise_cons.mp (List.pairwise_append.mp hpairs).2.1).1
  intro q hq
  rcases List.mem_cons.mp hq with rfl | hq
  · exact hself (b, i) (List.mem_append_right _ List.mem_cons_self)
  · exact hafter q hq

/-- The result of a listed instruction stands for it in the table of values. -/
theorem Sound.value_of_result (hs : f.Sound) {p : BlockId × InstId} (hp : p ∈ f.programOrder)
    {v : ValueId} (hv : f.resultOf? p.2 = some v) : f.values[v.index]? = some (.result p.2) := by
  obtain ⟨inst, hinst, -, hresult⟩ := hs.listed p hp
  rw [resultOf?, hinst] at hv
  exact hresult v hv

/-- A result is no leaf. -/
theorem Sound.isLeaf_of_result (hs : f.Sound) {p : BlockId × InstId} (hp : p ∈ f.programOrder)
    {v : ValueId} (hv : f.resultOf? p.2 = some v) : f.isLeaf v = false := by
  unfold isLeaf
  rw [hs.value_of_result hp hv]

/-- No two listings have the same result. -/
theorem Sound.result_ne (hs : f.Sound) (horder : f.programOrder = before ++ (b, i) :: after)
    {v : ValueId} (hv : f.resultOf? i = some v) : ∀ q ∈ after, f.resultOf? q.2 ≠ some v := by
  intro q hq hqv
  have hp : (b, i) ∈ f.programOrder := by
    rw [horder]
    exact List.mem_append_right _ List.mem_cons_self
  have hq' : q ∈ f.programOrder := by
    rw [horder]
    exact List.mem_append_right _ (List.mem_cons_of_mem _ hq)
  have hsame : i = q.2 := by
    have hvalue := (hs.value_of_result hp hv).symm.trans (hs.value_of_result hq' hqv)
    exact Value.result.inj (Option.some.inj hvalue)
  have honce := hs.once
  rw [horder, List.map_append, List.map_cons] at honce
  have hnot := (List.nodup_cons.mp (List.nodup_append.mp honce).2.1).1
  exact hnot (List.mem_map.mpr ⟨q, hq, hsame.symm⟩)

end Func

/-! ## Terms and cells in step -/

/-- **Terms tell what cells hold**, before the listings that are left. -/
structure Holds (m : Machine D) (f : Func) (init : Cells D) (t : Valuation) (cells : Cells D)
    (rest : List (BlockId × InstId)) : Prop where
  /-- A value with a known term holds what the term is worth. -/
  known : ∀ {v u}, t v = some u → u ≠ .unresolved → u.eval m init = some (cells v)
  /-- A leaf without a term holds what it held at the beginning. -/
  leaf : ∀ {v}, t v = none → f.isLeaf v = true → cells v = init v
  /-- A value with a term is no result that is still to come. -/
  fresh : ∀ {v}, t v ≠ none → ∀ q ∈ rest, f.resultOf? q.2 ≠ some v

namespace Holds

variable {m : Machine D} {f : Func} {init cells : Cells D} {t : Valuation}
  {before rest : List (BlockId × InstId)} {b : BlockId} {i : InstId} {v : ValueId} {u : Term} {d : D}

theorem start (m : Machine D) (f : Func) (init : Cells D) (rest : List (BlockId × InstId)) :
    Holds m f init .blank init rest where
  known := by
    intro v u h
    nomatch h
  leaf := fun _ _ => rfl
  fresh := fun h => absurd rfl h

theorem tail {p : BlockId × InstId} (h : Holds m f init t cells (p :: rest)) :
    Holds m f init t cells rest where
  known := h.known
  leaf := h.leaf
  fresh := fun hv q hq => h.fresh hv q (List.mem_cons_of_mem p hq)

/-- Writing a datum together with a term for it. -/
theorem assign (h : Holds m f init t cells rest) (hu : u ≠ .unresolved → u.eval m init = some d)
    (hv : ∀ q ∈ rest, f.resultOf? q.2 ≠ some v) :
    Holds m f init (t.assign v u) (cells.set v d) rest := by
  unfold Valuation.assign Cells.set
  refine ⟨fun {w a} hw => ?_, fun {w} hw => ?_, fun {w} hw => ?_⟩
  · by_cases hwv : w = v
    · rw [if_pos hwv] at hw ⊢
      rw [← Option.some.inj hw]
      exact hu
    · rw [if_neg hwv] at hw ⊢
      exact h.known hw
  · by_cases hwv : w = v
    · rw [if_pos hwv] at hw
      nomatch hw
    · rw [if_neg hwv] at hw ⊢
      exact h.leaf hw
  · by_cases hwv : w = v
    · rw [hwv]
      exact hv
    · rw [if_neg hwv] at hw
      exact h.fresh hw

section

variable (hleaves : ∀ q ∈ rest, ∀ w, f.resultOf? q.2 = some w → f.isLeaf w = false)

include hleaves

/-- **Asking for a value**: what is known of it is worth what it holds. -/
theorem query (h : Holds m f init t cells rest) (v : ValueId) :
    Holds m f init (t.query f v).2 cells rest ∧
      ((t.query f v).1 ≠ .unresolved → (t.query f v).1.eval m init = some (cells v)) := by
  unfold Valuation.query
  cases ht : t v with
  | some u => exact ⟨h, h.known ht⟩
  | none =>
    by_cases hleaf : f.isLeaf v = true
    · simp only [hleaf, if_true]
      have heval : (Term.leaf v).eval m init = some (cells v) := by rw [Term.eval, h.leaf ht hleaf]
      have hassign := h.assign (v := v) (fun _ => heval) fun q hq hqv => by
        rw [hleaves q hq v hqv] at hleaf
        nomatch hleaf
      rw [cells.set_self] at hassign
      exact ⟨hassign, fun _ => heval⟩
    · rw [Bool.not_eq_true] at hleaf
      simp only [hleaf, Bool.false_eq_true, if_false]
      exact ⟨h, fun hne => absurd rfl hne⟩

/-- **What an operator computes** is worth the datum that it computes. -/
theorem apply (h : Holds m f init t cells rest) {op : Operator} {lhs rhs : ValueId}
    (hknown : (t.apply f op lhs rhs).1.OperandsKnown) :
    Holds m f init (t.apply f op lhs rhs).2 cells rest ∧
      (t.apply f op lhs rhs).1.eval m init = some (m.compute op (cells lhs) (cells rhs)) := by
  obtain ⟨hleft, hl⟩ := h.query hleaves lhs
  obtain ⟨hright, hr⟩ := hleft.query hleaves rhs
  refine ⟨hright, ?_⟩
  show Option.map₂ (m.compute op) ((t.query f lhs).1.eval m init)
    (((t.query f lhs).2.query f rhs).1.eval m init) = _
  rw [hl hknown.1, hr hknown.2]
  rfl

end

section

variable (hs : f.Sound) (horder : f.programOrder = before ++ (b, i) :: rest)
  (h : Holds m f init t cells ((b, i) :: rest))

include hs horder

omit h in
theorem not_leaf_of_result :
    ∀ q ∈ (b, i) :: rest, ∀ w, f.resultOf? q.2 = some w → f.isLeaf w = false := by
  intro q hq w hw
  refine hs.isLeaf_of_result (p := q) ?_ hw
  rw [horder]
  exact List.mem_append_right _ hq

include h

/-- Writing a result together with a term for it. -/
theorem give (hu : u ≠ .unresolved → u.eval m init = some d) :
    Holds m f init (t.give (f.resultOf? i) u) (cells.give (f.resultOf? i) d) rest := by
  cases hresult : f.resultOf? i with
  | none => exact h.tail
  | some v => exact h.tail.assign hu (hs.result_ne horder hresult)

/-- Writing a result without a term: it has none yet. -/
theorem skip (d : D) : Holds m f init t (cells.give (f.resultOf? i) d) rest := by
  cases hresult : f.resultOf? i with
  | none => exact h.tail
  | some v =>
    have hnone : ∀ {w}, t w ≠ none → w ≠ v := by
      rintro w hw rfl
      exact h.fresh hw (b, i) List.mem_cons_self hresult
    have hleaf := not_leaf_of_result hs horder (b, i) List.mem_cons_self v hresult
    have hset : ∀ {w}, w ≠ v → cells.set v d w = cells w := fun hw => if_neg hw
    refine ⟨fun {w a} hw => ?_, fun {w} hw hwleaf => ?_, h.tail.fresh⟩
    · show a ≠ .unresolved → a.eval m init = some (cells.set v d w)
      rw [hset (hnone (by rw [hw]; exact Option.some_ne_none a))]
      exact h.known hw
    · have hne : w ≠ v := by
        rintro rfl
        rw [hleaf] at hwleaf
        nomatch hwleaf
      show cells.set v d w = init w
      rw [hset hne]
      exact h.leaf hw hwleaf

/-- **One step** of both runs. -/
theorem step {inst : Instruction} (hinst : f.insts[i.index]? = some inst)
    (hlate : ∀ q ∈ (b, i) :: rest, f.Avoids i q.2)
    (hknown : ∀ u, t.computes? f inst = some u → u.OperandsKnown) :
    Holds m f init (t.step f inst) (m.step cells i inst) rest := by
  have hleaves := not_leaf_of_result hs horder
  have hresult : f.resultOf? i = inst.result := by rw [Func.resultOf?, hinst, Option.bind_some]
  obtain ⟨action, result⟩ := inst
  dsimp only at hresult
  rw [← hresult]
  cases action with
  | store value ptr =>
    have htarget : f.storeTarget? i = some ptr := by rw [Func.storeTarget?, hinst, Option.bind_some]
    obtain ⟨hquery, hterm⟩ := h.query hleaves value
    have hassign := hquery.assign hterm fun q hq => hlate q hq ptr htarget
    exact hassign.skip hs horder (m.leftover i)
  | load ptr =>
    cases ht : t ptr with
    | some u =>
      have hstep : t.step f ⟨.load ptr, f.resultOf? i⟩ = t.give (f.resultOf? i) u := by
        simp only [Valuation.step, ht]
      rw [hstep]
      exact h.give hs horder (h.known ht)
    | none =>
      have hstep : t.step f ⟨.load ptr, f.resultOf? i⟩ = t := by simp only [Valuation.step, ht]
      rw [hstep]
      exact h.skip hs horder (cells ptr)
  | binary op lhs rhs =>
    obtain ⟨happly, hterm⟩ := h.apply hleaves (hknown _ rfl)
    exact happly.give hs horder fun _ => hterm
  | other opcode operands => exact h.skip hs horder (m.leftover i)

end

/-- **All steps.** -/
theorem run (hs : f.Sound) (hlate : f.StoresComeLate) (hknown : f.OperandsKnown) (m : Machine D)
    (init : Cells D) (horder : f.programOrder = before ++ rest) :
    Holds m f init (.after f before) (m.after f init before) rest := by
  induction before using List.reverseRecOn generalizing rest with
  | nil => exact .start m f init rest
  | append_singleton before p ih =>
    obtain ⟨b, i⟩ := p
    rw [List.append_assoc, List.singleton_append] at horder
    have hlisted : (b, i) ∈ f.programOrder := by
      rw [horder]
      exact List.mem_append_right _ List.mem_cons_self
    obtain ⟨inst, hinst, -⟩ := hs.listed (b, i) hlisted
    rw [Valuation.after_concat hinst, Machine.after_concat hinst]
    refine (ih horder).step hs horder hinst (hlate.avoids horder) fun u hu => ?_
    rw [← Func.computed?_eq hinst] at hu
    exact hknown u (Func.mem_computedTerms.mpr ⟨before, b, i, rest, horder, hu⟩)

theorem eval_getD (h : Holds m f init t cells rest) (hv : (t v).getD .unresolved ≠ .unresolved) :
    ((t v).getD .unresolved).eval m init = some (cells v) := by
  cases ht : t v with
  | none =>
    rw [ht] at hv
    exact absurd rfl hv
  | some u =>
    rw [ht] at hv
    exact h.known ht hv

/-- A term computed in a run is worth the datum computed there. -/
theorem computed (hs : f.Sound) (hlate : f.StoresComeLate) (hknown : f.OperandsKnown) (m : Machine D)
    (init : Cells D) (horder : f.programOrder = before ++ (b, i) :: rest)
    (hu : f.computed? before i = some u) :
    ∃ d, u.eval m init = some d ∧ m.computed? f init before i = some d := by
  have hoperands := hknown u (Func.mem_computedTerms.mpr ⟨before, b, i, rest, horder, hu⟩)
  obtain ⟨⟨action, result⟩, hinst, hcomputes⟩ := Option.bind_eq_some_iff.mp hu
  unfold Machine.computed?
  rw [hinst, Option.bind_some]
  cases action with
  | binary op lhs rhs =>
    obtain rfl := Option.some.inj hcomputes
    have hleaves := not_leaf_of_result hs horder
    exact ⟨_, ((run hs hlate hknown m init horder).apply hleaves hoperands).2, rfl⟩
  | store value ptr => nomatch hcomputes
  | load ptr => nomatch hcomputes
  | other opcode operands => nomatch hcomputes

end Holds

end Dataflow
