import Dataflow.Cursor
import Dataflow.Proofs.Relayout
import Mathlib.Logic.Relation

/-!
# Building keeps a function sound

A function that is built edit by edit is sound after each of them, as long as operands and targets
exist when they are named.  Soundness is about the whole function: an instruction must be listed
once among all blocks, and its result must point back at it.

1. **Soundness block by block** (`Func.sound_iff`): it is a statement about what each block lists
   and where it leads, where a block that does not exist lists nothing and leads nowhere.  So adding
   an empty block is no change at all.

2. **What an edit can do** (`Func.Step`): one more value, parameter or block, one more instruction
   at the end of a block, with a value for its result or without, or one more edge.  An edit that
   adds an instruction and its result passes through a function in which the one does not know of
   the other yet (`Cursor.emitValue?_eq`); that is not a step.

3. **What a step keeps**: soundness (`Func.Step.sound`), and everything that is there already
   (`Func.Step.extends`).  Both carry over to any number of steps, hence to edits
   (`Edit.perform?_steps`), and from there to everything that can be built (`Built`).
-/

namespace Dataflow

namespace Func

/-! ## Soundness block by block -/

/-- The successors of a block; a block that does not exist has none. -/
def succsOf (f : Func) (b : BlockId) : List BlockId := ((f.blocks[b.index]?).map Block.succs).getD []

/-- The instruction exists, mentions only values that exist, and has no result but its own. -/
def InOrder (f : Func) (i : InstId) : Prop :=
  ∃ inst, f.insts[i.index]? = some inst ∧ (∀ v ∈ inst.mentions, v.index < f.values.size) ∧
    ∀ v, inst.result = some v → f.values[v.index]? = some (.result i)

variable {f g : Func} {b s : BlockId} {a : Action}

theorem succsOf_eq {block : Block} (h : f.blocks[b.index]? = some block) :
    f.succsOf b = block.succs := by
  simp [succsOf, h]

theorem mem_succsOf : s ∈ f.succsOf b ↔ f.Edge b s := by
  unfold succsOf Edge
  cases f.blocks[b.index]? <;> simp

/-- **Soundness block by block.** -/
theorem sound_iff : f.Sound ↔ 0 < f.blocks.size ∧
    (∀ b, ∀ s ∈ f.succsOf b, s.index < f.blocks.size) ∧
    ((∀ b, (f.instsOf b).Nodup) ∧ ∀ b c, b ≠ c → List.Disjoint (f.instsOf b) (f.instsOf c)) ∧
    ∀ b, ∀ i ∈ f.instsOf b, f.InOrder i := by
  constructor
  · intro hs
    refine ⟨hs.nonempty, fun b s hsucc => ?_, nodup_programOrder_iff.mp hs.once, fun b i hi => ?_⟩
    · obtain ⟨block, hblock, hmem⟩ := mem_succsOf.mp hsucc
      exact hs.succs block (Array.mem_of_getElem? hblock) s hmem
    · exact hs.listed (b, i) (mem_programOrder.mpr hi)
  · rintro ⟨hnonempty, hsuccs, honce, hlisted⟩
    refine ⟨hnonempty, fun block hblock s hmem => ?_, nodup_programOrder_iff.mpr honce, fun p hp => ?_⟩
    · obtain ⟨n, hn⟩ := Array.mem_iff_getElem?.mp hblock
      exact hsuccs ⟨n⟩ s (mem_succsOf.mpr ⟨block, hn, hmem⟩)
    · exact hlisted p.1 p.2 (mem_programOrder.mp hp)

/-! ## Extensions -/

/-- **`g` has all that `f` has**: the entries of its tables are as they were, and the lists of its
blocks have grown at the end only, by successors that are new to them. -/
structure Extends (f g : Func) : Prop where
  name_eq : g.name = f.name
  params : f.params <+: g.params
  values : ∀ (n : Nat) v, f.values[n]? = some v → g.values[n]? = some v
  insts : ∀ (n : Nat) inst, f.insts[n]? = some inst → g.insts[n]? = some inst
  blocks : f.blocks.size ≤ g.blocks.size
  instsOf : ∀ b, f.instsOf b <+: g.instsOf b
  succsOf : ∀ b, ∃ added, g.succsOf b = f.succsOf b ++ added ∧ added.Nodup ∧
    (f.succsOf b).Disjoint added

namespace Extends

theorem added_nothing (l : List BlockId) : ∃ added, l = l ++ added ∧ added.Nodup ∧ l.Disjoint added :=
  ⟨[], (List.append_nil l).symm, List.nodup_nil, List.disjoint_nil_right l⟩

theorem refl (f : Func) : f.Extends f where
  name_eq := rfl
  params := List.prefix_refl _
  values := fun _ _ h => h
  insts := fun _ _ h => h
  blocks := Nat.le_refl _
  instsOf := fun _ => List.prefix_refl _
  succsOf := fun b => added_nothing (f.succsOf b)

/-- Added at the end, twice, is added at the end. -/
theorem trans {h : Func} (hfg : f.Extends g) (hgh : g.Extends h) : f.Extends h where
  name_eq := hgh.name_eq.trans hfg.name_eq
  params := hfg.params.trans hgh.params
  values := fun n v hv => hgh.values n v (hfg.values n v hv)
  insts := fun n inst hinst => hgh.insts n inst (hfg.insts n inst hinst)
  blocks := Nat.le_trans hfg.blocks hgh.blocks
  instsOf := fun b => (hfg.instsOf b).trans (hgh.instsOf b)
  succsOf := by
    intro b
    obtain ⟨first, hfirst, hnodup, hnew⟩ := hfg.succsOf b
    obtain ⟨second, hsecond, hnodup', hnew'⟩ := hgh.succsOf b
    rw [hfirst] at hnew'
    obtain ⟨hold, hbetween⟩ := List.disjoint_append_left.mp hnew'
    refine ⟨first ++ second, ?_, hnodup.append hnodup' hbetween, ?_⟩
    · rw [hsecond, hfirst, List.append_assoc]
    · exact List.disjoint_append_right.mpr ⟨hnew, hold⟩

theorem lt_values (h : f.Extends g) {v : ValueId} (hv : v.index < f.values.size) :
    v.index < g.values.size :=
  (Array.getElem?_eq_some_iff.mp (h.values _ _ (Array.getElem?_eq_getElem hv))).1

/-- What was in order stays in order. -/
theorem inOrder (h : f.Extends g) {i : InstId} (hi : f.InOrder i) : g.InOrder i := by
  obtain ⟨inst, hinst, hmentions, hresult⟩ := hi
  exact ⟨inst, h.insts _ _ hinst, fun v hv => h.lt_values (hmentions v hv),
    fun v hv => h.values _ _ (hresult v hv)⟩

/-- **An extension that lists nothing new is sound**, if its edges end at blocks. -/
theorem sound (h : f.Extends g) (hs : f.Sound) (hsame : ∀ b, g.instsOf b = f.instsOf b)
    (hsuccs : ∀ b, ∀ s ∈ g.succsOf b, s.index < g.blocks.size) : g.Sound := by
  obtain ⟨hnonempty, -, honce, hlisted⟩ := sound_iff.mp hs
  rw [← funext hsame] at honce
  refine sound_iff.mpr ⟨Nat.lt_of_lt_of_le hnonempty h.blocks, hsuccs, honce, fun b i hi => ?_⟩
  rw [hsame] at hi
  exact h.inOrder (hlisted b i hi)

end Extends

/-! ## Tables that grow -/

theorem getElem?_push_of_some {α : Type} {xs : Array α} {n : Nat} {x y : α} (h : xs[n]? = some y) :
    (xs.push x)[n]? = some y := by
  have hlt := (Array.getElem?_eq_some_iff.mp h).1
  rw [Array.getElem?_push, if_neg (by omega), h]

/-- To change the entry just pushed is to push the changed one. -/
theorem modify_push_size {α : Type} (xs : Array α) (x : α) (change : α → α) :
    (xs.push x).modify xs.size change = xs.push (change x) := by
  apply Array.ext_getElem?
  intro n
  rw [Array.getElem?_modify, Array.getElem?_push, Array.getElem?_push]
  by_cases hn : n = xs.size
  · simp [hn]
  · simp [hn, Ne.symm hn]

/-! ## What an edit can do -/

/-- The function with one more instruction, listed last in block `b`; if it has a result, with a
value for that. -/
def withInst (f : Func) (b : BlockId) (a : Action) (hasResult : Bool) : Func :=
  { f with
    values := if hasResult then f.values.push (.result ⟨f.insts.size⟩) else f.values
    insts := f.insts.push ⟨a, if hasResult then some ⟨f.values.size⟩ else none⟩
    blocks := f.blocks.modify b.index fun block =>
      { block with insts := block.insts ++ [⟨f.insts.size⟩] } }

/-- The function with the edge from `b` to `s`. -/
def withEdge (f : Func) (b s : BlockId) : Func :=
  { f with blocks := f.blocks.modify b.index fun block => block.addSuccessor s }

/-- **What an edit can do** to a function. -/
inductive Step (f : Func) : Func → Prop where
  | value (v : Value) : Step f (f.pushValue v).2
  | param (v : ValueId) : Step f { f with params := f.params ++ [v] }
  | block : Step f f.pushBlock.2
  | inst {b : BlockId} {a : Action} (hb : b.index < f.blocks.size)
      (ha : ∀ v ∈ a.operands, v.index < f.values.size) (hasResult : Bool) :
      Step f (f.withInst b a hasResult)
  | edge {b s : BlockId} (hb : b.index < f.blocks.size) (hs : s.index < f.blocks.size) :
      Step f (f.withEdge b s)

/-! ## What the blocks list after a step -/

section

variable {α : Type} (part : Block → List α)

/-- A part of each block, after one more block in which it is empty. -/
theorem part_push (hpart : part {} = []) (blocks : Array Block) (n : Nat) :
    (((blocks.push {})[n]?).map part).getD [] = ((blocks[n]?).map part).getD [] := by
  rw [Array.getElem?_push]
  split
  · next hn => simp [hn, hpart]
  · rfl

/-- A part of each block, after a change of one block. -/
theorem part_modify {blocks : Array Block} {block : Block} (hblock : blocks[b.index]? = some block)
    (change : Block → Block) (c : BlockId) :
    (((blocks.modify b.index change)[c.index]?).map part).getD []
      = if c = b then part (change block) else ((blocks[c.index]?).map part).getD [] := by
  rw [Array.getElem?_modify]
  by_cases hc : c = b
  · rw [if_pos hc, hc, if_pos rfl, hblock]
    rfl
  · have hindex : b.index ≠ c.index := fun h => hc (congrArg BlockId.mk h.symm)
    rw [if_neg hc, if_neg hindex]

/-- A change that leaves a part of a block alone leaves it alone in all blocks. -/
theorem part_modify_same {change : Block → Block} (hsame : ∀ block, part (change block) = part block)
    (blocks : Array Block) (n m : Nat) :
    (((blocks.modify n change)[m]?).map part).getD [] = ((blocks[m]?).map part).getD [] := by
  rw [Array.getElem?_modify]
  split
  · cases blocks[m]? with
    | none => rfl
    | some block => exact hsame block
  · rfl

end

theorem instsOf_pushBlock (f : Func) (c : BlockId) : f.pushBlock.2.instsOf c = f.instsOf c :=
  part_push Block.insts rfl f.blocks c.index

theorem succsOf_pushBlock (f : Func) (c : BlockId) : f.pushBlock.2.succsOf c = f.succsOf c :=
  part_push Block.succs rfl f.blocks c.index

/-- One block lists one more instruction, the newest, as its last. -/
theorem instsOf_withInst (hb : b.index < f.blocks.size) (a : Action) (hasResult : Bool) (c : BlockId) :
    (f.withInst b a hasResult).instsOf c
      = if c = b then f.instsOf b ++ [⟨f.insts.size⟩] else f.instsOf c := by
  have hblock := Array.getElem?_eq_getElem hb
  rw [instsOf_eq hblock]
  exact part_modify Block.insts hblock _ c

theorem succsOf_withInst (f : Func) (b : BlockId) (a : Action) (hasResult : Bool) (c : BlockId) :
    (f.withInst b a hasResult).succsOf c = f.succsOf c := by
  refine part_modify_same Block.succs (fun block => ?_) f.blocks b.index c.index
  rfl

theorem instsOf_withEdge (f : Func) (b s c : BlockId) : (f.withEdge b s).instsOf c = f.instsOf c := by
  refine part_modify_same Block.insts (fun block => ?_) f.blocks b.index c.index
  unfold Block.addSuccessor
  split <;> rfl

/-- An edge is added if it is not there. -/
theorem succsOf_withEdge (hb : b.index < f.blocks.size) (s c : BlockId) :
    (f.withEdge b s).succsOf c
      = if c = b then (if s ∈ f.succsOf b then f.succsOf b else f.succsOf b ++ [s])
        else f.succsOf c := by
  have hblock := Array.getElem?_eq_getElem hb
  have hadd : ∀ block : Block, (block.addSuccessor s).succs
      = if s ∈ block.succs then block.succs else block.succs ++ [s] := by
    intro block
    unfold Block.addSuccessor
    split <;> rfl
  rw [succsOf_eq hblock, ← hadd]
  exact part_modify Block.succs hblock _ c

/-! ## What a step keeps -/

/-- **A step touches nothing that is there.** -/
theorem Step.extends (h : f.Step g) : f.Extends g := by
  cases h with
  | value v => exact { Extends.refl f with values := fun _ _ hv => getElem?_push_of_some hv }
  | param v => exact { Extends.refl f with params := List.prefix_append _ _ }
  | block =>
    exact {
      Extends.refl f with
      blocks := by simp [pushBlock]
      instsOf := fun c => (f.instsOf_pushBlock c).symm ▸ List.prefix_refl _
      succsOf := fun c => (f.succsOf_pushBlock c).symm ▸ Extends.added_nothing _ }
  | inst hb ha hasResult =>
    exact {
      Extends.refl f with
      values := fun _ _ hv => by
        cases hasResult with
        | false => exact hv
        | true => exact getElem?_push_of_some hv
      insts := fun _ _ hinst => getElem?_push_of_some hinst
      blocks := by simp [withInst]
      instsOf := fun c => by
        rw [instsOf_withInst hb]
        split
        · next hc => exact hc ▸ List.prefix_append _ _
        · exact List.prefix_refl _
      succsOf := fun c => (f.succsOf_withInst _ _ _ c).symm ▸ Extends.added_nothing _ }
  | @edge b s hb hs =>
    exact {
      Extends.refl f with
      blocks := by simp [withEdge]
      instsOf := fun c => (f.instsOf_withEdge b s c).symm ▸ List.prefix_refl _
      succsOf := fun c => by
        rw [succsOf_withEdge hb]
        split
        · next hc =>
          subst hc
          split
          · exact Extends.added_nothing _
          · next hnew => exact ⟨[s], rfl, List.nodup_singleton s, List.disjoint_singleton.mpr hnew⟩
        · exact Extends.added_nothing _ }

/-- The new instruction is in order. -/
theorem inOrder_withInst (b : BlockId) (ha : ∀ v ∈ a.operands, v.index < f.values.size)
    (hasResult : Bool) : (f.withInst b a hasResult).InOrder ⟨f.insts.size⟩ := by
  refine ⟨_, Array.getElem?_push_size, ?_⟩
  cases hasResult with
  | false =>
    refine ⟨fun v hv => ha v ?_, fun v hv => nomatch hv⟩
    simpa [Instruction.mentions] using hv
  | true =>
    constructor
    · intro v hv
      show v.index < (f.values.push _).size
      rw [Array.size_push]
      rcases List.mem_append.mp hv with hv | hv
      · exact Nat.lt_succ_of_lt (ha v hv)
      · obtain rfl := List.mem_singleton.mp hv
        exact Nat.lt_succ_self _
    · intro v hv
      obtain rfl := Option.some.inj hv
      exact Array.getElem?_push_size

/-- One more instruction is listed once, if no block lists it yet. -/
theorem once_withInst (hb : b.index < f.blocks.size) (hfresh : ∀ c, ⟨f.insts.size⟩ ∉ f.instsOf c)
    (hasResult : Bool)
    (h : (∀ c, (f.instsOf c).Nodup) ∧ ∀ c d, c ≠ d → List.Disjoint (f.instsOf c) (f.instsOf d)) :
    (∀ c, ((f.withInst b a hasResult).instsOf c).Nodup) ∧ ∀ c d, c ≠ d →
      List.Disjoint ((f.withInst b a hasResult).instsOf c) ((f.withInst b a hasResult).instsOf d) := by
  obtain ⟨hnodup, hdisjoint⟩ := h
  refine ⟨fun c => ?_, fun c d hne => ?_⟩
  · rw [instsOf_withInst hb]
    split
    · exact (hnodup b).append (List.nodup_singleton _) (List.disjoint_singleton.mpr (hfresh b))
    · exact hnodup c
  · rw [instsOf_withInst hb, instsOf_withInst hb]
    by_cases hc : c = b
    · subst hc
      rw [if_pos rfl, if_neg hne.symm]
      exact List.disjoint_append_left.mpr
        ⟨hdisjoint c d hne, List.singleton_disjoint.mpr (hfresh d)⟩
    · rw [if_neg hc]
      split
      · next hd =>
        subst hd
        exact List.disjoint_append_right.mpr
          ⟨hdisjoint c d hne, List.disjoint_singleton.mpr (hfresh c)⟩
      · exact hdisjoint c d hne

/-- **One more instruction** keeps a function sound. -/
theorem Sound.withInst (hs : f.Sound) (hb : b.index < f.blocks.size)
    (ha : ∀ v ∈ a.operands, v.index < f.values.size) (hasResult : Bool) :
    (f.withInst b a hasResult).Sound := by
  obtain ⟨hnonempty, hsuccs, honce, hlisted⟩ := sound_iff.mp hs
  -- what is listed exists, and the new label is past the end of the table
  have hfresh : ∀ c, ⟨f.insts.size⟩ ∉ f.instsOf c := by
    intro c hc
    obtain ⟨inst, hinst, -⟩ := hlisted c _ hc
    exact Nat.lt_irrefl _ (Array.getElem?_eq_some_iff.mp hinst).1
  have hsize : (f.withInst b a hasResult).blocks.size = f.blocks.size := Array.size_modify
  refine sound_iff.mpr ⟨?_, fun c s hc => ?_, once_withInst hb hfresh hasResult honce, fun c i hi => ?_⟩
  · rw [hsize]
    exact hnonempty
  · rw [succsOf_withInst] at hc
    rw [hsize]
    exact hsuccs c s hc
  · have hextends := Step.extends (.inst (f := f) hb ha hasResult)
    rw [instsOf_withInst hb] at hi
    split at hi
    · rcases List.mem_append.mp hi with hi | hi
      · exact hextends.inOrder (hlisted b i hi)
      · obtain rfl := List.mem_singleton.mp hi
        exact inOrder_withInst b ha hasResult
    · exact hextends.inOrder (hlisted c i hi)

/-- **A step keeps a function sound.** -/
theorem Step.sound (h : f.Step g) (hs : f.Sound) : g.Sound := by
  have hsuccs := (sound_iff.mp hs).2.1
  have hextends := h.extends
  cases h with
  | value v => exact hextends.sound hs (fun _ => rfl) hsuccs
  | param v => exact hextends.sound hs (fun _ => rfl) hsuccs
  | block =>
    refine hextends.sound hs f.instsOf_pushBlock fun c t hc => ?_
    rw [succsOf_pushBlock] at hc
    exact Nat.lt_of_lt_of_le (hsuccs c t hc) hextends.blocks
  | inst hb ha hasResult => exact hs.withInst hb ha hasResult
  | @edge b s hb hs' =>
    refine hextends.sound hs (f.instsOf_withEdge b s) fun c t hc => ?_
    refine Nat.lt_of_lt_of_le ?_ hextends.blocks
    rw [succsOf_withEdge hb] at hc
    split at hc
    · split at hc
      · exact hsuccs b t hc
      · rcases List.mem_append.mp hc with hc | hc
        · exact hsuccs b t hc
        · obtain rfl := List.mem_singleton.mp hc
          exact hs'
    · exact hsuccs c t hc

/-- Any number of steps. -/
abbrev Steps : Func → Func → Prop := Relation.ReflTransGen Step

/-- Nothing is lost in any number of steps. -/
theorem Steps.extends (h : Steps f g) : f.Extends g := by
  induction h with
  | refl => exact .refl f
  | tail _ hstep ih => exact ih.trans hstep.extends

/-- **Soundness is kept in any number of steps.** -/
theorem Steps.sound (h : Steps f g) (hs : f.Sound) : g.Sound := by
  induction h with
  | refl => exact hs
  | tail _ hstep ih => exact hstep.sound ih

/-- A function without blocks becomes sound with its first one, whatever its tables hold. -/
theorem sound_pushBlock (h : f.blocks.size = 0) : f.pushBlock.2.Sound := by
  have hnone : ∀ c : BlockId, f.blocks[c.index]? = none := fun c =>
    Array.getElem?_eq_none (h ▸ Nat.zero_le _)
  have hinsts : ∀ c, f.pushBlock.2.instsOf c = [] := by
    intro c
    rw [instsOf_pushBlock, instsOf, hnone]
    rfl
  have hsuccs : ∀ c, f.pushBlock.2.succsOf c = [] := by
    intro c
    rw [succsOf_pushBlock, succsOf, hnone]
    rfl
  refine sound_iff.mpr ⟨by simp [pushBlock], fun c s hs => ?_, ⟨fun c => ?_, fun c d _ => ?_⟩,
    fun c i hi => ?_⟩
  · rw [hsuccs] at hs
    exact absurd hs List.not_mem_nil
  · rw [hinsts]
    exact List.nodup_nil
  · rw [hinsts]
    exact List.disjoint_nil_left _
  · rw [hinsts] at hi
    exact absurd hi List.not_mem_nil

end Func

/-! ## Edits -/

/-- One operation of a cursor, without its answer. -/
inductive Edit where
  | createBlock
  | switchTo (b : BlockId)
  | param
  | int (n : Int)
  | bool (b : Bool)
  | slot (name : String)
  | store (value ptr : ValueId)
  | load (ptr : ValueId)
  | binary (op : Operator) (lhs rhs : ValueId)
  | other (opcode : String) (operands : List ValueId) (hasResult : Bool)
  | jump (target : BlockId)
  | branch (onTrue onFalse : BlockId)
deriving DecidableEq, Repr

namespace Edit

/-- Performs the operation. -/
def perform? (c : Cursor) : Edit → Option Cursor
  | .createBlock => some c.createBlock.2
  | .switchTo b => some (c.switchTo b)
  | .param => some c.param.2
  | .int n => some (c.int n).2
  | .bool b => some (c.bool b).2
  | .slot name => some (c.slot name).2
  | .store value ptr => c.store? value ptr
  | .load ptr => (c.load? ptr).map Prod.snd
  | .binary op lhs rhs => (c.binary? op lhs rhs).map Prod.snd
  | .other opcode operands hasResult => (c.other? opcode operands hasResult).map Prod.snd
  | .jump target => c.jump? target
  | .branch onTrue onFalse => c.branch? onTrue onFalse

/-- The values that the operation names. -/
def operands : Edit → List ValueId
  | .store value ptr => [value, ptr]
  | .load ptr => [ptr]
  | .binary _ lhs rhs => [lhs, rhs]
  | .other _ operands _ => operands
  | _ => []

/-- The blocks that the operation names. -/
def targets : Edit → List BlockId
  | .switchTo b => [b]
  | .jump target => [target]
  | .branch onTrue onFalse => [onTrue, onFalse]
  | _ => []

/-- Everything that the operation names exists. -/
structure Fits (c : Cursor) (e : Edit) : Prop where
  operands : ∀ v ∈ e.operands, v.index < c.func.values.size
  targets : ∀ b ∈ e.targets, b.index < c.func.blocks.size

end Edit

namespace Cursor

variable {c : Cursor}

/-! ## What the operations of a cursor come to -/

/-- A cursor at an existing block can emit, and what it emits is one step. -/
theorem emit?_eq (hc : c.block.index < c.func.blocks.size) (a : Action) :
    c.emit? a = some (⟨c.func.insts.size⟩, { c with func := c.func.withInst c.block a false }) := by
  simp [emit?, Func.pushInst, Func.placeInst?, Func.modifyBlock?, hc, Func.withInst]

/-- The instruction is added without a result, then the result, and then the two are tied
together. -/
theorem emitValue?_eq (hc : c.block.index < c.func.blocks.size) (a : Action) :
    c.emitValue? a
      = some (⟨c.func.values.size⟩, { c with func := c.func.withInst c.block a true }) := by
  simp [emitValue?, emit?_eq hc, Func.pushValue, Func.setResult?, Func.modifyInst?, Func.withInst,
    Func.modify_push_size]

theorem jump?_eq (hc : c.block.index < c.func.blocks.size) (target : BlockId) :
    c.jump? target = some { c with func := c.func.withEdge c.block target } := by
  simp [jump?, Func.addSuccessor?, Func.modifyBlock?, hc, Func.withEdge]

end Cursor

namespace Edit

variable {c : Cursor} {e : Edit}

/-- An edit that leaves the cursor where it is. -/
theorem perform?_stays {g : Func} (hc : c.block.index < c.func.blocks.size) (hsteps : c.func.Steps g)
    (hperform : e.perform? c = some { c with func := g }) :
    ∃ c', e.perform? c = some c' ∧ c.func.Steps c'.func ∧ c'.block.index < c'.func.blocks.size :=
  ⟨_, hperform, hsteps, Nat.lt_of_lt_of_le hc hsteps.extends.blocks⟩

/-- **An edit that fits answers**, takes the function further by steps, and leaves the cursor at a
block. -/
theorem perform?_steps (hc : c.block.index < c.func.blocks.size) (h : e.Fits c) :
    ∃ c', e.perform? c = some c' ∧ c.func.Steps c'.func ∧ c'.block.index < c'.func.blocks.size := by
  cases e with
  | createBlock => exact perform?_stays hc (.single .block) rfl
  | switchTo b => exact ⟨c.switchTo b, rfl, .refl, h.targets b List.mem_cons_self⟩
  | param =>
    exact perform?_stays hc (.tail (.single (.value (.arg c.func.params.length))) (.param _)) rfl
  | int n => exact perform?_stays hc (.single (.value (.const (.int n)))) rfl
  | bool b => exact perform?_stays hc (.single (.value (.const (.bool b)))) rfl
  | slot name => exact perform?_stays hc (.single (.value (.slot name))) rfl
  | store value ptr =>
    refine perform?_stays hc (.single (.inst (a := .store value ptr) hc h.operands false)) ?_
    simp [perform?, Cursor.store?, Cursor.emit?_eq hc]
  | load ptr =>
    refine perform?_stays hc (.single (.inst (a := .load ptr) hc h.operands true)) ?_
    simp [perform?, Cursor.load?, Cursor.emitValue?_eq hc]
  | binary op lhs rhs =>
    refine perform?_stays hc (.single (.inst (a := .binary op lhs rhs) hc h.operands true)) ?_
    simp [perform?, Cursor.binary?, Cursor.emitValue?_eq hc]
  | other opcode operands hasResult =>
    refine perform?_stays hc (.single (.inst (a := .other opcode operands) hc h.operands hasResult)) ?_
    cases hasResult with
    | false => simp [perform?, Cursor.other?, Cursor.emit?_eq hc]
    | true => simp [perform?, Cursor.other?, Cursor.emitValue?_eq hc]
  | jump target =>
    refine perform?_stays hc (.single (.edge hc (h.targets target List.mem_cons_self))) ?_
    exact Cursor.jump?_eq hc target
  | branch onTrue onFalse =>
    -- two edges, of which the second may be there because of the first
    have hfirst : c.func.Step (c.func.withEdge c.block onTrue) :=
      .edge hc (h.targets onTrue List.mem_cons_self)
    have hmore := hfirst.extends.blocks
    have hc' : c.block.index < (c.func.withEdge c.block onTrue).blocks.size :=
      Nat.lt_of_lt_of_le hc hmore
    have htarget : onFalse.index < c.func.blocks.size :=
      h.targets onFalse (List.mem_cons_of_mem _ List.mem_cons_self)
    have hsecond := Func.Step.edge hc' (Nat.lt_of_lt_of_le htarget hmore)
    refine perform?_stays hc (.tail (.single hfirst) hsecond) ?_
    show c.branch? onTrue onFalse = _
    unfold Cursor.branch?
    rw [Cursor.jump?_eq hc]
    exact Cursor.jump?_eq (c := { c with func := c.func.withEdge c.block onTrue }) hc' onFalse

end Edit

/-! ## The headline -/

/-- **What can be built on `f`**: the cursor at the start, and wherever an edit leads that names
only what exists at the time. -/
inductive Built (f : Func) : Cursor → Prop where
  | start : Built f (.start f)
  | edit {c c' : Cursor} {e : Edit} (h : Built f c) (hfits : e.Fits c)
      (hperform : e.perform? c = some c') : Built f c'

namespace Cursor

variable {f : Func} {c : Cursor}

/-- A cursor starts at a block of a sound function that has all that `f` has. -/
theorem start_spec (hf : f.Sound ∨ f.blocks.size = 0) :
    (start f).func.Sound ∧ f.Extends (start f).func ∧
    (start f).block.index < (start f).func.blocks.size := by
  unfold start Func.entry?
  by_cases hempty : f.blocks.size = 0
  · rw [if_pos (by simpa using hempty)]
    exact ⟨Func.sound_pushBlock hempty, Func.Step.block.extends, by simp [Func.pushBlock]⟩
  · rw [if_neg (by simpa using hempty)]
    exact ⟨hf.resolve_right hempty, .refl f, Nat.pos_of_ne_zero hempty⟩

/-- **Everything that can be built is sound**, and the cursor is at a block. -/
theorem built_spec (hf : f.Sound ∨ f.blocks.size = 0) (h : Built f c) :
    c.func.Sound ∧ f.Extends c.func ∧ c.block.index < c.func.blocks.size := by
  induction h with
  | start => exact start_spec hf
  | edit _ hfits hperform ih =>
    obtain ⟨hs, hextends, hc⟩ := ih
    obtain ⟨c', hc', hsteps, hblock⟩ := Edit.perform?_steps hc hfits
    obtain rfl := Option.some.inj (hc'.symm.trans hperform)
    exact ⟨hsteps.sound hs, hextends.trans hsteps.extends, hblock⟩

/-- **Building keeps a function sound.**  Begin with a function that is sound, or one without blocks
and with whatever in its other tables, and go on with any edits that name only what exists at the
time.  Then the function built is sound and has all that the first one had; and every further edit
that names only what exists is carried out and again leaves a sound function, with all values and
instructions as they were, with what the blocks list grown at the end only, and with no successor
added that was there. -/
theorem building_keeps_sound {f : Func} (hf : f.validate = .ok () ∨ f.blocks.size = 0) {c : Cursor}
    (hc : Built f c) :
    c.func.validate = .ok () ∧ f.Extends c.func ∧
    ∀ e : Edit, e.Fits c →
      ∃ c', e.perform? c = some c' ∧ c'.func.validate = .ok () ∧ c.func.Extends c'.func := by
  rw [f.validate_eq_ok_iff] at hf
  obtain ⟨hs, hextends, hblock⟩ := built_spec hf hc
  refine ⟨c.func.validate_eq_ok_iff.mpr hs, hextends, fun e hfits => ?_⟩
  obtain ⟨c', hc', hsteps, -⟩ := Edit.perform?_steps hblock hfits
  exact ⟨c', hc', c'.func.validate_eq_ok_iff.mpr (hsteps.sound hs), hsteps.extends⟩

/-- No blocks, a result of an instruction that is not there, and an instruction on values that are
not. -/
def scraps : Func where
  name := "scraps"
  values := #[.result ⟨7⟩]
  insts := #[⟨.load ⟨9⟩, some ⟨4⟩⟩]

/-- `scraps` with a parameter, a sum, and a branch whose two targets are one. -/
def salvaged : Cursor where
  func := {
    name := "scraps"
    params := [⟨1⟩]
    values := #[.result ⟨7⟩, .arg 0, .result ⟨1⟩]
    insts := #[⟨.load ⟨9⟩, some ⟨4⟩⟩, ⟨.binary .add ⟨0⟩ ⟨1⟩, some ⟨2⟩⟩]
    blocks := #[⟨[⟨1⟩], [⟨0⟩]⟩] }
  block := ⟨0⟩

/-- What is built on `scraps`, and a store on top of that. -/
theorem salvaged_building_keeps_sound :
    Built scraps salvaged ∧ salvaged.func.validate = .ok () ∧ scraps.Extends salvaged.func ∧
      (Edit.store ⟨2⟩ ⟨1⟩).Fits salvaged ∧
      ∃ c, (Edit.store ⟨2⟩ ⟨1⟩).perform? salvaged = some c ∧ c.func.validate = .ok () ∧
        salvaged.func.Extends c.func := by
  have hparam := Built.start (f := scraps) |>.edit (e := .param) ⟨by decide, by decide⟩ rfl
  have hsum := hparam.edit (e := .binary .add ⟨0⟩ ⟨1⟩) ⟨by decide, by decide⟩ rfl
  have hbranch : Built scraps salvaged := hsum.edit (e := .branch ⟨0⟩ ⟨0⟩) ⟨by decide, by decide⟩ rfl
  have hfits : (Edit.store ⟨2⟩ ⟨1⟩).Fits salvaged := ⟨by decide, by decide⟩
  obtain ⟨hvalid, hextends, hnext⟩ := building_keeps_sound (Or.inr rfl) hbranch
  exact ⟨hbranch, hvalid, hextends, hfits, hnext _ hfits⟩

end Cursor

end Dataflow
