import Dataflow.Proofs.Convergence
import Mathlib.Data.List.Pairwise
import Mathlib.Logic.Equiv.Basic

/-!
# The layout of blocks does not matter

Sweeps go backwards through the layout and change sets in place, so for two layouts of one graph
they pass through different states and may take a different number of rounds.  What they come to
rest with is the same: it is about paths (`Dataflow.Liveness.compute_sets`), and paths do not know
the layout.

1. **Another layout** (`Relayout`): the blocks are relabelled by a permutation, they list the same
   instructions, and their edges lead to the same blocks, in whatever order and however often each
   is listed.  This is symmetric (`Relayout.symm`), so each fact about it needs one direction only.

2. **It is as sound** (`Relayout.sound`): that no instruction is listed twice is a statement about
   each block and each pair of blocks (`Func.nodup_programOrder_iff`), and so not about their order.

3. **It has the same paths** (`Relayout.liveFrom_iff`).
-/

namespace Dataflow

namespace Func

/-! ## Listings without their order -/

theorem mem_programOrder {f : Func} {b : BlockId} {i : InstId} :
    (b, i) ∈ f.programOrder ↔ i ∈ f.instsOf b := by
  rw [programOrder_eq, List.mem_flatMap, mem_instsOf]
  constructor
  · rintro ⟨⟨c, block⟩, hblock, hi⟩
    obtain ⟨j, hj, heq⟩ := List.mem_map.mp hi
    obtain ⟨rfl, rfl⟩ := Prod.mk.inj heq
    exact ⟨block, hblock, hj⟩
  · rintro ⟨block, hblock, hi⟩
    exact ⟨(b, block), hblock, List.mem_map_of_mem hi⟩

/-- **No instruction is listed twice** if no block lists one twice and no two blocks share one. -/
theorem nodup_programOrder_iff {f : Func} :
    (f.programOrder.map Prod.snd).Nodup ↔ (∀ b, (f.instsOf b).Nodup) ∧
      ∀ b c, b ≠ c → List.Disjoint (f.instsOf b) (f.instsOf c) := by
  have hflat : f.programOrder.map Prod.snd = (f.layout.map fun b => b.2.insts).flatten := by
    rw [programOrder_eq, List.map_flatMap, ← List.flatMap_def]
    simp [listings, Function.comp_def]
  have hlists : ∀ b ∈ f.layout, f.instsOf b.1 = b.2.insts := fun b hb => instsOf_eq (mem_layout.mp hb)
  rw [hflat, List.nodup_flatten, List.pairwise_map, List.forall_mem_map]
  constructor
  · rintro ⟨hnodup, hdisjoint⟩
    refine ⟨fun b => ?_, fun b c hne i hi hi' => ?_⟩
    · cases hblock : f.blocks[b.index]? with
      | none => simp [instsOf, hblock]
      | some block =>
        rw [instsOf_eq hblock]
        exact hnodup (b, block) (mem_layout.mpr hblock)
    · obtain ⟨block, hb, hi⟩ := mem_instsOf.mp hi
      obtain ⟨block', hc, hi'⟩ := mem_instsOf.mp hi'
      have hsymm : Std.Symm fun b c : BlockId × Block => List.Disjoint b.2.insts c.2.insts :=
        ⟨fun _ _ h => List.disjoint_symm h⟩
      exact hdisjoint.forall hb hc (fun heq => hne (congrArg Prod.fst heq)) hi hi'
  · rintro ⟨hnodup, hdisjoint⟩
    refine ⟨fun b hb => hlists b hb ▸ hnodup b.1, ?_⟩
    -- the labels of a layout go up, so no two of them are the same
    refine f.layout_sorted.imp_of_mem fun {b c} hb hc hlt => ?_
    rw [← hlists b hb, ← hlists c hc]
    exact hdisjoint b.1 c.1 fun heq => Nat.ne_of_lt hlt (congrArg BlockId.index heq)

end Func

/-! ## Another layout -/

/-- **`g` is `f` in another layout**, where block `b` of `f` is block `p b` of `g`. -/
structure Relayout (p : Equiv.Perm BlockId) (f g : Func) : Prop where
  values : g.values = f.values
  insts : g.insts = f.insts
  size : g.blocks.size = f.blocks.size
  /-- Labels of blocks become labels of blocks. -/
  range : ∀ b, (p b).index < f.blocks.size ↔ b.index < f.blocks.size
  /-- A block lists the same instructions, and as successors the same blocks in some order, each
  once or more often. -/
  blocks : ∀ (b : BlockId) (block : Block), f.blocks[b.index]? = some block →
    ∃ block', g.blocks[(p b).index]? = some block' ∧ block'.insts = block.insts ∧
      ∀ s, p s ∈ block'.succs ↔ s ∈ block.succs

namespace Relayout

variable {p : Equiv.Perm BlockId} {f g : Func}

/-- A relayout can be undone. -/
theorem symm (h : Relayout p f g) : Relayout p.symm g f where
  values := h.values.symm
  insts := h.insts.symm
  size := h.size.symm
  range := by
    intro c
    have hc := h.range (p.symm c)
    rw [Equiv.apply_symm_apply] at hc
    rw [h.size]
    exact hc.symm
  blocks := by
    intro c block' hblock'
    have hlt : (p.symm c).index < f.blocks.size := by
      rw [← h.range, Equiv.apply_symm_apply, ← h.size]
      exact (Array.getElem?_eq_some_iff.mp hblock').1
    have hblock : f.blocks[(p.symm c).index]? = some f.blocks[(p.symm c).index] :=
      Array.getElem?_eq_getElem hlt
    obtain ⟨block'', hat, hinsts, hsuccs⟩ := h.blocks _ _ hblock
    rw [Equiv.apply_symm_apply] at hat
    obtain rfl := Option.some.inj (hblock'.symm.trans hat)
    refine ⟨_, hblock, hinsts.symm, fun t => ?_⟩
    rw [← hsuccs (p.symm t), Equiv.apply_symm_apply]

theorem instsOf (h : Relayout p f g) (b : BlockId) : g.instsOf (p b) = f.instsOf b := by
  cases hblock : f.blocks[b.index]? with
  | some block =>
    obtain ⟨block', hat, hinsts, -⟩ := h.blocks b block hblock
    rw [Func.instsOf_eq hat, Func.instsOf_eq hblock, hinsts]
  | none =>
    have hge : g.blocks.size ≤ (p b).index := by
      have hb := Array.getElem?_eq_none_iff.mp hblock
      have hrange := h.range b
      rw [h.size]
      omega
    simp [Func.instsOf, hblock, Array.getElem?_eq_none hge]

/-- Edges go along with their blocks. -/
theorem edge (h : Relayout p f g) {b s : BlockId} (hedge : f.Edge b s) : g.Edge (p b) (p s) := by
  obtain ⟨block, hblock, hs⟩ := hedge
  obtain ⟨block', hat, -, hsuccs⟩ := h.blocks b block hblock
  exact ⟨block', hat, (hsuccs s).mpr hs⟩

/-- **Another layout is as sound.** -/
theorem sound (h : Relayout p f g) (hs : f.Sound) : g.Sound where
  nonempty := by
    rw [h.size]
    exact hs.nonempty
  succs := by
    intro block' hblock' t ht
    obtain ⟨n, hn⟩ := Array.mem_iff_getElem?.mp hblock'
    obtain ⟨block, hat, -, hsuccs⟩ := h.symm.blocks ⟨n⟩ block' hn
    rw [← h.symm.range, h.size]
    exact hs.succs block (Array.mem_of_getElem? hat) _ ((hsuccs t).mpr ht)
  once := by
    obtain ⟨hnodup, hdisjoint⟩ := Func.nodup_programOrder_iff.mp hs.once
    have hlists : ∀ c, g.instsOf c = f.instsOf (p.symm c) := fun c => (h.symm.instsOf c).symm
    refine Func.nodup_programOrder_iff.mpr ⟨fun c => ?_, fun c d hne => ?_⟩
    · rw [hlists]
      exact hnodup _
    · rw [hlists, hlists]
      exact hdisjoint _ _ fun heq => hne (p.symm.injective heq)
  listed := by
    rintro ⟨c, i⟩ hi
    rw [Func.mem_programOrder, ← h.symm.instsOf, ← Func.mem_programOrder] at hi
    rw [h.insts, h.values]
    exact hs.listed (p.symm c, i) hi

/-- Another layout has the same names. -/
theorem of_eq (h : Relayout p f g) (identity : Identity) : KeySpace.of identity g = .of identity f := by
  cases identity with
  | value => rfl
  | name =>
    show KeySpace.names (.ofFunc g) = .names (.ofFunc f)
    unfold NameTable.ofFunc
    rw [h.values]

section

variable {keys : KeySpace} {k : Nat}

/-- A path in `f` is one in `g`, read with the blocks in their new places. -/
theorem liveFrom (h : Relayout p f g) {b : BlockId} (hlive : keys.LiveFrom f k b) :
    keys.LiveFrom g k (p b) :=
  hlive.rename p h.insts (fun b _ => h.instsOf b) fun _ _ => h.edge

/-- **Another layout has the same paths.** -/
theorem liveFrom_iff (h : Relayout p f g) {b : BlockId} :
    keys.LiveFrom g k (p b) ↔ keys.LiveFrom f k b := by
  constructor
  · intro hlive
    have hback := h.symm.liveFrom hlive
    rwa [Equiv.symm_apply_apply] at hback
  · exact h.liveFrom

/-- So is a path that starts behind a block. -/
theorem liveAfter (h : Relayout p f g) {b : BlockId} (hlive : keys.LiveAfter f b k) :
    keys.LiveAfter g (p b) k := by
  obtain ⟨s, hedge, hs⟩ := hlive
  exact ⟨p s, h.edge hedge, h.liveFrom hs⟩

theorem liveAfter_iff (h : Relayout p f g) {b : BlockId} :
    keys.LiveAfter g (p b) k ↔ keys.LiveAfter f b k := by
  constructor
  · intro hlive
    have hback := h.symm.liveAfter hlive
    rwa [Equiv.symm_apply_apply] at hback
  · exact h.liveAfter

end

end Relayout

/-! ## The headline -/

/-- The four sets of a block are equal to those of another. -/
def BlockSets.Same (s t : BlockSets) : Prop :=
  (s.effect.exposed == t.effect.exposed) = true ∧ (s.effect.killed == t.effect.killed) = true ∧
    (s.liveOut == t.liveOut) = true ∧ (s.liveIn == t.liveIn) = true

namespace Liveness

open Sweep

/-- **The layout of blocks and the listing of edges do not matter.**  Take any function that
validates and another layout of it.  Liveness without a cap answers on both, over values and over
the functions' own names, and each block has the same four sets in both.  As for the default bound,
the number of blocks has to be a count with one to spare. -/
theorem layout_keeps_sets {p : Equiv.Perm BlockId} {f g : Func} (hvalid : f.validate = .ok ())
    (hroom : f.blocks.size < maxCount) (h : Relayout p f g) (identity : Identity) :
    ∃ l l', (compute (.of identity f) f none).outcome = .ok l ∧
      (compute (.of identity g) g none).outcome = .ok l' ∧
      ∀ b : BlockId, b.index < f.blocks.size → ∃ sets sets',
        l.block? b = some sets ∧ l'.block? (p b) = some sets' ∧ sets.Same sets' := by
  have hf : f.Sound := f.validate_eq_ok_iff.mp hvalid
  have hg : g.Sound := h.sound hf
  obtain ⟨l, hl⟩ := exists_compute identity f hf hroom
  obtain ⟨l', hl'⟩ := exists_compute identity g hg (by rw [h.size]; exact hroom)
  refine ⟨l, l', hl, hl', fun b hb => ?_⟩
  rw [h.of_eq identity] at hl'
  have hb' : (p b).index < g.blocks.size := by
    rw [h.size, h.range]
    exact hb
  obtain ⟨sets, hsets, hin⟩ := compute_sets hl hb
  obtain ⟨sets', hsets', hin'⟩ := compute_sets hl' hb'
  refine ⟨sets, sets', hsets, hsets', ?_⟩
  -- each set is said in terms of what the layouts share
  have hsame : ∀ k, (k ∈ sets.effect.exposed ↔ k ∈ sets'.effect.exposed) ∧
      (k ∈ sets.effect.killed ↔ k ∈ sets'.effect.killed) ∧ (k ∈ sets.liveOut ↔ k ∈ sets'.liveOut) ∧
      (k ∈ sets.liveIn ↔ k ∈ sets'.liveIn) := by
    intro k
    obtain ⟨hexposed, hkilled, hout, hlive⟩ := hin k
    obtain ⟨hexposed', hkilled', hout', hlive'⟩ := hin' k
    rw [h.instsOf b] at hexposed' hkilled'
    refine ⟨?_, ?_, ?_, ?_⟩
    · rw [hexposed, hexposed', KeySpace.readsFirst_congr h.insts]
    · rw [hkilled, hkilled', KeySpace.spares_congr h.insts]
    · rw [hout, hout', h.liveAfter_iff]
    · rw [hlive, hlive', h.liveFrom_iff]
  unfold BlockSets.Same
  simp only [WordSet.beq_iff_same_members]
  exact ⟨fun k => (hsame k).1, fun k => (hsame k).2.1, fun k => (hsame k).2.2.1,
    fun k => (hsame k).2.2.2⟩

/-- A slot that is read only at the end of two blocks that run in a loop. -/
def relay : Func where
  name := "relay"
  values := #[.slot "x", .result ⟨0⟩]
  insts := #[⟨.load ⟨0⟩, some ⟨1⟩⟩]
  blocks := #[⟨[], [⟨1⟩]⟩, ⟨[], [⟨0⟩, ⟨2⟩]⟩, ⟨[⟨0⟩], []⟩]

/-- The blocks of `relay` from the last to the first, with an edge listed twice. -/
def relayBackwards : Func :=
  { relay with blocks := #[⟨[⟨0⟩], []⟩, ⟨[], [⟨0⟩, ⟨2⟩, ⟨0⟩]⟩, ⟨[], [⟨1⟩]⟩] }

theorem relayout_relay : Relayout (Equiv.swap ⟨0⟩ ⟨2⟩) relay relayBackwards where
  values := rfl
  insts := rfl
  size := rfl
  range := by
    intro b
    rw [Equiv.swap_apply_def]
    split
    · subst b
      decide
    · split
      · subst b
        decide
      · exact Iff.rfl
  blocks := by
    have hmid : Equiv.swap (⟨0⟩ : BlockId) ⟨2⟩ ⟨1⟩ = ⟨1⟩ := by decide
    rintro ⟨n⟩ block hblock
    match n, hblock with
    | 0, hblock =>
      obtain rfl := Option.some.inj hblock
      refine ⟨⟨[], [⟨1⟩]⟩, rfl, rfl, fun s => ?_⟩
      show Equiv.swap ⟨0⟩ ⟨2⟩ s ∈ [⟨1⟩] ↔ s ∈ [⟨1⟩]
      simp [Equiv.swap_apply_eq_iff, hmid]
    | 1, hblock =>
      obtain rfl := Option.some.inj hblock
      refine ⟨⟨[], [⟨0⟩, ⟨2⟩, ⟨0⟩]⟩, by rw [hmid]; rfl, rfl, fun s => ?_⟩
      show Equiv.swap ⟨0⟩ ⟨2⟩ s ∈ [⟨0⟩, ⟨2⟩, ⟨0⟩] ↔ s ∈ [⟨0⟩, ⟨2⟩]
      simp only [List.mem_cons, List.not_mem_nil, or_false, Equiv.swap_apply_eq_iff,
        Equiv.swap_apply_left, Equiv.swap_apply_right]
      tauto
    | 2, hblock =>
      obtain rfl := Option.some.inj hblock
      refine ⟨⟨[⟨0⟩], []⟩, rfl, rfl, fun s => ?_⟩
      show Equiv.swap ⟨0⟩ ⟨2⟩ s ∈ [] ↔ s ∈ []
      simp

/-- Backwards `relay` takes one more sweep, to the same sets. -/
theorem relay_layout_keeps_sets :
    ∃ l l', (compute (.of .name relay) relay none).outcome = .ok l ∧
      (compute (.of .name relayBackwards) relayBackwards none).outcome = .ok l' ∧
      l.sweeps = 2 ∧ l'.sweeps = 3 ∧ ∀ b : BlockId, b.index < 3 → ∃ sets sets',
        l.block? b = some sets ∧ l'.block? (Equiv.swap ⟨0⟩ ⟨2⟩ b) = some sets' ∧ sets.Same sets' := by
  have hrun : (compute (.of .name relay) relay none).outcome = .ok _ := rfl
  have hrun' : (compute (.of .name relayBackwards) relayBackwards none).outcome = .ok _ := rfl
  obtain ⟨l, l', hl, hl', hsets⟩ := layout_keeps_sets rfl (by decide) relayout_relay .name
  obtain rfl := Except.ok.inj (hrun.symm.trans hl)
  obtain rfl := Except.ok.inj (hrun'.symm.trans hl')
  exact ⟨_, _, hrun, hrun', rfl, rfl, hsets⟩

end Liveness

end Dataflow
