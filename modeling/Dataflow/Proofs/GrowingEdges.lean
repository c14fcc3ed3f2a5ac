import Dataflow.Proofs.Convergence
import Dataflow.Proofs.LivenessStates
import Mathlib.Data.List.Chain
import Mathlib.Order.Bounds.Basic

/-!
# Sweeping again after edges were added

A state may be swept along the edges of other functions than the one it was made for.  While each
call only adds edges to those of the call before, nothing is lost by not starting anew.

1. **Other edges are another function** (`Func.withEdges`): a state made for `f` and swept along the
   edges of `g` is a state of the function with the instructions of `f` and the edges of `g`.  So
   what is known about paths and sweeps of one function carries over.

2. **Below the paths** (`Grounded`): more edges only make more paths, so a state with no key but
   those with a path stays one, whatever was left unfinished.

3. **Below its own image** (`Supported`): every key live at the end of a block enters one of its
   successors.  So a visit, which puts what enters the successors in place of what was there, only
   adds; and what it adds enters a successor itself.

By (2) and (3) sets that come to rest are the least ones closed under the edges.
-/

namespace Dataflow

/-! ## One function with the edges of another -/

namespace Func

variable {f g : Func}

/-- The function `f` with the edges of `g`, block by block. -/
def withEdges (f g : Func) : Func :=
  { f with blocks := Array.zipWith (fun b c => { b with succs := c.succs }) f.blocks g.blocks }

/-- A block of `f.withEdges g` lists what it lists in `f` and leads where it leads in `g`. -/
theorem getElem?_withEdges {n : Nat} {block : Block} :
    (f.withEdges g).blocks[n]? = some block ↔ ∃ b c, f.blocks[n]? = some b ∧ g.blocks[n]? = some c ∧
      block = { b with succs := c.succs } := by
  unfold withEdges
  rw [Array.getElem?_zipWith]
  cases f.blocks[n]? <;> cases g.blocks[n]? <;> simp [eq_comm]

section

variable (hsize : g.blocks.size = f.blocks.size)

include hsize

theorem size_withEdges : (f.withEdges g).blocks.size = f.blocks.size := by
  simp [withEdges, hsize]

/-- The edges are those of `g`. -/
theorem edge_withEdges {b s : BlockId} : (f.withEdges g).Edge b s ↔ g.Edge b s := by
  constructor
  · rintro ⟨block, hblock, hs⟩
    obtain ⟨b₁, b₂, -, hb₂, rfl⟩ := getElem?_withEdges.mp hblock
    exact ⟨b₂, hb₂, hs⟩
  · rintro ⟨b₂, hb₂, hs⟩
    have hn : b.index < f.blocks.size := hsize ▸ (Array.getElem?_eq_some_iff.mp hb₂).1
    exact ⟨_, getElem?_withEdges.mpr ⟨_, _, Array.getElem?_eq_getElem hn, hb₂, rfl⟩, hs⟩

omit hsize in
theorem toList_withEdges : (f.withEdges g).blocks.toList
    = (f.blocks.toList.zip g.blocks.toList).map fun p => { p.1 with succs := p.2.succs } := by
  unfold withEdges
  rw [Array.toList_zipWith, ← List.map_uncurry_zip_eq_zipWith]
  rfl

/-- The blocks list what they listed. -/
theorem map_insts_withEdges :
    (f.withEdges g).blocks.toList.map Block.insts = f.blocks.toList.map Block.insts := by
  have hlength : f.blocks.toList.length ≤ g.blocks.toList.length := by simp [hsize]
  rw [toList_withEdges, List.map_map]
  show (f.blocks.toList.zip g.blocks.toList).map (Block.insts ∘ Prod.fst) = _
  rw [← List.map_map, List.map_fst_zip hlength]

theorem map_succs_withEdges :
    (f.withEdges g).blocks.toList.map Block.succs = g.blocks.toList.map Block.succs := by
  have hlength : g.blocks.toList.length ≤ f.blocks.toList.length := by simp [hsize]
  rw [toList_withEdges, List.map_map]
  show (f.blocks.toList.zip g.blocks.toList).map (Block.succs ∘ Prod.snd) = _
  rw [← List.map_map, List.map_snd_zip hlength]

/-- The listed instructions are those of `f`. -/
theorem instsOf_withEdges (b : BlockId) : (f.withEdges g).instsOf b = f.instsOf b := by
  have hat := congrArg (fun insts => insts[b.index]?) (map_insts_withEdges hsize)
  simp only [List.getElem?_map, Array.getElem?_toList] at hat
  unfold instsOf
  rw [hat]

end

/-- Program order is about what the blocks list. -/
theorem programOrder_congr
    (h : f.blocks.toList.map Block.insts = g.blocks.toList.map Block.insts) :
    f.programOrder = g.programOrder := by
  have hlists : ∀ h : Func, h.programOrder
      = (h.blocks.toList.map Block.insts).zipIdx.flatMap fun p => p.1.map fun i => (⟨p.2⟩, i) := by
    intro h
    unfold programOrder layout
    rw [List.zipIdx_map, List.flatMap_map, List.flatMap_map]
    rfl
  rw [hlists, hlists, h]

/-- A layout without its instructions is about the edges. -/
theorem layout_edges (f : Func) : f.layout.map (fun b => (b.1, b.2.succs))
    = (f.blocks.toList.map Block.succs).zipIdx.map fun p => (⟨p.2⟩, p.1) := by
  unfold layout
  rw [List.zipIdx_map, List.map_map, List.map_map]
  rfl

/-- Sound instructions along sound edges are sound, if there are as many blocks. -/
theorem Sound.withEdges (hf : f.Sound) (hg : g.Sound) (hsize : g.blocks.size = f.blocks.size) :
    (f.withEdges g).Sound where
  nonempty := by
    rw [size_withEdges hsize]
    exact hf.nonempty
  succs := by
    intro block hblock s hs
    obtain ⟨n, hn⟩ := Array.mem_iff_getElem?.mp hblock
    obtain ⟨b, c, -, hc, rfl⟩ := getElem?_withEdges.mp hn
    rw [size_withEdges hsize, ← hsize]
    exact hg.succs c (Array.mem_of_getElem? hc) s hs
  once := by
    rw [programOrder_congr (map_insts_withEdges hsize)]
    exact hf.once
  listed := by
    rw [programOrder_congr (map_insts_withEdges hsize)]
    exact hf.listed

/-- Every edge of `f` is an edge of `g`. -/
def EdgesWithin (f g : Func) : Prop := ∀ b s, f.Edge b s → g.Edge b s

end Func

namespace Sweep

variable {numKeys : Nat} {layout layout' : List (BlockId × Block)}

/-- A sweep looks at nothing of a layout but its edges. -/
theorem once?_congr
    (h : layout.map (fun b => (b.1, b.2.succs)) = layout'.map (fun b => (b.1, b.2.succs)))
    (sets : Array BlockSets) : once? numKeys layout sets = once? numKeys layout' sets := by
  have hedges : ∀ layout : List (BlockId × Block), once? numKeys layout sets
      = (layout.map fun b => (b.1, b.2.succs)).reverse.foldlM
        (fun p e => visit? numKeys p (e.1, { succs := e.2 })) ⟨sets, 0⟩ := by
    intro layout
    rw [← List.map_reverse, List.foldlM_map]
    rfl
  rw [hedges, hedges, h]

/-- Sweeps read nothing of a layout but labels and successors. -/
theorem repeat?_congr
    (h : layout.map (fun b => (b.1, b.2.succs)) = layout'.map (fun b => (b.1, b.2.succs)))
    (bound : Nat) (series : Series) :
    repeat? numKeys layout bound series = repeat? numKeys layout' bound series := by
  induction bound generalizing series with
  | zero => rfl
  | succ bound ih => simp only [repeat?, once?_congr h, ih]

/-! ## Sets below their own image -/

/-- Every key live at the end of a block enters one of its successors. -/
def Supported (g : Func) (sets : Array BlockSets) : Prop :=
  ∀ b k, LiveOutAt sets b k → ∃ s, g.Edge b s ∧ Enters (effects sets) (LiveOutAt sets) s k

variable {g : Func}

/-- **A visit only adds**, and what it adds enters a successor. -/
theorem Supported.visit {p q : Progress} {b : BlockId × Block} (hb : b ∈ g.layout)
    (hp : Supported g p.sets) (hv : visit? numKeys p b = some q) :
    (∀ c k, LiveOutAt p.sets c k → LiveOutAt q.sets c k) ∧ Supported g q.sets := by
  have hblock := Func.mem_layout.mp hb
  have hgrow : ∀ c k, LiveOutAt p.sets c k → LiveOutAt q.sets c k := by
    intro c k hc
    rw [visit?_liveOutAt hv]
    split
    · rename_i heq
      obtain ⟨s, ⟨block, hblock', hs⟩, henters⟩ := hp c k hc
      rw [heq] at hblock'
      obtain rfl := Option.some.inj (hblock.symm.trans hblock')
      exact ⟨s, hs, henters⟩
    · exact hc
  refine ⟨hgrow, fun c k hc => ?_⟩
  rw [visit?_effects hv]
  rw [visit?_liveOutAt hv] at hc
  split at hc
  · rename_i heq
    obtain ⟨s, hs, henters⟩ := hc
    exact ⟨s, ⟨b.2, heq ▸ hblock, hs⟩, henters.mono (hgrow s k)⟩
  · obtain ⟨s, hedge, henters⟩ := hp c k hc
    exact ⟨s, hedge, henters.mono (hgrow s k)⟩

/-- The sets have grown from others, and enter a successor. -/
theorem Supported.visits {sets : Array BlockSets} {visited : List (BlockId × Block)} {p : Progress}
    (hvisited : ∀ b ∈ visited, b ∈ g.layout) (h : Supported g sets)
    (hp : visited.foldlM (visit? numKeys) ⟨sets, 0⟩ = some p) :
    (∀ c k, LiveOutAt sets c k → LiveOutAt p.sets c k) ∧ Supported g p.sets := by
  have honce : once? numKeys visited.reverse sets = some p := by
    rw [once?, List.reverse_reverse]
    exact hp
  refine once?_induction
    (fun s => (∀ c k, LiveOutAt sets c k → LiveOutAt s c k) ∧ Supported g s) ?_
      ⟨fun _ _ h => h, h⟩ honce
  intro p q b hb hp hv
  have hstep := hp.2.visit (hvisited b (List.mem_reverse.mp hb)) hv
  exact ⟨fun c k hc => hstep.1 c k (hp.1 c k hc), hstep.2⟩

/-- **A series loses no key and stays supported**, by induction over its sweeps. -/
theorem Supported.series {bound : Nat} {series r : Series} (h : Supported g series.sets)
    (hr : repeat? numKeys g.layout bound series = some r) :
    (∀ c k, LiveOutAt series.sets c k → LiveOutAt r.sets c k) ∧ Supported g r.sets := by
  refine repeat?_induction
    (fun s => (∀ c k, LiveOutAt series.sets c k → LiveOutAt s c k) ∧ Supported g s) ?_
    ⟨fun _ _ h => h, h⟩ hr
  intro sets q hsets hq
  have hsweep := hsets.2.visits (fun b hb => List.mem_reverse.mp hb) hq
  exact ⟨fun c k hc => hsweep.1 c k (hsets.1 c k hc), hsweep.2⟩

/-- More edges support what fewer edges do. -/
theorem Supported.mono {g' : Func} {sets : Array BlockSets} (h : Supported g sets)
    (hedges : g.EdgesWithin g') : Supported g' sets := by
  intro b k hk
  obtain ⟨s, hedge, henters⟩ := h b k hk
  exact ⟨s, hedges b s hedge, henters⟩

/-- A family of key sets closed under the edges of `g`: a block has every key that enters a
successor. -/
def ClosedUnder (es : Array Effect) (g : Func) (live : BlockId → Nat → Prop) : Prop :=
  ∀ b s k, g.Edge b s → Enters es live s k → live b k

end Sweep

namespace Liveness

open Sweep

/-! ## Calls one after the other -/

/-- The state after calls along the edges of these functions, whatever they answer. -/
def afterCalls (l : Liveness) (calls : List (Func × Option SweepCap)) : Liveness :=
  calls.foldl (fun l c => (l.fixpoint c.1 c.2).2) l

/-- **A visit of a call**: after `j` sweeps, none of them idle, and some blocks visited in the next
one, the call visits block `b` and takes the sets from `p` to `q`. -/
def VisitIn (l : Liveness) (g : Func) (cap : Option SweepCap) (b : BlockId × Block) (p q : Progress) :
    Prop :=
  ∃ j series visited left, j < l.bound cap ∧
    repeat? l.numKeys g.layout j { sets := l.blocks } = some series ∧ series.stable = false ∧
    g.layout.reverse = visited ++ b :: left ∧
    visited.foldlM (visit? l.numKeys) ⟨series.sets, 0⟩ = some p ∧ visit? l.numKeys p b = some q

section

variable {keys : KeySpace} {f g g' : Func} {l₀ l : Liveness} {cap : Option SweepCap}

theorem start?_withEdges (hsize : g.blocks.size = f.blocks.size) :
    start? keys (f.withEdges g) = start? keys f := by
  have hlists : ∀ h : Func, (h.blocks.toList.mapM fun b => Effect.ofInsts? keys f b.insts)
      = (h.blocks.toList.map Block.insts).mapM (Effect.ofInsts? keys f) := by
    intro h
    rw [List.mapM_map]
    rfl
  have heffects : ((f.withEdges g).blocks.toList.mapM fun b => Effect.ofInsts? keys f b.insts)
      = f.blocks.toList.mapM fun b => Effect.ofInsts? keys f b.insts := by
    rw [hlists, hlists, Func.map_insts_withEdges hsize]
  show ((f.withEdges g).blocks.toList.mapM fun b => Effect.ofInsts? keys f b.insts).bind _
    = (f.blocks.toList.mapM fun b => Effect.ofInsts? keys f b.insts).bind _
  rw [heffects]
  rfl

/-- The state, made for `f`, has no keys but those that calls along the edges of `g` can bring, and
only grows in one. -/
structure Growing (keys : KeySpace) (f g : Func) (l₀ l : Liveness) : Prop where
  numKeys : l.numKeys = l₀.numKeys
  grounded : Grounded keys (f.withEdges g) (effects l₀.blocks) l.blocks
  supported : Supported g l.blocks

/-- A call along the edges of `g` does not look at the instructions of `g`. -/
theorem series?_withEdges (hsize : g.blocks.size = f.blocks.size) (l : Liveness)
    (cap : Option SweepCap) :
    l.series? g cap = l.series? (f.withEdges g) cap := by
  apply repeat?_congr
  rw [Func.layout_edges, Func.layout_edges, Func.map_succs_withEdges hsize]

/-- More edges, more paths. -/
theorem liveAfter_mono (hsize : g.blocks.size = f.blocks.size) (hsize' : g'.blocks.size = f.blocks.size)
    (hedges : g.EdgesWithin g') {b : BlockId} {k : Nat} (h : keys.LiveAfter (f.withEdges g) b k) :
    keys.LiveAfter (f.withEdges g') b k := by
  have hwithin : ∀ b s, (f.withEdges g).Edge b s → (f.withEdges g').Edge b s := fun b s hedge =>
    (Func.edge_withEdges hsize').mpr (hedges b s ((Func.edge_withEdges hsize).mp hedge))
  obtain ⟨s, hedge, hlive⟩ := h
  refine ⟨s, hwithin b s hedge, ?_⟩
  refine hlive.rename (f := f.withEdges g) (g := f.withEdges g') id rfl (fun c _ => ?_) hwithin
  rw [id, Func.instsOf_withEdges hsize, Func.instsOf_withEdges hsize']

/-- **The paths are the least family** closed under the edges. -/
theorem isLeast_liveAfter (hstart : start? keys f = some l₀) :
    IsLeast {live | ClosedUnder (effects l₀.blocks) f live} (keys.LiveAfter f) := by
  refine ⟨fun b s k hedge henters => ?_, fun live hclosed b k => ?_⟩
  · exact ⟨s, hedge, (enters_liveAfter hstart (lt_size_of_enters hstart henters)).mp henters⟩
  · rintro ⟨s, hedge, hlive⟩
    refine hclosed b s k hedge (KeySpace.LiveFrom.induct
      (P := fun s => Enters (effects l₀.blocks) live s k) ?_ ?_ hlive)
    · exact fun c hread => (enters_start hstart hread.lt_size).mpr (Or.inl hread)
    · exact fun c t hspares hct _ henters =>
        (enters_start hstart hct.lt_size).mpr (Or.inr ⟨hclosed c t k hct henters, hspares⟩)

namespace Growing

theorem start (hstart : start? keys f = some l₀) (hsize : g.blocks.size = f.blocks.size) :
    Growing keys f g l₀ l₀ where
  numKeys := rfl
  grounded := grounded_start ((start?_withEdges hsize).trans hstart)
  supported := fun b k hk => absurd hk (not_liveOutAt_start hstart b k)

theorem mono (h : Growing keys f g l₀ l) (hsize : g.blocks.size = f.blocks.size)
    (hsize' : g'.blocks.size = f.blocks.size) (hedges : g.EdgesWithin g') : Growing keys f g' l₀ l where
  numKeys := h.numKeys
  grounded := ⟨h.grounded.1, fun b k hk => liveAfter_mono hsize hsize' hedges (h.grounded.2 b k hk)⟩
  supported := h.supported.mono hedges

variable (hstart : start? keys f = some l₀) (hf : f.Sound) (hg : g.Sound)
  (hsize : g.blocks.size = f.blocks.size) (h : Growing keys f g l₀ l)

include hstart h in
theorem size_eq : l.blocks.size = f.blocks.size := by
  rw [← size_effects, h.grounded.1, size_effects, (start?_spec hstart).2.1]

include hstart hsize h in
/-- A series along these edges keeps all this. -/
theorem after {s : Series} (hs : l.series? g cap = some s) : Growing keys f g l₀ (l.after s) where
  numKeys := h.numKeys
  grounded := by
    have hstart' := (start?_withEdges hsize).trans hstart
    rw [series?_withEdges hsize] at hs
    exact repeat?_induction (Grounded keys (f.withEdges g) (effects l₀.blocks))
      (fun _ _ hsets hq => hsets.once hstart' hq) h.grounded hs
  supported := (h.supported.series hs).2

include hstart hg hsize h in
/-- **A call keeps all this**, whether it comes to rest or gives up. -/
theorem call (cap : Option SweepCap) : Growing keys f g l₀ (l.fixpoint g cap).2 := by
  obtain ⟨s, hs, hcall⟩ := fixpoint_of_sound hg ((h.size_eq hstart).trans hsize.symm) cap
  rw [hcall]
  exact h.after hstart hsize hs

omit h in
include hstart in
theorem calls {calls : List (Func × Option SweepCap)}
    (hvalid : ∀ c ∈ calls ++ [(g, cap)], c.1.Sound ∧ c.1.blocks.size = f.blocks.size)
    (hgrow : (calls ++ [(g, cap)]).IsChain fun c d => c.1.EdgesWithin d.1) :
    Growing keys f g l₀ (l₀.afterCalls calls) := by
  have hsize : g.blocks.size = f.blocks.size := (hvalid (g, cap) (by simp)).2
  induction calls using List.reverseRecOn generalizing g cap with
  | nil => exact .start hstart hsize
  | append_singleton calls c ih =>
    obtain ⟨g₁, cap₁⟩ := c
    obtain ⟨hg₁, hsize₁⟩ := hvalid (g₁, cap₁) (by simp)
    obtain ⟨hchain, -, hlast⟩ := List.isChain_append.mp hgrow
    have hstep : g₁.EdgesWithin g := hlast (g₁, cap₁) (by simp) (g, cap) rfl
    have hcalls := ih (fun d hd => hvalid d (List.mem_append_left _ hd)) hchain hsize₁
    have hafter : l₀.afterCalls (calls ++ [(g₁, cap₁)])
        = ((l₀.afterCalls calls).fixpoint g₁ cap₁).2 := by
      simp [afterCalls]
    rw [hafter]
    exact (hcalls.call hstart hg₁ hsize₁ cap₁).mono hsize₁ hsize hstep

include h in
/-- **Every visit of a call only adds.** -/
theorem visit {b : BlockId × Block} {p q : Progress} (hvisit : VisitIn l g cap b p q) (c : BlockId)
    (k : Nat) (hc : LiveOutAt p.sets c k) : LiveOutAt q.sets c k := by
  obtain ⟨j, series, visited, left, -, hseries, -, hlayout, hvisited, hv⟩ := hvisit
  have hmem : ∀ d, d ∈ visited ++ b :: left → d ∈ g.layout := by
    intro d hd
    rw [← hlayout] at hd
    exact List.mem_reverse.mp hd
  have hp := (h.supported.series hseries).2.visits
    (fun d hd => hmem d (List.mem_append_left _ hd)) hvisited
  exact (hp.2.visit (hmem b (by simp)) hv).1 c k hc

include hstart hg hsize h in
/-- **At rest a state has exactly the paths**, along the edges of the call and over its own
effects. -/
theorem liveOutAt_iff {n : Nat} (hok : (l.fixpoint g cap).1 = .ok n) (b : BlockId) (k : Nat) :
    LiveOutAt (l.fixpoint g cap).2.blocks b k ↔ keys.LiveAfter (f.withEdges g) b k := by
  obtain ⟨s, hs, hcall⟩ := fixpoint_of_sound hg ((h.size_eq hstart).trans hsize.symm) cap
  have hstart' := (start?_withEdges hsize).trans hstart
  have hgrounded := (h.after hstart hsize hs).grounded
  rw [hcall] at hok ⊢
  rw [series?_withEdges hsize] at hs
  have hrest := repeat?_rests (f.withEdges g).layout_sorted rfl hs (verdict_eq_ok.mp hok).1
  exact hgrounded.liveOutAt_iff hstart' hrest b k

end Growing

/-- **Without a cap a call comes to rest.** -/
theorem Growing.comes_to_rest {identity : Identity} {names : Func}
    (hstart : start? (.of identity names) f = some l₀) (hf : f.Sound) (hg : g.Sound)
    (hsize : g.blocks.size = f.blocks.size) (hroom : f.blocks.size < maxCount)
    (h : Growing (.of identity names) f g l₀ l) : ∃ n, (l.fixpoint g none).1 = .ok n := by
  have hs := hf.withEdges hg hsize
  have hstart' := (start?_withEdges hsize).trans hstart
  have hbound : l.bound none = defaultBound (f.withEdges g).blocks.size
      ((KeySpace.of identity names).size (f.withEdges g)) := by
    rw [← (start?_spec hstart').1, ← h.numKeys, Func.size_withEdges hsize, ← h.size_eq hstart]
    rfl
  obtain ⟨m, hm, -, hall⟩ := exists_lt_defaultBound identity names hs
    (by rw [Func.size_withEdges hsize]; exact hroom)
  have hzero : Within (.of identity names) (f.withEdges g) 0 l.blocks :=
    fun _ _ _ _ hlt => absurd hlt (Nat.not_lt_zero _)
  obtain ⟨s, hseries, hcall⟩ := fixpoint_of_sound hg ((h.size_eq hstart).trans hsize.symm) none
  rw [series?_withEdges hsize] at hseries
  obtain ⟨r, hr, hstable, -⟩ := Liveness.comes_to_rest hs hstart' hall (l.bound none) 0
    { sets := l.blocks } h.grounded hzero (Nat.zero_le m) (by omega)
  obtain rfl := Option.some.inj (hr.symm.trans hseries)
  rw [hcall]
  exact ⟨_, verdict_eq_ok.mpr ⟨hstable, rfl⟩⟩

end

/-! ## The headline -/

/-- **Sweeping again is exact while edges only grow.**  Start from the state made for a sound
function and make calls on sound functions with as many blocks, each with the edges of the one
before and perhaps more, under any caps, and whether they come to rest or give up.  Then of the last
call, and so of each of them,

1. every visit of every sweep only adds to what is live at the ends of blocks, and so does the whole
   call;
2. without a cap it comes to rest;
3. if it comes to rest, what is live at the ends of blocks is the least family closed under its
   edges, for the effects that the state has had from the start, and the same as if the call had
   been the first.

As for the default bound, the number of blocks has to be a count with one to spare. -/
theorem growing_edges_exact {identity : Identity} {names f : Func} {l₀ : Liveness}
    (hstart : start (.of identity names) f = .ok l₀) (hroom : f.blocks.size < maxCount)
    (calls : List (Func × Option SweepCap)) (g : Func) (cap : Option SweepCap)
    (hvalid : ∀ c ∈ calls ++ [(g, cap)], c.1.validate = .ok () ∧ c.1.blocks.size = f.blocks.size)
    (hgrow : (calls ++ [(g, cap)]).IsChain fun c d => c.1.EdgesWithin d.1) :
    (∀ b p q, VisitIn (l₀.afterCalls calls) g cap b p q →
      ∀ c k, LiveOutAt p.sets c k → LiveOutAt q.sets c k) ∧
    (∀ c k, LiveOutAt (l₀.afterCalls calls).blocks c k →
      LiveOutAt ((l₀.afterCalls calls).fixpoint g cap).2.blocks c k) ∧
    (cap = none → ∃ n, ((l₀.afterCalls calls).fixpoint g cap).1 = .ok n) ∧
    ∀ n, ((l₀.afterCalls calls).fixpoint g cap).1 = .ok n →
      effects ((l₀.afterCalls calls).fixpoint g cap).2.blocks = effects l₀.blocks ∧
      IsLeast {live | ClosedUnder (effects l₀.blocks) g live}
        (LiveOutAt ((l₀.afterCalls calls).fixpoint g cap).2.blocks) ∧
      (∃ m, (l₀.fixpoint g none).1 = .ok m) ∧
      ∀ b k, LiveOutAt ((l₀.afterCalls calls).fixpoint g cap).2.blocks b k
        ↔ LiveOutAt (l₀.fixpoint g none).2.blocks b k := by
  obtain ⟨hf, hstart⟩ := start_eq_ok.mp hstart
  have hsound : ∀ c ∈ calls ++ [(g, cap)], c.1.Sound ∧ c.1.blocks.size = f.blocks.size :=
    fun c hc => ⟨c.1.validate_eq_ok_iff.mp (hvalid c hc).1, (hvalid c hc).2⟩
  obtain ⟨hg, hsize⟩ := hsound (g, cap) (by simp)
  have hcalls : Growing _ f g l₀ (l₀.afterCalls calls) := Growing.calls hstart hsound hgrow
  have hfirst : Growing _ f g l₀ l₀ := .start hstart hsize
  refine ⟨fun b p q hvisit => hcalls.visit hvisit, ?_, ?_, fun n hok => ?_⟩
  · obtain ⟨s, hs, hcall⟩ := fixpoint_of_sound hg ((hcalls.size_eq hstart).trans hsize.symm) cap
    rw [hcall]
    exact (hcalls.supported.series hs).1
  · rintro rfl
    exact hcalls.comes_to_rest hstart hf hg hsize hroom
  · have hlive := hcalls.liveOutAt_iff hstart hg hsize hok
    obtain ⟨m, hm⟩ := hfirst.comes_to_rest hstart hf hg hsize hroom
    refine ⟨(hcalls.call hstart hg hsize cap).grounded.1, ?_, ⟨m, hm⟩, fun b k => ?_⟩
    · have hleast := isLeast_liveAfter ((start?_withEdges hsize).trans hstart)
      simp only [ClosedUnder, Func.edge_withEdges hsize] at hleast
      rw [show LiveOutAt _ = _ from funext fun b => funext fun k => propext (hlive b k)]
      exact hleast
    · rw [hlive b k, hfirst.liveOutAt_iff hstart hg hsize hm b k]

/-- The blocks of `countdown` without the edge back. -/
def countdownOnce : Func :=
  { countdown with blocks := #[⟨[⟨0⟩], [⟨1⟩]⟩, ⟨[⟨1⟩, ⟨2⟩, ⟨3⟩], [⟨2⟩]⟩, ⟨[⟨4⟩], []⟩] }

/-- The loop of `countdown` is closed after a call along the other edges has given up. -/
theorem countdown_growing_edges_exact :
    ∃ l₀ l, start .values countdown = .ok l₀ ∧
      l₀.fixpoint countdownOnce (some ⟨1, by decide, by decide⟩)
        = (.error (.failed (.diverged "countdown" 1)), l) ∧
      (∃ n, (l.fixpoint countdown none).1 = .ok n) ∧
      IsLeast {live | ClosedUnder (effects l₀.blocks) countdown live}
        (LiveOutAt (l.fixpoint countdown none).2.blocks) := by
  have hstart : start (.of .value countdown) countdown = .ok _ := rfl
  have hvalid :
      ∀ c ∈ [(countdownOnce, some (SweepCap.mk 1 (by decide) (by decide))), (countdown, none)],
      c.1.validate = .ok () ∧ c.1.blocks.size = 3 := by
    simp only [List.mem_cons, List.not_mem_nil, or_false, forall_eq_or_imp, forall_eq]
    exact ⟨⟨rfl, rfl⟩, ⟨rfl, rfl⟩⟩
  have hedges : countdownOnce.EdgesWithin countdown := by
    rintro ⟨n⟩ s ⟨block, hblock, hs⟩
    match n, hblock with
    | 0, hblock => exact ⟨_, hblock, hs⟩
    | 1, hblock =>
      obtain rfl := Option.some.inj hblock
      exact ⟨_, rfl, List.mem_cons_of_mem _ hs⟩
    | 2, hblock => exact ⟨_, hblock, hs⟩
  obtain ⟨-, -, hrest, hexact⟩ := growing_edges_exact hstart (by decide)
    [(countdownOnce, some ⟨1, by decide, by decide⟩)] countdown none hvalid
    (List.isChain_cons_cons.mpr ⟨hedges, .singleton _⟩)
  obtain ⟨n, hn⟩ := hrest rfl
  exact ⟨_, _, hstart, rfl, ⟨n, hn⟩, (hexact n hn).2.1⟩

end Liveness

end Dataflow
