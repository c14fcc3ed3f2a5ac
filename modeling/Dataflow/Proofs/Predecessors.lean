import Dataflow.Proofs.LivePaths

/-!
# Edges read backwards

`Func.predecessors` walks the edges once and changes the lists of many blocks as it goes.  A
function need not be sound for this: an edge may be listed several times, in any order, or lead out
of the graph.  The lists say all the same, for each block, exactly who leads to it.

1. **The walk in order** (`edges_sorted`): blocks are taken in layout order, so no edge has a
   smaller source than one before it.

2. **One list after part of the walk** (`SourcesOf`): it holds the sources of the edges to its block
   that have been walked, ascending.  A source that is new to the list is not below any walked
   before and so belongs at the end (`SourcesOf.new`); an edge that is there already, or leads to
   another block, changes nothing (`SourcesOf.old`).

3. **All lists** (`sourcesOf_fileEdge`, `sourcesOf_foldl`): filing an edge changes one list at most,
   as in (2).  So the whole walk leaves the sources of all edges.

4. **Nothing but the edges** (`predecessors_eq_iff`): there is one ascending list of given members,
   so how the edges are listed is not to be seen.
-/

namespace Dataflow

namespace Func

variable {f g : Func} {a b : BlockId} {done walk : List (BlockId × BlockId)} {edge : BlockId × BlockId}
  {preds : Array (List BlockId)} {sources others : List BlockId}

/-! ## The edges of a function -/

theorem mem_edges : (a, b) ∈ f.edges ↔ f.Edge a b := by
  simp only [edges, List.mem_flatMap, List.mem_map, Prod.exists, mem_layout, Prod.mk.injEq]
  constructor
  · rintro ⟨_, block, hblock, _, hs, rfl, rfl⟩
    exact ⟨block, hblock, hs⟩
  · rintro ⟨block, hblock, hs⟩
    exact ⟨a, block, hblock, b, hs, rfl, rfl⟩

/-- Edges are listed in the order of their sources. -/
theorem edges_sorted (f : Func) : f.edges.Pairwise (·.1.index ≤ ·.1.index) := by
  rw [edges, List.pairwise_flatMap]
  constructor
  · intro b _
    rw [List.pairwise_map]
    exact List.pairwise_of_forall fun _ _ => le_rfl
  · refine f.layout_sorted.imp fun hlt x hx y hy => ?_
    obtain ⟨_, -, rfl⟩ := List.mem_map.mp hx
    obtain ⟨_, -, rfl⟩ := List.mem_map.mp hy
    exact hlt.le

/-! ## One list -/

/-- The list holds the sources of the edges to block `b` among these, ascending. -/
structure SourcesOf (done : List (BlockId × BlockId)) (b : BlockId) (sources : List BlockId) :
    Prop where
  mem_iff : ∀ a, a ∈ sources ↔ (a, b) ∈ done
  ascending : sources.Pairwise (·.index < ·.index)

namespace SourcesOf

theorem nil (b : BlockId) : SourcesOf [] b [] where
  mem_iff _ := by simp
  ascending := List.Pairwise.nil

theorem nodup (h : SourcesOf done b sources) : sources.Nodup :=
  h.ascending.imp fun {a c} hlt heq => by
    rw [heq] at hlt
    omega

/-- An edge that brings no new source: it leads to another block, or is there already. -/
theorem old (h : SourcesOf done b sources) (hedge : edge.2 = b → edge.1 ∈ sources) :
    SourcesOf (done ++ [edge]) b sources where
  mem_iff := by
    intro a
    rw [List.mem_append, List.mem_singleton, ← h.mem_iff a]
    refine ⟨Or.inl, fun ha => ha.elim id fun heq => ?_⟩
    obtain rfl := heq
    exact hedge rfl
  ascending := h.ascending

/-- A new edge, from a source that is not below those before it. -/
theorem new (h : SourcesOf done b sources) (ha : a ∉ sources)
    (hlast : ∀ e ∈ done, e.1.index ≤ a.index) :
    SourcesOf (done ++ [(a, b)]) b (sources ++ [a]) where
  mem_iff := by
    intro c
    rw [List.mem_append, List.mem_append, List.mem_singleton, List.mem_singleton, h.mem_iff c,
      Prod.mk.injEq, and_iff_left rfl]
  ascending := by
    refine List.pairwise_append.mpr ⟨h.ascending, List.pairwise_singleton _ _, fun c hc a' ha' => ?_⟩
    obtain rfl := List.mem_singleton.mp ha'
    -- not above the new source by the order of the walk, and not the new source itself
    have hle : c.index ≤ a'.index := hlast (c, b) ((h.mem_iff c).mp hc)
    have hne : c.index ≠ a'.index := by
      intro heq
      obtain rfl : c = a' := congrArg BlockId.mk heq
      exact ha hc
    omega

/-- **There is one such list.** -/
theorem unique {done' : List (BlockId × BlockId)} (h : SourcesOf done b sources)
    (h' : SourcesOf done' b others) (hsame : ∀ a, (a, b) ∈ done ↔ (a, b) ∈ done') :
    sources = others := by
  have hperm : sources.Perm others := by
    refine (List.perm_ext_iff_of_nodup h.nodup h'.nodup).mpr fun a => ?_
    rw [h.mem_iff a, h'.mem_iff a]
    exact hsame a
  refine hperm.eq_of_pairwise (fun a c _ _ hac hca => ?_) h.ascending h'.ascending
  omega

end SourcesOf

/-! ## All lists -/

/-- Filing an edge changes the list of its target, and only if the source is not in it yet. -/
theorem getElem?_fileEdge (preds : Array (List BlockId)) (edge : BlockId × BlockId) (b : BlockId) :
    (fileEdge preds edge)[b.index]? =
      if edge.2 = b then
        preds[b.index]?.map fun sources => if edge.1 ∈ sources then sources else sources ++ [edge.1]
      else preds[b.index]? := by
  have hindex : edge.2.index = b.index ↔ edge.2 = b :=
    ⟨fun h => congrArg BlockId.mk h, congrArg BlockId.index⟩
  rw [fileEdge, Array.getElem?_modify]
  simp only [hindex]

/-- **Filing one more edge** keeps every list that of the edges filed. -/
theorem sourcesOf_fileEdge (hlast : ∀ e ∈ done, e.1.index ≤ edge.1.index)
    (h : ∀ b sources, preds[b.index]? = some sources → SourcesOf done b sources)
    (hget : (fileEdge preds edge)[b.index]? = some sources) : SourcesOf (done ++ [edge]) b sources := by
  rw [getElem?_fileEdge] at hget
  by_cases hb : edge.2 = b
  · rw [if_pos hb] at hget
    obtain ⟨old, hold, rfl⟩ := Option.map_eq_some_iff.mp hget
    obtain ⟨a, _⟩ := edge
    obtain rfl := hb
    by_cases ha : a ∈ old
    · rw [if_pos ha]
      exact (h _ old hold).old fun _ => ha
    · rw [if_neg ha]
      exact (h _ old hold).new ha hlast
  · rw [if_neg hb] at hget
    exact (h b sources hget).old fun heq => absurd heq hb

/-- **After a walk in order** every list is that of the edges walked. -/
theorem sourcesOf_foldl (n : Nat) (hsorted : walk.Pairwise (·.1.index ≤ ·.1.index)) :
    ∀ b sources, (walk.foldl fileEdge (Array.replicate n []))[b.index]? = some sources →
      SourcesOf walk b sources := by
  induction walk using List.reverseRecOn with
  | nil =>
    intro b sources hget
    rw [List.foldl_nil, Array.getElem?_replicate] at hget
    obtain rfl := Option.some.inj (Option.ite_none_right_eq_some.mp hget).2
    exact .nil b
  | append_singleton done edge ih =>
    obtain ⟨hdone, -, hlast⟩ := List.pairwise_append.mp hsorted
    intro b sources hget
    rw [List.foldl_append, List.foldl_cons, List.foldl_nil] at hget
    exact sourcesOf_fileEdge
      (fun e he => hlast e he edge (List.mem_singleton_self edge)) (ih hdone) hget

theorem size_foldl_fileEdge (walk : List (BlockId × BlockId)) (preds : Array (List BlockId)) :
    (walk.foldl fileEdge preds).size = preds.size := by
  induction walk generalizing preds with
  | nil => rfl
  | cons edge walk ih => rw [List.foldl_cons, ih, fileEdge, Array.size_modify]

/-! ## The predecessors of a function -/

theorem size_predecessors (f : Func) : f.predecessors.size = f.blocks.size := by
  rw [predecessors, size_foldl_fileEdge, Array.size_replicate]

/-- The lists that come out are those of all edges. -/
theorem sourcesOf_predecessors (h : f.predecessors[b.index]? = some sources) :
    SourcesOf f.edges b sources :=
  sourcesOf_foldl f.blocks.size f.edges_sorted b sources h

/-- **A block's predecessors are those that list it as a successor.** -/
theorem mem_predecessors (h : f.predecessors[b.index]? = some sources) : a ∈ sources ↔ f.Edge a b := by
  rw [(sourcesOf_predecessors h).mem_iff a, mem_edges]

/-- **Functions have the same predecessors exactly if they have the same edges** among as many
blocks. -/
theorem predecessors_eq_iff : g.predecessors = f.predecessors ↔ g.blocks.size = f.blocks.size ∧
    ∀ a b : BlockId, b.index < f.blocks.size → (g.Edge a b ↔ f.Edge a b) := by
  constructor
  · intro heq
    refine ⟨?_, fun a b hb => ?_⟩
    · rw [← size_predecessors, heq, size_predecessors]
    · -- the list of `b` is one and the same, and tells of the edges of both
      rw [← size_predecessors] at hb
      have hf : f.predecessors[b.index]? = some f.predecessors[b.index] := Array.getElem?_eq_getElem hb
      have hg : g.predecessors[b.index]? = some f.predecessors[b.index] := by rw [heq, hf]
      rw [← mem_predecessors hg, mem_predecessors hf]
  · rintro ⟨hsize, hedges⟩
    refine Array.ext (by rw [size_predecessors, size_predecessors, hsize]) fun n hng hnf => ?_
    have hg : SourcesOf g.edges ⟨n⟩ g.predecessors[n] :=
      sourcesOf_predecessors (Array.getElem?_eq_getElem hng)
    have hf : SourcesOf f.edges ⟨n⟩ f.predecessors[n] :=
      sourcesOf_predecessors (Array.getElem?_eq_getElem hnf)
    refine hg.unique hf fun a => ?_
    rw [mem_edges, mem_edges]
    rw [size_predecessors] at hnf
    exact hedges a ⟨n⟩ hnf

/-! ## The headline -/

/-- **Predecessors are successors read backwards.**  For every function, sound or not:

1. there is one list for each block;
2. the list of block `b` has exactly the blocks that list `b` as a successor, in strictly ascending
   order, so each of them once;
3. another function has the same lists exactly if it has as many blocks and the same edges among
   them.  So neither the order in which a block lists its successors nor how often it lists one
   makes a difference, and edges out of the graph make none. -/
theorem predecessors_are_converse (f : Func) :
    f.predecessors.size = f.blocks.size ∧
    (∀ (b : BlockId) (preds : List BlockId), f.predecessors[b.index]? = some preds →
      (∀ a, a ∈ preds ↔ f.Edge a b) ∧ preds.Pairwise (·.index < ·.index) ∧ preds.Nodup) ∧
    ∀ g : Func, g.predecessors = f.predecessors ↔ g.blocks.size = f.blocks.size ∧
      ∀ a b : BlockId, b.index < f.blocks.size → (g.Edge a b ↔ f.Edge a b) := by
  refine ⟨f.size_predecessors, fun b preds h => ⟨fun a => mem_predecessors h, ?_, ?_⟩,
    fun g => predecessors_eq_iff⟩
  · exact (sourcesOf_predecessors h).ascending
  · exact (sourcesOf_predecessors h).nodup

-- the other edge is the one listed twice, and another edge leads out of the graph
example : ({ twoBlockLoop with blocks := #[⟨[], [⟨9⟩, ⟨1⟩]⟩, ⟨[], [⟨0⟩, ⟨0⟩]⟩] } : Func).predecessors
    = twoBlockLoop.predecessors := by decide

end Func

end Dataflow
