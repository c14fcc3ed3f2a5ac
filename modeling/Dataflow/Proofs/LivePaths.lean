import Dataflow.Proofs.Effects
import Dataflow.Proofs.Outcomes
import Dataflow.Proofs.Sweeps

/-!
# Liveness is about paths

What the sets of a liveness state mean, said without sets: a key is live at a place if from there
some path through the graph reaches an instruction that reads it, and nothing on the way overwrites
it (`LiveFrom`, `LiveAfter`).  Paths may run through a loop any number of times.

1. **Paths satisfy the equation of sweeps** (`enters_liveAfter`): with the effects of the function,
   a key enters a block as far as paths are concerned exactly if it is live from there.

2. **Nothing but paths** (`Grounded`): a set that holds only keys with a path gathers only keys with
   a path, so no visit ever brings in another one.  This is an induction over visits and sweeps.

3. **All paths** (`AtRest.enters_of_liveFrom`): at rest a key with a path is in the sets.  This is
   an induction over the path, from its last block back.
-/

namespace Dataflow

/-! ## Paths -/

namespace Func

/-- Block `b` lists `s` as a successor. -/
def Edge (f : Func) (b s : BlockId) : Prop := ∃ block, f.blocks[b.index]? = some block ∧ s ∈ block.succs

/-- The instructions of a block; a block that does not exist has none. -/
def instsOf (f : Func) (b : BlockId) : List InstId := ((f.blocks[b.index]?).map Block.insts).getD []

theorem instsOf_eq {f : Func} {b : BlockId} {block : Block} (h : f.blocks[b.index]? = some block) :
    f.instsOf b = block.insts := by
  simp [instsOf, h]

theorem mem_instsOf {f : Func} {b : BlockId} {i : InstId} :
    i ∈ f.instsOf b ↔ ∃ block, (b, block) ∈ f.layout ∧ i ∈ block.insts := by
  simp only [mem_layout, instsOf]
  cases f.blocks[b.index]? <;> simp

theorem Edge.lt_size {f : Func} {b s : BlockId} (h : f.Edge b s) : b.index < f.blocks.size := by
  obtain ⟨block, hblock, -⟩ := h
  exact (Array.getElem?_eq_some_iff.mp hblock).1

/-- Blocks stand in the layout in the order of their labels. -/
theorem layout_sorted (f : Func) : f.layout.Pairwise fun x y => x.1.index < y.1.index := by
  unfold layout
  rw [List.pairwise_map]
  exact pairwise_zipIdx _

end Func

namespace KeySpace

/-- **Key `k` is live from the start of block `b`**: there is a path from `b` along edges, and in
its last block an instruction that reads `k`, such that no instruction before it on the path
overwrites `k`. -/
def LiveFrom (keys : KeySpace) (f : Func) (k : Nat) (b : BlockId) : Prop :=
  ∃ (path : List BlockId) (last : BlockId) (before : List InstId) (i : InstId) (after : List InstId),
    (path ++ [last]).head? = some b ∧ (path ++ [last]).IsChain f.Edge ∧
      f.instsOf last = before ++ i :: after ∧ keys.Reads f k i ∧
        ∀ j ∈ path.flatMap f.instsOf ++ before, ¬ keys.Overwrites f k j

/-- Key `k` is live after block `b`: it is live from a successor. -/
def LiveAfter (keys : KeySpace) (f : Func) (b : BlockId) (k : Nat) : Prop :=
  ∃ s, f.Edge b s ∧ keys.LiveFrom f k s

section

variable {keys : KeySpace} {f : Func} {k : Nat}

theorem liveFrom_of_readsFirst {b : BlockId} (h : keys.ReadsFirst f k (f.instsOf b)) :
    keys.LiveFrom f k b := by
  obtain ⟨before, i, after, hinsts, hreads, hspares⟩ := h
  exact ⟨[], b, before, i, after, rfl, List.IsChain.singleton b, hinsts, hreads, hspares⟩

/-- A block that reads a key exists. -/
theorem ReadsFirst.lt_size {b : BlockId} (h : keys.ReadsFirst f k (f.instsOf b)) :
    b.index < f.blocks.size := by
  rcases Nat.lt_or_ge b.index f.blocks.size with hlt | hge
  · exact hlt
  · rw [Func.instsOf, Array.getElem?_eq_none hge] at h
    exact absurd h not_readsFirst_nil

/-- A path may begin one block earlier if that block leaves the key alone. -/
theorem liveFrom_of_liveAfter {b : BlockId} (hspares : keys.Spares f k (f.instsOf b))
    (h : keys.LiveAfter f b k) : keys.LiveFrom f k b := by
  obtain ⟨s, hedge, path, last, before, i, after, hhead, hchain, hinsts, hreads, hover⟩ := h
  refine ⟨b :: path, last, before, i, after, rfl, ?_, hinsts, hreads, ?_⟩
  · cases hpath : path ++ [last] with
    | nil => simp at hpath
    | cons c rest =>
      rw [hpath] at hhead hchain
      obtain rfl := Option.some.inj hhead
      rw [List.cons_append, hpath]
      exact List.isChain_cons_cons.mpr ⟨hedge, hchain⟩
  · intro j hj
    rw [List.flatMap_cons, List.append_assoc, List.mem_append] at hj
    rcases hj with hj | hj
    · exact hspares j hj
    · exact hover j hj

/-- **Induction along a path**, from its last block back to its first. -/
theorem LiveFrom.induct {P : BlockId → Prop}
    (hread : ∀ b, keys.ReadsFirst f k (f.instsOf b) → P b)
    (hpass : ∀ b s, keys.Spares f k (f.instsOf b) → f.Edge b s → keys.LiveFrom f k s → P s → P b) :
    ∀ {b : BlockId}, keys.LiveFrom f k b → P b := by
  rintro b ⟨path, last, before, i, after, hhead, hchain, hinsts, hreads, hover⟩
  induction path generalizing b with
  | nil =>
    obtain rfl : last = b := Option.some.inj hhead
    exact hread last ⟨before, i, after, hinsts, hreads, hover⟩
  | cons c path ih =>
    obtain rfl : c = b := Option.some.inj hhead
    rw [List.flatMap_cons, List.append_assoc] at hover
    have hrest : ∀ j ∈ path.flatMap f.instsOf ++ before, ¬ keys.Overwrites f k j :=
      fun j hj => hover j (List.mem_append_right _ hj)
    cases hpath : path ++ [last] with
    | nil => simp at hpath
    | cons s rest =>
      rw [List.cons_append, hpath] at hchain
      obtain ⟨hedge, htail⟩ := List.isChain_cons_cons.mp hchain
      have hs : (path ++ [last]).head? = some s := by rw [hpath]; rfl
      rw [← hpath] at htail
      exact hpass c s (fun j hj => hover j (List.mem_append_left _ hj)) hedge
        ⟨path, last, before, i, after, hs, htail, hinsts, hreads, hrest⟩ (ih hs htail hrest)

/-- A key is live only from blocks that exist. -/
theorem LiveFrom.lt_size {b : BlockId} (h : keys.LiveFrom f k b) : b.index < f.blocks.size := by
  refine LiveFrom.induct (P := fun b => b.index < f.blocks.size) ?_ ?_ h
  · exact fun _ hread => hread.lt_size
  · exact fun _ _ _ hedge _ _ => hedge.lt_size

/-- A key is live from a block if the block reads it first, or lets it pass to where it is live. -/
theorem liveFrom_iff {b : BlockId} :
    keys.LiveFrom f k b ↔ keys.ReadsFirst f k (f.instsOf b) ∨
      (keys.LiveAfter f b k ∧ keys.Spares f k (f.instsOf b)) := by
  constructor
  · intro h
    refine LiveFrom.induct (P := fun b => keys.ReadsFirst f k (f.instsOf b) ∨
      (keys.LiveAfter f b k ∧ keys.Spares f k (f.instsOf b))) ?_ ?_ h
    · exact fun _ hread => Or.inl hread
    · exact fun _ s hspares hedge hlive _ => Or.inr ⟨⟨s, hedge, hlive⟩, hspares⟩
  · rintro (hread | ⟨hafter, hspares⟩)
    · exact liveFrom_of_readsFirst hread
    · exact liveFrom_of_liveAfter hspares hafter

/-- Nothing of a function matters to a run of instructions but the table it is read from. -/
theorem spares_congr {g : Func} (hinsts : g.insts = f.insts) {insts : List InstId} :
    keys.Spares g k insts ↔ keys.Spares f k insts := by
  unfold Spares Overwrites
  rw [hinsts]

theorem readsFirst_congr {g : Func} (hinsts : g.insts = f.insts) {insts : List InstId} :
    keys.ReadsFirst g k insts ↔ keys.ReadsFirst f k insts := by
  unfold ReadsFirst Reads
  simp only [hinsts, spares_congr hinsts]

/-- **Paths are carried over** by a renaming of blocks that keeps what they list and where their
edges lead. -/
theorem LiveFrom.rename {g : Func} (rename : BlockId → BlockId) (hinsts : g.insts = f.insts)
    (hlists : ∀ b, b.index < f.blocks.size → g.instsOf (rename b) = f.instsOf b)
    (hedges : ∀ b s, f.Edge b s → g.Edge (rename b) (rename s)) :
    ∀ {b : BlockId}, keys.LiveFrom f k b → keys.LiveFrom g k (rename b) := by
  apply LiveFrom.induct
  · intro b hfirst
    apply liveFrom_of_readsFirst
    rw [hlists b hfirst.lt_size]
    exact (readsFirst_congr hinsts).mpr hfirst
  · intro b s hspares hedge _ hlive
    refine liveFrom_of_liveAfter ?_ ⟨rename s, hedges b s hedge, hlive⟩
    rw [hlists b hedge.lt_size]
    exact (spares_congr hinsts).mpr hspares

end

end KeySpace

/-! ## Sweeps and paths -/

namespace Liveness

open Sweep

section

variable {keys : KeySpace} {f : Func} {l₀ : Liveness}

/-- What the effects of a function's blocks say about entering a block. -/
theorem enters_start {live : BlockId → Nat → Prop} {b : BlockId} {k : Nat}
    (hstart : start? keys f = some l₀) (hb : b.index < f.blocks.size) :
    Enters (effects l₀.blocks) live b k ↔ keys.ReadsFirst f k (f.instsOf b) ∨
      (live b k ∧ keys.Spares f k (f.instsOf b)) := by
  have hblock : f.blocks[b.index]? = some f.blocks[b.index] := Array.getElem?_eq_getElem hb
  obtain ⟨e, he, hat⟩ := (start?_spec hstart).2.2 b _ hblock
  obtain ⟨hexposed, hkilled⟩ := Effect.ofInsts?_spec _ he k
  have hspared : k ∉ e.killed ↔ keys.Spares f k f.blocks[b.index].insts := by rw [hkilled, not_not]
  rw [Func.instsOf_eq hblock, ← hexposed, ← hspared]
  simp [Enters, effects, hat]

/-- **Paths satisfy the equation of sweeps.** -/
theorem enters_liveAfter {b : BlockId} {k : Nat} (hstart : start? keys f = some l₀)
    (hb : b.index < f.blocks.size) :
    Enters (effects l₀.blocks) (keys.LiveAfter f) b k ↔ keys.LiveFrom f k b := by
  rw [enters_start hstart hb, KeySpace.liveFrom_iff]

/-- A key enters no block that does not exist. -/
theorem lt_size_of_enters {live : BlockId → Nat → Prop} {b : BlockId} {k : Nat}
    (hstart : start? keys f = some l₀) (h : Enters (effects l₀.blocks) live b k) :
    b.index < f.blocks.size := by
  obtain ⟨e, he, -⟩ := h
  have hlt := (Array.getElem?_eq_some_iff.mp he).1
  rwa [size_effects, (start?_spec hstart).2.1] at hlt

/-- The state has the function's effects, and every key in it has a path. -/
def Grounded (keys : KeySpace) (f : Func) (es : Array Effect) (sets : Array BlockSets) : Prop :=
  effects sets = es ∧ ∀ b k, LiveOutAt sets b k → keys.LiveAfter f b k

/-- Nothing is live before the first sweep. -/
theorem not_liveOutAt_start (hstart : start? keys f = some l₀) (b : BlockId) (k : Nat) :
    ¬ LiveOutAt l₀.blocks b k := by
  rintro ⟨s, hs, hk⟩
  have hb : b.index < f.blocks.size := by
    rw [← (start?_spec hstart).2.1]
    exact (Array.getElem?_eq_some_iff.mp hs).1
  obtain ⟨e, -, hat⟩ := (start?_spec hstart).2.2 b _ (Array.getElem?_eq_getElem hb)
  obtain rfl := Option.some.inj (hs.symm.trans hat)
  exact WordSet.not_mem_withCapacity _ k hk

theorem grounded_start (hstart : start? keys f = some l₀) :
    Grounded keys f (effects l₀.blocks) l₀.blocks :=
  ⟨rfl, fun b k hk => absurd hk (not_liveOutAt_start hstart b k)⟩

/-- **A visit brings in only keys with a path.** -/
theorem Grounded.visit {numKeys : Nat} {p q : Progress} {b : BlockId × Block}
    (hstart : start? keys f = some l₀) (hb : b ∈ f.layout)
    (hp : Grounded keys f (effects l₀.blocks) p.sets) (hv : visit? numKeys p b = some q) :
    Grounded keys f (effects l₀.blocks) q.sets := by
  obtain ⟨heffects, hpaths⟩ := hp
  refine ⟨(visit?_effects hv).trans heffects, ?_⟩
  intro c k hc
  rw [visit?_liveOutAt hv] at hc
  split at hc
  · rename_i heq
    obtain ⟨s, hs, henters⟩ := hc
    rw [heffects] at henters
    have hlive : Enters (effects l₀.blocks) (keys.LiveAfter f) s k := henters.mono (hpaths s k)
    refine ⟨s, ⟨b.2, ?_, hs⟩, (enters_liveAfter hstart (lt_size_of_enters hstart henters)).mp hlive⟩
    rw [heq]
    exact Func.mem_layout.mp hb
  · exact hpaths c k hc

theorem Grounded.once {numKeys : Nat} {sets : Array BlockSets} {q : Progress}
    (hstart : start? keys f = some l₀) (hsets : Grounded keys f (effects l₀.blocks) sets)
    (h : once? numKeys f.layout sets = some q) : Grounded keys f (effects l₀.blocks) q.sets :=
  once?_induction (Grounded keys f (effects l₀.blocks))
    (fun _ _ _ hb hp hv => hp.visit hstart hb hv) hsets h

/-- **At rest every key with a path is in the sets.** -/
theorem enters_of_liveFrom {sets : Array BlockSets} {k : Nat} (hstart : start? keys f = some l₀)
    (heffects : effects sets = effects l₀.blocks) (hrest : AtRest f.layout sets) :
    ∀ {b : BlockId}, keys.LiveFrom f k b → Enters (effects l₀.blocks) (LiveOutAt sets) b k := by
  apply KeySpace.LiveFrom.induct
  · -- the last block of the path reads the key
    intro b hread
    exact (enters_start hstart hread.lt_size).mpr (Or.inl hread)
  · -- a block before it lets the key pass, and has it from its successor
    rintro b s hspares hedge - henters
    obtain ⟨block, hblock, hs⟩ := hedge
    rw [← heffects] at henters
    have hout : LiveOutAt sets b k :=
      (hrest (b, block) (Func.mem_layout.mpr hblock) k).mpr ⟨s, hs, henters⟩
    exact (enters_start hstart (Func.Edge.lt_size ⟨block, hblock, hs⟩)).mpr (Or.inr ⟨hout, hspares⟩)

/-- Grounded and at rest, the sets are exactly the paths. -/
theorem Grounded.enters_iff {sets : Array BlockSets} (hstart : start? keys f = some l₀)
    (hg : Grounded keys f (effects l₀.blocks) sets) (hrest : AtRest f.layout sets) (b : BlockId)
    (k : Nat) :
    Enters (effects sets) (LiveOutAt sets) b k ↔ keys.LiveFrom f k b := by
  rw [hg.1]
  constructor
  · intro h
    exact (enters_liveAfter hstart (lt_size_of_enters hstart h)).mp (h.mono (hg.2 b k))
  · exact enters_of_liveFrom hstart hg.1 hrest

theorem Grounded.liveOutAt_iff {sets : Array BlockSets} (hstart : start? keys f = some l₀)
    (hg : Grounded keys f (effects l₀.blocks) sets) (hrest : AtRest f.layout sets) (b : BlockId)
    (k : Nat) :
    LiveOutAt sets b k ↔ keys.LiveAfter f b k := by
  constructor
  · exact hg.2 b k
  · rintro ⟨s, ⟨block, hblock, hs⟩, hlive⟩
    have henters := (hg.enters_iff hstart hrest s k).mpr hlive
    exact (hrest (b, block) (Func.mem_layout.mpr hblock) k).mpr ⟨s, hs, henters⟩

/-- **A run that answers** leaves sets that are grounded and at rest. -/
theorem exists_rest_of_compute {cap : Option SweepCap} {l : Liveness}
    (h : (compute keys f cap).outcome = .ok l) : ∃ l₀, start? keys f = some l₀ ∧
      Grounded keys f (effects l₀.blocks) l.blocks ∧ AtRest f.layout l.blocks := by
  obtain ⟨-, l₀, s, hstart, hseries, hstable, rfl⟩ := compute_eq_ok.mp h
  refine ⟨l₀, hstart, ?_, repeat?_rests f.layout_sorted rfl hseries hstable⟩
  exact repeat?_induction (Grounded keys f (effects l₀.blocks)) (fun _ _ hg hq => hg.once hstart hq)
    (grounded_start hstart) hseries

/-- **The four sets of a block after a run**, in terms of its instructions and of paths. -/
theorem compute_sets {cap : Option SweepCap} {l : Liveness} (h : (compute keys f cap).outcome = .ok l)
    {b : BlockId} (hb : b.index < f.blocks.size) :
    ∃ sets, l.block? b = some sets ∧ ∀ k,
      (k ∈ sets.effect.exposed ↔ keys.ReadsFirst f k (f.instsOf b)) ∧
      (k ∈ sets.effect.killed ↔ ¬ keys.Spares f k (f.instsOf b)) ∧
      (k ∈ sets.liveOut ↔ keys.LiveAfter f b k) ∧ (k ∈ sets.liveIn ↔ keys.LiveFrom f k b) := by
  obtain ⟨l₀, hstart, hg, hrest⟩ := exists_rest_of_compute h
  -- the effect is the one from the start
  have hblock : f.blocks[b.index]? = some f.blocks[b.index] := Array.getElem?_eq_getElem hb
  obtain ⟨e, he, hat₀⟩ := (start?_spec hstart).2.2 b _ hblock
  have hat := congrArg (fun es => es[b.index]?) hg.1
  simp only [effects, Array.getElem?_map, hat₀, Option.map_some, Option.map_eq_some_iff] at hat
  obtain ⟨sets, hsets, rfl⟩ := hat
  refine ⟨sets, hsets, fun k => ?_⟩
  obtain ⟨hexposed, hkilled⟩ := Effect.ofInsts?_spec _ he k
  rw [Func.instsOf_eq hblock, mem_liveIn_iff hsets, ← liveOutAt_iff hsets]
  exact ⟨hexposed, hkilled, hg.liveOutAt_iff hstart hrest b k, hg.enters_iff hstart hrest b k⟩

end

/-! ## The headline -/

/-- **Liveness means what it says.**  Whenever a run of liveness answers, whatever the cap on its
sweeps, a key is live at the start of a block exactly if a path from there reads it before anything
on the path overwrites it, and live at the end exactly if such a path starts at a successor. -/
theorem live_iff_path_reads {keys : KeySpace} {f : Func} {cap : Option SweepCap} {l : Liveness}
    (h : (compute keys f cap).outcome = .ok l) {b : BlockId} {block : Block}
    (hb : f.blocks[b.index]? = some block) :
    ∃ sets, l.block? b = some sets ∧ ∀ k,
      (k ∈ sets.liveIn ↔ keys.LiveFrom f k b) ∧
      (k ∈ sets.liveOut ↔ ∃ s ∈ block.succs, keys.LiveFrom f k s) := by
  obtain ⟨l₀, hstart, hg, hrest⟩ := exists_rest_of_compute h
  have hsize : b.index < l.blocks.size := by
    rw [← size_effects, hg.1, size_effects, (start?_spec hstart).2.1]
    exact (Array.getElem?_eq_some_iff.mp hb).1
  have hat : l.blocks[b.index]? = some l.blocks[b.index] := Array.getElem?_eq_getElem hsize
  refine ⟨l.blocks[b.index], hat, fun k => ⟨?_, ?_⟩⟩
  · rw [mem_liveIn_iff hat, hg.enters_iff hstart hrest]
  · rw [← liveOutAt_iff hat, hrest (b, block) (Func.mem_layout.mpr hb) k]
    simp only [hg.enters_iff hstart hrest]

/-- A counter that is stored, then loaded, lowered and stored again in a loop. -/
def countdown : Func where
  name := "countdown"
  params := [⟨0⟩]
  values := #[.arg 0, .slot "i", .result ⟨1⟩, .result ⟨2⟩]
  insts := #[⟨.store ⟨0⟩ ⟨1⟩, none⟩, ⟨.load ⟨1⟩, some ⟨2⟩⟩, ⟨.binary .sub ⟨2⟩ ⟨0⟩, some ⟨3⟩⟩,
    ⟨.store ⟨3⟩ ⟨1⟩, none⟩, ⟨.other "ret" [⟨1⟩], none⟩]
  blocks := #[⟨[⟨0⟩], [⟨1⟩]⟩, ⟨[⟨1⟩, ⟨2⟩, ⟨3⟩], [⟨1⟩, ⟨2⟩]⟩, ⟨[⟨4⟩], []⟩]

/-- The loop of `countdown`, with values for keys. -/
theorem countdown_live_iff_path_reads :
    ∃ l, (compute .values countdown none).outcome = .ok l ∧
      ∃ sets, l.block? ⟨1⟩ = some sets ∧ sets.liveOut.toList = [0, 1] ∧ ∀ k,
        (k ∈ sets.liveIn ↔ KeySpace.values.LiveFrom countdown k ⟨1⟩) ∧
        (k ∈ sets.liveOut ↔ ∃ s ∈ [⟨1⟩, ⟨2⟩], KeySpace.values.LiveFrom countdown k s) := by
  have hrun : (compute .values countdown none).outcome = .ok _ := rfl
  obtain ⟨sets, hsets, hlive⟩ := live_iff_path_reads hrun (b := ⟨1⟩) rfl
  exact ⟨_, hrun, sets, hsets, by obtain rfl := Option.some.inj hsets; rfl, hlive⟩

end Liveness

end Dataflow
