import Dataflow.Liveness
import Dataflow.Proofs.Defects
import Dataflow.Proofs.WordSets

/-!
# What the effect of a block says about its instructions

The walk over a block keeps two sets.  Read as statements about the instructions themselves, a key
is `exposed` if some instruction reads it and none before that one overwrites it (`ReadsFirst`), and
it is `killed` if some instruction overwrites it (`¬ Spares`).  Both are proved for every run of
instructions by taking them in one at a time, the last one last, which is the order of the walk.

The state before any sweep holds these effects, block by block, and nothing is live yet.
-/

namespace Dataflow

/-! ## Reading and overwriting -/

namespace KeySpace

/-- Instruction `i` of `f` reads key `k`. -/
def Reads (keys : KeySpace) (f : Func) (k : Nat) (i : InstId) : Prop :=
  ∃ inst, f.insts[i.index]? = some inst ∧ k ∈ keys.uses inst

/-- Instruction `i` of `f` overwrites key `k`. -/
def Overwrites (keys : KeySpace) (f : Func) (k : Nat) (i : InstId) : Prop :=
  ∃ inst, f.insts[i.index]? = some inst ∧ k ∈ keys.defs inst

/-- A run of instructions leaves key `k` alone. -/
def Spares (keys : KeySpace) (f : Func) (k : Nat) (insts : List InstId) : Prop :=
  ∀ j ∈ insts, ¬ keys.Overwrites f k j

/-- A run of instructions reads key `k` before it overwrites it. -/
def ReadsFirst (keys : KeySpace) (f : Func) (k : Nat) (insts : List InstId) : Prop :=
  ∃ before i after, insts = before ++ i :: after ∧ keys.Reads f k i ∧ keys.Spares f k before

section

variable {keys : KeySpace} {f : Func} {k : Nat}

/-- Two runs leave a key alone if each of them does. -/
theorem spares_append {xs ys : List InstId} :
    keys.Spares f k (xs ++ ys) ↔ keys.Spares f k xs ∧ keys.Spares f k ys := by
  simp only [Spares, List.mem_append, or_imp, forall_and]

theorem spares_singleton {i : InstId} : keys.Spares f k [i] ↔ ¬ keys.Overwrites f k i := by
  simp [Spares]

theorem not_readsFirst_nil : ¬ keys.ReadsFirst f k [] := by
  rintro ⟨before, i, after, h, -⟩
  simp at h

/-- **Two runs of instructions, one after the other**: the first reads the key, or it leaves the key
alone and the second reads it. -/
theorem readsFirst_append {xs ys : List InstId} :
    keys.ReadsFirst f k (xs ++ ys)
      ↔ keys.ReadsFirst f k xs ∨ (keys.ReadsFirst f k ys ∧ keys.Spares f k xs) := by
  constructor
  · rintro ⟨before, i, after, hsplit, hreads, hspares⟩
    rcases List.append_eq_append_iff.mp hsplit with ⟨gap, rfl, hys⟩ | ⟨gap, hxs, hrest⟩
    · -- the reading instruction stands in the second run
      obtain ⟨hxs, hgap⟩ := spares_append.mp hspares
      exact Or.inr ⟨⟨gap, i, after, hys, hreads, hgap⟩, hxs⟩
    · cases gap with
      | nil =>
        -- it is the first of the second run
        rw [List.append_nil] at hxs
        exact Or.inr ⟨⟨[], i, after, hrest.symm, hreads, nofun⟩, hxs ▸ hspares⟩
      | cons j gap =>
        obtain ⟨rfl, -⟩ := List.cons.inj hrest
        exact Or.inl ⟨before, i, gap, hxs, hreads, hspares⟩
  · rintro (⟨before, i, after, rfl, hreads, hspares⟩ | ⟨⟨before, i, after, rfl, hreads, hspares⟩, hxs⟩)
    · exact ⟨before, i, after ++ ys, by simp, hreads, hspares⟩
    · exact ⟨xs ++ before, i, after, by simp, hreads, spares_append.mpr ⟨hxs, hspares⟩⟩

/-- A single instruction reads a key first if it reads it at all. -/
theorem readsFirst_singleton {i : InstId} : keys.ReadsFirst f k [i] ↔ keys.Reads f k i := by
  constructor
  · rintro ⟨before, j, after, hsplit, hreads, -⟩
    have hmem : j ∈ [i] := hsplit ▸ List.mem_append_cons_self
    rwa [List.mem_singleton.mp hmem] at hreads
  · intro hreads
    exact ⟨[], i, [], rfl, hreads, nofun⟩

end

end KeySpace

/-! ## The walk over a block -/

namespace Effect

variable {keys : KeySpace} {f : Func}

/-- **One step of the walk, reading**: a use is exposed unless the key was overwritten before. -/
theorem mem_exposed_step {e : Effect} {inst : Instruction} {k : Nat} :
    k ∈ (e.step keys inst).exposed ↔ k ∈ e.exposed ∨ (k ∈ keys.uses inst ∧ k ∉ e.killed) := by
  have hfold : ∀ (us : List Nat) (s : WordSet),
      k ∈ us.foldl (fun s k => if e.killed.contains k then s else s.add k) s
        ↔ k ∈ s ∨ (k ∈ us ∧ k ∉ e.killed) := by
    intro us
    induction us with
    | nil => simp
    | cons u us ih =>
      intro s
      rw [List.foldl_cons, ih, List.mem_cons]
      by_cases hu : e.killed.contains u = true
      · rw [if_pos hu]
        have hkilled : k = u → k ∈ e.killed := by rintro rfl; exact hu
        grind
      · rw [if_neg hu, WordSet.mem_add]
        have hkilled : k = u → k ∉ e.killed := by rintro rfl; exact hu
        grind
  exact hfold (keys.uses inst) e.exposed

/-- **One step of the walk, overwriting.** -/
theorem mem_killed_step {e : Effect} {inst : Instruction} {k : Nat} :
    k ∈ (e.step keys inst).killed ↔ k ∈ e.killed ∨ k ∈ keys.defs inst :=
  WordSet.mem_foldl_add

/-- The last instruction of a block is the last step of the walk. -/
theorem ofInsts?_concat {insts : List InstId} {i : InstId} {e : Effect}
    (h : ofInsts? keys f (insts ++ [i]) = some e) :
    ∃ e₀ inst, ofInsts? keys f insts = some e₀ ∧ f.insts[i.index]? = some inst ∧
      e = e₀.step keys inst := by
  unfold ofInsts? at h
  rw [List.foldlM_append] at h
  obtain ⟨e₀, h₀, hlast⟩ := Option.bind_eq_some_iff.mp h
  rw [List.foldlM_cons] at hlast
  obtain ⟨e₁, h₁, hnil⟩ := Option.bind_eq_some_iff.mp hlast
  obtain ⟨inst, hinst, rfl⟩ := Option.map_eq_some_iff.mp h₁
  exact ⟨e₀, inst, h₀, hinst, (Option.some.inj hnil).symm⟩

/-- **The effect of a run of instructions**, in terms of the instructions. -/
theorem ofInsts?_spec (insts : List InstId) : ∀ {e : Effect}, ofInsts? keys f insts = some e →
    ∀ k, (k ∈ e.exposed ↔ keys.ReadsFirst f k insts) ∧ (k ∈ e.killed ↔ ¬ keys.Spares f k insts) := by
  induction insts using List.reverseRecOn with
  | nil =>
    intro e h k
    obtain rfl : idle (keys.size f) = e := Option.some.inj h
    simp [idle, KeySpace.not_readsFirst_nil, KeySpace.Spares]
  | append_singleton insts i ih =>
    intro e h k
    obtain ⟨e₀, inst, h₀, hinst, rfl⟩ := ofInsts?_concat h
    obtain ⟨hexposed, hkilled⟩ := ih h₀ k
    have hreads : keys.Reads f k i ↔ k ∈ keys.uses inst := by simp [KeySpace.Reads, hinst]
    have hover : keys.Overwrites f k i ↔ k ∈ keys.defs inst := by simp [KeySpace.Overwrites, hinst]
    constructor
    · rw [mem_exposed_step, KeySpace.readsFirst_append, KeySpace.readsFirst_singleton, hexposed,
        hkilled, hreads, not_not]
    · rw [mem_killed_step, KeySpace.spares_append, KeySpace.spares_singleton, hkilled, hover,
        not_and_or, not_not]

/-- The walk over instructions that exist does not stop. -/
theorem ofInsts?_isSome {insts : List InstId}
    (h : ∀ i ∈ insts, ∃ inst, f.insts[i.index]? = some inst) :
    ∃ e, ofInsts? keys f insts = some e := by
  unfold ofInsts?
  generalize idle (keys.size f) = e
  induction insts generalizing e with
  | nil => exact ⟨e, rfl⟩
  | cons i insts ih =>
    obtain ⟨inst, hinst⟩ := h i List.mem_cons_self
    obtain ⟨e', he'⟩ := ih (fun j hj => h j (List.mem_cons_of_mem i hj)) (e.step keys inst)
    refine ⟨e', ?_⟩
    rw [List.foldlM_cons, hinst]
    exact he'

end Effect

/-! ## The state before any sweep -/

/-- A map that may fail gives a list exactly if it gives each entry of it. -/
theorem mapM_eq_some_iff {α β : Type} {g : α → Option β} {l : List α} {out : List β} :
    l.mapM g = some out ↔ l.map g = out.map some := by
  induction l generalizing out with
  | nil => cases out <;> simp
  | cons x l ih =>
    cases out with
    | nil => simp [Option.bind_eq_some_iff]
    | cons y out =>
      simp only [List.mapM_cons, Option.bind_eq_bind, Option.bind_eq_some_iff, Option.pure_def,
        Option.some.injEq, List.cons.injEq, List.map_cons, ← ih]
      constructor
      · rintro ⟨a, ha, as, has, rfl, rfl⟩
        exact ⟨ha, has⟩
      · rintro ⟨ha, has⟩
        exact ⟨y, ha, out, has, rfl, rfl⟩

/-- It gives one if it fails nowhere. -/
theorem exists_mapM_eq_some {α β : Type} {g : α → Option β} {l : List α}
    (h : ∀ x ∈ l, ∃ y, g x = some y) : ∃ out, l.mapM g = some out := by
  induction l with
  | nil => exact ⟨[], rfl⟩
  | cons x l ih =>
    obtain ⟨y, hy⟩ := h x List.mem_cons_self
    obtain ⟨out, hout⟩ := ih fun z hz => h z (List.mem_cons_of_mem x hz)
    exact ⟨y :: out, by simp [List.mapM_cons, hy, hout]⟩

/-- The listed instructions of a sound function exist. -/
theorem Func.Sound.exists_inst {f : Func} (hs : f.Sound) {b : BlockId} {block : Block}
    (hb : f.blocks[b.index]? = some block) {i : InstId} (hi : i ∈ block.insts) :
    ∃ inst, f.insts[i.index]? = some inst ∧ (∀ v ∈ inst.mentions, v.index < f.values.size) ∧
      ∀ v, inst.result = some v → f.values[v.index]? = some (.result i) := by
  have hplaced : (b, i) ∈ f.programOrder := by
    rw [Func.programOrder_eq, List.mem_flatMap]
    exact ⟨(b, block), Func.mem_layout.mpr hb, List.mem_map_of_mem hi⟩
  exact hs.listed (b, i) hplaced

/-- Instructions of a block of a sound function have an effect. -/
theorem Func.Sound.exists_effect {f : Func} (hs : f.Sound) (keys : KeySpace) {b : BlockId}
    {block : Block} (hb : f.blocks[b.index]? = some block) {insts : List InstId}
    (hsub : ∀ i ∈ insts, i ∈ block.insts) :
    ∃ e, Effect.ofInsts? keys f insts = some e := by
  apply Effect.ofInsts?_isSome
  intro i hi
  obtain ⟨inst, hinst, -⟩ := hs.exists_inst hb (hsub i hi)
  exact ⟨inst, hinst⟩

namespace Liveness

variable {keys : KeySpace} {f : Func}

/-- **The state before any sweep**: for each block its effect, and nothing live. -/
theorem start?_spec {l : Liveness} (h : start? keys f = some l) :
    l.numKeys = keys.size f ∧ l.blocks.size = f.blocks.size ∧
      ∀ b : BlockId, ∀ block, f.blocks[b.index]? = some block →
        ∃ e, Effect.ofInsts? keys f block.insts = some e ∧
          l.blocks[b.index]? = some ⟨e, .withCapacity (keys.size f)⟩ := by
  obtain ⟨effects, heffects, hl⟩ := Option.bind_eq_some_iff.mp h
  obtain rfl := Option.some.inj hl
  rw [mapM_eq_some_iff] at heffects
  refine ⟨rfl, ?_, ?_⟩
  · have hlen := congrArg List.length heffects
    simpa using hlen.symm
  · intro b block hb
    have hat := congrArg (fun es => es[b.index]?) heffects
    simp only [List.getElem?_map, Array.getElem?_toList, hb, Option.map_some] at hat
    obtain ⟨e, he, hsome⟩ := Option.map_eq_some_iff.mp hat.symm
    exact ⟨e, hsome.symm, by simp [he]⟩

/-- A sound function has a state to start from. -/
theorem start?_isSome (keys : KeySpace) (hs : f.Sound) : ∃ l, start? keys f = some l := by
  have hblocks : ∀ block ∈ f.blocks.toList, ∃ e, Effect.ofInsts? keys f block.insts = some e := by
    intro block hblock
    obtain ⟨n, hn⟩ := Array.mem_iff_getElem?.mp (Array.mem_toList_iff.mp hblock)
    exact hs.exists_effect keys (b := ⟨n⟩) hn fun i hi => hi
  obtain ⟨effects, heffects⟩ := exists_mapM_eq_some hblocks
  exact ⟨_, Option.bind_eq_some_iff.mpr ⟨effects, heffects, rfl⟩⟩

end Liveness

end Dataflow
