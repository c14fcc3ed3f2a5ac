import Dataflow.Proofs.Effects
import Dataflow.Proofs.Outcomes
import Dataflow.Proofs.Sweeps

/-!
# The effect of a block, wherever it is asked for

A block's effect can be asked for alone (`localEffect`), and it is part of every state that is made
for the function, before the sweeps and after them.  It is one and the same (`start_effect`,
`compute_effect`), and it tells of the block's own instructions which keys they read before
overwriting them and which they overwrite.

1. **The walk** is taken apart in `Effect.ofInsts?_spec`, one instruction at a time.

2. **Cut anywhere** (`Effect.ofInsts?_append`): what two parts of a block do one after the other is
   a matter of their effects alone.  What the second exposes counts unless the first overwrites it.

3. **Sweeps leave effects alone** (`Sweep.repeat?_effects`), so a state at rest has those of the
   start.
-/

namespace Dataflow

variable {keys : KeySpace} {f : Func} {b : BlockId} {block : Block} {e : Effect}

namespace Effect

/-- **The effect of two runs of instructions, one after the other**, from the effects of both. -/
theorem ofInsts?_append {xs ys : List InstId} {d c : Effect} (hxs : ofInsts? keys f xs = some d)
    (hys : ofInsts? keys f ys = some c) (h : ofInsts? keys f (xs ++ ys) = some e) (k : Nat) :
    (k ∈ e.killed ↔ k ∈ d.killed ∨ k ∈ c.killed) ∧
      (k ∈ e.exposed ↔ k ∈ d.exposed ∨ (k ∈ c.exposed ∧ k ∉ d.killed)) := by
  obtain ⟨hexposed, hkilled⟩ := ofInsts?_spec (xs ++ ys) h k
  obtain ⟨hexposed₁, hkilled₁⟩ := ofInsts?_spec xs hxs k
  obtain ⟨hexposed₂, hkilled₂⟩ := ofInsts?_spec ys hys k
  rw [hexposed, hexposed₁, hexposed₂, hkilled, hkilled₁, hkilled₂]
  constructor
  · rw [KeySpace.spares_append, not_and_or]
  · rw [KeySpace.readsFirst_append, not_not]

end Effect

/-- Instructions that do not leave a key alone overwrite it somewhere. -/
theorem KeySpace.not_spares_iff {k : Nat} {insts : List InstId} :
    ¬ keys.Spares f k insts ↔ ∃ i ∈ insts, keys.Overwrites f k i := by
  simp only [Spares, not_forall, not_not, exists_prop]

namespace Liveness

open Sweep

/-- **Asked for alone**, the effect of a block is that of its instructions. -/
theorem localEffect_eq_ok (hs : f.Sound) (hb : f.blocks[b.index]? = some block) :
    localEffect keys f b = .ok e ↔ Effect.ofInsts? keys f block.insts = some e := by
  unfold localEffect
  rw [Func.check_eq_ok.mpr hs, hb]
  exact Halt.require_eq_ok

/-- **Before the sweeps** the state has the effects of the function's blocks. -/
theorem start_effect {l : Liveness} (hb : f.blocks[b.index]? = some block)
    (he : Effect.ofInsts? keys f block.insts = some e) (h : start? keys f = some l) :
    (effects l.blocks)[b.index]? = some e := by
  obtain ⟨e', he', hat⟩ := (start?_spec h).2.2 b block hb
  obtain rfl := Option.some.inj (he.symm.trans he')
  rw [effects, Array.getElem?_map, hat]
  rfl

/-- **After the sweeps** it has them still. -/
theorem compute_effect {l : Liveness} {cap : Option SweepCap} (hb : f.blocks[b.index]? = some block)
    (he : Effect.ofInsts? keys f block.insts = some e) (h : (compute keys f cap).outcome = .ok l) :
    (effects l.blocks)[b.index]? = some e := by
  obtain ⟨-, l₀, s, hstart, hseries, -, rfl⟩ := compute_eq_ok.mp h
  have hsame : effects s.sets = effects l₀.blocks := repeat?_effects hseries
  show (effects s.sets)[b.index]? = some e
  rw [hsame]
  exact start_effect hb he hstart

theorem exists_sets_of_effect {l : Liveness} (h : (effects l.blocks)[b.index]? = some e) :
    ∃ sets, l.block? b = some sets ∧ sets.effect = e := by
  rw [effects, Array.getElem?_map] at h
  exact Option.map_eq_some_iff.mp h

/-! ## The headline -/

/-- **The effect of a block is what its instructions do.**  In a function that validates a block has
one effect: the one that is answered when it is asked for alone, that a new state has and that the
state has when it has come to rest, whatever the limit on sweeps.

1. A key is exposed exactly if an instruction of the block reads it and none before it overwrites
   it.
2. A key is killed exactly if an instruction of the block overwrites it.
3. Wherever the block is cut in two, it kills what either part kills, and exposes what the first
   part exposes and what the second exposes and the first does not kill. -/
theorem effect_of_block (keys : KeySpace) {f : Func} (hvalid : f.validate = .ok ()) {b : BlockId}
    {block : Block} (hb : f.blocks[b.index]? = some block) :
    ∃ e, localEffect keys f b = .ok e ∧
      (∃ l sets, start keys f = .ok l ∧ l.block? b = some sets ∧ sets.effect = e) ∧
      (∀ cap l, (compute keys f cap).outcome = .ok l →
        ∃ sets, l.block? b = some sets ∧ sets.effect = e) ∧
      (∀ k, (k ∈ e.exposed ↔ ∃ before i after, block.insts = before ++ i :: after ∧
          keys.Reads f k i ∧ ∀ j ∈ before, ¬ keys.Overwrites f k j) ∧
        (k ∈ e.killed ↔ ∃ i ∈ block.insts, keys.Overwrites f k i)) ∧
      ∀ xs ys, block.insts = xs ++ ys → ∃ d c, Effect.ofInsts? keys f xs = some d ∧
        Effect.ofInsts? keys f ys = some c ∧ ∀ k, (k ∈ e.killed ↔ k ∈ d.killed ∨ k ∈ c.killed) ∧
          (k ∈ e.exposed ↔ k ∈ d.exposed ∨ (k ∈ c.exposed ∧ k ∉ d.killed)) := by
  have hs : f.Sound := f.validate_eq_ok_iff.mp hvalid
  obtain ⟨e, he⟩ := hs.exists_effect keys hb fun i hi => hi
  obtain ⟨l, hl⟩ := start?_isSome keys hs
  obtain ⟨sets, hsets, heffect⟩ := exists_sets_of_effect (start_effect hb he hl)
  refine ⟨e, (localEffect_eq_ok hs hb).mpr he, ⟨l, sets, start_eq_ok.mpr ⟨hs, hl⟩, hsets, heffect⟩,
    fun cap l h => exists_sets_of_effect (compute_effect hb he h), fun k => ?_, fun xs ys hsplit => ?_⟩
  · obtain ⟨hexposed, hkilled⟩ := Effect.ofInsts?_spec block.insts he k
    exact ⟨hexposed, hkilled.trans KeySpace.not_spares_iff⟩
  · obtain ⟨d, hd⟩ :=
      hs.exists_effect keys hb fun i (hi : i ∈ xs) => hsplit ▸ List.mem_append_left ys hi
    obtain ⟨c, hc⟩ :=
      hs.exists_effect keys hb fun i (hi : i ∈ ys) => hsplit ▸ List.mem_append_right xs hi
    rw [hsplit] at he
    exact ⟨d, c, hd, hc, Effect.ofInsts?_append hd hc he⟩

/-- A slot with a label past the first word of a set: it is written, then read back. -/
def spill : Func where
  name := "spill"
  values := Array.replicate 65 (.const (.int 7)) ++ #[.slot "x", .result ⟨1⟩]
  insts := #[⟨.store ⟨0⟩ ⟨65⟩, none⟩, ⟨.load ⟨65⟩, some ⟨66⟩⟩]
  blocks := #[⟨[⟨0⟩, ⟨1⟩], []⟩]

/-- In `spill` the slot is exposed, since a store reads its pointer before it overwrites it; the
load alone would expose it too, but the store comes before. -/
theorem spill_effect_of_block :
    spill.validate = .ok () ∧
    ∃ e, localEffect .values spill ⟨0⟩ = .ok e ∧ e.exposed.toList = [0, 65] ∧
      e.killed.toList = [65, 66] ∧
      (∃ l sets, (compute .values spill none).outcome = .ok l ∧ l.block? ⟨0⟩ = some sets ∧
        sets.effect = e) ∧
      ∃ d c, Effect.ofInsts? .values spill [⟨0⟩] = some d ∧
        Effect.ofInsts? .values spill [⟨1⟩] = some c ∧
        65 ∈ d.killed ∧ 65 ∈ c.exposed ∧ ∀ k, (k ∈ e.killed ↔ k ∈ d.killed ∨ k ∈ c.killed) ∧
          (k ∈ e.exposed ↔ k ∈ d.exposed ∨ (k ∈ c.exposed ∧ k ∉ d.killed)) := by
  have hvalid : spill.validate = .ok () := by decide +kernel
  have hrun : (compute .values spill none).outcome = .ok _ := rfl
  obtain ⟨e, he, -, hrest, -, hcut⟩ := effect_of_block .values hvalid (b := ⟨0⟩) rfl
  obtain ⟨d, c, hd, hc, hparts⟩ := hcut [⟨0⟩] [⟨1⟩] rfl
  obtain ⟨sets, hsets, heffect⟩ := hrest none _ hrun
  refine ⟨hvalid, e, he, ?_, ?_, ⟨_, sets, hrun, hsets, heffect⟩, d, c, hd, hc, ?_, ?_, hparts⟩
  · obtain rfl := Except.ok.inj he
    rfl
  · obtain rfl := Except.ok.inj he
    rfl
  · obtain rfl := Option.some.inj hd
    rfl
  · obtain rfl := Option.some.inj hc
    rfl

end Liveness

end Dataflow
