import Dataflow.Proofs.Keys
import Dataflow.Proofs.LivePaths

/-!
# The states of a liveness analysis

A state is made for one function and may then be swept along the edges of any others, in calls that
come to rest, give up or are refused (`Reachable`).  Two things hold of it all the same.

1. **Every key is in range** (`InRange`): the effects of the state are those of the function it was
   made for and never change, and a visit brings in nothing but keys that are exposed or were live
   somewhere.

2. **Every access is in range**: a call first checks that the edges end at blocks and that there are
   as many blocks as sets, so a sweep finds what it asks for (`repeat?_isSome`), and a report finds
   a label for every key (`Keyed.exists_report`).
-/

namespace Dataflow

namespace Sweep

variable {numKeys : Nat} {layout : List (BlockId × Block)}

/-! ## Keys in range -/

/-- Every key in these sets is below `n`. -/
structure InRange (n : Nat) (sets : Array BlockSets) : Prop where
  effect : ∀ e ∈ effects sets, ∀ k, k ∈ e.exposed ∨ k ∈ e.killed → k < n
  liveOut : ∀ b k, LiveOutAt sets b k → k < n

/-- What enters a block is exposed in it or live behind it, so it is in range. -/
theorem InRange.lt_of_enters {n : Nat} {sets : Array BlockSets} (h : InRange n sets) {s : BlockId}
    {k : Nat} (hk : Enters (effects sets) (LiveOutAt sets) s k) : k < n := by
  obtain ⟨e, he, hexposed | ⟨hlive, -⟩⟩ := hk
  · exact h.effect e (Array.mem_of_getElem? he) k (Or.inl hexposed)
  · exact h.liveOut s k hlive

/-- **A visit brings in no other keys.** -/
theorem InRange.visit {n : Nat} {p q : Progress} {b : BlockId × Block} (h : InRange n p.sets)
    (hv : visit? numKeys p b = some q) : InRange n q.sets := by
  refine ⟨by rw [visit?_effects hv]; exact h.effect, fun c k hc => ?_⟩
  rw [visit?_liveOutAt hv] at hc
  split at hc
  · obtain ⟨s, -, hk⟩ := hc
    exact h.lt_of_enters hk
  · exact h.liveOut c k hc

/-- **No series brings in other keys**, by induction over its sweeps and their visits. -/
theorem InRange.series {n bound : Nat} {series r : Series} (h : InRange n series.sets)
    (hr : repeat? numKeys layout bound series = some r) : InRange n r.sets :=
  repeat?_induction (InRange n)
    (fun _ _ hsets hq => once?_induction (InRange n) (fun _ _ _ _ hp hv => hp.visit hv) hsets hq) h hr

/-! ## Series that answer -/

/-- With a place for every block and every successor, any number of sweeps can be made. -/
theorem repeat?_isSome (numKeys : Nat) : ∀ (bound : Nat) (series : Series),
    (∀ b ∈ layout, b.1.index < series.sets.size ∧ ∀ s ∈ b.2.succs, s.index < series.sets.size) →
      ∃ r, repeat? numKeys layout bound series = some r := by
  intro bound
  induction bound with
  | zero => exact fun series _ => ⟨series, rfl⟩
  | succ bound ih =>
    intro series hrange
    obtain ⟨q, hq⟩ := once?_isSome numKeys hrange
    by_cases hidle : q.changed = 0
    · exact ⟨_, repeat?_succ.mpr ⟨q, hq, Or.inl ⟨hidle, rfl⟩⟩⟩
    · have hrange' := hrange
      rw [← once?_size hq] at hrange'
      obtain ⟨r, hr⟩ := ih ⟨q.sets, q.changed :: series.changes, false⟩ hrange'
      exact ⟨r, repeat?_succ.mpr ⟨q, hq, Or.inr ⟨hidle, hr⟩⟩⟩

end Sweep

namespace Liveness

open Sweep

variable {keys : KeySpace} {f : Func} {cap : Option SweepCap} {l : Liveness}

/-! ## Calls -/

theorem series?_isSome (hs : f.Sound) (hsize : l.blocks.size = f.blocks.size) (cap : Option SweepCap) :
    ∃ s, l.series? f cap = some s :=
  repeat?_isSome l.numKeys _ _ (hs.layout_in_range hsize)

/-- **What a call can do**: refuse a function that is not sound or has another number of blocks, and
leave the state alone; or sweep, and leave what the sweeps leave. -/
theorem fixpoint_cases (l : Liveness) (f : Func) (cap : Option SweepCap) :
    (∃ d, f.validate = .error d ∧
      l.fixpoint f cap = (.error (.failed (.invalid f.name d)), l)) ∨
    (f.Sound ∧ l.blocks.size ≠ f.blocks.size ∧
      l.fixpoint f cap = (.error (.failed (.blockCount f.name l.blocks.size f.blocks.size)), l)) ∨
    (f.Sound ∧ l.blocks.size = f.blocks.size ∧
      ∃ s, l.series? f cap = some s ∧ l.fixpoint f cap = (l.verdict f cap s, l.after s)) := by
  unfold fixpoint Func.check
  cases hvalid : f.validate with
  | error d => exact Or.inl ⟨d, rfl, rfl⟩
  | ok u =>
    have hs : f.Sound := f.validate_eq_ok_iff.mp hvalid
    by_cases hsize : l.blocks.size = f.blocks.size
    · obtain ⟨s, hseries⟩ := series?_isSome hs hsize cap
      refine Or.inr (Or.inr ⟨hs, hsize, s, hseries, ?_⟩)
      simp only [if_pos hsize, hseries]
    · refine Or.inr (Or.inl ⟨hs, hsize, ?_⟩)
      simp only [if_neg hsize]

/-- A call on a sound function with the right number of blocks is not refused. -/
theorem fixpoint_of_sound (hs : f.Sound) (hsize : l.blocks.size = f.blocks.size)
    (cap : Option SweepCap) :
    ∃ s, l.series? f cap = some s ∧ l.fixpoint f cap = (l.verdict f cap s, l.after s) := by
  rcases fixpoint_cases l f cap with ⟨d, hd, -⟩ | ⟨-, hne, -⟩ | ⟨-, -, hcall⟩
  · rw [f.validate_eq_ok_iff.mpr hs] at hd
    nomatch hd
  · exact absurd hsize hne
  · exact hcall

/-- Once the series is known, the answer is its verdict, and the state is the one behind it. -/
theorem fixpoint_of_series {s : Series} (hs : f.Sound) (hsize : l.blocks.size = f.blocks.size)
    (h : l.series? f cap = some s) : l.fixpoint f cap = (l.verdict f cap s, l.after s) := by
  obtain ⟨s', hs', hcall⟩ := fixpoint_of_sound hs hsize cap
  obtain rfl := Option.some.inj (hs'.symm.trans h)
  exact hcall

/-! ## All states -/

/-- **The states there are** over a key space: those made for a function, at the start or at rest,
and those that calls leave, on any functions and whatever they answer. -/
inductive Reachable (keys : KeySpace) : Liveness → Prop where
  | start {f : Func} {l : Liveness} (h : Liveness.start keys f = .ok l) : Reachable keys l
  | compute {f : Func} {cap : Option SweepCap} {l : Liveness}
      (h : (Liveness.compute keys f cap).outcome = .ok l) : Reachable keys l
  | fixpoint {l : Liveness} (f : Func) (cap : Option SweepCap) (h : Reachable keys l) :
      Reachable keys (l.fixpoint f cap).2

/-- The state has the keys of the space, and no others in its sets. -/
structure Keyed (keys : KeySpace) (l : Liveness) : Prop where
  keys_eq : l.keys = keys
  numKeys_eq : ∃ f : Func, l.numKeys = keys.size f
  inRange : InRange l.numKeys l.blocks

/-- Effects are made of the keys of operands and results, all of which are in range. -/
theorem Keyed.start (identity : Identity) (g : Func) (hs : f.Sound)
    (h : start? (.of identity g) f = some l) : Keyed (.of identity g) l := by
  obtain ⟨hnumKeys, hsize, hblocks⟩ := start?_spec h
  refine ⟨?_, ⟨f, hnumKeys⟩, fun e he k hk => ?_, fun b k hk => absurd hk (not_liveOutAt_start h b k)⟩
  · obtain ⟨effects, -, hl⟩ := Option.bind_eq_some_iff.mp h
    rw [← Option.some.inj hl]
  · -- an effect of the state is that of a block of the function
    obtain ⟨s, hmem, rfl⟩ := Array.mem_map.mp he
    obtain ⟨n, hn⟩ := Array.mem_iff_getElem?.mp hmem
    have hlt : n < f.blocks.size := by
      rw [← hsize]
      exact (Array.getElem?_eq_some_iff.mp hn).1
    obtain ⟨e, hinsts, hat⟩ := hblocks ⟨n⟩ _ (Array.getElem?_eq_getElem hlt)
    obtain rfl := Option.some.inj (hn.symm.trans hat)
    rw [hnumKeys]
    exact KeySpace.lt_size_of_effect identity g hs (Array.getElem?_eq_getElem hlt) hinsts hk

/-- A series changes the sets and nothing else, and keeps them in range. -/
theorem Keyed.after {s : Series} (h : Keyed keys l) (hseries : l.series? f cap = some s) :
    Keyed keys (l.after s) where
  keys_eq := h.keys_eq
  numKeys_eq := h.numKeys_eq
  inRange := h.inRange.series hseries

theorem Keyed.fixpoint (h : Keyed keys l) (f : Func) (cap : Option SweepCap) :
    Keyed keys (l.fixpoint f cap).2 := by
  rcases fixpoint_cases l f cap with ⟨d, -, hcall⟩ | ⟨-, -, hcall⟩ | ⟨-, -, s, hseries, hcall⟩
  · rw [hcall]
    exact h
  · rw [hcall]
    exact h
  · rw [hcall]
    exact h.after hseries

/-- **Every state there is has its keys in range.** -/
theorem Reachable.keyed {identity : Identity} {g : Func} (h : Reachable (.of identity g) l) :
    Keyed (.of identity g) l := by
  induction h with
  | start hstart =>
    obtain ⟨hs, hstart⟩ := start_eq_ok.mp hstart
    exact .start identity g hs hstart
  | compute hcompute =>
    obtain ⟨hs, l₀, s, hstart, hseries, -, rfl⟩ := compute_eq_ok.mp hcompute
    exact (Keyed.start identity g hs hstart).after hseries
  | fixpoint f cap _ ih => exact ih.fixpoint f cap

/-! ## Reports -/

theorem Keyed.exists_describe (h : Keyed keys l) {k : Nat} (hk : k < l.numKeys) :
    ∃ label, l.keys.describe? k = some label := by
  obtain ⟨f, hf⟩ := h.numKeys_eq
  rw [h.keys_eq]
  rw [hf] at hk
  exact KeySpace.exists_describe hk

/-- Every set of keys in range can be described. -/
theorem Keyed.exists_describe_set (h : Keyed keys l) {s : WordSet} (hs : ∀ k ∈ s, k < l.numKeys) :
    ∃ labels, l.describe? s = some labels :=
  exists_mapM_eq_some fun k hk => h.exists_describe (hs k (WordSet.mem_toList.mp hk))

/-- A key of one of the four sets of a block is in range. -/
theorem Keyed.lt_numKeys (h : Keyed keys l) {b : BlockId} {sets : BlockSets}
    (hb : l.block? b = some sets) {k : Nat}
    (hk : k ∈ sets.effect.exposed ∨ k ∈ sets.effect.killed ∨ k ∈ sets.liveOut ∨ k ∈ sets.liveIn) :
    k < l.numKeys := by
  have heffect : sets.effect ∈ effects l.blocks := Array.mem_map_of_mem (Array.mem_of_getElem? hb)
  rcases hk with hk | hk | hk | hk
  · exact h.inRange.effect _ heffect k (Or.inl hk)
  · exact h.inRange.effect _ heffect k (Or.inr hk)
  · exact h.inRange.liveOut b k ⟨sets, hb, hk⟩
  · exact h.inRange.lt_of_enters ((mem_liveIn_iff hb).mp hk)

/-- **Every block of the state can be reported.** -/
theorem Keyed.exists_report (h : Keyed keys l) {b : BlockId} {sets : BlockSets}
    (hb : l.block? b = some sets) : ∃ r, l.report? b = some r := by
  obtain ⟨exposed, hexposed⟩ := h.exists_describe_set fun k hk => h.lt_numKeys hb (Or.inl hk)
  obtain ⟨killed, hkilled⟩ := h.exists_describe_set fun k hk => h.lt_numKeys hb (Or.inr (Or.inl hk))
  obtain ⟨live, hlive⟩ :=
    h.exists_describe_set fun k hk => h.lt_numKeys hb (Or.inr (Or.inr (Or.inl hk)))
  exact ⟨⟨l.keys.identity, b, exposed, killed, live⟩, by
    simp [report?, hb, hexposed, hkilled, hlive]⟩

end Liveness

end Dataflow
