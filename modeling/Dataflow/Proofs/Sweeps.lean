import Dataflow.Liveness
import Dataflow.Proofs.WordSets
import Mathlib.Data.List.Induction

/-!
# What a sweep does

A sweep changes `liveOut` in place, so in the middle of it some blocks show what they have become
and the others what they were.  Everything is said here about membership alone: which keys are live
at the end of which block (`LiveOutAt`), and which keys enter a block if those are (`Enters`).
Effects never change, so they are named once (`effects`) and the rest is about `LiveOutAt`.

1. **A visit** (`visit?_cases`) gathers what enters the successors and either finds it there already
   or puts it in place of the old set and counts a change.

2. **A sweep** (`once?_equation`): a block ends up with what enters its successors, where the later
   blocks of the layout count as they have become and the others as they were.  A sweep that counts
   no change has changed nothing (`once?_unchanged`), and one that starts at rest counts none
   (`once?_idle`).

3. **A series** (`repeat?_succ`) makes one sweep after the other and ends with an idle one: what
   every sweep keeps, the series keeps (`repeat?_induction`), and a series that ends stable ends at
   rest (`repeat?_rests`).
-/

namespace Dataflow

namespace Sweep

/-! ## Keys live at the ends of blocks, and keys that enter them -/

/-- Key `k` is live at the end of block `b`. -/
def LiveOutAt (sets : Array BlockSets) (b : BlockId) (k : Nat) : Prop :=
  ∃ s, sets[b.index]? = some s ∧ k ∈ s.liveOut

/-- The effects of the blocks. -/
def effects (sets : Array BlockSets) : Array Effect := sets.map BlockSets.effect

/-- Key `k` enters block `b`, if `live` says what is live at the ends of blocks: the block exposes
it, or lets it pass. -/
def Enters (es : Array Effect) (live : BlockId → Nat → Prop) (b : BlockId) (k : Nat) : Prop :=
  ∃ e, es[b.index]? = some e ∧ (k ∈ e.exposed ∨ (live b k ∧ k ∉ e.killed))

/-- What enters a block only grows with what is live behind it. -/
theorem Enters.mono {es : Array Effect} {live live' : BlockId → Nat → Prop} {b : BlockId} {k : Nat}
    (h : live b k → live' b k) : Enters es live b k → Enters es live' b k := by
  rintro ⟨e, he, hexposed | ⟨hlive, hkilled⟩⟩
  · exact ⟨e, he, Or.inl hexposed⟩
  · exact ⟨e, he, Or.inr ⟨h hlive, hkilled⟩⟩

theorem exists_enters_congr {es : Array Effect} {live live' : BlockId → Nat → Prop}
    {succs : List BlockId} {k : Nat} (h : ∀ s, live s k ↔ live' s k) :
    (∃ s ∈ succs, Enters es live s k) ↔ ∃ s ∈ succs, Enters es live' s k := by
  constructor
  · rintro ⟨s, hs, hk⟩
    exact ⟨s, hs, hk.mono (h s).mp⟩
  · rintro ⟨s, hs, hk⟩
    exact ⟨s, hs, hk.mono (h s).mpr⟩

theorem size_effects (sets : Array BlockSets) : (effects sets).size = sets.size := by
  simp [effects]

theorem liveOutAt_iff {sets : Array BlockSets} {b : BlockId} {s : BlockSets} {k : Nat}
    (h : sets[b.index]? = some s) : LiveOutAt sets b k ↔ k ∈ s.liveOut := by
  simp [LiveOutAt, h]

/-- The keys live at the start of a block are those that enter it. -/
theorem mem_liveIn_iff {sets : Array BlockSets} {b : BlockId} {s : BlockSets} {k : Nat}
    (h : sets[b.index]? = some s) :
    k ∈ s.liveIn ↔ Enters (effects sets) (LiveOutAt sets) b k := by
  simp [BlockSets.liveIn, Enters, effects, h, liveOutAt_iff h]

/-! ## Gathering and visiting -/

variable {numKeys : Nat}

/-- **Gathering** finds what enters the successors. -/
theorem mem_gather? {sets : Array BlockSets} {succs : List BlockId} : ∀ {live : WordSet} {k : Nat},
    gather? numKeys sets succs = some live →
      (k ∈ live ↔ ∃ s ∈ succs, Enters (effects sets) (LiveOutAt sets) s k) := by
  induction succs using List.reverseRecOn with
  | nil =>
    intro live k h
    obtain rfl : WordSet.withCapacity numKeys = live := Option.some.inj h
    simp
  | append_singleton succs s ih =>
    intro live k h
    unfold gather? at h
    rw [List.foldlM_append] at h
    obtain ⟨live₀, h₀, hlast⟩ := Option.bind_eq_some_iff.mp h
    rw [List.foldlM_cons] at hlast
    obtain ⟨live₁, h₁, hnil⟩ := Option.bind_eq_some_iff.mp hlast
    obtain ⟨b, hb, rfl⟩ := Option.map_eq_some_iff.mp h₁
    obtain rfl := Option.some.inj hnil
    have hs : Enters (effects sets) (LiveOutAt sets) s k
        ↔ k ∈ b.effect.exposed ∨ (k ∈ b.liveOut ∧ k ∉ b.effect.killed) := by
      rw [← mem_liveIn_iff hb, BlockSets.liveIn, WordSet.mem_unionDiff]
    simp only [WordSet.mem_unionDiff, WordSet.mem_union, ih h₀, List.mem_append, List.mem_singleton,
      or_and_right, exists_or, exists_eq_left, hs, or_assoc]

/-- Successors that have a place can be gathered from. -/
theorem gather?_isSome (numKeys : Nat) {sets : Array BlockSets} {succs : List BlockId}
    (h : ∀ s ∈ succs, s.index < sets.size) : ∃ live, gather? numKeys sets succs = some live := by
  unfold gather?
  generalize WordSet.withCapacity numKeys = live
  induction succs generalizing live with
  | nil => exact ⟨live, rfl⟩
  | cons s succs ih =>
    have hs : s.index < sets.size := h s List.mem_cons_self
    have hrest : ∀ t ∈ succs, t.index < sets.size := fun t ht => h t (List.mem_cons_of_mem s ht)
    obtain ⟨live', hlive'⟩ := ih hrest _
    refine ⟨live', ?_⟩
    rw [List.foldlM_cons, Array.getElem?_eq_getElem hs]
    exact hlive'

/-- **What a visit can do**: find the right set in place, or put it there and count a change. -/
theorem visit?_cases {p q : Progress} {b : BlockId × Block} (h : visit? numKeys p b = some q) :
    ∃ live old, gather? numKeys p.sets b.2.succs = some live ∧ p.sets[b.1.index]? = some old ∧
      (((∀ k, k ∈ live ↔ k ∈ old.liveOut) ∧ q = p) ∨
        q = ⟨p.sets.modify b.1.index fun s => { s with liveOut := live }, p.changed + 1⟩) := by
  unfold visit? at h
  obtain ⟨live, hlive, h⟩ := Option.bind_eq_some_iff.mp h
  obtain ⟨old, hold, h⟩ := Option.bind_eq_some_iff.mp h
  refine ⟨live, old, hlive, hold, ?_⟩
  split at h
  · rename_i heq
    exact Or.inl ⟨(WordSet.beq_iff_same_members live old.liveOut).mp heq, (Option.some.inj h).symm⟩
  · exact Or.inr (Option.some.inj h).symm

/-- A visit leaves all effects alone. -/
theorem visit?_effects {p q : Progress} {b : BlockId × Block} (h : visit? numKeys p b = some q) :
    effects q.sets = effects p.sets := by
  obtain ⟨live, old, -, -, ⟨-, rfl⟩ | rfl⟩ := visit?_cases h
  · rfl
  · apply Array.ext_getElem?
    intro n
    simp only [effects, Array.getElem?_map, Array.getElem?_modify]
    by_cases hn : b.1.index = n
    · rw [if_pos hn, Option.map_map]
      rfl
    · rw [if_neg hn]

/-- The visited block has what enters its successors; the others keep what they had. -/
theorem visit?_liveOutAt {p q : Progress} {b : BlockId × Block} (h : visit? numKeys p b = some q)
    (c : BlockId) (k : Nat) :
    LiveOutAt q.sets c k ↔
      if c = b.1 then ∃ s ∈ b.2.succs, Enters (effects p.sets) (LiveOutAt p.sets) s k
      else LiveOutAt p.sets c k := by
  obtain ⟨live, old, hlive, hold, ⟨hsame, rfl⟩ | rfl⟩ := visit?_cases h
  · split
    · rename_i hc
      rw [hc, liveOutAt_iff hold, ← hsame, mem_gather? hlive]
    · rfl
  · split
    · rename_i hc
      have hnew : (p.sets.modify b.1.index fun s => { s with liveOut := live })[c.index]?
          = some { old with liveOut := live } := by
        rw [hc, Array.getElem?_modify, if_pos rfl, hold]
        rfl
      rw [liveOutAt_iff hnew, mem_gather? hlive]
    · rename_i hc
      have hindex : ¬ b.1.index = c.index := fun heq => hc (congrArg BlockId.mk heq.symm)
      simp only [LiveOutAt, Array.getElem?_modify, if_neg hindex]

/-- The count of changes never falls, and where it stays nothing has changed. -/
theorem visit?_changed {p q : Progress} {b : BlockId × Block} (h : visit? numKeys p b = some q) :
    p.changed ≤ q.changed ∧ (q.changed = p.changed → q = p) := by
  obtain ⟨live, old, -, -, ⟨-, rfl⟩ | rfl⟩ := visit?_cases h
  · exact ⟨Nat.le_refl _, fun _ => rfl⟩
  · exact ⟨Nat.le_succ _, fun h => absurd h (Nat.succ_ne_self _)⟩

/-- A block can be visited if it and its successors have a place. -/
theorem visit?_isSome (numKeys : Nat) {p : Progress} {b : BlockId × Block}
    (hb : b.1.index < p.sets.size)
    (hsuccs : ∀ s ∈ b.2.succs, s.index < p.sets.size) : ∃ q, visit? numKeys p b = some q := by
  obtain ⟨live, hlive⟩ := gather?_isSome numKeys hsuccs
  unfold visit?
  rw [hlive, Array.getElem?_eq_getElem hb]
  show ∃ q, (if live == p.sets[b.1.index].liveOut then some p else some _) = some q
  split
  · exact ⟨_, rfl⟩
  · exact ⟨_, rfl⟩

/-- A visit to a block that has the right set already leaves everything alone. -/
theorem visit?_idle {p : Progress} {b : BlockId × Block} (hb : b.1.index < p.sets.size)
    (hsuccs : ∀ s ∈ b.2.succs, s.index < p.sets.size)
    (hrest : ∀ k, LiveOutAt p.sets b.1 k
      ↔ ∃ s ∈ b.2.succs, Enters (effects p.sets) (LiveOutAt p.sets) s k) :
    visit? numKeys p b = some p := by
  obtain ⟨live, hlive⟩ := gather?_isSome numKeys hsuccs
  have hold : p.sets[b.1.index]? = some p.sets[b.1.index] := Array.getElem?_eq_getElem hb
  have hsame : (live == p.sets[b.1.index].liveOut) = true := by
    apply (WordSet.beq_iff_same_members _ _).mpr
    intro k
    rw [mem_gather? hlive, ← hrest k, liveOutAt_iff hold]
  unfold visit?
  rw [hlive, hold]
  show (if live == p.sets[b.1.index].liveOut then some p else some _) = some p
  rw [if_pos hsame]

/-! ## One sweep -/

/-- The first block of the layout is visited last. -/
theorem once?_cons {layout : List (BlockId × Block)} {b : BlockId × Block} {sets : Array BlockSets}
    {q : Progress} : once? numKeys (b :: layout) sets = some q
      ↔ ∃ p, once? numKeys layout sets = some p ∧ visit? numKeys p b = some q := by
  simp [once?, List.foldlM_append, Option.bind_eq_some_iff]

/-- What every visit keeps, the sweep keeps. -/
theorem once?_induction {layout : List (BlockId × Block)} {sets : Array BlockSets}
    (P : Array BlockSets → Prop)
    (hvisit : ∀ p q b, b ∈ layout → P p.sets → visit? numKeys p b = some q → P q.sets)
    (hsets : P sets) : ∀ {q : Progress}, once? numKeys layout sets = some q → P q.sets := by
  induction layout with
  | nil =>
    intro q h
    obtain rfl := Option.some.inj h
    exact hsets
  | cons b layout ih =>
    intro q h
    obtain ⟨p, hp, hv⟩ := once?_cons.mp h
    have hP : P p.sets := ih (fun p q c hc => hvisit p q c (List.mem_cons_of_mem b hc)) hp
    exact hvisit p q b List.mem_cons_self hP hv

theorem once?_effects {layout : List (BlockId × Block)} {sets : Array BlockSets} {q : Progress}
    (h : once? numKeys layout sets = some q) : effects q.sets = effects sets :=
  once?_induction (fun s => effects s = effects sets)
    (fun _ _ _ _ hp hv => (visit?_effects hv).trans hp) rfl h

theorem once?_size {layout : List (BlockId × Block)} {sets : Array BlockSets} {q : Progress}
    (h : once? numKeys layout sets = some q) : q.sets.size = sets.size := by
  rw [← size_effects, once?_effects h, size_effects]

/-- What block `b` sees of the others when it is visited: the blocks after it as they have become,
the others as they were. -/
def SeenFrom (b : BlockId) (now before : Array BlockSets) (s : BlockId) (k : Nat) : Prop :=
  if b.index < s.index then LiveOutAt now s k else LiveOutAt before s k

/-- **One sweep, block by block.** -/
theorem once?_equation {layout : List (BlockId × Block)} {sets : Array BlockSets}
    (hsorted : layout.Pairwise fun x y => x.1.index < y.1.index) :
    ∀ {q : Progress}, once? numKeys layout sets = some q →
      (∀ c k, c ∉ layout.map Prod.fst → (LiveOutAt q.sets c k ↔ LiveOutAt sets c k)) ∧
      ∀ b ∈ layout, ∀ k, LiveOutAt q.sets b.1 k
        ↔ ∃ s ∈ b.2.succs, Enters (effects sets) (SeenFrom b.1 q.sets sets) s k := by
  induction layout with
  | nil =>
    intro q h
    obtain rfl := Option.some.inj h
    exact ⟨fun _ _ _ => Iff.rfl, fun b hb => absurd hb List.not_mem_nil⟩
  | cons b layout ih =>
    intro q h
    obtain ⟨p, hp, hv⟩ := once?_cons.mp h
    obtain ⟨hfirst, hsorted⟩ := List.pairwise_cons.mp hsorted
    obtain ⟨hothers, hvisited⟩ := ih hsorted hp
    have hkeep : ∀ c k, c ≠ b.1 → (LiveOutAt q.sets c k ↔ LiveOutAt p.sets c k) := by
      intro c k hc
      rw [visit?_liveOutAt hv, if_neg hc]
    refine ⟨?_, ?_⟩
    · intro c k hc
      rw [List.map_cons, List.mem_cons, not_or] at hc
      rw [hkeep c k hc.1, hothers c k hc.2]
    · intro c hc k
      rcases List.mem_cons.mp hc with rfl | hc
      · -- the block just visited: a later block stays as it was seen, any other was not visited yet
        rw [visit?_liveOutAt hv, if_pos rfl, once?_effects hp]
        apply exists_enters_congr
        intro s
        unfold SeenFrom
        split
        · rename_i hlater
          exact (hkeep s k fun heq => by rw [heq] at hlater; omega).symm
        · rename_i hlater
          apply hothers
          intro hmem
          obtain ⟨y, hy, rfl⟩ := List.mem_map.mp hmem
          exact hlater (hfirst y hy)
      · -- a block visited before: neither it nor what it saw is touched again
        have hbefore := hfirst c hc
        rw [hkeep c.1 k fun heq => by rw [heq] at hbefore; omega, hvisited c hc k]
        apply exists_enters_congr
        intro s
        unfold SeenFrom
        split
        · rename_i hlater
          exact (hkeep s k fun heq => by rw [heq] at hlater; omega).symm
        · rfl

/-- **A sweep that counts no change has changed nothing.** -/
theorem once?_unchanged {layout : List (BlockId × Block)} {sets : Array BlockSets} :
    ∀ {q : Progress}, once? numKeys layout sets = some q → q.changed = 0 → q = ⟨sets, 0⟩ := by
  induction layout with
  | nil =>
    intro q h _
    exact (Option.some.inj h).symm
  | cons b layout ih =>
    intro q h hzero
    obtain ⟨p, hp, hv⟩ := once?_cons.mp h
    obtain ⟨hle, hsame⟩ := visit?_changed hv
    have hp0 : p.changed = 0 := by omega
    rw [hsame (by omega), ih hp hp0]

/-- So can all blocks in turn. -/
theorem once?_isSome (numKeys : Nat) {layout : List (BlockId × Block)} {sets : Array BlockSets}
    (hrange : ∀ b ∈ layout, b.1.index < sets.size ∧ ∀ s ∈ b.2.succs, s.index < sets.size) :
    ∃ q, once? numKeys layout sets = some q := by
  induction layout with
  | nil => exact ⟨_, rfl⟩
  | cons b layout ih =>
    obtain ⟨p, hp⟩ := ih fun c hc => hrange c (List.mem_cons_of_mem b hc)
    obtain ⟨hb, hsuccs⟩ := hrange b List.mem_cons_self
    rw [← once?_size hp] at hb hsuccs
    obtain ⟨q, hq⟩ := visit?_isSome numKeys hb hsuccs
    exact ⟨q, once?_cons.mpr ⟨p, hp, hq⟩⟩

/-- The sets are at rest: every block of the layout has what enters its successors. -/
def AtRest (layout : List (BlockId × Block)) (sets : Array BlockSets) : Prop :=
  ∀ b ∈ layout, ∀ k, LiveOutAt sets b.1 k
    ↔ ∃ s ∈ b.2.succs, Enters (effects sets) (LiveOutAt sets) s k

/-- **A sweep that starts at rest counts no change.** -/
theorem once?_idle (numKeys : Nat) {layout : List (BlockId × Block)} {sets : Array BlockSets}
    (hrange : ∀ b ∈ layout, b.1.index < sets.size ∧ ∀ s ∈ b.2.succs, s.index < sets.size)
    (hrest : AtRest layout sets) : once? numKeys layout sets = some ⟨sets, 0⟩ := by
  induction layout with
  | nil => rfl
  | cons b layout ih =>
    have hp := ih (fun c hc => hrange c (List.mem_cons_of_mem b hc))
      fun c hc => hrest c (List.mem_cons_of_mem b hc)
    obtain ⟨hb, hsuccs⟩ := hrange b List.mem_cons_self
    exact once?_cons.mpr ⟨_, hp, visit?_idle hb hsuccs (hrest b List.mem_cons_self)⟩

/-- **A sweep that changes nothing finds the sets at rest**: it saw all of them as they are. -/
theorem atRest_of_unchanged {layout : List (BlockId × Block)} {sets : Array BlockSets} {q : Progress}
    (hsorted : layout.Pairwise fun x y => x.1.index < y.1.index)
    (h : once? numKeys layout sets = some q) (hzero : q.changed = 0) : AtRest layout sets := by
  have hq := once?_unchanged h hzero
  subst hq
  intro b hb k
  rw [(once?_equation hsorted h).2 b hb k]
  exact exists_enters_congr fun s => iff_of_eq (ite_self _)

/-! ## A series of sweeps -/

/-- **What a series does with room for one more sweep**: it makes the sweep, and ends there if that
was idle. -/
theorem repeat?_succ {layout : List (BlockId × Block)} {bound : Nat} {series r : Series} :
    repeat? numKeys layout (bound + 1) series = some r ↔
      ∃ q, once? numKeys layout series.sets = some q ∧
        ((q.changed = 0 ∧ r = ⟨q.sets, q.changed :: series.changes, true⟩) ∨
          (q.changed ≠ 0 ∧
            repeat? numKeys layout bound ⟨q.sets, q.changed :: series.changes, false⟩ = some r)) := by
  rw [repeat?]
  cases once? numKeys layout series.sets with
  | none => simp
  | some q =>
    by_cases hzero : q.changed = 0
    · simp [hzero, eq_comm]
    · simp [hzero]

/-- What every sweep keeps, the series keeps. -/
theorem repeat?_induction {layout : List (BlockId × Block)} (P : Array BlockSets → Prop)
    (hsweep : ∀ sets q, P sets → once? numKeys layout sets = some q → P q.sets) :
    ∀ {bound : Nat} {series r : Series}, P series.sets →
      repeat? numKeys layout bound series = some r → P r.sets := by
  intro bound
  induction bound with
  | zero =>
    intro series r hP h
    obtain rfl := Option.some.inj h
    exact hP
  | succ bound ih =>
    intro series r hP h
    obtain ⟨q, hq, ⟨-, rfl⟩ | ⟨-, hrest⟩⟩ := repeat?_succ.mp h
    · exact hsweep _ _ hP hq
    · exact ih (hsweep _ _ hP hq) hrest

theorem repeat?_effects {layout : List (BlockId × Block)} {bound : Nat} {series r : Series}
    (h : repeat? numKeys layout bound series = some r) : effects r.sets = effects series.sets :=
  repeat?_induction (fun sets => effects sets = effects series.sets)
    (fun _ _ hsets hq => (once?_effects hq).trans hsets) rfl h

theorem repeat?_size {layout : List (BlockId × Block)} {bound : Nat} {series r : Series}
    (h : repeat? numKeys layout bound series = some r) : r.sets.size = series.sets.size := by
  rw [← size_effects, repeat?_effects h, size_effects]

/-- **A series that ends stable ends at rest.** -/
theorem repeat?_rests {layout : List (BlockId × Block)}
    (hsorted : layout.Pairwise fun x y => x.1.index < y.1.index) :
    ∀ {bound : Nat} {series r : Series}, series.stable = false →
      repeat? numKeys layout bound series = some r → r.stable = true → AtRest layout r.sets := by
  intro bound
  induction bound with
  | zero =>
    intro series r hunstable h hstable
    obtain rfl := Option.some.inj h
    rw [hunstable] at hstable
    nomatch hstable
  | succ bound ih =>
    intro series r hunstable h hstable
    obtain ⟨q, hq, ⟨hzero, rfl⟩ | ⟨-, hrest⟩⟩ := repeat?_succ.mp h
    · rw [once?_unchanged hq hzero]
      exact atRest_of_unchanged hsorted hq hzero
    · exact ih rfl hrest hstable

end Sweep

end Dataflow
