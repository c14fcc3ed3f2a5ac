import Dataflow.Proofs.Keys
import Dataflow.Proofs.LivePaths
import Mathlib.Data.List.Nodup
import Mathlib.Data.List.Perm.Subperm

/-!
# How many sweeps it takes

A sweep visits the last block first, so along an edge to a later block a key travels within the same
sweep, and along an edge to the same or an earlier block, a *retreating* edge, it has to wait for
the next one.

1. **Sweeps against retreats** (`Within.once`): after `j` sweeps a block has every key that some
   path brings to it over fewer than `j` retreating edges.

2. **Short paths are enough** (`Carries.exists_nodup`): a path that comes back to a block may leave
   out the loop, so only the retreating edges on paths without repetition count
   (`Func.RetreatsAtMost`), and these are fewer than the blocks.

3. **Coming to rest** (`comes_to_rest`): once no path is missing, the sets are at rest and the next
   sweep counts no change.

So if no path has more than `d` retreating edges, `d + 1` sweeps bring everything in and one more
notices.  As many as there are blocks, and one more, are enough in any case, whatever the number of
keys; and if there are no keys at all the first sweep finds nothing to do.  Both are within the
default bound.
-/

namespace Dataflow

/-! ## Paths that carry a key backward -/

namespace KeySpace

/-- A path that key `k` travels back along: from a block that reads it first, through blocks that
leave it alone, to the end of the first block.  The block that reads it is not listed. -/
inductive Carries (keys : KeySpace) (f : Func) (k : Nat) : List BlockId → Prop where
  | last {b s : BlockId} (hedge : f.Edge b s) (hread : keys.ReadsFirst f k (f.instsOf s)) :
      Carries keys f k [b]
  | step {b s : BlockId} {rest : List BlockId} (hedge : f.Edge b s)
      (hspares : keys.Spares f k (f.instsOf s)) (htail : Carries keys f k (s :: rest)) :
      Carries keys f k (b :: s :: rest)

section

variable {keys : KeySpace} {f : Func} {k : Nat}

theorem exists_carries_of_liveAfter {b : BlockId} (h : keys.LiveAfter f b k) :
    ∃ rest, keys.Carries f k (b :: rest) := by
  obtain ⟨s, hedge, hlive⟩ := h
  have hback : ∀ b, f.Edge b s → ∃ rest, keys.Carries f k (b :: rest) := by
    refine LiveFrom.induct (P := fun s => ∀ b, f.Edge b s → ∃ rest, keys.Carries f k (b :: rest))
      ?_ ?_ hlive
    · intro s hread b hedge
      exact ⟨[], .last hedge hread⟩
    · intro s t hspares hst _ ih b hedge
      obtain ⟨rest, hrest⟩ := ih s hst
      exact ⟨s :: rest, .step hedge hspares hrest⟩
  exact hback b hedge

theorem Carries.head_lt_size {b : BlockId} {rest : List BlockId} (h : keys.Carries f k (b :: rest)) :
    b.index < f.blocks.size := by
  cases h with
  | last hedge _ => exact hedge.lt_size
  | step hedge _ _ => exact hedge.lt_size

/-- Part of a path, from any of its blocks on. -/
theorem Carries.suffix {b : BlockId} {rest : List BlockId} :
    ∀ {init : List BlockId}, keys.Carries f k (init ++ b :: rest) → keys.Carries f k (b :: rest) := by
  intro init
  induction init with
  | nil => exact id
  | cons c init ih =>
    intro h
    apply ih
    cases init with
    | nil =>
      cases h with
      | step _ _ htail => exact htail
    | cons d init =>
      cases h with
      | step _ _ htail => exact htail

theorem Carries.isChain {path : List BlockId} (h : keys.Carries f k path) : path.IsChain f.Edge := by
  induction h with
  | last _ _ => exact .singleton _
  | step hedge _ _ ih => exact List.isChain_cons_cons.mpr ⟨hedge, ih⟩

/-- **A loop may be left out.** -/
theorem Carries.exists_nodup {b : BlockId} {rest : List BlockId} (h : keys.Carries f k (b :: rest)) :
    ∃ rest', keys.Carries f k (b :: rest') ∧ (b :: rest').Nodup := by
  generalize hpath : b :: rest = path at h
  induction h generalizing b rest with
  | last hedge hread =>
    obtain ⟨rfl, rfl⟩ := List.cons.inj hpath
    exact ⟨[], .last hedge hread, List.nodup_singleton b⟩
  | step hedge hspares htail ih =>
    obtain ⟨rfl, rfl⟩ := List.cons.inj hpath
    obtain ⟨rest', hcarries, hnodup⟩ := ih rfl
    rename_i s rest
    by_cases hmem : b ∈ s :: rest'
    · -- the shortened path comes through `b` again: start there
      obtain ⟨init, tail, hsplit⟩ := List.append_of_mem hmem
      rw [hsplit] at hcarries hnodup
      exact ⟨tail, hcarries.suffix, (List.nodup_append.mp hnodup).2.1⟩
    · exact ⟨s :: rest', .step hedge hspares hcarries, List.nodup_cons.mpr ⟨hmem, hnodup⟩⟩

end

end KeySpace

/-! ## Retreating edges -/

/-- The number of retreating edges on a path. -/
def retreats : List BlockId → Nat
  | b :: s :: rest => (if s.index ≤ b.index then 1 else 0) + retreats (s :: rest)
  | _ => 0

theorem retreats_lt_length (b : BlockId) (rest : List BlockId) :
    retreats (b :: rest) < (b :: rest).length := by
  induction rest generalizing b with
  | nil => exact Nat.zero_lt_one
  | cons s rest ih =>
    have htail := ih s
    unfold retreats
    rw [List.length_cons]
    split <;> omega

/-- In a sound function a path without repetition is no longer than the layout. -/
theorem Func.Sound.length_le_of_nodup {f : Func} (hs : f.Sound) {b : BlockId} {rest : List BlockId}
    (hb : b.index < f.blocks.size) (hchain : (b :: rest).IsChain f.Edge) (hnodup : (b :: rest).Nodup) :
    (b :: rest).length ≤ f.blocks.size := by
  have hrange : ∀ c ∈ b :: rest, c.index < f.blocks.size := by
    induction rest generalizing b with
    | nil =>
      intro c hc
      rw [List.mem_singleton.mp hc]
      exact hb
    | cons s rest ih =>
      obtain ⟨⟨block, hblock, hsucc⟩, htail⟩ := List.isChain_cons_cons.mp hchain
      have hs_lt : s.index < f.blocks.size :=
        hs.succs block (Array.mem_of_getElem? hblock) s hsucc
      intro c hc
      rcases List.mem_cons.mp hc with rfl | hc
      · exact hb
      · exact ih hs_lt htail (List.nodup_cons.mp hnodup).2 c hc
  have hindices : ((b :: rest).map BlockId.index).Nodup :=
    hnodup.map fun x y hxy => congrArg BlockId.mk hxy
  have hsubset : (b :: rest).map BlockId.index ⊆ List.range f.blocks.size := by
    intro n hn
    obtain ⟨c, hc, rfl⟩ := List.mem_map.mp hn
    exact List.mem_range.mpr (hrange c hc)
  have hlen := (List.subperm_of_subset hindices hsubset).length_le
  simpa using hlen

/-- No path without repetition through `f` has more than `d` retreating edges. -/
def Func.RetreatsAtMost (f : Func) (d : Nat) : Prop :=
  ∀ path : List BlockId, path.IsChain f.Edge → path.Nodup → retreats path ≤ d

/-- In a sound function such a path has fewer edges than there are blocks. -/
theorem Func.Sound.retreatsAtMost {f : Func} (hs : f.Sound) : f.RetreatsAtMost (f.blocks.size - 1) := by
  intro path hchain hnodup
  match path with
  | [] => exact Nat.zero_le _
  | [b] => exact Nat.zero_le _
  | b :: s :: rest =>
    obtain ⟨hedge, -⟩ := List.isChain_cons_cons.mp hchain
    have hlength := hs.length_le_of_nodup hedge.lt_size hchain hnodup
    have hretreats := retreats_lt_length b (s :: rest)
    omega

/-- Where every edge leads to a later block, no path has a retreating edge. -/
theorem Func.retreatsAtMost_zero {f : Func} (hforward : ∀ b s, f.Edge b s → b.index < s.index) :
    f.RetreatsAtMost 0 := by
  have hnone : ∀ path : List BlockId, path.IsChain f.Edge → retreats path = 0 := by
    intro path
    induction path with
    | nil => exact fun _ => rfl
    | cons b rest ih =>
      intro hchain
      cases rest with
      | nil => rfl
      | cons s rest =>
        obtain ⟨hedge, htail⟩ := List.isChain_cons_cons.mp hchain
        have hlater := hforward b s hedge
        unfold retreats
        rw [if_neg (by omega), ih htail]
  intro path hchain _
  exact Nat.le_of_eq (hnone path hchain)

/-! ## Coming to rest -/

namespace Liveness

open Sweep

section

variable {keys : KeySpace} {f : Func} {l₀ : Liveness}

/-- No key is missing that has to cross fewer than `j` retreating edges. -/
def Within (keys : KeySpace) (f : Func) (j : Nat) (sets : Array BlockSets) : Prop :=
  ∀ k b rest, keys.Carries f k (b :: rest) → retreats (b :: rest) < j → LiveOutAt sets b k

/-- **A sweep takes every key across one more retreating edge.** -/
theorem Within.once {numKeys j : Nat} {sets : Array BlockSets} {q : Progress}
    (hstart : start? keys f = some l₀) (heffects : effects sets = effects l₀.blocks)
    (hj : Within keys f j sets) (h : once? numKeys f.layout sets = some q) :
    Within keys f (j + 1) q.sets := by
  have hequation := (once?_equation f.layout_sorted h).2
  rw [heffects] at hequation
  intro k b rest hcarries
  generalize hpath : b :: rest = path at hcarries
  induction hcarries generalizing b rest with
  | last hedge hread =>
    obtain ⟨rfl, rfl⟩ := List.cons.inj hpath
    obtain ⟨block, hblock, hsucc⟩ := hedge
    intro _
    exact (hequation (b, block) (Func.mem_layout.mpr hblock) k).mpr
      ⟨_, hsucc, (enters_start hstart hread.lt_size).mpr (Or.inl hread)⟩
  | step hedge hspares htail ih =>
    obtain ⟨rfl, rfl⟩ := List.cons.inj hpath
    rename_i s rest
    obtain ⟨block, hblock, hsucc⟩ := hedge
    intro hretreats
    unfold retreats at hretreats
    -- the successor has the key: from this sweep if it is later, from the one before if not
    have hseen : SeenFrom b q.sets sets s k := by
      unfold SeenFrom
      split
      · exact ih s rest rfl (by omega)
      · rename_i hlater
        rw [if_pos (by omega)] at hretreats
        exact hj k s rest htail (by omega)
    exact (hequation (b, block) (Func.mem_layout.mpr hblock) k).mpr
      ⟨s, hsucc, (enters_start hstart htail.head_lt_size).mpr (Or.inr ⟨hseen, hspares⟩)⟩

/-- **With every path accounted for, the sets are at rest.** -/
theorem Grounded.atRest {sets : Array BlockSets} (hstart : start? keys f = some l₀)
    (hg : Grounded keys f (effects l₀.blocks) sets)
    (hall : ∀ b k, keys.LiveAfter f b k → LiveOutAt sets b k) : AtRest f.layout sets := by
  rintro ⟨b, block⟩ hb k
  have hblock := Func.mem_layout.mp hb
  have hsame : ∀ s, LiveOutAt sets s k ↔ keys.LiveAfter f s k := fun s => ⟨hg.2 s k, hall s k⟩
  rw [exists_enters_congr hsame, hsame, hg.1]
  constructor
  · rintro ⟨s, ⟨block', hblock', hs⟩, hlive⟩
    obtain rfl := Option.some.inj (hblock.symm.trans hblock')
    exact ⟨s, hs, (enters_liveAfter hstart hlive.lt_size).mpr hlive⟩
  · rintro ⟨s, hs, henters⟩
    exact ⟨s, ⟨block, hblock, hs⟩,
      (enters_liveAfter hstart (lt_size_of_enters hstart henters)).mp henters⟩

/-- The blocks of a sound function and their successors have their place in its state. -/
theorem Grounded.in_range {sets : Array BlockSets} (hs : f.Sound) (hstart : start? keys f = some l₀)
    (hg : Grounded keys f (effects l₀.blocks) sets) :
    ∀ b ∈ f.layout, b.1.index < sets.size ∧ ∀ s ∈ b.2.succs, s.index < sets.size := by
  have hsize : sets.size = f.blocks.size := by
    rw [← size_effects, hg.1, size_effects, (start?_spec hstart).2.1]
  exact hs.layout_in_range hsize

/-- **Coming to rest**: if `m` sweeps from the start leave no path out, any bound above `m` is
enough, and no more than `m + 1` sweeps are made. -/
theorem comes_to_rest {numKeys m : Nat} (hs : f.Sound) (hstart : start? keys f = some l₀)
    (hall : ∀ sets, Within keys f m sets → ∀ b k, keys.LiveAfter f b k → LiveOutAt sets b k) :
    ∀ (bound j : Nat) (series : Series), Grounded keys f (effects l₀.blocks) series.sets →
      Within keys f j series.sets → j ≤ m → m < j + bound →
      ∃ r, repeat? numKeys f.layout bound series = some r ∧ r.stable = true ∧
        r.changes.length + j ≤ series.changes.length + m + 1 := by
  intro bound
  induction bound with
  | zero =>
    intro j series _ _ hjm hbound
    omega
  | succ bound ih =>
    intro j series hg hwithin hjm hbound
    have hrange := hg.in_range hs hstart
    obtain ⟨q, hq⟩ := once?_isSome numKeys hrange
    by_cases hchanged : q.changed = 0
    · refine ⟨_, repeat?_succ.mpr ⟨q, hq, Or.inl ⟨hchanged, rfl⟩⟩, rfl, ?_⟩
      simp only [List.length_cons]
      omega
    · -- with all paths in, the sweep would have counted no change
      have hlt : j < m := by
        rcases Nat.lt_or_ge j m with hlt | hge
        · exact hlt
        · have hjeq : j = m := by omega
          subst hjeq
          have hidle := once?_idle numKeys hrange (hg.atRest hstart (hall _ hwithin))
          rw [hq] at hidle
          exact absurd (congrArg Progress.changed (Option.some.inj hidle)) hchanged
      obtain ⟨r, hr, hstable, hlen⟩ := ih (j + 1) ⟨q.sets, q.changed :: series.changes, false⟩
        (hg.once hstart hq) (hwithin.once hstart hg.1 hq) hlt (by omega)
      refine ⟨r, repeat?_succ.mpr ⟨q, hq, Or.inr ⟨hchanged, hr⟩⟩, hstable, ?_⟩
      simp only [List.length_cons] at hlen
      omega

/-- A run with room for `m + 1` sweeps answers, if `m` of them leave no path out. -/
theorem compute_within {cap : Option SweepCap} {m : Nat} (hs : f.Sound)
    (hstart : start? keys f = some l₀) (hbound : m < l₀.bound cap)
    (hall : ∀ sets, Within keys f m sets → ∀ b k, keys.LiveAfter f b k → LiveOutAt sets b k) :
    ∃ l, (compute keys f cap).outcome = .ok l ∧ l.sweeps ≤ m + 1 := by
  have hzero : Within keys f 0 l₀.blocks := fun _ _ _ _ h => absurd h (Nat.not_lt_zero _)
  obtain ⟨r, hr, hstable, hlen⟩ := comes_to_rest hs hstart hall (l₀.bound cap) 0 { sets := l₀.blocks }
    (grounded_start hstart) hzero (Nat.zero_le m) (by omega)
  refine ⟨l₀.after r, compute_eq_ok.mpr ⟨hs, l₀, r, hstart, hr, hstable, rfl⟩, ?_⟩
  show r.changes.length ≤ m + 1
  simpa using hlen

end

/-! ## The headline -/

/-- One sweep more than there are retreating edges on a path leaves no path out. -/
theorem liveOutAt_of_within {keys : KeySpace} {f : Func} {d : Nat} (hd : f.RetreatsAtMost d)
    {sets : Array BlockSets} (h : Within keys f (d + 1) sets) (b : BlockId) (k : Nat)
    (hlive : keys.LiveAfter f b k) : LiveOutAt sets b k := by
  obtain ⟨rest, hcarries⟩ := KeySpace.exists_carries_of_liveAfter hlive
  obtain ⟨rest, hcarries, hnodup⟩ := hcarries.exists_nodup
  have hretreats := hd (b :: rest) hcarries.isChain hnodup
  exact h k b rest hcarries (by omega)

/-- As many sweeps as blocks leave no path out. -/
theorem liveOutAt_of_within_size {keys : KeySpace} {f : Func} (hs : f.Sound) {sets : Array BlockSets}
    (h : Within keys f f.blocks.size sets) (b : BlockId) (k : Nat) (hlive : keys.LiveAfter f b k) :
    LiveOutAt sets b k := by
  have hsize : f.blocks.size - 1 + 1 = f.blocks.size := by
    have hpos := hs.nonempty
    omega
  exact liveOutAt_of_within hs.retreatsAtMost (hsize ▸ h) b k hlive

/-- Without keys nothing is ever live. -/
theorem not_liveAfter_of_no_keys {identity : Identity} {g f : Func} (hs : f.Sound)
    (hsize : (KeySpace.of identity g).size f = 0) (b : BlockId) (k : Nat) :
    ¬ (KeySpace.of identity g).LiveAfter f b k := by
  rintro ⟨s, -, path, last, before, i, after, -, -, hinsts, hreads, -⟩
  have hi : i ∈ f.instsOf last := by simp [hinsts]
  obtain ⟨block, hblock, hi⟩ := Func.mem_instsOf.mp hi
  have hlt := KeySpace.lt_size_of_reads identity g hs (Func.mem_layout.mp hblock) hi hreads
  omega

/-- The default bound has room for sweeps that leave no path out, as many as the product of blocks
and keys, and for one more. -/
theorem exists_lt_defaultBound (identity : Identity) (g : Func) {f : Func} (hs : f.Sound)
    (hroom : f.blocks.size < maxCount) :
    ∃ m < defaultBound f.blocks.size ((KeySpace.of identity g).size f),
      m ≤ f.blocks.size * (KeySpace.of identity g).size f ∧ ∀ sets,
        Within (.of identity g) f m sets → ∀ b k, (KeySpace.of identity g).LiveAfter f b k →
          LiveOutAt sets b k := by
  unfold defaultBound
  rcases Nat.eq_zero_or_pos ((KeySpace.of identity g).size f) with hzero | hpos
  · -- no keys: nothing is missing from the start
    have hmax : 0 < maxCount := by decide
    refine ⟨0, by rw [hzero]; omega, Nat.zero_le _, fun _ _ b k hlive => ?_⟩
    exact absurd hlive (not_liveAfter_of_no_keys hs hzero b k)
  · -- a key or more: the number of blocks is below the product, and below the largest count
    have hproduct : f.blocks.size ≤ f.blocks.size * (KeySpace.of identity g).size f :=
      Nat.le_mul_of_pos_right _ hpos
    exact ⟨f.blocks.size, by omega, hproduct,
      fun _ hwithin b k hlive => liveOutAt_of_within_size hs hwithin b k hlive⟩

/-- A run without a cap answers. -/
theorem exists_compute (identity : Identity) (g : Func) {f : Func} (hs : f.Sound)
    (hroom : f.blocks.size < maxCount) : ∃ l, (compute (.of identity g) f none).outcome = .ok l := by
  obtain ⟨l₀, hstart⟩ := start?_isSome (.of identity g) hs
  obtain ⟨m, hm, -, hall⟩ := exists_lt_defaultBound identity g hs hroom
  obtain ⟨hnumKeys, hnumBlocks, -⟩ := start?_spec hstart
  rw [← hnumKeys, ← hnumBlocks] at hm
  obtain ⟨l, hl, -⟩ := compute_within hs hstart (show m < l₀.bound none from hm) hall
  exact ⟨l, hl⟩

/-- **The default bound is always enough.**  On every function that validates, liveness without a
cap answers, within `blocks * keys + 1` sweeps: over values, and over the names of any function.
The number of blocks has to be a count itself, with one to spare, as that of any table held in
memory is; the product need not be one. -/
theorem default_bound_suffices (identity : Identity) (g f : Func) (hvalid : f.validate = .ok ())
    (hroom : f.blocks.size < maxCount) :
    ∃ l, (compute (.of identity g) f none).outcome = .ok l ∧
      l.sweeps ≤ f.blocks.size * (KeySpace.of identity g).size f + 1 := by
  have hs : f.Sound := f.validate_eq_ok_iff.mp hvalid
  obtain ⟨l₀, hstart⟩ := start?_isSome (.of identity g) hs
  obtain ⟨m, hm, hproduct, hall⟩ := exists_lt_defaultBound identity g hs hroom
  obtain ⟨hnumKeys, hnumBlocks, -⟩ := start?_spec hstart
  rw [← hnumKeys, ← hnumBlocks] at hm
  obtain ⟨l, hl, hsweeps⟩ := compute_within hs hstart (show m < l₀.bound none from hm) hall
  exact ⟨l, hl, by omega⟩

/-- The loop of `countdown`, with the names of another function for keys. -/
theorem countdown_default_bound_suffices :
    countdown.validate = .ok () ∧ countdown.blocks.size < maxCount ∧
      ∃ l, (compute (.of .name threeSlots) countdown none).outcome = .ok l ∧
        l.sweeps ≤ countdown.blocks.size * (KeySpace.of .name threeSlots).size countdown + 1 :=
  ⟨rfl, by decide, default_bound_suffices .name threeSlots countdown rfl (by decide)⟩

/-- Liveness answers, after no more than `m` sweeps. -/
def RestsWithin (keys : KeySpace) (f : Func) (cap : Option SweepCap) (m : Nat) : Prop :=
  ∃ l, (compute keys f cap).outcome = .ok l ∧ l.sweeps ≤ m

theorem restsWithin_of_retreats {identity : Identity} {g f : Func} {cap : Option SweepCap} {d : Nat}
    (hs : f.Sound) (hroom : f.blocks.size < maxCount) (hd : f.RetreatsAtMost d)
    (hcap : ∀ c ∈ cap, d + 2 ≤ c.count) : RestsWithin (.of identity g) f cap (d + 2) := by
  obtain ⟨l₀, hstart⟩ := start?_isSome (.of identity g) hs
  rcases Nat.lt_or_ge (d + 1) (l₀.bound cap) with hlt | hge
  · exact compute_within hs hstart hlt fun _ hwithin => liveOutAt_of_within hd hwithin
  · cases cap with
    | some c =>
      have hle : d + 2 ≤ l₀.bound (some c) := hcap c rfl
      omega
    | none =>
      -- the default bound is below what the retreating edges ask for, and is enough all the same
      obtain ⟨m, hm, -, hall⟩ := exists_lt_defaultBound identity g hs hroom
      obtain ⟨hnumKeys, hnumBlocks, -⟩ := start?_spec hstart
      rw [← hnumKeys, ← hnumBlocks] at hm
      have hbound : m < l₀.bound none := hm
      obtain ⟨l, hl, hsweeps⟩ := compute_within hs hstart hbound hall
      exact ⟨l, hl, by omega⟩

/-- **Retreating edges govern the number of sweeps.**  Take any function that validates, values or
the names of any function for keys, and no cap or one with room for as many sweeps as are spoken of.

1. If no path without repetition has more than `d` retreating edges, liveness answers after at most
   `d + 2` sweeps.
2. So two are enough if every edge leads to a later block of the layout,
3. and one more than there are blocks is always enough, whatever the number of keys.

As for the default bound, the number of blocks has to be a count with one to spare. -/
theorem retreats_bound_sweeps (identity : Identity) (g f : Func) (hvalid : f.validate = .ok ())
    (hroom : f.blocks.size < maxCount) (cap : Option SweepCap) :
    (∀ d, f.RetreatsAtMost d → (∀ c ∈ cap, d + 2 ≤ c.count) →
      RestsWithin (.of identity g) f cap (d + 2)) ∧
    ((∀ b s, f.Edge b s → b.index < s.index) → (∀ c ∈ cap, 2 ≤ c.count) →
      RestsWithin (.of identity g) f cap 2) ∧
    ((∀ c ∈ cap, f.blocks.size + 1 ≤ c.count) →
      RestsWithin (.of identity g) f cap (f.blocks.size + 1)) := by
  have hs : f.Sound := f.validate_eq_ok_iff.mp hvalid
  refine ⟨fun d hd hcap => restsWithin_of_retreats hs hroom hd hcap,
    fun hforward hcap => ?_, fun hcap => ?_⟩
  · exact restsWithin_of_retreats hs hroom (Func.retreatsAtMost_zero hforward) hcap
  · have hsize : f.blocks.size - 1 + 2 = f.blocks.size + 1 := by
      have hpos := hs.nonempty
      omega
    rw [← hsize] at hcap ⊢
    exact restsWithin_of_retreats hs hroom hs.retreatsAtMost hcap

/-- A slot that is read in the last block, to which the second leads by way of the first. -/
def zigzag : Func where
  name := "zigzag"
  values := #[.slot "x", .result ⟨0⟩]
  insts := #[⟨.load ⟨0⟩, some ⟨1⟩⟩]
  blocks := #[⟨[], [⟨2⟩]⟩, ⟨[], [⟨0⟩]⟩, ⟨[⟨0⟩], []⟩]

theorem edge_zigzag {b s : BlockId} (h : zigzag.Edge b s) :
    (b = ⟨0⟩ ∧ s = ⟨2⟩) ∨ (b = ⟨1⟩ ∧ s = ⟨0⟩) := by
  obtain ⟨n⟩ := b
  obtain ⟨block, hblock, hs⟩ := h
  match n, hblock with
  | 0, hblock =>
    obtain rfl := Option.some.inj hblock
    exact Or.inl ⟨rfl, List.mem_singleton.mp hs⟩
  | 1, hblock =>
    obtain rfl := Option.some.inj hblock
    exact Or.inr ⟨rfl, List.mem_singleton.mp hs⟩
  | 2, hblock =>
    obtain rfl := Option.some.inj hblock
    nomatch hs

/-- Only the second block has a retreating edge, and no path comes to it. -/
theorem retreatsAtMost_zigzag : zigzag.RetreatsAtMost 1 := by
  have hfrom : ∀ (rest : List BlockId) (b : BlockId), (b :: rest).IsChain zigzag.Edge →
      retreats (b :: rest) ≤ if b = ⟨1⟩ then 1 else 0 := by
    intro rest
    induction rest with
    | nil => exact fun _ _ => Nat.zero_le _
    | cons s rest ih =>
      intro b hchain
      obtain ⟨hedge, htail⟩ := List.isChain_cons_cons.mp hchain
      have hrest := ih s htail
      rcases edge_zigzag hedge with ⟨rfl, rfl⟩ | ⟨rfl, rfl⟩
      · show 0 + retreats (⟨2⟩ :: rest) ≤ 0
        rw [if_neg (by decide)] at hrest
        omega
      · show 1 + retreats (⟨0⟩ :: rest) ≤ 1
        rw [if_neg (by decide)] at hrest
        omega
  intro path hchain _
  cases path with
  | nil => exact Nat.zero_le 1
  | cons b rest =>
    have hle := hfrom rest b hchain
    split at hle
    · exact hle
    · omega

/-- The one retreating edge on the path of `zigzag` costs a sweep: two are not enough. -/
theorem zigzag_retreats_bound_sweeps :
    zigzag.validate = .ok () ∧ zigzag.blocks.size < maxCount ∧ zigzag.RetreatsAtMost 1 ∧
      RestsWithin (.of .name zigzag) zigzag (some ⟨3, by decide, by decide⟩) 3 ∧
      RestsWithin (.of .name zigzag) zigzag none 3 ∧
        ¬ RestsWithin (.of .name zigzag) zigzag none 2 := by
  have hcapped := (retreats_bound_sweeps .name zigzag zigzag rfl (by decide)
    (some ⟨3, by decide, by decide⟩)).1 1 retreatsAtMost_zigzag
  have huncapped := (retreats_bound_sweeps .name zigzag zigzag rfl (by decide) none).1 1
    retreatsAtMost_zigzag
  refine ⟨rfl, by decide, retreatsAtMost_zigzag, hcapped ?_, huncapped ?_, ?_⟩
  · intro c hc
    obtain rfl := Option.some.inj hc
    decide
  · intro c hc
    nomatch hc
  · rintro ⟨l, hl, hsweeps⟩
    have hrun : (compute (.of .name zigzag) zigzag none).outcome = .ok _ := rfl
    obtain rfl := Except.ok.inj (hrun.symm.trans hl)
    exact absurd hsweeps (by decide)

end Liveness

end Dataflow
