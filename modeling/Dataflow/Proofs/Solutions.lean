import Dataflow.Proofs.LivenessStates

/-!
# Rest is a solution

Calls on a state may go along the edges of any functions in any order.  What is live at the ends of
blocks may then be left over from edges that are gone: keys need not enter any successor, sweeps
need not only add, and some go round in circles until their number is used up.  So nothing is known
of a state but what its last call says of it, and that is enough.

1. **A sweep and a block agree** (`enters_iff_liveIn`): a sweep joins the sets of the successors one
   after the other, `BlockSets.liveIn` looks at one block alone, and both have the keys that enter.

2. **Rest is a solution** (`solves_iff_atRest`): sets rest along the edges of a function exactly if
   each block has at its end what its successors have at their starts.

3. **A solution stays** (`fixpoint_of_solves`): sets are compared by their members, so a sweep over
   a solution finds every set in place, writes nothing and is the last one under any cap.
-/

namespace Dataflow

namespace Sweep

variable {numKeys : Nat} {layout : List (BlockId × Block)}

/-- **A key enters a block** if it is live at its start. -/
theorem enters_iff_liveIn {sets : Array BlockSets} {s : BlockId} {k : Nat} :
    Enters (effects sets) (LiveOutAt sets) s k ↔ ∃ t, sets[s.index]? = some t ∧ k ∈ t.liveIn := by
  constructor
  · intro h
    have hlt : s.index < sets.size := by
      obtain ⟨e, he, -⟩ := h
      rw [← size_effects]
      exact (Array.getElem?_eq_some_iff.mp he).1
    have ht : sets[s.index]? = some sets[s.index] := Array.getElem?_eq_getElem hlt
    exact ⟨_, ht, (mem_liveIn_iff ht).mpr h⟩
  · rintro ⟨t, ht, hk⟩
    exact (mem_liveIn_iff ht).mp hk

/-- **Sets at rest need one sweep**, however many there is room for. -/
theorem repeat?_of_atRest {sets : Array BlockSets} {bound : Nat} (hbound : 0 < bound)
    (hrange : ∀ b ∈ layout, b.1.index < sets.size ∧ ∀ s ∈ b.2.succs, s.index < sets.size)
    (hrest : AtRest layout sets) :
    repeat? numKeys layout bound { sets := sets } = some ⟨sets, [0], true⟩ := by
  obtain ⟨n, rfl⟩ : ∃ n, bound = n + 1 := ⟨bound - 1, by omega⟩
  exact repeat?_succ.mpr ⟨_, once?_idle numKeys hrange hrest, Or.inl ⟨rfl, rfl⟩⟩

theorem defaultBound_pos (numBlocks numKeys : Nat) : 0 < defaultBound numBlocks numKeys := by
  have hmax : maxCount = 18446744073709551615 := rfl
  unfold defaultBound
  omega

end Sweep

namespace Liveness

open Sweep

variable {g : Func} {l : Liveness} {cap : Option SweepCap}

theorem bound_pos (l : Liveness) (cap : Option SweepCap) : 0 < l.bound cap := by
  cases cap with
  | none => exact defaultBound_pos _ _
  | some cap => exact cap.pos

/-! ## Solutions -/

/-- **The state solves the equations of `g`**: what is live at the end of a block is what is live at
the start of one of its successors. -/
def Solves (g : Func) (l : Liveness) : Prop :=
  ∀ b block, g.blocks[b.index]? = some block → ∃ sets, l.block? b = some sets ∧
    ∀ k, k ∈ sets.liveOut ↔ ∃ s ∈ block.succs, ∃ t, l.block? s = some t ∧ k ∈ t.liveIn

theorem solves_iff_atRest (hsize : l.blocks.size = g.blocks.size) :
    l.Solves g ↔ AtRest g.layout l.blocks := by
  constructor
  · rintro h ⟨b, block⟩ hb k
    obtain ⟨sets, hsets, hlive⟩ := h b block (Func.mem_layout.mp hb)
    rw [liveOutAt_iff hsets, hlive k]
    simp only [enters_iff_liveIn]
    rfl
  · intro h b block hblock
    have hlt : b.index < l.blocks.size := by
      rw [hsize]
      exact (Array.getElem?_eq_some_iff.mp hblock).1
    have hsets : l.block? b = some l.blocks[b.index] := Array.getElem?_eq_getElem hlt
    refine ⟨_, hsets, fun k => ?_⟩
    rw [← liveOutAt_iff hsets, h (b, block) (Func.mem_layout.mpr hblock) k]
    simp only [enters_iff_liveIn]
    rfl

/-- **A call that comes to rest leaves a solution**, and was on a sound function with the right
number of blocks. -/
theorem solves_of_fixpoint {n : Nat} (hok : (l.fixpoint g cap).1 = .ok n) :
    g.Sound ∧ (l.fixpoint g cap).2.blocks.size = g.blocks.size ∧ (l.fixpoint g cap).2.Solves g := by
  rcases fixpoint_cases l g cap with ⟨d, -, hcall⟩ | ⟨-, -, hcall⟩ | ⟨hs, hsize, s, hseries, hcall⟩
  · rw [hcall] at hok
    nomatch hok
  · rw [hcall] at hok
    nomatch hok
  · rw [hcall] at hok ⊢
    have hkept : (l.after s).blocks.size = g.blocks.size := (repeat?_size hseries).trans hsize
    refine ⟨hs, hkept, (solves_iff_atRest hkept).mpr ?_⟩
    exact repeat?_rests g.layout_sorted rfl hseries (verdict_eq_ok.mp hok).1

/-- **A call on a solution** makes one sweep and leaves the sets alone. -/
theorem fixpoint_of_solves (hs : g.Sound) (hsize : l.blocks.size = g.blocks.size) (h : l.Solves g)
    (cap : Option SweepCap) : l.fixpoint g cap = (.ok 1, { l with sweeps := 1 }) := by
  have hseries : l.series? g cap = some ⟨l.blocks, [0], true⟩ :=
    repeat?_of_atRest (l.bound_pos cap) (hs.layout_in_range hsize) ((solves_iff_atRest hsize).mp h)
  rw [fixpoint_of_series hs hsize hseries]
  rfl

/-- A call that fails, but not for want of sweeps, leaves the state alone. -/
theorem fixpoint_of_refused {failure : Failure}
    (hfail : (l.fixpoint g cap).1 = .error (.failed failure))
    (hsweeps : ∀ name n, failure ≠ .diverged name n) : (l.fixpoint g cap).2 = l := by
  rcases fixpoint_cases l g cap with ⟨d, -, hcall⟩ | ⟨-, -, hcall⟩ | ⟨-, -, s, -, hcall⟩
  · rw [hcall]
  · rw [hcall]
  · rw [hcall] at hfail
    cases hstable : s.stable with
    | true =>
      rw [verdict_eq_ok.mpr ⟨hstable, rfl⟩] at hfail
      nomatch hfail
    | false =>
      rw [verdict_of_unstable hstable] at hfail
      obtain rfl := Halt.failed.inj (Except.error.inj hfail)
      exact absurd rfl (hsweeps _ _)

/-! ## The headline -/

/-- **A call that comes to rest leaves a solution, and a call that is refused leaves everything.**
Take any state at all, so whatever calls have led to it, along edges that come and go, whether they
came to rest, gave up or were refused; and make a call on any function under any cap.

1. If it comes to rest, what is live at the end of each block of the function is what is live at the
   start of one of its successors, and a second call on the same function, under whatever cap, makes
   a single sweep and changes no set.
2. If it is refused, because the function is not sound or has another number of blocks, the state is
   the same as before. -/
theorem rest_is_solution (l : Liveness) (g : Func) (cap : Option SweepCap) :
    (∀ n, (l.fixpoint g cap).1 = .ok n →
      (l.fixpoint g cap).2.Solves g ∧
      ∀ again : Option SweepCap, (l.fixpoint g cap).2.fixpoint g again
        = (.ok 1, { (l.fixpoint g cap).2 with sweeps := 1 })) ∧
    (∀ name d, (l.fixpoint g cap).1 = .error (.failed (.invalid name d)) → (l.fixpoint g cap).2 = l) ∧
    ∀ name expected found,
      (l.fixpoint g cap).1 = .error (.failed (.blockCount name expected found)) →
        (l.fixpoint g cap).2 = l := by
  refine ⟨fun n hok => ?_, fun name d hfail => ?_, fun name expected found hfail => ?_⟩
  · obtain ⟨hs, hsize, hsolves⟩ := solves_of_fixpoint hok
    exact ⟨hsolves, fixpoint_of_solves hs hsize hsolves⟩
  · exact fixpoint_of_refused hfail nofun
  · exact fixpoint_of_refused hfail nofun

/-- A slot that is read in the last block, to which only the first leads. -/
def shortcut : Func where
  name := "shortcut"
  values := #[.slot "x", .result ⟨0⟩]
  insts := #[⟨.load ⟨0⟩, some ⟨1⟩⟩]
  blocks := #[⟨[], [⟨3⟩]⟩, ⟨[], []⟩, ⟨[], []⟩, ⟨[⟨0⟩], []⟩]

/-- The blocks of `shortcut`, of which the first three are in a ring and the last is on its own. -/
def carousel : Func :=
  { shortcut with
    name := "carousel"
    blocks := #[⟨[], [⟨2⟩]⟩, ⟨[], [⟨0⟩]⟩, ⟨[], [⟨1⟩]⟩, ⟨[⟨0⟩], []⟩] }

/-- The slot that is live in `shortcut` goes round and round in `carousel`, where no block reads it,
until the sweeps are used up.  Back in `shortcut` what is left over is gone after one sweep. -/
theorem carousel_rest_is_solution :
    ∃ l l₁ l₂, (compute (.of .name shortcut) shortcut none).outcome = .ok l ∧
      l.fixpoint carousel none = (.error (.failed (.diverged "carousel" 5)), l₁) ∧
      Reachable (.of .name shortcut) l₁ ∧
      l₁.fixpoint shortcut none = (.ok 2, l₂) ∧ l₂.Solves shortcut ∧
      l₂.fixpoint shortcut (some ⟨1, by decide, by decide⟩) = (.ok 1, { l₂ with sweeps := 1 }) ∧
      (l₁.fixpoint countdown none).1 = .error (.failed (.blockCount "countdown" 4 3)) ∧
      (l₁.fixpoint countdown none).2 = l₁ := by
  obtain ⟨l, l₁, l₂, hl, hround, hback, hcount⟩ : ∃ l l₁ l₂,
      (compute (.of .name shortcut) shortcut none).outcome = .ok l ∧
      l.fixpoint carousel none = (.error (.failed (.diverged "carousel" 5)), l₁) ∧
      l₁.fixpoint shortcut none = (.ok 2, l₂) ∧
      (l₁.fixpoint countdown none).1 = .error (.failed (.blockCount "countdown" 4 3)) :=
    ⟨_, _, _, rfl, rfl, rfl, rfl⟩
  have hreachable := (Reachable.compute hl).fixpoint carousel none
  rw [hround] at hreachable
  obtain ⟨hrests, -, -⟩ := rest_is_solution l₁ shortcut none
  rw [hback] at hrests
  obtain ⟨hsolves, hagain⟩ := hrests 2 rfl
  obtain ⟨-, -, hrefused⟩ := rest_is_solution l₁ countdown none
  exact ⟨l, l₁, l₂, hl, hround, hreachable, hback, hsolves, hagain _, hcount, hrefused _ _ _ hcount⟩

end Liveness

end Dataflow
