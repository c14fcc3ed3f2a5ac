import Dataflow.Proofs.Convergence
import Dataflow.Proofs.LivenessStates

/-!
# What a cap on sweeps does

A cap says how many sweeps a call may make, and that is all it does: the sweeps are the same under
every cap, only there may be fewer of them.

1. **Counting** (`repeat?_length`): a series that comes to rest has made at least one sweep, and one
   that does not has made all that it had room for.

2. **Cutting** (`repeat?_add`): room for `m + n` sweeps is room for `m` and then, unless the sets
   rest by then, for `n` more.  So a series that comes to rest is found again under any room at
   least as large as the number of its sweeps, and under any smaller room there is a part of it with
   the rest still to be made (`repeat?_cut`).

3. **Going on** (`repeat?_resume`): a series does not look at what was counted before it, so a new
   call picks up exactly where the last one gave up, and has room enough for what is left.
-/

namespace Dataflow

namespace Sweep

variable {numKeys : Nat} {layout : List (BlockId × Block)}

/-! ## Counting -/

/-- **How many sweeps a series makes**: at least one and no more than it has room for if it comes to
rest, and all that it has room for if not. -/
theorem repeat?_length {n : Nat} {series r : Series} (hunstable : series.stable = false)
    (h : repeat? numKeys layout n series = some r) :
    (r.stable = true ∧ series.changes.length < r.changes.length ∧
      r.changes.length ≤ series.changes.length + n) ∨
    (r.stable = false ∧ r.changes.length = series.changes.length + n) := by
  induction n generalizing series with
  | zero =>
    obtain rfl := Option.some.inj h
    exact Or.inr ⟨hunstable, rfl⟩
  | succ n ih =>
    obtain ⟨q, -, ⟨-, rfl⟩ | ⟨-, hrest⟩⟩ := repeat?_succ.mp h
    · refine Or.inl ⟨rfl, ?_, ?_⟩
      · show series.changes.length < series.changes.length + 1
        omega
      · show series.changes.length + 1 ≤ series.changes.length + (n + 1)
        omega
    · rcases ih rfl hrest with ⟨hstable, hlt, hle⟩ | ⟨hmoving, hall⟩
      · rw [List.length_cons] at hlt hle
        exact Or.inl ⟨hstable, by omega, by omega⟩
      · rw [List.length_cons] at hall
        exact Or.inr ⟨hmoving, by omega⟩

/-! ## Cutting -/

/-- **A series may be cut in two**: the second part is made unless the first has come to rest. -/
theorem repeat?_add (m n : Nat) {series : Series} (hunstable : series.stable = false) :
    repeat? numKeys layout (m + n) series
      = (repeat? numKeys layout m series).bind fun s =>
          if s.stable then some s else repeat? numKeys layout n s := by
  induction m generalizing series with
  | zero =>
    rw [Nat.zero_add]
    show _ = if series.stable = true then some series else repeat? numKeys layout n series
    rw [hunstable]
    rfl
  | succ m ih =>
    rw [Nat.add_right_comm, repeat?, repeat?]
    cases once? numKeys layout series.sets with
    | none => rfl
    | some q =>
      dsimp only
      split
      · rfl
      · exact ih rfl

/-- **A series that comes to rest, under another bound**: the same series if there is room for
all its sweeps, and otherwise as many of them as there is room for, after which the others would
follow. -/
theorem repeat?_cut {n : Nat} {series r : Series} (hunstable : series.stable = false)
    (h : repeat? numKeys layout n series = some r) (hstable : r.stable = true) (m : Nat) :
    (r.changes.length ≤ series.changes.length + m ∧ repeat? numKeys layout m series = some r) ∨
    (series.changes.length + m < r.changes.length ∧
      ∃ s left, repeat? numKeys layout m series = some s ∧ s.stable = false ∧
        s.changes.length = series.changes.length + m ∧ left ≤ n ∧
        repeat? numKeys layout left s = some r) := by
  rcases Nat.lt_or_ge m n with hlt | hge
  · -- less room: the first part of the same series
    have hn : m + (n - m) = n := by omega
    rw [← hn, repeat?_add m (n - m) hunstable] at h
    obtain ⟨s, hs, hrest⟩ := Option.bind_eq_some_iff.mp h
    rcases repeat?_length hunstable hs with ⟨hrests, -, hle⟩ | ⟨hmoving, hall⟩
    · rw [if_pos hrests] at hrest
      obtain rfl := Option.some.inj hrest
      exact Or.inl ⟨hle, hs⟩
    · rw [hmoving] at hrest
      rcases repeat?_length hmoving hrest with ⟨-, hmore, -⟩ | ⟨hnever, -⟩
      · exact Or.inr ⟨by omega, s, n - m, hs, hmoving, hall, by omega, hrest⟩
      · rw [hstable] at hnever
        nomatch hnever
  · -- more room: not used
    have hm : n + (m - n) = m := by omega
    rcases repeat?_length hunstable h with ⟨-, -, hle⟩ | ⟨hnever, -⟩
    · refine Or.inl ⟨by omega, ?_⟩
      rw [← hm, repeat?_add n (m - n) hunstable, h]
      exact if_pos hstable
    · rw [hstable] at hnever
      nomatch hnever

/-! ## Going on -/

/-- What was counted before a series does not matter to it. -/
theorem repeat?_recount (n : Nat) (sets : Array BlockSets) (counted old : List Nat) (stable : Bool) :
    repeat? numKeys layout n ⟨sets, counted ++ old, stable⟩
      = (repeat? numKeys layout n ⟨sets, counted, stable⟩).map fun s =>
          { s with changes := s.changes ++ old } := by
  induction n generalizing sets counted stable with
  | zero => rfl
  | succ n ih =>
    rw [repeat?, repeat?]
    cases once? numKeys layout sets with
    | none => rfl
    | some q =>
      dsimp only
      split
      · rfl
      · exact ih q.sets (q.changed :: counted) false

/-- **A new series goes on where another one stopped**: it makes the sweeps that were left, under
any bound that has room for them, and comes to rest with the same sets. -/
theorem repeat?_resume {left n : Nat} {s r : Series} (hmoving : s.stable = false)
    (h : repeat? numKeys layout left s = some r) (hstable : r.stable = true) (hleft : left ≤ n) :
    ∃ t, repeat? numKeys layout n { sets := s.sets } = some t ∧ t.stable = true ∧ t.sets = r.sets ∧
      t.changes.length + s.changes.length = r.changes.length := by
  obtain ⟨sets, changes, stable⟩ := s
  subst hmoving
  have hsplit : repeat? numKeys layout left ⟨sets, [] ++ changes, false⟩ = _ :=
    repeat?_recount left sets [] changes false
  rw [List.nil_append, h] at hsplit
  obtain ⟨t, ht, rfl⟩ := Option.map_eq_some_iff.mp hsplit.symm
  refine ⟨t, ?_, hstable, rfl, List.length_append.symm⟩
  rcases repeat?_cut rfl ht hstable n with ⟨-, hsame⟩ | ⟨htoo, -⟩
  · exact hsame
  · rcases repeat?_length rfl ht with ⟨-, -, hle⟩ | ⟨-, hall⟩
    · omega
    · omega

end Sweep

namespace Liveness

open Sweep

section

variable {f : Func} {l : Liveness} {s r : Series} {cap : SweepCap}

/-- **A call that gave up is taken up again**: the next one, without a cap, makes the sweeps that
were left and comes to rest with the same sets. -/
theorem fixpoint_resumes {left : Nat} (hs : f.Sound) (hsize : l.blocks.size = f.blocks.size)
    (hpart : l.series? f (some cap) = some s) (hmoving : s.stable = false)
    (hrest : repeat? l.numKeys f.layout left s = some r) (hstable : r.stable = true)
    (hleft : left ≤ l.bound none) :
    ∃ l₂, (l.after s).fixpoint f none = (.ok (r.changes.length - s.changes.length), l₂) ∧
      l₂.blocks = r.sets := by
  have hkept : s.sets.size = l.blocks.size := repeat?_size hpart
  -- the default bound is the one that the first call would have had without a cap
  have hbound : (l.after s).bound none = l.bound none := by
    show defaultBound s.sets.size l.numKeys = defaultBound l.blocks.size l.numKeys
    rw [hkept]
  obtain ⟨t, ht, hrests, hsets, hmade⟩ := repeat?_resume hmoving hrest hstable hleft
  have hagain : (l.after s).series? f none = some t := by
    show repeat? l.numKeys f.layout ((l.after s).bound none) { sets := s.sets } = some t
    rw [hbound, ht]
  have hcount : t.changes.length = r.changes.length - s.changes.length := by omega
  refine ⟨(l.after s).after t, ?_, hsets⟩
  rw [fixpoint_of_series hs (hkept.trans hsize) hagain, verdict_eq_ok.mpr ⟨hrests, hcount⟩]

end

/-! ## The headline -/

/-- **A cap is a threshold, and a call that gave up can be taken up again.**  Take any function that
validates, and values or the names of any function for keys.  Liveness without a cap answers, with a
state `l` after so many sweeps.

1. Under a cap that allows as many sweeps, liveness answers with that same state.
2. Under a smaller one it fails, and says which function and how many sweeps it was.  So does a
   first call on the state from the start; but what that leaves is no loss, since a second call,
   without a cap, makes just the sweeps that were missing and ends with the sets of `l`.

As for the default bound, the number of blocks has to be a count with one to spare. -/
theorem cap_is_threshold (identity : Identity) (g f : Func) (hvalid : f.validate = .ok ())
    (hroom : f.blocks.size < maxCount) :
    ∃ l₀ l, start (.of identity g) f = .ok l₀ ∧ (compute (.of identity g) f none).outcome = .ok l ∧
      ∀ cap : SweepCap,
        (l.sweeps ≤ cap.count → (compute (.of identity g) f (some cap)).outcome = .ok l) ∧
        (cap.count < l.sweeps →
          (compute (.of identity g) f (some cap)).outcome
            = .error (.failed (.diverged f.name cap.count)) ∧
          ∃ l₁ l₂, l₀.fixpoint f (some cap) = (.error (.failed (.diverged f.name cap.count)), l₁) ∧
            l₁.fixpoint f none = (.ok (l.sweeps - cap.count), l₂) ∧ l₂.blocks = l.blocks) := by
  have hs : f.Sound := f.validate_eq_ok_iff.mp hvalid
  obtain ⟨l, hl⟩ := exists_compute identity g hs hroom
  obtain ⟨-, l₀, r, hstart, hseries, hstable, rfl⟩ := compute_eq_ok.mp hl
  have hsize : l₀.blocks.size = f.blocks.size := (start?_spec hstart).2.1
  refine ⟨l₀, l₀.after r, start_eq_ok.mpr ⟨hs, hstart⟩, hl, fun cap => ?_⟩
  have hcut := repeat?_cut rfl hseries hstable cap.count
  simp only [List.length_nil, Nat.zero_add] at hcut
  constructor
  · intro hle
    rcases hcut with ⟨-, hsame⟩ | ⟨hlt, -⟩
    · exact compute_eq_ok.mpr ⟨hs, l₀, r, hstart, hsame, hstable, rfl⟩
    · exact absurd hle (Nat.not_le_of_lt hlt)
  · intro hlt
    rcases hcut with ⟨hle, -⟩ | ⟨-, s, left, hpart, hmoving, hcount, hleft, hrest⟩
    · exact absurd hle (Nat.not_le_of_lt hlt)
    · have hfirst : l₀.series? f (some cap) = some s := hpart
      have hverdict : l₀.verdict f (some cap) s = .error (.failed (.diverged f.name cap.count)) :=
        verdict_of_unstable hmoving
      obtain ⟨l₂, hsecond, hsets⟩ := fixpoint_resumes hs hsize hfirst hmoving hrest hstable hleft
      rw [hcount] at hsecond
      refine ⟨?_, l₀.after s, l₂, ?_, hsecond, hsets⟩
      · rw [compute_outcome_of_series hs hstart hfirst, hverdict]
        rfl
      · rw [fixpoint_of_series hs hsize hfirst, hverdict]

/-- Of the three sweeps over `zigzag`, two are made under a cap of two and the third afterwards. -/
theorem zigzag_cap_is_threshold :
    ∃ l₀ l l₁ l₂, start (.of .name zigzag) zigzag = .ok l₀ ∧
      (compute (.of .name zigzag) zigzag none).outcome = .ok l ∧ l.sweeps = 3 ∧
      (compute (.of .name zigzag) zigzag (some ⟨3, by decide, by decide⟩)).outcome = .ok l ∧
      l₀.fixpoint zigzag (some ⟨2, by decide, by decide⟩)
        = (.error (.failed (.diverged "zigzag" 2)), l₁) ∧
      l₁.fixpoint zigzag none = (.ok 1, l₂) ∧ l₂.blocks = l.blocks := by
  obtain ⟨l₀, l, hstart, hl, hcap⟩ := cap_is_threshold .name zigzag zigzag rfl (by decide)
  have hrun : (compute (.of .name zigzag) zigzag none).outcome = .ok _ := rfl
  obtain rfl := Except.ok.inj (hrun.symm.trans hl)
  obtain ⟨-, l₁, l₂, hfirst, hsecond, hsets⟩ :=
    (hcap ⟨2, by decide, by decide⟩).2 (show 2 < 3 by decide)
  exact ⟨l₀, _, l₁, l₂, hstart, hl, rfl,
    (hcap ⟨3, by decide, by decide⟩).1 (show 3 ≤ 3 by decide), hfirst, hsecond, hsets⟩

end Liveness

end Dataflow
