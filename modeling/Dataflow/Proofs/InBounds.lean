import Dataflow.Pipeline
import Dataflow.Proofs.LivenessStates
import Dataflow.Proofs.NumberedRuns

/-!
# Every access is in range

Operations look entries up by label, and one that is handed a label without an entry cannot go on.
Here that never happens: whatever the function, an analysis answers or fails properly
(`Halt.Proper`), and what it reports on the way can be written to the log, which looks instructions
up once more (`InBounds`).

Both are kept when runs are put one after the other, so it is enough to look at the parts.  A part
that indexes comes after validation, and what it indexes is what validation has seen: listed
instructions and the values they mention for numbering, edges and listed instructions for liveness.
-/

namespace Dataflow

/-! ## Proper ends -/

namespace Halt

/-- The operation answers or fails properly; it is not sent past the end of a table. -/
def Proper {α : Type} (o : Except Halt α) : Prop :=
  (∃ a, o = .ok a) ∨ ∃ failure, o = .error (.failed failure)

variable {α β : Type}

theorem Proper.ok (a : α) : Proper (.ok a) := Or.inl ⟨a, rfl⟩

theorem Proper.failed (failure : Failure) : Proper (.error (.failed failure) : Except Halt α) :=
  Or.inr ⟨failure, rfl⟩

/-- **Operations one after the other** end properly if each of them does. -/
theorem Proper.bind {o : Except Halt α} {next : α → Except Halt β} (ho : Proper o)
    (hnext : ∀ a, o = .ok a → Proper (next a)) : Proper (o >>= next) := by
  rcases ho with ⟨a, rfl⟩ | ⟨failure, rfl⟩
  · exact hnext a rfl
  · exact .failed failure

/-- A look-up that finds its entry ends properly. -/
theorem Proper.require {o : Option α} (h : ∃ a, o = some a) : Proper (require o) := by
  obtain ⟨a, rfl⟩ := h
  exact .ok a

/-- So does one operation for each entry of a list. -/
theorem Proper.mapM {g : α → Except Halt β} (hg : ∀ a, Proper (g a)) (as : List α) :
    Proper (as.mapM g) := by
  induction as with
  | nil => exact .ok []
  | cons a as ih =>
    rw [List.mapM_cons]
    exact (hg a).bind fun b _ => ih.bind fun bs _ => .ok (b :: bs)

end Halt

open Halt (Proper)

/-- Validation never looks an entry up that is not there: it answers, or names a defect. -/
theorem Func.proper_check (f : Func) : Proper f.check := by
  unfold Func.check
  cases f.validate with
  | ok u => exact .ok ()
  | error d => exact .failed _

/-! ## Runs -/

/-- The signal can be written to the log of `f`: it speaks of no instruction that is not there. -/
def Signal.Writable (f : Func) : Signal → Prop
  | .note _ => True
  | .report r => ∃ lines, r.log? f = some lines

namespace Transcript

variable {α β : Type} {f : Func}

/-- The run ends properly, and everything it says can be written to the log of `f`. -/
structure InBounds (f : Func) (t : Transcript α) : Prop where
  outcome : Proper t.outcome
  signals : ∀ s ∈ t.signals, s.Writable f

/-- An operation that says nothing is in bounds if it ends properly. -/
theorem InBounds.ofOutcome {o : Except Halt α} (h : Proper o) : InBounds f (ofOutcome o) :=
  ⟨h, fun _ hs => absurd hs List.not_mem_nil⟩

/-- A note is in bounds whatever it says. -/
theorem InBounds.note (entry : LogEntry) : InBounds f (note entry) := by
  refine ⟨.ok (), fun s hs => ?_⟩
  obtain rfl := List.mem_singleton.mp hs
  trivial

/-- A report is in bounds if it can be written to the log. -/
theorem InBounds.report {r : Report} (h : ∃ lines, r.log? f = some lines) : InBounds f (report r) := by
  refine ⟨.ok (), fun s hs => ?_⟩
  obtain rfl := List.mem_singleton.mp hs
  exact h

/-- **One run after the other**: the second has to be in bounds only after the first has
answered. -/
theorem InBounds.bind {t : Transcript α} {next : α → Transcript β} (ht : InBounds f t)
    (hnext : ∀ a, t.outcome = .ok a → InBounds f (next a)) : InBounds f (t >>= next) := by
  refine ⟨?_, fun s hs => ?_⟩
  · rw [outcome_bind]
    exact ht.outcome.bind fun a ha => (hnext a ha).outcome
  · have hsignals : s ∈ t.signals ∨ ∃ a, t.outcome = .ok a ∧ s ∈ (next a).signals := by
      change s ∈ (t.andThen next).signals at hs
      unfold andThen at hs
      split at hs
      · next a ha =>
        rcases List.mem_append.mp hs with hs | hs
        · exact Or.inl hs
        · exact Or.inr ⟨a, ha, hs⟩
      · exact Or.inl hs
    rcases hsignals with hs | ⟨a, ha, hs⟩
    · exact ht.signals s hs
    · exact (hnext a ha).signals s hs

/-- **A loop is in bounds** if each of its rounds is. -/
theorem InBounds.forM {g : α → Transcript Unit} {as : List α} (h : ∀ a ∈ as, InBounds f (g a)) :
    InBounds f (as.forM g) := by
  induction as with
  | nil => exact .ofOutcome (.ok ())
  | cons a as ih =>
    exact (h a List.mem_cons_self).bind fun _ _ => ih fun c hc => h c (List.mem_cons_of_mem a hc)

/-- A run in bounds can be written to the log, its results included. -/
theorem InBounds.exists_log {t : Transcript α} (ht : InBounds f t) :
    ∃ lines, t.log? f = some lines := by
  unfold log?
  obtain ⟨parts, hparts⟩ : ∃ parts, t.signals.mapM (fun s => match s with
      | .note entry => some [entry]
      | .report r => r.log? f) = some parts := by
    apply exists_mapM_eq_some
    intro s hs
    have hwritable := ht.signals s hs
    cases s with
    | note entry => exact ⟨[entry], rfl⟩
    | report r => exact hwritable
  exact ⟨parts.flatten, Option.bind_eq_some_iff.mpr ⟨parts, hparts, rfl⟩⟩

end Transcript

open Transcript (InBounds)

/-! ## Value numbering -/

namespace Numbering

namespace State

variable {f : Func}

/-- **A walk over listed instructions never stops**, whatever numbers it has handed out, and says
something about each of them in turn. -/
theorem walk_answers (hs : f.Sound) {order : List (BlockId × InstId)}
    (hlisted : ∀ p ∈ order, p ∈ f.programOrder) :
    ∃ events s, (State.start f).walk f order = (events, .ok s) ∧
      events.map (fun e => (e.block, e.inst)) = order ∧ s.numbers.size = f.values.size := by
  obtain ⟨events, s, hwalk, hsize, hplaces⟩ := walk_induction hs
    (P := fun done events _ => events.map (fun e => (e.block, e.inst)) = done) hlisted rfl
    fun _ _ _ hplaces _ _ => by rw [List.map_append, hplaces, List.map_singleton]
  exact ⟨events, s, hwalk, hplaces, hsize⟩

end State

/-- The numbering of a sound function speaks of its instructions only. -/
theorem walkAll_inBounds {f : Func} (hs : f.Sound) : InBounds f (walkAll f (.start f)) := by
  obtain ⟨events, s', hwalk, hevents, -⟩ :=
    State.walk_answers hs fun _ hp => hp
  unfold walkAll
  rw [hwalk]
  refine ⟨.ok s', fun signal hsignal => ?_⟩
  obtain ⟨event, hevent, hsignal⟩ := List.mem_flatMap.mp hsignal
  have hplace : (event.block, event.inst) ∈ f.programOrder := by
    rw [← hevents]
    exact List.mem_map_of_mem hevent
  obtain ⟨inst, hinst, -⟩ := hs.listed _ hplace
  rcases List.mem_cons.mp hsignal with rfl | hsignal
  · trivial
  · obtain rfl := List.mem_singleton.mp hsignal
    exact ⟨_, by simp only [Report.log?, hinst]; rfl⟩

/-- **Value numbering is in bounds** on every function. -/
theorem run_inBounds (f : Func) : InBounds f (run f) := by
  refine (InBounds.note _).bind fun _ _ => ?_
  refine (InBounds.ofOutcome (f.proper_check.bind fun _ _ => .ok _)).bind fun s hs => ?_
  obtain ⟨hsound, rfl⟩ := start_eq_ok.mp hs
  exact (walkAll_inBounds hsound).bind fun _ _ => (InBounds.note _).bind fun _ _ => .ofOutcome (.ok _)

end Numbering

/-! ## Liveness -/

namespace Liveness

variable {keys : KeySpace} {l : Liveness}

/-- Making the state before any sweep looks up listed instructions, after validation only. -/
theorem proper_start (keys : KeySpace) (f : Func) : Proper (start keys f) :=
  f.proper_check.bind fun _ hcheck => .require (start?_isSome keys (Func.check_eq_ok.mp hcheck))

/-- The effect of a block is asked for by label, and a label without a block is a failure of its
own. -/
theorem proper_localEffect (keys : KeySpace) (f : Func) (b : BlockId) :
    Proper (localEffect keys f b) := by
  refine f.proper_check.bind fun _ hcheck => ?_
  have hs := Func.check_eq_ok.mp hcheck
  cases hblock : f.blocks[b.index]? with
  | none => exact .failed _
  | some block => exact .require (hs.exists_effect keys hblock fun i hi => hi)

theorem proper_verdict (l : Liveness) (f : Func) (cap : Option SweepCap) (s : Sweep.Series) :
    Proper (l.verdict f cap s) := by
  unfold verdict
  split
  · exact .ok _
  · exact .failed _

/-- **Sweeping is proper from any state**, on any function: both are compared before anything is
looked up. -/
theorem proper_fixpoint (l : Liveness) (f : Func) (cap : Option SweepCap) :
    Proper (l.fixpoint f cap).1 := by
  rcases fixpoint_cases l f cap with ⟨d, -, hcall⟩ | ⟨-, -, hcall⟩ | ⟨-, -, s, -, hcall⟩
  · rw [hcall]
    exact .failed _
  · rw [hcall]
    exact .failed _
  · rw [hcall]
    exact l.proper_verdict f cap s

/-- **Computing liveness is in bounds** on every function. -/
theorem compute_inBounds (keys : KeySpace) (f : Func) (cap : Option SweepCap) :
    InBounds f (compute keys f cap) := by
  refine (InBounds.note _).bind fun _ _ => ?_
  refine (InBounds.ofOutcome (proper_start keys f)).bind fun l hl => ?_
  obtain ⟨hs, hstart⟩ := start_eq_ok.mp hl
  have hseries := series?_isSome hs (start?_spec hstart).2.1 cap
  refine (InBounds.ofOutcome (.require hseries)).bind fun s _ => ?_
  refine InBounds.bind ⟨l.proper_verdict f cap s, fun signal hsignal => ?_⟩ fun _ _ =>
    .ofOutcome (.ok _)
  obtain ⟨entry, -, rfl⟩ := List.mem_map.mp hsignal
  trivial

theorem exists_block {b : BlockId} (hb : b.index < l.blocks.size) : ∃ sets, l.block? b = some sets :=
  ⟨_, Array.getElem?_eq_getElem hb⟩

/-- Every block of a state can be reported, if its keys have labels. -/
theorem exists_report_of_mem_blockIds (h : Keyed keys l) {b : BlockId} (hb : b ∈ l.blockIds) :
    ∃ r, l.report? b = some r := by
  obtain ⟨n, hn, rfl⟩ := List.mem_map.mp hb
  obtain ⟨sets, hsets⟩ := exists_block (l := l) (b := ⟨n⟩) (List.mem_range.mp hn)
  exact h.exists_report hsets

/-- So reporting all of them does not stop. -/
theorem reportAll_outcome (h : Keyed keys l) : l.reportAll.outcome = .ok () := by
  apply Transcript.forM_outcome
  intro b hb
  obtain ⟨r, hr⟩ := exists_report_of_mem_blockIds h hb
  rw [hr]
  rfl

/-- **Reporting a state is in bounds**, in the log of whichever function. -/
theorem reportAll_inBounds (h : Keyed keys l) (f : Func) : InBounds f l.reportAll := by
  refine .forM fun b hb => ?_
  exact (InBounds.ofOutcome (.require (exists_report_of_mem_blockIds h hb))).bind
    fun r _ => .report ⟨_, rfl⟩

/-- **Liveness is in bounds** on every function, for values and for the names of any function. -/
theorem run_inBounds (identity : Identity) (g f : Func) (cap : Option SweepCap) :
    InBounds f (run (.of identity g) f cap) :=
  (compute_inBounds _ f cap).bind fun _ hl => reportAll_inBounds (Reachable.compute hl).keyed f

end Liveness

/-! ## The pipeline -/

namespace Pipeline

theorem proper_find (c : Catalog) (name : String) : Proper (c.find name) := by
  unfold Catalog.find
  cases c.entries.lookup name with
  | some a => exact .ok a
  | none => exact .failed _

/-- What the catalog holds is one of the analyses there are. -/
theorem find_builtin {name : String} {a : Analysis} (h : Catalog.builtin.find name = .ok a) :
    a = .valueNumbering ∨ ∃ identity, a = .liveness identity := by
  unfold Catalog.find at h
  split at h
  · next a' hlookup =>
    obtain rfl := Except.ok.inj h
    have hmem : (name, a') ∈ Catalog.builtin.entries := by
      obtain ⟨before, after, hsplit, -⟩ := List.lookup_eq_some_iff.mp hlookup
      simp [hsplit]
    change (name, a') ∈ [("value-numbering", Analysis.valueNumbering),
      ("liveness", Analysis.liveness .value), ("liveness-names", Analysis.liveness .name)] at hmem
    simp only [List.mem_cons, Prod.mk.injEq, List.not_mem_nil, or_false] at hmem
    rcases hmem with ⟨-, rfl⟩ | ⟨-, rfl⟩ | ⟨-, rfl⟩
    · exact Or.inl rfl
    · exact Or.inr ⟨.value, rfl⟩
    · exact Or.inr ⟨.name, rfl⟩
  · nomatch h

/-- What a pipeline runs was found in its catalog. -/
theorem exists_find_of_mem_passes {p : Pipeline} {passes : List Analysis} (h : p.passes = .ok passes)
    {a : Analysis} (ha : a ∈ passes) : ∃ name, p.catalog.find name = .ok a := by
  replace h := mapM_eq_ok.mp h
  generalize p.plan.passNames = names at h
  induction h with
  | nil => exact absurd ha List.not_mem_nil
  | cons hfirst _ ih =>
    rcases List.mem_cons.mp ha with rfl | ha
    · exact ⟨_, hfirst⟩
    · exact ih ha

/-- **A plan over the built-in catalog is in bounds** on every function. -/
theorem run_inBounds (plan : Plan) (f : Func) : InBounds f (run { plan := plan } f) := by
  refine (InBounds.note _).bind fun _ _ => ?_
  refine (InBounds.ofOutcome (.mapM (proper_find _) _)).bind fun passes hpasses => ?_
  refine (InBounds.ofOutcome f.proper_check).bind fun _ _ => ?_
  refine (InBounds.report ⟨_, rfl⟩).bind fun _ _ => .forM fun a ha => ?_
  refine (InBounds.note _).bind fun _ _ => ?_
  obtain ⟨name, hname⟩ := exists_find_of_mem_passes hpasses ha
  rcases find_builtin hname with rfl | ⟨identity, rfl⟩
  · exact (Numbering.run_inBounds f).bind fun _ _ => .ofOutcome (.ok ())
  · exact Liveness.run_inBounds identity f f plan.cap

end Pipeline

/-! ## The headline -/

/-- **Validation makes every access safe.**  Whatever the function, sound or not,

1. a plan over the built-in catalog and value numbering alone answer or fail properly, and their
   results can be written to the log; and wherever numbering stands, it has a place for every value
   and no other;
2. making a state of liveness, computing one and finding the effect of one block answer or fail
   properly, over values and over the names of any function;
3. so does a call on any state there is; the state can be reported, and every key in the sets of its
   blocks is below the number of its keys and has a label. -/
theorem accesses_in_range (f : Func) :
    (∀ plan : Plan, Proper (Pipeline.run { plan := plan } f).outcome ∧
      ∃ lines, (Pipeline.run { plan := plan } f).log? f = some lines) ∧
    (Proper (Numbering.run f).outcome ∧ ∃ lines, (Numbering.run f).log? f = some lines) ∧
    (f.validate = .ok () → ∀ done rest, f.programOrder = done ++ rest →
      ∃ s, ((Numbering.State.start f).walk f done).2 = .ok s ∧ s.numbers.size = f.values.size) ∧
    ∀ (identity : Identity) (g : Func) (cap : Option SweepCap),
      Proper (Liveness.start (.of identity g) f) ∧
      Proper (Liveness.compute (.of identity g) f cap).outcome ∧
      (∀ b, Proper (Liveness.localEffect (.of identity g) f b)) ∧
      ∀ l, Liveness.Reachable (.of identity g) l →
        Proper (l.fixpoint f cap).1 ∧ l.reportAll.outcome = .ok () ∧
        ∀ b : BlockId, b.index < l.blocks.size → ∃ sets report,
          l.block? b = some sets ∧ l.report? b = some report ∧
          ∀ k, k ∈ sets.effect.exposed ∨ k ∈ sets.effect.killed ∨ k ∈ sets.liveOut ∨ k ∈ sets.liveIn →
            k < l.numKeys ∧ ∃ label, l.keys.describe? k = some label := by
  refine ⟨fun plan => ?_, ?_, ?_, fun identity g cap => ⟨?_, ?_, ?_, fun l hl => ⟨?_, ?_, ?_⟩⟩⟩
  · have h := Pipeline.run_inBounds plan f
    exact ⟨h.outcome, h.exists_log⟩
  · have h := Numbering.run_inBounds f
    exact ⟨h.outcome, h.exists_log⟩
  · intro hvalid done rest horder
    have hlisted : ∀ p ∈ done, p ∈ f.programOrder := by
      intro p hp
      rw [horder]
      exact List.mem_append_left rest hp
    obtain ⟨events, s, hwalk, -, hsize⟩ :=
      Numbering.State.walk_answers (f.validate_eq_ok_iff.mp hvalid) hlisted
    exact ⟨s, by rw [hwalk], hsize⟩
  · exact Liveness.proper_start _ f
  · exact (Liveness.compute_inBounds _ f cap).outcome
  · exact Liveness.proper_localEffect _ f
  · exact l.proper_fixpoint f cap
  · exact Liveness.reportAll_outcome hl.keyed
  · intro b hb
    obtain ⟨sets, hsets⟩ := Liveness.exists_block hb
    obtain ⟨report, hreport⟩ := hl.keyed.exists_report hsets
    refine ⟨sets, report, hsets, hreport, fun k hk => ?_⟩
    have hlt := hl.keyed.lt_numKeys hsets hk
    exact ⟨hlt, hl.keyed.exists_describe hlt⟩

/-- Three blocks in a ring, without instructions. -/
def threeBlockRing : Func where
  name := "ring"
  blocks := #[⟨[], [⟨2⟩]⟩, ⟨[], [⟨0⟩]⟩, ⟨[], [⟨1⟩]⟩]

/-- The state of `countdown` after one sweep along other edges, which leaves it unsettled. -/
theorem countdown_accesses_in_range :
    Liveness.countdown.validate = .ok () ∧
    (∃ s, ((Numbering.State.start Liveness.countdown).walk Liveness.countdown
      (Liveness.countdown.programOrder.take 2)).2 = .ok s ∧ s.numbers.size = 4) ∧
    ∃ l₀ l, Liveness.start .values Liveness.countdown = .ok l₀ ∧
      l₀.fixpoint threeBlockRing (some ⟨1, by decide, by decide⟩)
        = (.error (.failed (.diverged "ring" 1)), l) ∧
      Proper (l.fixpoint Liveness.countdown none).1 ∧ l.reportAll.outcome = .ok () ∧
      ∃ sets report, l.block? ⟨0⟩ = some sets ∧ l.report? ⟨0⟩ = some report ∧
        ∀ k ∈ sets.liveIn, k < l.numKeys ∧ ∃ label, l.keys.describe? k = some label := by
  have hvalid : Liveness.countdown.validate = .ok () := rfl
  obtain ⟨-, -, hwalk, hliveness⟩ := accesses_in_range Liveness.countdown
  have hstart : Liveness.start (.of .value threeBlockRing) Liveness.countdown = .ok _ := rfl
  have hreachable :=
    (Liveness.Reachable.start hstart).fixpoint threeBlockRing (some ⟨1, by decide, by decide⟩)
  obtain ⟨-, -, -, hstate⟩ := hliveness .value threeBlockRing none
  obtain ⟨hcall, hreport, hblocks⟩ := hstate _ hreachable
  obtain ⟨sets, report, hsets, hblock, hkeys⟩ := hblocks ⟨0⟩ (by decide)
  exact ⟨hvalid, hwalk hvalid _ (Liveness.countdown.programOrder.drop 2) rfl, _, _, hstart, rfl, hcall,
    hreport, sets, report, hsets, hblock, fun k hk => hkeys k (Or.inr (Or.inr (Or.inr hk)))⟩

end Dataflow
