import Dataflow.Liveness.Run
import Dataflow.Numbering.Run
import Dataflow.Proofs.Defects

/-!
# How runs end

A run is a chain of steps of which each may stop it.  These lemmas take such a chain apart: what a
run answers is what its steps answer one after the other, whatever they say on the way, and a run
that answers has passed every step.
-/

namespace Dataflow

/-! ## Chains of steps -/

/-- Two steps succeed exactly if the first does and the second does with its answer. -/
theorem bind_eq_ok {ε α β : Type} {x : Except ε α} {g : α → Except ε β} {b : β} :
    (x >>= g) = .ok b ↔ ∃ a, x = .ok a ∧ g a = .ok b := by
  cases x with
  | error e =>
    constructor
    · intro h
      nomatch h
    · rintro ⟨a, h, -⟩
      nomatch h
  | ok a =>
    constructor
    · intro h
      exact ⟨a, rfl, h⟩
    · rintro ⟨a', h, hb⟩
      obtain rfl := Except.ok.inj h
      exact hb

/-- The outcomes of transcripts follow each other as results do. -/
theorem Transcript.outcome_bind {α β : Type} (t : Transcript α) (next : α → Transcript β) :
    (t >>= next).outcome = t.outcome >>= fun a => (next a).outcome := by
  show (t.andThen next).outcome = _
  unfold Transcript.andThen
  cases t.outcome <;> rfl

/-- What is said before, then what is said after, if the first part answers. -/
theorem Transcript.bind_of_ok {α β : Type} {t : Transcript α} {a : α} (h : t.outcome = .ok a)
    (next : α → Transcript β) : (t >>= next) = ⟨t.signals ++ (next a).signals, (next a).outcome⟩ := by
  show t.andThen next = _
  unfold Transcript.andThen
  rw [h]

/-- Nothing happens after a halt. -/
theorem Transcript.bind_of_halt {α β : Type} {t : Transcript α} {halt : Halt}
    (h : t.outcome = .error halt) (next : α → Transcript β) :
    (t >>= next) = ⟨t.signals, .error halt⟩ := by
  show t.andThen next = _
  unfold Transcript.andThen
  rw [h]

/-- After a success come the reports of the next step. -/
theorem Transcript.reports_bind {α β : Type} {t : Transcript α} {a : α} (h : t.outcome = .ok a)
    (next : α → Transcript β) : (t >>= next).reports = t.reports ++ (next a).reports := by
  rw [bind_of_ok h]
  exact List.filterMap_append

theorem Transcript.reports_bind_halt {α β : Type} {t : Transcript α} {halt : Halt}
    (h : t.outcome = .error halt) (next : α → Transcript β) : (t >>= next).reports = t.reports := by
  rw [bind_of_halt h]
  rfl

theorem Transcript.reports_bind_nil {α β : Type} {t : Transcript α} {next : α → Transcript β}
    (ht : t.reports = []) (hnext : ∀ a, (next a).reports = []) : (t >>= next).reports = [] := by
  cases h : t.outcome with
  | ok a => rw [reports_bind h, ht, hnext, List.append_nil]
  | error halt => rw [reports_bind_halt h, ht]

theorem Halt.require_eq_ok {α : Type} {o : Option α} {a : α} :
    Halt.require o = .ok a ↔ o = some a := by
  cases o with
  | none => simp [Halt.require]
  | some b => simp [Halt.require]

/-- Checking a function passes the sound ones. -/
theorem Func.check_eq_ok {f : Func} : f.check = .ok () ↔ f.Sound := by
  rw [← Func.validate_eq_ok_iff]
  unfold Func.check
  cases f.validate with
  | error d => simp
  | ok u => simp

/-- A defect is reported with the name of the function. -/
theorem Func.check_of_defect {f : Func} {d : Defect} (h : f.validate = .error d) :
    f.check = .error (.failed (.invalid f.name d)) := by
  unfold Func.check
  rw [h]

/-! ## The same step for every member of a list -/

/-- A step that answers for every member answers with a list of its answers. -/
theorem mapM_eq_ok {ε α β : Type} {g : α → Except ε β} {as : List α} {bs : List β} :
    as.mapM g = .ok bs ↔ List.Forall₂ (fun a b => g a = .ok b) as bs := by
  induction as generalizing bs with
  | nil =>
    rw [List.forall₂_nil_left_iff]
    show Except.ok [] = Except.ok bs ↔ bs = []
    rw [Except.ok.injEq, eq_comm]
  | cons a as ih =>
    simp only [List.mapM_cons, bind_eq_ok, ih, List.forall₂_cons_left_iff]
    constructor
    · rintro ⟨b, hb, bs', hbs', h⟩
      exact ⟨b, bs', hb, hbs', (Except.ok.inj h).symm⟩
    · rintro ⟨b, bs', hb, hbs', rfl⟩
      exact ⟨b, hb, bs', hbs', rfl⟩

theorem exists_mapM {ε α β : Type} {g : α → Except ε β} {as : List α} (h : ∀ a ∈ as, ∃ b, g a = .ok b) :
    ∃ bs, as.mapM g = .ok bs := by
  induction as with
  | nil => exact ⟨[], rfl⟩
  | cons a as ih =>
    obtain ⟨b, hb⟩ := h a List.mem_cons_self
    obtain ⟨bs, hbs⟩ := ih fun c hc => h c (List.mem_cons_of_mem a hc)
    exact ⟨b :: bs, mapM_eq_ok.mpr (.cons hb (mapM_eq_ok.mp hbs))⟩

/-- **The first member that a step fails for** decides. -/
theorem mapM_eq_error {ε α β : Type} {g : α → Except ε β} {before : List α} {a : α} {e : ε}
    (hbefore : ∀ x ∈ before, ∃ b, g x = .ok b) (ha : g a = .error e) (after : List α) :
    (before ++ a :: after).mapM g = .error e := by
  induction before with
  | nil =>
    rw [List.nil_append, List.mapM_cons, ha]
    rfl
  | cons x before ih =>
    obtain ⟨b, hb⟩ := hbefore x List.mem_cons_self
    rw [List.cons_append, List.mapM_cons, hb, ih fun y hy => hbefore y (List.mem_cons_of_mem x hy)]
    rfl

namespace Transcript

variable {α : Type} {g : α → Transcript Unit}

/-- Runs that all answer say what they say one after the other. -/
theorem forM_of_ok {as : List α} (h : ∀ a ∈ as, (g a).outcome = .ok ()) :
    as.forM g = ⟨as.flatMap fun a => (g a).signals, .ok ()⟩ := by
  induction as with
  | nil => rfl
  | cons a as ih =>
    show (g a >>= fun _ => as.forM g) = _
    rw [bind_of_ok (h a List.mem_cons_self), ih fun c hc => h c (List.mem_cons_of_mem a hc)]
    rfl

/-- **The first run that stops is the last**: the whole ends as it does, and nothing is said after
it. -/
theorem forM_of_halt {before : List α} {a : α} {halt : Halt}
    (hbefore : ∀ b ∈ before, (g b).outcome = .ok ()) (ha : (g a).outcome = .error halt)
    (after : List α) :
    (before ++ a :: after).forM g = ⟨(before ++ [a]).flatMap fun b => (g b).signals, .error halt⟩ := by
  induction before with
  | nil =>
    show (g a >>= fun _ => after.forM g) = _
    rw [bind_of_halt ha, List.nil_append, List.flatMap_singleton]
  | cons b before ih =>
    show (g b >>= fun _ => (before ++ a :: after).forM g) = _
    rw [bind_of_ok (hbefore b List.mem_cons_self), ih fun c hc => hbefore c (List.mem_cons_of_mem b hc)]
    rfl

/-- Runs all answer, or there is a first one that stops. -/
theorem all_ok_or_halts (g : α → Transcript Unit) (as : List α) :
    (∀ a ∈ as, (g a).outcome = .ok ()) ∨ ∃ before a after halt, as = before ++ a :: after ∧
      (∀ b ∈ before, (g b).outcome = .ok ()) ∧ (g a).outcome = .error halt := by
  induction as with
  | nil => exact Or.inl fun a ha => absurd ha List.not_mem_nil
  | cons a as ih =>
    cases ha : (g a).outcome with
    | error halt => exact Or.inr ⟨[], a, as, halt, rfl, fun b hb => absurd hb List.not_mem_nil, ha⟩
    | ok u =>
      rcases ih with hall | ⟨before, c, after, halt, rfl, hbefore, hc⟩
      · exact Or.inl (List.forall_mem_cons.mpr ⟨ha, hall⟩)
      · exact Or.inr ⟨a :: before, c, after, halt, rfl, List.forall_mem_cons.mpr ⟨ha, hbefore⟩, hc⟩

/-- What is reported by runs one after the other. -/
theorem reports_flatMap (as : List α) (outcome : Except Halt Unit) :
    (Transcript.mk (as.flatMap fun a => (g a).signals) outcome).reports
      = as.flatMap fun a => (g a).reports :=
  List.filterMap_flatMap

theorem forM_outcome {as : List α} (h : ∀ a ∈ as, (g a).outcome = .ok ()) :
    (as.forM g).outcome = .ok () := by
  rw [forM_of_ok h]

/-- If all of them succeed, the reports are those of one after the other. -/
theorem reports_forM {as : List α} (h : ∀ a ∈ as, (g a).outcome = .ok ()) :
    (as.forM g).reports = as.flatMap fun a => (g a).reports := by
  rw [forM_of_ok h, reports_flatMap]

end Transcript

/-! ## Liveness -/

namespace Liveness

variable {keys : KeySpace} {f : Func} {cap : Option SweepCap}

theorem start_eq_ok {l : Liveness} : start keys f = .ok l ↔ f.Sound ∧ start? keys f = some l := by
  unfold start
  rw [bind_eq_ok]
  constructor
  · rintro ⟨⟨⟩, hcheck, hstart⟩
    exact ⟨Func.check_eq_ok.mp hcheck, Halt.require_eq_ok.mp hstart⟩
  · rintro ⟨hsound, hstart⟩
    exact ⟨(), Func.check_eq_ok.mpr hsound, Halt.require_eq_ok.mpr hstart⟩

/-- The verdict is a number of sweeps exactly if the last of them found nothing to change. -/
theorem verdict_eq_ok {l : Liveness} {s : Sweep.Series} {n : Nat} :
    l.verdict f cap s = .ok n ↔ s.stable = true ∧ s.changes.length = n := by
  unfold verdict
  cases s.stable with
  | false => simp
  | true => simp

/-- A series that ran out of sweeps is refused with the bound it ran into. -/
theorem verdict_of_unstable {l : Liveness} {s : Sweep.Series} (h : s.stable = false) :
    l.verdict f cap s = .error (.failed (.diverged f.name (l.bound cap))) := by
  unfold verdict
  rw [h]
  rfl

/-- **How a run of liveness ends**, step by step: as the start does, the sweeps, and the verdict on
them. -/
theorem compute_outcome_eq_steps (keys : KeySpace) (f : Func) (cap : Option SweepCap) :
    (compute keys f cap).outcome = do
      let l ← start keys f
      let s ← Halt.require (l.series? f cap)
      let _ ← l.verdict f cap s
      return l.after s := by
  simp only [compute, Transcript.outcome_bind, Transcript.ofOutcome]
  rfl

/-- On a sound function a run of liveness gives the verdict on its sweeps, and the state they
leave. -/
theorem compute_outcome_of_series {l₀ : Liveness} {s : Sweep.Series} (hs : f.Sound)
    (hstart : start? keys f = some l₀) (hseries : l₀.series? f cap = some s) :
    (compute keys f cap).outcome = (l₀.verdict f cap s).map fun _ => l₀.after s := by
  rw [compute_outcome_eq_steps, start_eq_ok.mpr ⟨hs, hstart⟩]
  show (Halt.require (l₀.series? f cap) >>= fun s => l₀.verdict f cap s >>= _) = _
  rw [hseries]
  show (l₀.verdict f cap s >>= _) = _
  cases l₀.verdict f cap s <;> rfl

/-- **A run of liveness answers** exactly if the function is sound and the sweeps come to rest; the
answer is the state they leave. -/
theorem compute_eq_ok {l : Liveness} :
    (compute keys f cap).outcome = .ok l ↔
      f.Sound ∧ ∃ l₀ s, start? keys f = some l₀ ∧ l₀.series? f cap = some s ∧ s.stable = true ∧
        l = l₀.after s := by
  simp only [compute_outcome_eq_steps, bind_eq_ok]
  constructor
  · rintro ⟨l₀, hstart, s, hseries, n, hverdict, hl⟩
    obtain ⟨hsound, hstart⟩ := start_eq_ok.mp hstart
    exact ⟨hsound, l₀, s, hstart, Halt.require_eq_ok.mp hseries, (verdict_eq_ok.mp hverdict).1,
      (Except.ok.inj hl).symm⟩
  · rintro ⟨hsound, l₀, s, hstart, hseries, hstable, rfl⟩
    exact ⟨l₀, start_eq_ok.mpr ⟨hsound, hstart⟩, s, Halt.require_eq_ok.mpr hseries, _,
      verdict_eq_ok.mpr ⟨hstable, rfl⟩, rfl⟩

end Liveness

/-! ## Value numbering -/

namespace Numbering

variable {f : Func}

theorem start_eq_ok {s : State} : start f = .ok s ↔ f.Sound ∧ s = .start f := by
  unfold start
  rw [bind_eq_ok]
  constructor
  · rintro ⟨⟨⟩, hcheck, hs⟩
    exact ⟨Func.check_eq_ok.mp hcheck, (Except.ok.inj hs).symm⟩
  · rintro ⟨hsound, rfl⟩
    exact ⟨(), Func.check_eq_ok.mpr hsound, rfl⟩

/-- **A run of value numbering answers** exactly if the function is sound and no instruction stops
the walk; the answer is the state it leaves. -/
theorem run_eq_ok {r : Numbering} :
    (run f).outcome = .ok r ↔
      f.Sound ∧ ∃ s, ((State.start f).walk f f.programOrder).2 = .ok s ∧ r = s.finish := by
  unfold run
  simp only [Transcript.outcome_bind, bind_eq_ok]
  constructor
  · rintro ⟨-, -, s₀, hstart, s, hwalk, -, -, hr⟩
    obtain ⟨hsound, rfl⟩ := start_eq_ok.mp hstart
    exact ⟨hsound, s, hwalk, (Except.ok.inj hr).symm⟩
  · rintro ⟨hsound, s, hwalk, rfl⟩
    exact ⟨(), rfl, _, start_eq_ok.mpr ⟨hsound, rfl⟩, s, hwalk, (), rfl, rfl⟩

/-- What numbering reports is what its walk issues, in the same order. -/
theorem reports_walkAll (s : State) :
    (walkAll f s).reports = (s.walk f f.programOrder).1.map .numbered := by
  unfold walkAll Transcript.reports
  simp only [List.filterMap_flatMap, List.map_eq_flatMap]
  rfl

/-- **A run that answers reports the events of its walk**, each once and in order. -/
theorem reports_run {s : State} (hs : f.Sound)
    (hwalk : ((State.start f).walk f f.programOrder).2 = .ok s) :
    (run f).reports = ((State.start f).walk f f.programOrder).1.map .numbered := by
  have hstart : (Transcript.ofOutcome (start f)).outcome = .ok (State.start f) :=
    start_eq_ok.mpr ⟨hs, rfl⟩
  have hwalkAll : (walkAll f (.start f)).outcome = .ok s := hwalk
  unfold run
  rw [Transcript.reports_bind rfl, Transcript.reports_bind hstart, Transcript.reports_bind hwalkAll,
    reports_walkAll]
  exact List.append_nil _

end Numbering

end Dataflow
