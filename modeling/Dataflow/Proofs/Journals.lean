import Dataflow.Pipeline
import Dataflow.Proofs.Outcomes

/-!
# One journal for many functions

A report goes to the last record of a journal if that bears the right name, so it could end up with
what was reported about another function of the same name.  It never does.

1. **What filing does** (`Journal.file_concat`): the last record takes the report, or the report
   opens a record of its own.  In either case the records before the last are as they were
   (`Journal.file_append`), and so they are after any number of reports.

2. **What a run does** (`Pipeline.run_eq`): it is refused before it reports anything, or the first
   thing it reports is that the function is started.

A start opens a record under any circumstances.  So by (1) and (2) what a run files comes after what
was there, and is what it would have filed into an empty journal (`Journal.fileAll_eq_append`):
whatever the analyses report in between, a second start included, and whether or not they fail.
-/

namespace Dataflow

/-! ## What filing does -/

/-- The record with one report more. -/
def Record.add (r : Record) : Report → Record
  | .start => r
  | .numbered event => { r with numbering := r.numbering ++ [event] }
  | .live block => { r with blocks := r.blocks ++ [block] }

/-- Whether a report about the function of this name opens a record after the last one. -/
def Report.opens (last : Record) (name : String) : Report → Bool
  | .start => true
  | .numbered _ => last.name ≠ name
  | .live _ => last.name ≠ name

namespace Journal

variable {name : String} {before rest : List Record}

/-- Filing into an empty journal opens a record. -/
theorem file_nil (name : String) (report : Report) :
    (Journal.mk []).file name report = ⟨[({ name := name } : Record).add report]⟩ := by
  cases report <;> rfl

/-- Only the name of the last record decides whether a new one is opened. -/
theorem ensure_concat (before : List Record) (last : Record) (name : String) :
    (Journal.mk (before ++ [last])).ensure name
      = if last.name = name then ⟨before ++ [last]⟩ else ⟨before ++ [last] ++ [{ name := name }]⟩ := by
  unfold ensure
  rw [List.getLast?_concat]
  rfl

theorem amendLast_concat (before : List Record) (last : Record) (change : Record → Record) :
    (Journal.mk (before ++ [last])).amendLast change = ⟨before ++ [change last]⟩ := by
  unfold amendLast
  rw [List.getLast?_concat, List.dropLast_concat]

/-- **What filing does**: the report opens a record of its own, or the last record takes it. -/
theorem file_concat (before : List Record) (last : Record) (name : String) (report : Report) :
    (Journal.mk (before ++ [last])).file name report
      = ⟨before ++ if report.opens last name then [last, ({ name := name } : Record).add report]
          else [last.add report]⟩ := by
  -- a report other than a start changes the last record, once that bears the name
  have hamend : ∀ change : Record → Record,
      ((Journal.mk (before ++ [last])).ensure name).amendLast change
        = ⟨before ++ if last.name ≠ name then [last, change { name := name }] else [change last]⟩ := by
    intro change
    rw [ensure_concat]
    by_cases hname : last.name = name
    · rw [if_pos hname, if_neg fun h => h hname, amendLast_concat]
    · rw [if_neg hname, if_pos hname, amendLast_concat, List.append_assoc]
      rfl
  cases report with
  | start =>
    show Journal.mk (before ++ [last] ++ [{ name := name }]) = _
    rw [List.append_assoc]
    rfl
  | numbered event =>
    simp only [Report.opens, decide_eq_true_eq]
    exact hamend fun r => r.add (.numbered event)
  | live block =>
    simp only [Report.opens, decide_eq_true_eq]
    exact hamend fun r => r.add (.live block)

theorem file_ne_nil (j : Journal) (name : String) (report : Report) :
    (j.file name report).records ≠ [] := by
  obtain ⟨records⟩ := j
  rcases List.eq_nil_or_concat' records with rfl | ⟨before, last, rfl⟩
  · rw [file_nil]
    exact List.cons_ne_nil _ _
  · rw [file_concat]
    split <;> simp

/-- **Filing touches nothing before the last record.** -/
theorem file_append (hrest : rest ≠ []) (report : Report) :
    (Journal.mk (before ++ rest)).file name report
      = ⟨before ++ ((Journal.mk rest).file name report).records⟩ := by
  rcases List.eq_nil_or_concat' rest with rfl | ⟨init, last, rfl⟩
  · exact absurd rfl hrest
  · rw [← List.append_assoc, file_concat, file_concat, List.append_assoc]

/-- With a record to go on from, filing never reaches back to the records before it. -/
theorem foldl_file_append (reports : List Report) (hrest : rest ≠ []) :
    reports.foldl (fun j r => j.file name r) (Journal.mk (before ++ rest))
      = ⟨before ++ (reports.foldl (fun j r => j.file name r) (Journal.mk rest)).records⟩ := by
  induction reports generalizing rest with
  | nil => rfl
  | cons report reports ih =>
    rw [List.foldl_cons, List.foldl_cons, file_append hrest, ih (file_ne_nil _ _ _)]

/-- **A run that starts before it reports files the same into every journal**, after what is
there. -/
theorem fileAll_eq_append {α : Type} {t : Transcript α} (j : Journal) (f : Func)
    (ht : t.reports = [] ∨ ∃ reports, t.reports = .start :: reports) :
    j.fileAll f t = ⟨j.records ++ (({} : Journal).fileAll f t).records⟩ := by
  unfold fileAll
  rcases ht with hnone | ⟨reports, hstart⟩
  · rw [hnone]
    exact congrArg Journal.mk (List.append_nil _).symm
  · rw [hstart, List.foldl_cons, List.foldl_cons]
    exact foldl_file_append reports (List.cons_ne_nil _ _)

end Journal

/-! ## What a run does -/

namespace Pipeline

/-- What a run says first: which function it is about. -/
def opening (f : Func) : Signal := .note (.span "analyze_function" [("function", f.name)])

/-- What is said when an analysis is run: that it runs, and what it says itself. -/
def said (plan : Plan) (f : Func) (a : Analysis) : List Signal :=
  .note (.event .trace (some "running analysis") [("pass", a.name)]) :: (a.run f plan).signals

theorem runPass_eq (p : Pipeline) (f : Func) (a : Analysis) :
    p.runPass f a = ⟨said p.plan f a, (a.run f p.plan).outcome⟩ := rfl

/-- **What a run does**: it is refused, because an analysis is not in the catalog or else because
the function is not sound, and reports nothing; or it starts and then runs its analyses in order. -/
theorem run_eq (p : Pipeline) (f : Func) :
    p.run f = match p.passes, f.check with
      | .error halt, _ => ⟨[opening f], .error halt⟩
      | .ok _, .error halt => ⟨[opening f], .error halt⟩
      | .ok passes, .ok () => ⟨opening f :: .report .start :: (passes.forM (p.runPass f)).signals,
          (passes.forM (p.runPass f)).outcome⟩ := by
  unfold run
  cases p.passes with
  | error halt => rfl
  | ok passes =>
    cases f.check with
    | error halt => rfl
    | ok u => rfl

/-- A run that is not refused says what function it is about, reports its start and goes through its
analyses. -/
theorem run_of_ok {p : Pipeline} {f : Func} {passes : List Analysis} (hpasses : p.passes = .ok passes)
    (hcheck : f.check = .ok ()) :
    p.run f = ⟨opening f :: .report .start :: (passes.forM (p.runPass f)).signals,
      (passes.forM (p.runPass f)).outcome⟩ := by
  rw [run_eq, hpasses, hcheck]

/-- A run that reports anything reports its start first. -/
theorem run_reports (p : Pipeline) (f : Func) :
    (p.run f).reports = [] ∨ ∃ reports, (p.run f).reports = .start :: reports := by
  rw [run_eq]
  split
  · exact Or.inl rfl
  · exact Or.inl rfl
  · exact Or.inr ⟨_, rfl⟩

/-- Runs into one journal, each as it would be alone. -/
theorem runAll_eq (p : Pipeline) (j : Journal) (fs : List Func) :
    p.runAll j fs = (fs.map fun f => (p.run f).outcome,
      ⟨j.records ++ fs.flatMap fun f => (({} : Journal).fileAll f (p.run f)).records⟩) := by
  induction fs generalizing j with
  | nil => exact congrArg (Prod.mk []) (congrArg Journal.mk (List.append_nil _).symm)
  | cons f fs ih =>
    simp only [runAll, ih, j.fileAll_eq_append f (p.run_reports f), List.map_cons, List.flatMap_cons,
      List.append_assoc]

theorem runAlone_eq (p : Pipeline) (f : Func) :
    p.runAlone f = (p.run f).outcome.map fun _ => ({} : Journal).fileAll f (p.run f) := by
  show ((p.run f).outcome >>= fun _ => .ok (({} : Journal).fileAll f (p.run f))) = _
  cases (p.run f).outcome with
  | ok u => rfl
  | error halt => rfl

/-- **One journal for many functions is the journals of the single runs, one after the other.**
Whatever the plan and the analyses in the catalog, the functions of the program, sound or not and
under whatever names, and the journal to begin with:

1. run into the one journal in turn, each function has the outcome it has alone with a fresh
   journal;
2. the journal is what it was, followed by the records of these single runs in order, of the failed
   ones too;
3. running the program answers for each function the failure of its single run, or the journal of
   it. -/
theorem shared_journal_concatenates (p : Pipeline) (j : Journal) (program : Program) :
    (p.runAll j program.funcs.toList).1.length = program.funcs.size ∧
    (p.runProgram program).length = program.funcs.size ∧
    (p.runAll j program.funcs.toList).2.records
      = j.records ++ program.funcs.toList.flatMap (fun f => (p.runAll {} [f]).2.records) ∧
    ∀ i f, program.func? i = some f → ∃ outcome alone, p.runAll {} [f] = ([outcome], alone) ∧
      (p.runAll j program.funcs.toList).1[i.index]? = some outcome ∧
      (p.runProgram program)[i.index]? = some (outcome.map fun _ => alone) := by
  refine ⟨?_, ?_, ?_,
    fun i f hf => ⟨(p.run f).outcome, ({} : Journal).fileAll f (p.run f), rfl, ?_, ?_⟩⟩
  · rw [runAll_eq, List.length_map, Array.length_toList]
  · unfold runProgram
    rw [List.length_map, Array.length_toList]
  · rw [runAll_eq]
    rfl
  · unfold Program.func? at hf
    rw [runAll_eq, List.getElem?_map, Array.getElem?_toList, hf]
    rfl
  · unfold Program.func? at hf
    unfold runProgram
    rw [List.getElem?_map, Array.getElem?_toList, hf, Option.map_some, runAlone_eq]

/-- An analysis that reports something, starts again, reports the same once more, and fails. -/
def restless : Analysis where
  name := "restless"
  run f _ := ⟨[.report (.numbered ⟨⟨0⟩, ⟨0⟩, .other⟩), .report .start,
    .report (.numbered ⟨⟨0⟩, ⟨0⟩, .other⟩)], .error (.failed (.diverged f.name 1))⟩

-- two functions of one name, and two records of each
example : ((Pipeline.mk (.only [.liveness]) (({} : Catalog).register "liveness" restless)).runAll {}
      [{ name := "f", blocks := #[{}] }, { name := "f", blocks := #[{}] }]).2.records
    = List.replicate 4 ⟨"f", [⟨⟨0⟩, ⟨0⟩, .other⟩], []⟩ := by decide

end Pipeline

end Dataflow
