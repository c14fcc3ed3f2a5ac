import Dataflow.Proofs.InBounds
import Dataflow.Proofs.Journals

/-!
# What a plan leaves in the journal

A plan asks for value numbering and liveness in any order and any number of times, and one journal
takes what all of them report.  Here is what stands in it afterwards, whatever stood there before.

1. **One record** (`Journal.fileAll_start`): the two analyses never start a function, so all their
   reports go to the record that the run opened, the events to one list of it and the blocks to the
   other, in the order they are reported.

2. **What an analysis reports**: numbering never fails on a sound function, and reports an event for
   each listed instruction (`Numbering.run_of_sound`).  Liveness reports every block in layout order
   if its sweeps come to rest (`Liveness.reports_reportAll`), and nothing at all otherwise
   (`Liveness.reports_compute`), which is the only way in which it fails
   (`Liveness.compute_of_sound`).

3. **One after the other** (`Transcript.forM_of_ok`, `Transcript.forM_of_halt`): the reports of the
   analyses are strung together, up to the first that fails.  Equal analyses report the same, so a
   list of the record is one list over and over (`PassKind.filterMap_event?_reports`).
-/

namespace Dataflow

/-! ## One record -/

/-- The event of a report, if it is of numbering. -/
def Report.event? : Report → Option Event
  | .numbered event => some event
  | _ => none

theorem Report.filterMap_event?_numbered (events : List Event) :
    (events.map Report.numbered).filterMap Report.event? = events := by
  rw [List.filterMap_map]
  exact List.filterMap_some

/-- The block of a report, if it is of liveness. -/
def Report.block? : Report → Option BlockReport
  | .live block => some block
  | _ => none

theorem Record.name_add (r : Record) (report : Report) : (r.add report).name = r.name := by
  cases report <;> rfl

/-- A record takes events and blocks apart and keeps the order of each. -/
theorem Record.foldl_add (r : Record) (reports : List Report) :
    reports.foldl Record.add r = ⟨r.name, r.numbering ++ reports.filterMap Report.event?,
      r.blocks ++ reports.filterMap Report.block?⟩ := by
  induction reports generalizing r with
  | nil => simp
  | cons report reports ih =>
    rw [List.foldl_cons, ih]
    cases report <;> simp [Record.add, List.filterMap_cons, Report.event?, Report.block?]

namespace Journal

/-- Without another start, everything goes to a last record of the right name. -/
theorem foldl_file_last (before : List Record) {last : Record} {name : String}
    (hname : last.name = name) {reports : List Report} (hstart : .start ∉ reports) :
    reports.foldl (fun j r => j.file name r) (Journal.mk (before ++ [last]))
      = ⟨before ++ [reports.foldl Record.add last]⟩ := by
  induction reports generalizing last with
  | nil => rfl
  | cons report reports ih =>
    obtain ⟨hreport, hreports⟩ := not_or.mp (mt List.mem_cons.mpr hstart)
    have hopens : report.opens last name = false := by
      cases report with
      | start => exact absurd rfl hreport
      | numbered event => simp [Report.opens, hname]
      | live block => simp [Report.opens, hname]
    rw [List.foldl_cons, file_concat, hopens]
    exact ih ((last.name_add report).trans hname) hreports

/-- **One record**: a run that starts its function once adds one record, which has all that it
reports. -/
theorem fileAll_start {α : Type} (j : Journal) (f : Func) {t : Transcript α} {reports : List Report}
    (ht : t.reports = .start :: reports) (hstart : .start ∉ reports) :
    j.fileAll f t = ⟨j.records ++
      [⟨f.name, reports.filterMap Report.event?, reports.filterMap Report.block?⟩]⟩ := by
  have hname : ({ name := f.name } : Record).name = f.name := rfl
  unfold fileAll
  rw [ht, List.foldl_cons]
  show reports.foldl (fun j r => j.file f.name r) (Journal.mk (j.records ++ [{ name := f.name }])) = _
  rw [foldl_file_last j.records hname hstart, Record.foldl_add]
  rfl

end Journal

/-! ## One after the other -/

namespace PassKind

/-- What a pass of this kind reports, given the events of numbering and the blocks of liveness. -/
def reports (events : List Event) (blocks : List BlockReport) : PassKind → List Report
  | .valueNumbering => events.map .numbered
  | .liveness => blocks.map .live

variable (events : List Event) (blocks : List BlockReport) (ks : List PassKind)

theorem start_not_mem_reports : .start ∉ ks.flatMap (reports events blocks) := by
  intro h
  obtain ⟨k, -, hk⟩ := List.mem_flatMap.mp h
  cases k with
  | valueNumbering => simp [reports] at hk
  | liveness => simp [reports] at hk

/-- What only one kind of pass gives is given once for each time that it is asked for. -/
theorem flatMap_eq_replicate {γ : Type} {g : PassKind → List γ} (kind : PassKind)
    (hother : ∀ k, k ≠ kind → g k = []) :
    ks.flatMap g = (List.replicate (ks.count kind) (g kind)).flatten := by
  induction ks with
  | nil => rfl
  | cons k ks ih =>
    rw [List.flatMap_cons, ih]
    by_cases hk : k = kind
    · rw [hk, List.count_cons_self, List.replicate_succ, List.flatten_cons]
    · rw [hother k hk, List.count_cons_of_ne hk, List.nil_append]

theorem filterMap_event?_reports : (ks.flatMap (reports events blocks)).filterMap Report.event?
    = (List.replicate (ks.count .valueNumbering) events).flatten := by
  rw [List.filterMap_flatMap, flatMap_eq_replicate ks .valueNumbering, reports,
    Report.filterMap_event?_numbered]
  intro k hk
  cases k with
  | valueNumbering => exact absurd rfl hk
  | liveness => simp [reports, Report.event?]

theorem filterMap_block?_reports : (ks.flatMap (reports events blocks)).filterMap Report.block?
    = (List.replicate (ks.count .liveness) blocks).flatten := by
  have hblocks : (blocks.map Report.live).filterMap Report.block? = blocks := by
    rw [List.filterMap_map]
    exact List.filterMap_some
  rw [List.filterMap_flatMap, flatMap_eq_replicate ks .liveness, reports, hblocks]
  intro k hk
  cases k with
  | valueNumbering => simp [reports, Report.block?]
  | liveness => exact absurd rfl hk

end PassKind

/-! ## What numbering reports -/

/-- **Numbering a sound function** never fails, and reports an event for each listed instruction, in
program order. -/
theorem Numbering.run_of_sound {f : Func} (hs : f.Sound) :
    ∃ events : List Event, (Numbering.run f).reports = events.map .numbered ∧
      events.map (fun e => (e.block, e.inst)) = f.programOrder ∧
        ∃ r, (Numbering.run f).outcome = .ok r := by
  obtain ⟨events, s, hwalk, horder, -⟩ :=
    State.walk_answers hs fun _ hp => hp
  have hend : ((State.start f).walk f f.programOrder).2 = .ok s := by rw [hwalk]
  refine ⟨events, ?_, horder, s.finish, run_eq_ok.mpr ⟨hs, s, hend, rfl⟩⟩
  rw [reports_run hs hend, hwalk]

/-! ## What liveness reports -/

/-- The labels are those of the members of the set, in ascending order of keys. -/
def KeySpace.Lists (keys : KeySpace) (s : WordSet) (labels : List KeyLabel) : Prop :=
  ∃ ks : List Nat, ks.Pairwise (· < ·) ∧ (∀ k, k ∈ ks ↔ k ∈ s) ∧ ks.map keys.describe? = labels.map some

namespace Liveness

variable {keys : KeySpace} {f : Func} {cap : Option SweepCap} {l : Liveness}

/-- The reports show the state: one for each block of `f`, in layout order, with the keys exposed,
killed and live at the end. -/
structure Shows (identity : Identity) (f : Func) (l : Liveness) (blocks : List BlockReport) : Prop where
  blocks_eq : blocks.map BlockReport.block = f.layout.map Prod.fst
  identity_eq : ∀ r ∈ blocks, r.identity = identity
  lists : ∀ r ∈ blocks, ∃ sets, l.block? r.block = some sets ∧
    (KeySpace.of identity f).Lists sets.effect.exposed r.exposed ∧
    (KeySpace.of identity f).Lists sets.effect.killed r.killed ∧
    (KeySpace.of identity f).Lists sets.liveOut r.liveOut

theorem lists_of_describe? {s : WordSet} {labels : List KeyLabel} (h : l.describe? s = some labels) :
    l.keys.Lists s labels :=
  ⟨s.toList, s.pairwise_toList, fun _ => WordSet.mem_toList, mapM_eq_some_iff.mp h⟩

/-- What is in the report of a block. -/
theorem report?_spec {b : BlockId} {r : BlockReport} (h : l.report? b = some r) :
    r.block = b ∧ r.identity = l.keys.identity ∧ ∃ sets, l.block? b = some sets ∧
      l.keys.Lists sets.effect.exposed r.exposed ∧ l.keys.Lists sets.effect.killed r.killed ∧
      l.keys.Lists sets.liveOut r.liveOut := by
  obtain ⟨sets, hsets, h⟩ := Option.bind_eq_some_iff.mp h
  obtain ⟨exposed, hexposed, h⟩ := Option.bind_eq_some_iff.mp h
  obtain ⟨killed, hkilled, h⟩ := Option.bind_eq_some_iff.mp h
  obtain ⟨live, hlive, h⟩ := Option.bind_eq_some_iff.mp h
  obtain rfl := Option.some.inj h
  exact ⟨rfl, rfl, sets, hsets, lists_of_describe? hexposed, lists_of_describe? hkilled,
    lists_of_describe? hlive⟩

/-- Until it rests, liveness reports nothing. -/
theorem reports_compute (keys : KeySpace) (f : Func) (cap : Option SweepCap) :
    (compute keys f cap).reports = [] := by
  refine Transcript.reports_bind_nil rfl fun _ => Transcript.reports_bind_nil rfl fun l => ?_
  refine Transcript.reports_bind_nil rfl fun s => Transcript.reports_bind_nil ?_ fun _ => rfl
  show ((notesOf s).map Signal.note).filterMap _ = []
  rw [List.filterMap_map]
  exact List.filterMap_none _

/-- **Liveness of a sound function** comes to rest or uses up its sweeps. -/
theorem compute_of_sound (hs : f.Sound) (keys : KeySpace) (cap : Option SweepCap) :
    (∃ l, (compute keys f cap).outcome = .ok l) ∨
    ∃ sweeps, (compute keys f cap).outcome = .error (.failed (.diverged f.name sweeps)) := by
  obtain ⟨l₀, hstart⟩ := start?_isSome keys hs
  obtain ⟨s, hseries⟩ := series?_isSome hs (start?_spec hstart).2.1 cap
  have houtcome := compute_outcome_of_series hs hstart hseries
  cases hstable : s.stable with
  | true =>
    rw [verdict_eq_ok.mpr ⟨hstable, rfl⟩] at houtcome
    exact Or.inl ⟨_, houtcome⟩
  | false =>
    rw [verdict_of_unstable hstable] at houtcome
    exact Or.inr ⟨_, houtcome⟩

theorem size_of_compute (h : (compute keys f cap).outcome = .ok l) : l.blocks.size = f.blocks.size := by
  obtain ⟨-, l₀, s, hstart, hseries, -, rfl⟩ := compute_eq_ok.mp h
  rw [← (start?_spec hstart).2.1]
  exact Sweep.repeat?_size hseries

/-- The reports of a state are those of its blocks. -/
theorem reports_reportAll (h : Keyed keys l) : ∃ blocks : List BlockReport,
    l.blockIds.map l.report? = blocks.map some ∧ l.reportAll.reports = blocks.map .live := by
  obtain ⟨blocks, hblocks⟩ := exists_mapM_eq_some fun b hb => exists_report_of_mem_blockIds h hb
  rw [mapM_eq_some_iff] at hblocks
  have hreports : l.reportAll.reports
      = l.blockIds.flatMap fun b => ((l.report? b).map Report.live).toList := by
    unfold reportAll
    rw [Transcript.reports_forM]
    · apply List.flatMap_congr
      intro b hb
      obtain ⟨r, hr⟩ := exists_report_of_mem_blockIds h hb
      rw [hr]
      rfl
    · intro b hb
      obtain ⟨r, hr⟩ := exists_report_of_mem_blockIds h hb
      rw [hr]
      rfl
  refine ⟨blocks, hblocks, ?_⟩
  calc l.reportAll.reports
      = (l.blockIds.map l.report?).flatMap fun o => (o.map Report.live).toList := by
        rw [hreports, List.flatMap_map]
    _ = blocks.map Report.live := by
        rw [hblocks, List.flatMap_map, List.map_eq_flatMap]
        rfl

theorem blockIds_eq_layout (hsize : l.blocks.size = f.blocks.size) :
    l.blockIds = f.layout.map Prod.fst := by
  have hindex : f.blocks.toList.zipIdx.map Prod.snd = List.range l.blocks.size := by
    rw [List.zipIdx_map_snd, ← List.range_eq_range', Array.length_toList, hsize]
  unfold blockIds Func.layout
  rw [← hindex, List.map_map, List.map_map]
  rfl

/-- Each report bears the label that it was asked for. -/
theorem map_block_of_reports (h : Keyed keys l) {blocks : List BlockReport}
    (hblocks : l.blockIds.map l.report? = blocks.map some) :
    blocks.map BlockReport.block = l.blockIds := by
  apply List.map_injective_iff.mpr fun _ _ => Option.some.inj
  calc (blocks.map BlockReport.block).map some
      = (blocks.map some).map (Option.map BlockReport.block) := by
        rw [List.map_map, List.map_map]
        rfl
    _ = l.blockIds.map some := by
        rw [← hblocks, List.map_map]
        apply List.map_congr_left
        intro b hb
        obtain ⟨r, hr⟩ := exists_report_of_mem_blockIds h hb
        rw [Function.comp_apply, hr, Option.map_some, (report?_spec hr).1]

/-- **A run that comes to rest shows its state.** -/
theorem shows_of_compute {identity : Identity} (h : (compute (.of identity f) f cap).outcome = .ok l) :
    ∃ blocks, Shows identity f l blocks ∧ l.reportAll.reports = blocks.map .live := by
  have hkeyed := (Reachable.compute h).keyed
  have hidentity : (KeySpace.of identity f).identity = identity := by cases identity <;> rfl
  obtain ⟨blocks, hblocks, hreports⟩ := reports_reportAll hkeyed
  have hreport : ∀ r ∈ blocks, ∃ b, l.report? b = some r := by
    intro r hr
    have hmem : some r ∈ l.blockIds.map l.report? := by
      rw [hblocks]
      exact List.mem_map_of_mem hr
    obtain ⟨b, -, hb⟩ := List.mem_map.mp hmem
    exact ⟨b, hb⟩
  refine ⟨blocks, ⟨?_, fun r hr => ?_, fun r hr => ?_⟩, hreports⟩
  · rw [map_block_of_reports hkeyed hblocks, blockIds_eq_layout (size_of_compute h)]
  · obtain ⟨b, hb⟩ := hreport r hr
    rw [(report?_spec hb).2.1, hkeyed.keys_eq, hidentity]
  · obtain ⟨b, hb⟩ := hreport r hr
    obtain ⟨rfl, -, hsets⟩ := report?_spec hb
    rw [hkeyed.keys_eq] at hsets
    exact hsets

end Liveness

/-! ## The passes of a plan -/

/-- The analysis of a kind, under an identity. -/
def PassKind.analysis (identity : Identity) : PassKind → Analysis
  | .valueNumbering => .valueNumbering
  | .liveness => .liveness identity

/-- The catalog has every analysis that a plan can ask for. -/
theorem Catalog.find_passName (k : PassKind) (identity : Identity) :
    builtin.find (k.passName identity) = .ok (k.analysis identity) := by
  cases k <;> cases identity <;> rfl

namespace Pipeline

variable {plan : Plan} {f : Func} {events : List Event} {blocks : List BlockReport}

theorem passes_builtin (plan : Plan) :
    ({ plan := plan } : Pipeline).passes = .ok (plan.passes.map (PassKind.analysis plan.identity)) := by
  show (plan.passes.map fun k => k.passName plan.identity).mapM Catalog.builtin.find = _
  induction plan.passes with
  | nil => rfl
  | cons k ks ih =>
    rw [List.map_cons, List.mapM_cons, Catalog.find_passName, ih]
    rfl

/-- Runs a pass of this kind. -/
def runKind (plan : Plan) (f : Func) (k : PassKind) : Transcript Unit :=
  runPass { plan := plan } f (k.analysis plan.identity)

theorem forM_analysis (plan : Plan) (f : Func) (ks : List PassKind) :
    (ks.map (PassKind.analysis plan.identity)).forM (runPass { plan := plan } f)
      = ks.forM (runKind plan f) := by
  induction ks with
  | nil => rfl
  | cons k ks ih =>
    show (runKind plan f k >>= fun _ => (ks.map _).forM _) = runKind plan f k >>= fun _ => ks.forM _
    rw [ih]

/-- A sound function is started, and then the passes of the plan run in order. -/
theorem run_of_sound (hs : f.Sound) (plan : Plan) :
    (run { plan := plan } f).outcome = (plan.passes.forM (runKind plan f)).outcome ∧
    (run { plan := plan } f).reports = .start :: (plan.passes.forM (runKind plan f)).reports := by
  rw [run_of_ok (passes_builtin plan) (Func.check_eq_ok.mpr hs), forM_analysis]
  exact ⟨rfl, rfl⟩

theorem runKind_eq (plan : Plan) (f : Func) (k : PassKind) :
    (runKind plan f k).outcome = ((k.analysis plan.identity).run f plan).outcome ∧
    (runKind plan f k).reports = ((k.analysis plan.identity).run f plan).reports := by
  unfold runKind
  rw [runPass_eq]
  exact ⟨rfl, rfl⟩

/-- The pass answers, and reports these events or these blocks. -/
def Delivers (plan : Plan) (f : Func) (events : List Event) (blocks : List BlockReport) (k : PassKind) :
    Prop :=
  (runKind plan f k).outcome = .ok () ∧ (runKind plan f k).reports = k.reports events blocks

theorem delivers_numbering {r : Numbering} (hreports : (Numbering.run f).reports = events.map .numbered)
    (hok : (Numbering.run f).outcome = .ok r) : Delivers plan f events blocks .valueNumbering := by
  obtain ⟨houtcome, hsame⟩ := runKind_eq plan f .valueNumbering
  refine ⟨houtcome.trans ?_, hsame.trans ?_⟩
  · show (Numbering.run f >>= fun _ => pure ()).outcome = _
    rw [Transcript.outcome_bind, hok]
    rfl
  · show (Numbering.run f >>= fun _ => pure ()).reports = _
    rw [Transcript.reports_bind hok, hreports]
    exact List.append_nil _

theorem runKind_liveness (plan : Plan) (f : Func) :
    (runKind plan f .liveness).outcome
      = (Liveness.compute (.of plan.identity f) f plan.cap >>= Liveness.reportAll).outcome ∧
    (runKind plan f .liveness).reports
      = (Liveness.compute (.of plan.identity f) f plan.cap >>= Liveness.reportAll).reports :=
  runKind_eq plan f .liveness

theorem delivers_liveness {l : Liveness}
    (hok : (Liveness.compute (.of plan.identity f) f plan.cap).outcome = .ok l)
    (hreports : l.reportAll.reports = blocks.map .live) : Delivers plan f events blocks .liveness := by
  obtain ⟨houtcome, hsame⟩ := runKind_liveness plan f
  constructor
  · rw [houtcome, Transcript.outcome_bind, hok]
    exact Liveness.reportAll_outcome (Liveness.Reachable.compute hok).keyed
  · rw [hsame, Transcript.reports_bind hok, Liveness.reports_compute, hreports]
    rfl

/-- A pass of liveness that fails reports nothing. -/
theorem runKind_liveness_halts {halt : Halt}
    (hhalt : (Liveness.compute (.of plan.identity f) f plan.cap).outcome = .error halt) :
    (runKind plan f .liveness).outcome = .error halt ∧ (runKind plan f .liveness).reports = [] := by
  obtain ⟨houtcome, hsame⟩ := runKind_liveness plan f
  constructor
  · rw [houtcome, Transcript.outcome_bind, hhalt]
    rfl
  · rw [hsame, Transcript.reports_bind_halt hhalt, Liveness.reports_compute]

/-- A run over one function that starts it once. -/
theorem runAll_singleton {outcome : Except Halt Unit} {ks : List PassKind}
    (houtcome : (run { plan := plan } f).outcome = outcome)
    (hreports : (run { plan := plan } f).reports
      = .start :: ks.flatMap (PassKind.reports events blocks))
    (j : Journal) :
    runAll { plan := plan } j [f] = ([outcome], ⟨j.records ++ [⟨f.name,
      (List.replicate (ks.count .valueNumbering) events).flatten,
      (List.replicate (ks.count .liveness) blocks).flatten⟩]⟩) := by
  show ([(run { plan := plan } f).outcome], j.fileAll f (run { plan := plan } f)) = _
  rw [houtcome, j.fileAll_start f hreports (PassKind.start_not_mem_reports events blocks ks),
    PassKind.filterMap_event?_reports, PassKind.filterMap_block?_reports]

/-- **A run whose passes all answer** adds one record, with what each of them reports. -/
theorem runAll_of_delivers (hs : f.Sound) (h : ∀ k ∈ plan.passes, Delivers plan f events blocks k)
    (j : Journal) :
    runAll { plan := plan } j [f] = ([.ok ()], ⟨j.records ++ [⟨f.name,
      (List.replicate (plan.passes.count .valueNumbering) events).flatten,
      (List.replicate (plan.passes.count .liveness) blocks).flatten⟩]⟩) := by
  have hanswers : ∀ k ∈ plan.passes, (runKind plan f k).outcome = .ok () := fun k hk => (h k hk).1
  obtain ⟨houtcome, hreports⟩ := run_of_sound hs plan
  rw [Transcript.forM_outcome hanswers] at houtcome
  rw [Transcript.reports_forM hanswers, List.flatMap_congr fun k hk => (h k hk).2] at hreports
  exact runAll_singleton houtcome hreports j

/-- **A run of which a pass of liveness fails** adds one record, with what the passes before it
report. -/
theorem runAll_of_halt (hs : f.Sound) {before after : List PassKind} {halt : Halt}
    (hpasses : plan.passes = before ++ .liveness :: after)
    (h : ∀ k ∈ before, Delivers plan f events [] k)
    (hhalt : (Liveness.compute (.of plan.identity f) f plan.cap).outcome = .error halt) (j : Journal) :
    runAll { plan := plan } j [f] = ([.error halt], ⟨j.records ++ [⟨f.name,
      (List.replicate (before.count .valueNumbering) events).flatten, []⟩]⟩) := by
  have hanswers : ∀ k ∈ before, (runKind plan f k).outcome = .ok () := fun k hk => (h k hk).1
  obtain ⟨hstops, hsilent⟩ := runKind_liveness_halts hhalt
  obtain ⟨houtcome, hreports⟩ := run_of_sound hs plan
  rw [hpasses, Transcript.forM_of_halt hanswers hstops after] at houtcome hreports
  rw [Transcript.reports_flatMap, List.flatMap_append, List.flatMap_singleton, hsilent, List.append_nil,
    List.flatMap_congr fun k hk => (h k hk).2] at hreports
  rw [runAll_singleton houtcome hreports, List.flatten_replicate_nil]

/-! ## The headline -/

/-- **What a plan leaves in the journal.**  Whatever the plan and the journal to begin with, running
the plan over a sound function adds exactly one record, which bears the name of the function.  With
`events` for what numbering reports, which is one event for each listed instruction in program
order,

1. the run answers, and the record has `events` once for each time that numbering is asked for and,
   once for each time that liveness is, a report for each block in layout order: under the identity
   of the plan, with the keys exposed, killed and live at the end in ascending order;
2. or the sweeps of liveness are used up, and the run fails with that; then the record has no
   blocks, and `events` once for each time that numbering is asked for before the first time that
   liveness is. -/
theorem record_of_builtin_run (plan : Plan) (j : Journal) (f : Func) (hvalid : f.validate = .ok ()) :
    ∃ events : List Event, (Numbering.run f).reports = events.map .numbered ∧
      events.map (fun e => (e.block, e.inst)) = f.programOrder ∧
      ((∃ blocks : List BlockReport,
          (.liveness ∈ plan.passes → ∃ l,
            (Liveness.compute (.of plan.identity f) f plan.cap).outcome = .ok l ∧
            Liveness.Shows plan.identity f l blocks) ∧
          runAll { plan := plan } j [f] = ([.ok ()], ⟨j.records ++ [⟨f.name,
            (List.replicate (plan.passes.count .valueNumbering) events).flatten,
            (List.replicate (plan.passes.count .liveness) blocks).flatten⟩]⟩)) ∨
        ∃ sweeps before after, plan.passes = before ++ .liveness :: after ∧ .liveness ∉ before ∧
          (Liveness.compute (.of plan.identity f) f plan.cap).outcome
            = .error (.failed (.diverged f.name sweeps)) ∧
          runAll { plan := plan } j [f] = ([.error (.failed (.diverged f.name sweeps))],
            ⟨j.records ++ [⟨f.name,
              (List.replicate (before.count .valueNumbering) events).flatten, []⟩]⟩)) := by
  have hs := f.validate_eq_ok_iff.mp hvalid
  obtain ⟨events, hevents, horder, r, hr⟩ := Numbering.run_of_sound hs
  refine ⟨events, hevents, horder, ?_⟩
  -- only liveness can stop the run, so the passes before the first one of it deliver in any case
  have hnumbering : ∀ blocks, ∀ k : PassKind, k ≠ .liveness → Delivers plan f events blocks k := by
    intro blocks k hk
    cases k with
    | valueNumbering => exact delivers_numbering hevents hr
    | liveness => exact absurd rfl hk
  by_cases hliveness : .liveness ∈ plan.passes
  · rcases Liveness.compute_of_sound hs (.of plan.identity f) plan.cap
      with ⟨l, hl⟩ | ⟨sweeps, hdiverged⟩
    · obtain ⟨blocks, hshows, hblocks⟩ := Liveness.shows_of_compute hl
      refine Or.inl ⟨blocks, fun _ => ⟨l, hl, hshows⟩, runAll_of_delivers hs (fun k _ => ?_) j⟩
      by_cases hk : k = .liveness
      · rw [hk]
        exact delivers_liveness hl hblocks
      · exact hnumbering blocks k hk
    · obtain ⟨before, after, hpasses, hbefore⟩ := List.eq_append_cons_of_mem hliveness
      refine Or.inr ⟨sweeps, before, after, hpasses, hbefore, hdiverged, ?_⟩
      refine runAll_of_halt hs hpasses (fun k hk => hnumbering [] k ?_) hdiverged j
      rintro rfl
      exact hbefore hk
  · refine Or.inl ⟨[], fun h => absurd h hliveness, runAll_of_delivers hs (fun k hk => ?_) j⟩
    refine hnumbering [] k ?_
    rintro rfl
    exact hliveness hk

/-- A plan that numbers before and after liveness, with names for keys. -/
def numberingTwice (cap : Option SweepCap) : Plan where
  passes := [.valueNumbering, .liveness, .valueNumbering]
  identity := .name
  cap := cap

/-- The loop of `countdown`, into a journal with a record of the same name: with room for all
sweeps, and for one sweep only. -/
theorem countdown_record_of_builtin_run :
    Liveness.countdown.validate = .ok () ∧
    (∃ (events : List Event) (blocks : List BlockReport),
      events.map (fun e => (e.block, e.inst)) = Liveness.countdown.programOrder ∧
      blocks.map BlockReport.block = [⟨0⟩, ⟨1⟩, ⟨2⟩] ∧
      runAll { plan := numberingTwice none } ⟨[⟨"countdown", [], []⟩]⟩ [Liveness.countdown]
        = ([.ok ()], ⟨[⟨"countdown", [], []⟩, ⟨"countdown", (List.replicate 2 events).flatten,
          (List.replicate 1 blocks).flatten⟩]⟩)) ∧
    ∃ events : List Event, events.map (fun e => (e.block, e.inst)) = Liveness.countdown.programOrder ∧
      runAll { plan := numberingTwice (some ⟨1, by decide, by decide⟩) } ⟨[⟨"countdown", [], []⟩]⟩
          [Liveness.countdown]
        = ([.error (.failed (.diverged "countdown" 1))], ⟨[⟨"countdown", [], []⟩,
          ⟨"countdown", (List.replicate 1 events).flatten, []⟩]⟩) := by
  have hvalid : Liveness.countdown.validate = .ok () := rfl
  have hrests : (runAll { plan := numberingTwice none } ⟨[⟨"countdown", [], []⟩]⟩
      [Liveness.countdown]).1 = [.ok ()] := rfl
  have hstops : (runAll { plan := numberingTwice (some ⟨1, by decide, by decide⟩) }
      ⟨[⟨"countdown", [], []⟩]⟩ [Liveness.countdown]).1
        = [.error (.failed (.diverged "countdown" 1))] := rfl
  refine ⟨hvalid, ?_, ?_⟩
  · obtain ⟨events, -, horder, ⟨blocks, hlive, hrun⟩ | ⟨_, _, _, -, -, -, hrun⟩⟩ :=
      record_of_builtin_run (numberingTwice none) ⟨[⟨"countdown", [], []⟩]⟩ Liveness.countdown hvalid
    · obtain ⟨l, -, hshows⟩ := hlive (by decide)
      exact ⟨events, blocks, horder, hshows.blocks_eq, hrun⟩
    · rw [hrun] at hrests
      nomatch hrests
  · obtain ⟨events, -, horder, ⟨_, -, hrun⟩ | ⟨sweeps, before, after, hpasses, hbefore, -, hrun⟩⟩ :=
      record_of_builtin_run (numberingTwice (some ⟨1, by decide, by decide⟩)) ⟨[⟨"countdown", [], []⟩]⟩
        Liveness.countdown hvalid
    · rw [hrun] at hstops
      nomatch hstops
    · have hsplit : before = [.valueNumbering] := by
        cases before with
        | nil => nomatch hpasses
        | cons k before =>
          obtain ⟨rfl, hrest⟩ := List.cons.inj hpasses
          cases before with
          | nil => rfl
          | cons k before =>
            obtain ⟨rfl, -⟩ := List.cons.inj hrest
            exact absurd (by simp) hbefore
      rw [hrun] at hstops
      cases hstops
      subst hsplit
      exact ⟨events, horder, hrun⟩

end Pipeline

end Dataflow
