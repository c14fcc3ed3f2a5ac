import Dataflow.Proofs.Journals

/-!
# Refusals come before reports

A run looks up the analyses of its plan, then validates the function, and only then starts to
report.

1. **A catalog is its history read backwards** (`Catalog.Entered.lookup_eq`).  Entering an analysis
   changes what is found under its name and nothing else (`Catalog.lookup_register`), so after any
   number of entries a name finds the last one made under it, and a name that was never entered
   finds nothing.

2. **The first name without an entry decides** (`Pipeline.passes_of_unknown`), and if there is none,
   each name of the plan finds its analysis (`Pipeline.exists_passes`).

3. **The first analysis that stops is the last** (`Pipeline.goesThrough_of_ok`): those before it say
   all they have to say, and those after it say nothing.

Since the function is validated between (2) and (3), an unknown name is found before a defect, and a
defect before anything is reported.
-/

namespace Dataflow

/-! ## What is found in a catalog -/

namespace Catalog

variable {history : List (String × Analysis)} {c : Catalog} {name : String} {a : Analysis}

theorem lookup_entry (k : String) (a : Analysis) (es : List (String × Analysis)) (n : String) :
    ((k, a) :: es).lookup n = if n = k then some a else es.lookup n := by
  rw [List.lookup_cons]
  by_cases hn : n = k
  · rw [if_pos hn, beq_iff_eq.mpr hn]
  · rw [if_neg hn, beq_false_of_ne hn]

theorem contains_eq_isSome (c : Catalog) (name : String) :
    c.contains name = (c.entries.lookup name).isSome := by
  unfold contains names
  induction c.entries with
  | nil => rfl
  | cons e es ih =>
    rw [List.map_cons, List.contains_cons, List.lookup_cons, ih]
    cases name == e.1 <;> rfl

/-- Replacing an analysis changes what its name finds, if that finds anything. -/
theorem lookup_replace (es : List (String × Analysis)) (name : String) (a : Analysis) (n : String) :
    (es.map fun e => if e.1 = name then (name, a) else e).lookup n
      = if n = name then (es.lookup n).map fun _ => a else es.lookup n := by
  induction es with
  | nil => simp
  | cons e es ih =>
    obtain ⟨k, b⟩ := e
    rw [List.map_cons, lookup_entry]
    by_cases hk : k = name
    · subst hk
      rw [if_pos rfl, lookup_entry, ih]
      by_cases hn : n = k
      · simp only [if_pos hn, Option.map_some]
      · simp only [if_neg hn]
    · rw [if_neg hk, lookup_entry, ih]
      by_cases hn : n = name
      · have hnk : n ≠ k := fun h => hk (h.symm.trans hn)
        simp only [if_pos hn, if_neg hnk]
      · simp only [if_neg hn]

/-- **Entering an analysis** changes what is found under its name, and nothing else. -/
theorem lookup_register (c : Catalog) (name : String) (a : Analysis) (n : String) :
    (c.register name a).entries.lookup n = if n = name then some a else c.entries.lookup n := by
  unfold register
  rw [contains_eq_isSome]
  cases hfound : c.entries.lookup name with
  | some old =>
    show (c.entries.map fun e => if e.1 = name then (name, a) else e).lookup n = _
    rw [lookup_replace]
    by_cases hn : n = name
    · rw [if_pos hn, if_pos hn, hn, hfound, Option.map_some]
    · rw [if_neg hn, if_neg hn]
  | none =>
    show (c.entries ++ [(name, a)]).lookup n = _
    rw [List.lookup_append, lookup_entry, List.lookup_nil]
    by_cases hn : n = name
    · rw [if_pos hn, if_pos hn, hn, hfound, Option.none_or]
    · rw [if_neg hn, if_neg hn, Option.or_none]

/-- A catalog that came about by these entries, first to last, from the empty one. -/
inductive Entered : List (String × Analysis) → Catalog → Prop
  | empty : Entered [] {}
  | register {history : List (String × Analysis)} {c : Catalog} (h : Entered history c) (name : String)
      (a : Analysis) : Entered (history ++ [(name, a)]) (c.register name a)

/-- The built-in catalog came about by its three entries. -/
theorem Entered.builtin : Catalog.builtin.Entered [("value-numbering", .valueNumbering),
    ("liveness", .liveness .value), ("liveness-names", .liveness .name)] :=
  ((empty.register _ _).register _ _).register _ _

/-- The last entry of a name: none of those after it bears the name. -/
def LastEntered (history : List (String × Analysis)) (name : String) (a : Analysis) : Prop :=
  ∃ before after, history = before ++ (name, a) :: after ∧ ∀ e ∈ after, e.1 ≠ name

theorem lookup_reverse_eq_some :
    history.reverse.lookup name = some a ↔ LastEntered history name a := by
  rw [List.lookup_eq_some_iff]
  constructor
  · rintro ⟨after, before, hsplit, hafter⟩
    refine ⟨before.reverse, after.reverse, ?_, ?_⟩
    · rw [← List.reverse_reverse history, hsplit]
      simp
    · intro e he heq
      have hne : name ≠ e.1 := bne_iff_ne.mp (hafter e (List.mem_reverse.mp he))
      exact hne heq.symm
  · rintro ⟨before, after, rfl, hafter⟩
    refine ⟨after.reverse, before.reverse, by simp, ?_⟩
    intro e he
    exact bne_iff_ne.mpr (hafter e (List.mem_reverse.mp he)).symm

/-- **A catalog is its history read backwards.** -/
theorem Entered.lookup_eq (h : c.Entered history) (name : String) :
    c.entries.lookup name = history.reverse.lookup name := by
  induction h with
  | empty => rfl
  | register h n a ih =>
    rw [lookup_register, List.reverse_concat, lookup_entry, ih]

theorem find_eq_ok : c.find name = .ok a ↔ c.entries.lookup name = some a := by
  unfold find
  cases c.entries.lookup name with
  | none => simp
  | some b => simp

theorem find_of_not_contains (h : c.contains name = false) :
    c.find name = .error (.failed (.unknownAnalysis name)) := by
  rw [contains_eq_isSome, Option.isSome_eq_false_iff, Option.isNone_iff_eq_none] at h
  unfold find
  rw [h]

theorem exists_find_of_contains (h : c.contains name = true) : ∃ a, c.find name = .ok a := by
  rw [contains_eq_isSome, Option.isSome_iff_exists] at h
  obtain ⟨a, ha⟩ := h
  exact ⟨a, find_eq_ok.mpr ha⟩

/-- What a name finds is what was last entered under it. -/
theorem Entered.find_eq_ok_iff (h : c.Entered history) (name : String) (a : Analysis) :
    c.find name = .ok a ↔ LastEntered history name a := by
  rw [find_eq_ok, h.lookup_eq, lookup_reverse_eq_some]

/-- A name is in the catalog exactly if it was ever entered. -/
theorem Entered.contains_iff (h : c.Entered history) (name : String) :
    c.contains name = true ↔ ∃ a, (name, a) ∈ history := by
  rw [contains_eq_isSome, h.lookup_eq]
  constructor
  · intro hfound
    obtain ⟨a, ha⟩ := Option.isSome_iff_exists.mp hfound
    obtain ⟨before, after, rfl, -⟩ := lookup_reverse_eq_some.mp ha
    exact ⟨a, List.mem_append_right before List.mem_cons_self⟩
  · rintro ⟨a, ha⟩
    cases hnone : history.reverse.lookup name with
    | some b => rfl
    | none =>
      have hne := List.lookup_eq_none_iff.mp hnone (name, a) (List.mem_reverse.mpr ha)
      exact absurd rfl (bne_iff_ne.mp hne)

end Catalog

/-! ## The three phases of a run -/

namespace Pipeline

variable {p : Pipeline} {f : Func} {name : String}

/-- The first name of the plan that the catalog does not have. -/
def unknown? (p : Pipeline) : Option String := p.plan.passNames.find? fun n => !p.catalog.contains n

/-- **The first name without an entry decides.** -/
theorem passes_of_unknown (h : p.unknown? = some name) :
    p.passes = .error (.failed (.unknownAnalysis name)) := by
  obtain ⟨hname, before, after, hsplit, hbefore⟩ := List.find?_eq_some_iff_append.mp h
  unfold passes
  rw [hsplit]
  refine mapM_eq_error (fun n hn => ?_) (Catalog.find_of_not_contains ?_) after
  · exact Catalog.exists_find_of_contains (by simpa using hbefore n hn)
  · simpa using hname

/-- Without such a name, every name of the plan finds its analysis. -/
theorem exists_passes (h : p.unknown? = none) : ∃ passes, p.passes = .ok passes := by
  refine exists_mapM fun n hn => Catalog.exists_find_of_contains ?_
  simpa using List.find?_eq_none.mp h n hn

/-- The analyses in order, up to the first one that stops. -/
inductive GoesThrough (plan : Plan) (f : Func) : List Analysis → Transcript Unit → Prop
  | all {passes : List Analysis} (h : ∀ a ∈ passes, (a.run f plan).outcome = .ok ()) :
    GoesThrough plan f passes
      ⟨opening f :: .report .start :: passes.flatMap (said plan f), .ok ()⟩
  | stops {before : List Analysis} {a : Analysis} {halt : Halt} (after : List Analysis)
      (hbefore : ∀ b ∈ before, (b.run f plan).outcome = .ok ())
      (ha : (a.run f plan).outcome = .error halt) :
    GoesThrough plan f (before ++ a :: after)
      ⟨opening f :: .report .start :: (before ++ [a]).flatMap (said plan f), .error halt⟩

/-- **The first analysis that stops is the last.** -/
theorem goesThrough_of_ok {passes : List Analysis} (hpasses : p.passes = .ok passes)
    (hcheck : f.check = .ok ()) : GoesThrough p.plan f passes (p.run f) := by
  rw [run_of_ok hpasses hcheck]
  rcases Transcript.all_ok_or_halts (p.runPass f) passes with
    hall | ⟨before, a, after, halt, rfl, hbefore, ha⟩
  · rw [Transcript.forM_of_ok hall]
    exact .all hall
  · rw [Transcript.forM_of_halt hbefore ha]
    exact .stops after hbefore ha

/-- The run ends in this failure before it has reported anything: every journal stays as it is. -/
structure Refuses (p : Pipeline) (f : Func) (failure : Failure) : Prop where
  outcome : (p.run f).outcome = .error (.failed failure)
  reports : (p.run f).reports = []
  journal : ∀ j : Journal, j.fileAll f (p.run f) = j

theorem refuses_of_run {failure : Failure} (h : p.run f = ⟨[opening f], .error (.failed failure)⟩) :
    p.Refuses f failure := by
  constructor
  · rw [h]
  · rw [h]
    rfl
  · intro j
    rw [h]
    rfl

/-- **Refusals come before reports.**  Whatever analyses were entered into the catalog, the built-in
ones or others, under whatever names, and whatever the plan and the function:

1. a name is in the catalog exactly if it was ever entered, and finds the analysis entered last
   under it;
2. if the plan has a name that is not in the catalog, the run is refused for the first such name, no
   matter what is wrong with the function;
3. otherwise, if the function is not sound, the run is refused for the defect that validation finds;
4. otherwise the run first reports its start, and then goes through the analyses that the names of
   the plan find, in this order, and no further than to the first one that stops. -/
theorem refused_before_reporting {history : List (String × Analysis)} {p : Pipeline}
    (hentered : p.catalog.Entered history) (f : Func) :
    (∀ name, (p.catalog.contains name = true ↔ ∃ a, (name, a) ∈ history) ∧
      ∀ a, p.catalog.find name = .ok a ↔ Catalog.LastEntered history name a) ∧
    match p.unknown?, f.validate with
    | some name, _ => p.Refuses f (.unknownAnalysis name)
    | none, .error defect => p.Refuses f (.invalid f.name defect)
    | none, .ok () => (p.run f).reports.head? = some .start ∧
        ∃ passes, List.Forall₂ (Catalog.LastEntered history) p.plan.passNames passes ∧
          GoesThrough p.plan f passes (p.run f) := by
  refine ⟨fun name => ⟨hentered.contains_iff name, hentered.find_eq_ok_iff name⟩, ?_⟩
  cases hunknown : p.unknown? with
  | some name =>
    apply refuses_of_run
    rw [run_eq, passes_of_unknown hunknown]
  | none =>
    obtain ⟨passes, hpasses⟩ := exists_passes hunknown
    cases hvalid : f.validate with
    | error defect =>
      apply refuses_of_run
      rw [run_eq, hpasses, Func.check_of_defect hvalid]
    | ok u =>
      have hcheck : f.check = .ok () := Func.check_eq_ok.mpr (f.validate_eq_ok_iff.mp hvalid)
      refine ⟨?_, passes, ?_, goesThrough_of_ok hpasses hcheck⟩
      · rw [run_of_ok hpasses hcheck]
        rfl
      · exact (mapM_eq_ok.mp hpasses).imp fun _ _ h => (hentered.find_eq_ok_iff _ _).mp h

/-- The entries of the built-in catalog, and then one that takes the place of liveness. -/
def replacing : List (String × Analysis) :=
  [("value-numbering", .valueNumbering), ("liveness", .liveness .value),
    ("liveness-names", .liveness .name), ("liveness", restless)]

theorem entered_replacing : (Catalog.builtin.register "liveness" restless).Entered replacing :=
  Catalog.Entered.builtin.register "liveness" restless

/-- **Which refusal comes first.**  A function without blocks is refused for that, unless a name is
unknown; one with a block is started, and another analysis may run in the place of liveness. -/
theorem replacing_refused_before_reporting :
    (Catalog.builtin.register "liveness" restless).Entered replacing ∧
    Refuses ⟨{}, ({} : Catalog).register "liveness" restless⟩ { name := "f" }
      (.unknownAnalysis "value-numbering") ∧
    Refuses ⟨.only [.liveness, .valueNumbering], Catalog.builtin.register "liveness" restless⟩
      { name := "f" } (.invalid "f" .noBlocks) ∧
    (run ⟨.only [.liveness, .valueNumbering], Catalog.builtin.register "liveness" restless⟩
      { name := "f", blocks := #[{}] }).reports.head? = some .start ∧
    ∃ passes, List.Forall₂ (Catalog.LastEntered replacing) ["liveness", "value-numbering"] passes ∧
      GoesThrough (.only [.liveness, .valueNumbering]) { name := "f", blocks := #[{}] } passes
        (run ⟨.only [.liveness, .valueNumbering], Catalog.builtin.register "liveness" restless⟩
          { name := "f", blocks := #[{}] }) :=
  ⟨entered_replacing,
    (refused_before_reporting (p := ⟨{}, ({} : Catalog).register "liveness" restless⟩)
      (Catalog.Entered.empty.register "liveness" restless) { name := "f" }).2,
    (refused_before_reporting (p := ⟨.only [.liveness, .valueNumbering], _⟩) entered_replacing
      { name := "f" }).2,
    (refused_before_reporting (p := ⟨.only [.liveness, .valueNumbering], _⟩) entered_replacing
      { name := "f", blocks := #[{}] }).2⟩

end Pipeline

end Dataflow
