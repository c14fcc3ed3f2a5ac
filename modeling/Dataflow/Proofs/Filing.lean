import Dataflow.Proofs.BuiltinRuns

/-!
# Nothing is lost, doubled or misfiled

A journal can be fed by hand: reports about any functions in any order, started or not, under names
that may be equal.  Records are then opened, continued and opened again as the names happen to
change.  What was reported can be read off all the same.

1. **One call** is known from `Journal.file_concat`.  It leaves the names of the records as they
   are, but for one that it may add at the end (`Journal.names_file`), and all records but the last
   it leaves (`Journal.getElem?_file`).

2. **The entries** (`Journal.entries`): read the records in order and, in each, one of its lists in
   order, and note by each entry the name of its record.  A call adds what it reports, under the
   name of its function (`Journal.entries_file`): either to the last record, which bears that name,
   or to a new one.  So after any calls the entries are what was reported, in the order of the calls
   (`Journal.entries_fileCalls`).

Events and blocks are filed alike, in two lists of a record, and (2) is proved once for both
(`Collects`).
-/

namespace Dataflow

/-! ## The lists of a record -/

/-- The list `part` of a record is empty at first, and collects what `piece` takes out of
reports. -/
structure Collects {α : Type} (part : Record → List α) (piece : Report → Option α) : Prop where
  fresh : ∀ name, part { name := name } = []
  add : ∀ r report, part (r.add report) = part r ++ (piece report).toList

theorem collects_numbering : Collects Record.numbering Report.event? where
  fresh _ := rfl
  add r report := by cases report <;> simp [Record.add, Report.event?]

theorem collects_blocks : Collects Record.blocks Report.block? where
  fresh _ := rfl
  add r report := by cases report <;> simp [Record.add, Report.block?]

namespace Journal

variable {α : Type} {part : Record → List α} {piece : Report → Option α}

/-- One list of the records, in order, each entry with the name of its record. -/
def entries (part : Record → List α) (j : Journal) : List (String × α) :=
  j.records.flatMap fun r => (part r).map (Prod.mk r.name)

theorem map_snd_entries (part : Record → List α) (j : Journal) :
    (j.entries part).map Prod.snd = j.records.flatMap part := by
  rw [entries, List.map_flatMap]
  congr
  funext r
  rw [List.map_map]
  exact List.map_id _

/-! ## One call -/

/-- The report goes on with the last record: it starts nothing, and the record bears the right
name. -/
def Continues (j : Journal) (name : String) (report : Report) : Prop :=
  report ≠ .start ∧ j.records.getLast?.map Record.name = some name

instance (j : Journal) (name : String) (report : Report) : Decidable (j.Continues name report) :=
  inferInstanceAs (Decidable (_ ∧ _))

theorem opens_eq_false {last : Record} {name : String} {report : Report} :
    report.opens last name = false ↔ report ≠ .start ∧ last.name = name := by
  cases report <;> simp [Report.opens]

/-- **What a call does**: the last record takes the report, or a new record does. -/
theorem file_cases (j : Journal) (name : String) (report : Report) :
    (∃ before last, j = ⟨before ++ [last]⟩ ∧ last.name = name ∧ report ≠ .start ∧
      j.file name report = ⟨before ++ [last.add report]⟩) ∨
    (¬ j.Continues name report ∧
      j.file name report = ⟨j.records ++ [({ name := name } : Record).add report]⟩) := by
  obtain ⟨records⟩ := j
  rcases List.eq_nil_or_concat' records with rfl | ⟨before, last, rfl⟩
  · refine Or.inr ⟨fun h => (nomatch h.2), ?_⟩
    rw [file_nil]
    rfl
  · cases hopens : report.opens last name with
    | false =>
      obtain ⟨hstart, hname⟩ := opens_eq_false.mp hopens
      refine Or.inl ⟨before, last, rfl, hname, hstart, ?_⟩
      rw [file_concat, hopens]
      rfl
    | true =>
      refine Or.inr ⟨fun h => ?_, ?_⟩
      · have hname : last.name = name := by simpa using h.2
        rw [opens_eq_false.mpr ⟨h.1, hname⟩] at hopens
        nomatch hopens
      · rw [file_concat, hopens, List.append_assoc]
        rfl

/-- **No record is removed or renamed**, and one is added unless the report goes on with the
last. -/
theorem names_file (j : Journal) (name : String) (report : Report) :
    (j.file name report).records.map Record.name
      = j.records.map Record.name ++ if j.Continues name report then [] else [name] := by
  rcases file_cases j name report with ⟨before, last, rfl, hname, hstart, hfile⟩ | ⟨hnot, hfile⟩
  · have hcontinues : Continues ⟨before ++ [last]⟩ name report := ⟨hstart, by simp [hname]⟩
    rw [hfile, if_pos hcontinues, List.append_nil, List.map_append, List.map_append, List.map_singleton,
      List.map_singleton, Record.name_add]
  · rw [hfile, if_neg hnot, List.map_append, List.map_singleton, Record.name_add]

/-- **All records but the last one left are as they were.** -/
theorem getElem?_file (j : Journal) (name : String) (report : Report) {i : Nat}
    (hi : i + 1 < (j.file name report).records.length) :
    (j.file name report).records[i]? = j.records[i]? := by
  rcases file_cases j name report with ⟨before, last, rfl, -, -, hfile⟩ | ⟨-, hfile⟩
  · rw [hfile, List.length_append, List.length_singleton] at hi
    have hlt : i < before.length := by omega
    rw [hfile, List.getElem?_append_left hlt, List.getElem?_append_left hlt]
  · rw [hfile, List.length_append, List.length_singleton] at hi
    have hlt : i < j.records.length := by omega
    rw [hfile, List.getElem?_append_left hlt]

/-- **A call adds what it reports, under the name of its function.** -/
theorem entries_file (h : Collects part piece) (j : Journal) (name : String) (report : Report) :
    (j.file name report).entries part = j.entries part ++ (piece report).toList.map (Prod.mk name) := by
  simp only [entries]
  rcases file_cases j name report with ⟨before, last, rfl, rfl, -, hfile⟩ | ⟨-, hfile⟩
  · simp only [hfile, List.flatMap_append, List.flatMap_singleton, h.add, Record.name_add,
      List.map_append, List.append_assoc]
  · simp only [hfile, List.flatMap_append, List.flatMap_singleton, h.add, h.fresh, Record.name_add,
      List.nil_append]

/-! ## Any number of calls -/

/-- Files reports about functions one after the other. -/
def fileCalls (j : Journal) (calls : List (Func × Report)) : Journal :=
  calls.foldl (fun j call => j.file call.1.name call.2) j

/-- **After any calls the entries are what was reported**, in the order of the calls. -/
theorem entries_fileCalls (h : Collects part piece) (j : Journal) (calls : List (Func × Report)) :
    (j.fileCalls calls).entries part
      = j.entries part ++ calls.filterMap fun call => (piece call.2).map (Prod.mk call.1.name) := by
  induction calls generalizing j with
  | nil => exact (List.append_nil _).symm
  | cons call calls ih =>
    rw [fileCalls, List.foldl_cons, ← fileCalls, ih, entries_file h, List.append_assoc]
    cases hpiece : piece call.2 <;> simp [hpiece]

theorem fileCalls_flatMap (h : Collects part piece) (calls : List (Func × Report)) :
    (({} : Journal).fileCalls calls).records.flatMap part
      = calls.filterMap fun call => piece call.2 := by
  rw [← map_snd_entries, entries_fileCalls h, List.map_append, List.map_filterMap]
  simp [entries, Function.comp_def]

/-! ## The headline -/

/-- **A journal loses, doubles and misfiles nothing.**  Whatever is reported about whatever
functions, in any order, into a journal that is empty at first:

1. the events of all records, strung together, are those reported, in the order of the calls;
2. so are the blocks, each as it was reported;
3. every event and every block stands in a record that bears the name of the function it was
   reported about.

And whatever a journal holds when a call is made:

4. a start adds one record at the end, which is empty and bears the name of the function;
5. any call leaves every record as it was but the last one that is there after it;
6. and it removes and renames none: it adds a record for its function at the end if it is a start or
   the last record bears another name, and otherwise it adds none. -/
theorem filing_is_faithful (calls : List (Func × Report)) :
    (({} : Journal).fileCalls calls).records.flatMap Record.numbering
      = calls.filterMap (fun call => call.2.event?) ∧
    (({} : Journal).fileCalls calls).records.flatMap Record.blocks
      = calls.filterMap (fun call => call.2.block?) ∧
    (({} : Journal).fileCalls calls).entries Record.numbering
      = calls.filterMap (fun call => call.2.event?.map (Prod.mk call.1.name)) ∧
    (({} : Journal).fileCalls calls).entries Record.blocks
      = calls.filterMap (fun call => call.2.block?.map (Prod.mk call.1.name)) ∧
    ∀ (j : Journal) (f : Func),
      (j.file f.name .start).records = j.records ++ [⟨f.name, [], []⟩] ∧
      ∀ report, (∀ i, i + 1 < (j.file f.name report).records.length →
          (j.file f.name report).records[i]? = j.records[i]?) ∧
        (j.file f.name report).records.map Record.name
          = j.records.map Record.name ++ if j.Continues f.name report then [] else [f.name] := by
  refine ⟨fileCalls_flatMap collects_numbering calls, fileCalls_flatMap collects_blocks calls,
    entries_fileCalls collects_numbering {} calls, entries_fileCalls collects_blocks {} calls,
    fun j f => ⟨rfl, fun report => ⟨fun i hi => ?_, j.names_file f.name report⟩⟩⟩
  exact j.getElem?_file f.name report hi

end Journal

end Dataflow
