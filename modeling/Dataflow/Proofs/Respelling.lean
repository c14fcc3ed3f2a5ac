import Dataflow.Proofs.BuiltinRuns
import Dataflow.Proofs.NameTables

/-!
# What slots are called does not matter

Under name identity liveness asks of two names only whether they are one.  Take two functions that
differ in nothing but the names of their slots, where slots share a name in the one exactly if they
do in the other.  Then two runs over them, with any limit on sweeps, go through the same states and
end alike.

1. **The labels are the same** (`Respelling.alike`): the tables of both functions are built value by
   value, and at each slot both have seen its name before, at the same place, or neither has.

2. **So are the sets** (`Respelling.compute_outcome`): a key space is asked for labels and for their
   number, never for names, until something is shown.

3. **What is shown corresponds** (`Respelling.lists`): a label stands for a name in either function,
   and by (1) some slot bears the one there and the other here.
-/

namespace Dataflow

/-! ## Another spelling -/

/-- The value, without its name if it is a slot. -/
def Value.unnamed : Value → Value
  | .slot _ => .slot ""
  | v => v

/-- Values that are equal without their names are slots both, or equal. -/
theorem Value.cases_of_unnamed_eq {v w : Value} (h : w.unnamed = v.unnamed) :
    (∃ s r, v = .slot s ∧ w = .slot r) ∨ (w = v ∧ v.slotName? = none) := by
  cases v with
  | slot s =>
    cases w with
    | slot r => exact Or.inl ⟨s, r, rfl, rfl⟩
    | const c => nomatch h
    | arg n => nomatch h
    | result i => nomatch h
  | const c => cases w <;> simp_all [unnamed, slotName?]
  | arg n => cases w <;> simp_all [unnamed, slotName?]
  | result i => cases w <;> simp_all [unnamed, slotName?]

/-- Some slot is called `s` in `f` and `r` in `g`. -/
def Func.Matches (f g : Func) (s r : String) : Prop :=
  ∃ v : ValueId, f.values[v.index]? = some (.slot s) ∧ g.values[v.index]? = some (.slot r)

/-- **`g` is `f` with other names for its slots**: slots share a name in `g` exactly if they do in
`f`, and all the rest is the same. -/
structure Respelling (f g : Func) : Prop where
  name : g.name = f.name
  params : g.params = f.params
  insts : g.insts = f.insts
  blocks : g.blocks = f.blocks
  values : g.values.map Value.unnamed = f.values.map Value.unnamed
  names : ∀ {s s' r r' : String}, f.Matches g s r → f.Matches g s' r' → (s = s' ↔ r = r')

namespace Respelling

variable {f g : Func} {s r : String}

theorem size_eq (h : Respelling f g) : g.values.size = f.values.size := by
  have hsize := congrArg Array.size h.values
  rwa [Array.size_map, Array.size_map] at hsize

/-- Apart from the names of slots, the values are the same. -/
theorem unnamed_eq (h : Respelling f g) (n : Nat) :
    (g.values[n]?).map Value.unnamed = (f.values[n]?).map Value.unnamed := by
  have hat := congrArg (fun vs => vs[n]?) h.values
  rwa [Array.getElem?_map, Array.getElem?_map] at hat

/-- Results are where they were. -/
theorem result_iff (h : Respelling f g) {n : Nat} {i : InstId} :
    g.values[n]? = some (.result i) ↔ f.values[n]? = some (.result i) := by
  have hresult : ∀ o : Option Value, o = some (.result i) ↔ o.map Value.unnamed = some (.result i) := by
    rintro (_ | v)
    · simp
    · cases v <;> simp [Value.unnamed]
  rw [hresult g.values[n]?, hresult f.values[n]?, h.unnamed_eq]

/-- **Validation does not look at names.** -/
theorem validate_eq (h : Respelling f g) : g.validate = f.validate := by
  have hmentions : g.checkMentions = f.checkMentions := by
    funext i inst
    simp only [Func.checkMentions, h.size_eq, h.result_iff]
  have hlisted : g.checkListed = f.checkListed := by
    funext b placed i
    simp only [Func.checkListed, h.insts, hmentions]
  have hblock : g.checkBlock = f.checkBlock := by
    funext placed b
    simp only [Func.checkBlock, h.blocks, hlisted]
  simp only [Func.validate, Func.layout, h.blocks, hblock]

theorem check_eq (h : Respelling f g) : g.check = f.check := by
  simp only [Func.check, h.validate_eq, h.name]

theorem layout_eq (h : Respelling f g) : g.layout = f.layout := by
  simp only [Func.layout, h.blocks]

end Respelling

/-! ## The labels are the same -/

namespace NameTable

/-- Two values are slots with related names, or one and the same value and no slot. -/
inductive AlikeValues (M : String → String → Prop) : Value → Value → Prop where
  | slot {s r : String} (h : M s r) : AlikeValues M (.slot s) (.slot r)
  | other {v : Value} (h : v.slotName? = none) : AlikeValues M v v

/-- Two tables have the same labels, for related names. -/
structure Alike (M : String → String → Prop) (t t' : NameTable) : Prop where
  ids : t'.ids = t.ids
  names : List.Forall₂ M t.names t'.names

namespace Alike

variable {M : String → String → Prop} {t t' : NameTable}

section

variable (hM : ∀ {s s' r r' : String}, M s r → M s' r' → (s = s' ↔ r = r'))

include hM

/-- Related names are found at the same place. -/
theorem lookup?_eq (h : Alike M t t') {s r : String} (hsr : M s r) : t'.lookup? r = t.lookup? s := by
  have hfind : ∀ {names names' : List String}, List.Forall₂ M names names' →
      names'.findIdx? (fun a => a == r) = names.findIdx? (fun a => a == s) := by
    intro names names' hnames
    induction hnames with
    | nil => rfl
    | @cons a b _ _ hab _ ih =>
      have hbeq : (b == r) = (a == s) := by
        rw [Bool.eq_iff_iff, beq_iff_eq, beq_iff_eq]
        exact (hM hab hsr).symm
      rw [List.findIdx?_cons, List.findIdx?_cons, ih, hbeq]
  rw [lookup?, lookup?, hfind h.names]

/-- **Reading one more value** keeps tables alike. -/
theorem intern (h : Alike M t t') {v w : Value} (hvw : AlikeValues M v w) :
    Alike M (t.intern v) (t'.intern w) := by
  cases hvw with
  | other hv =>
    rw [intern_other hv, intern_other hv]
    exact ⟨congrArg (· ++ [none]) h.ids, h.names⟩
  | @slot s r hsr =>
    have hlookup := h.lookup?_eq hM hsr
    cases hknown : t.lookup? s with
    | some id =>
      rw [intern_known hknown, intern_known (hlookup.trans hknown)]
      exact ⟨congrArg (· ++ [some id]) h.ids, h.names⟩
    | none =>
      rw [intern_new hknown, intern_new (hlookup.trans hknown)]
      refine ⟨?_, List.rel_append h.names (.cons hsr .nil)⟩
      show t'.ids ++ [some ⟨t'.names.length⟩] = t.ids ++ [some ⟨t.names.length⟩]
      rw [h.ids, h.names.length_eq]

/-- Tables stay alike from value to value. -/
theorem foldl_intern {vs ws : List Value} (hvs : List.Forall₂ (AlikeValues M) vs ws)
    (h : Alike M t t') :
    Alike M (vs.foldl NameTable.intern t) (ws.foldl NameTable.intern t') := by
  induction hvs generalizing t t' with
  | nil => exact h
  | cons hvw _ ih => exact ih (h.intern hM hvw)

end

/-- Alike tables give every value the same label. -/
theorem nameOf?_eq (h : Alike M t t') (v : ValueId) : t'.nameOf? v = t.nameOf? v := by
  rw [nameOf?, nameOf?, h.ids]

theorem size_eq (h : Alike M t t') : t'.size = t.size := h.names.length_eq.symm

/-- A label stands for related names. -/
theorem resolve? (h : Alike M t t') {id : NameId} {s r : String} (hs : t.resolve? id = some s)
    (hr : t'.resolve? id = some r) : M s r := by
  obtain ⟨hlt, rfl⟩ := List.getElem?_eq_some_iff.mp hs
  obtain ⟨hlt', rfl⟩ := List.getElem?_eq_some_iff.mp hr
  exact h.names.get hlt hlt'

end Alike

end NameTable

/-- **The labels are the same in another spelling.** -/
theorem Respelling.alike {f g : Func} (h : Respelling f g) :
    NameTable.Alike (f.Matches g) (.ofFunc f) (.ofFunc g) := by
  refine NameTable.Alike.foldl_intern h.names ?_ ⟨rfl, .nil⟩
  refine List.forall₂_iff_get.mpr ⟨by simp [h.size_eq], fun n hn hn' => ?_⟩
  have hf : f.values[n]? = some (f.values.toList.get ⟨n, hn⟩) := Array.getElem?_eq_getElem hn
  have hg : g.values[n]? = some (g.values.toList.get ⟨n, hn'⟩) := Array.getElem?_eq_getElem hn'
  have hat := h.unnamed_eq n
  rw [hf, hg] at hat
  rcases Value.cases_of_unnamed_eq (Option.some.inj hat) with ⟨s, r, hs, hr⟩ | ⟨heq, hother⟩
  · rw [hs, hr]
    rw [hs] at hf
    rw [hr] at hg
    exact .slot ⟨⟨n⟩, hf, hg⟩
  · rw [heq]
    exact .other hother

/-! ## So are the sets -/

namespace KeySpace

variable {M : String → String → Prop} {t t' : NameTable}

theorem uses_eq (h : NameTable.Alike M t t') (inst : Instruction) :
    (names t').uses inst = (names t).uses inst := by
  obtain ⟨action, result⟩ := inst
  cases action <;> simp only [uses, h.nameOf?_eq]

theorem defs_eq (h : NameTable.Alike M t t') (inst : Instruction) :
    (names t').defs inst = (names t).defs inst := by
  obtain ⟨action, result⟩ := inst
  cases action <;> simp only [defs, h.nameOf?_eq]

end KeySpace

namespace Liveness

/-- The state with another key space. -/
def withKeys (l : Liveness) (keys : KeySpace) : Liveness := { l with keys := keys }

end Liveness

namespace Respelling

open Liveness

variable {f g : Func}

theorem size_keys_eq (h : Respelling f g) :
    (KeySpace.of .name g).size g = (KeySpace.of .name f).size f :=
  h.alike.size_eq

/-- The effects of blocks are sets of labels, so they are the same. -/
theorem effect_eq (h : Respelling f g) (insts : List InstId) :
    Effect.ofInsts? (.of .name g) g insts = Effect.ofInsts? (.of .name f) f insts := by
  have hstep : ∀ (e : Effect) (inst : Instruction),
      e.step (.of .name g) inst = e.step (.of .name f) inst := by
    intro e inst
    simp only [Effect.step, KeySpace.of, KeySpace.uses_eq h.alike, KeySpace.defs_eq h.alike]
  simp only [Effect.ofInsts?, h.insts, h.size_keys_eq, funext (hstep _)]

theorem start?_eq (h : Respelling f g) :
    start? (.of .name g) g = (start? (.of .name f) f).map fun l => l.withKeys (.of .name g) := by
  simp only [start?, h.effect_eq, h.blocks, h.size_keys_eq]
  cases f.blocks.toList.mapM fun b => Effect.ofInsts? (.of .name f) f b.insts <;> rfl

/-- The state before any sweep is the same up to how its keys are spelt. -/
theorem start_eq (h : Respelling f g) :
    start (.of .name g) g = (start (.of .name f) f).map fun l => l.withKeys (.of .name g) := by
  simp only [start, h.check_eq, h.start?_eq]
  cases f.check with
  | error halt => rfl
  | ok u => cases start? (.of .name f) f <;> rfl

/-- **Two runs go through the same states**, and end alike. -/
theorem compute_outcome (h : Respelling f g) (cap : Option SweepCap) :
    (compute (.of .name g) g cap).outcome
      = (compute (.of .name f) f cap).outcome.map fun l => l.withKeys (.of .name g) := by
  rw [compute_outcome_eq_steps, compute_outcome_eq_steps, h.start_eq]
  cases start (.of .name f) f with
  | error halt => rfl
  | ok l =>
    have hseries : (l.withKeys (.of .name g)).series? g cap = l.series? f cap := by
      rw [series?, series?, h.layout_eq]
      rfl
    show (Halt.require ((l.withKeys (.of .name g)).series? g cap) >>= fun s =>
      (l.withKeys (.of .name g)).verdict g cap s >>= _) = (Halt.require (l.series? f cap) >>= _).map _
    rw [hseries]
    cases l.series? f cap with
    | none => rfl
    | some s =>
      have hverdict : (l.withKeys (.of .name g)).verdict g cap s = l.verdict f cap s := by
        rw [verdict, verdict, h.name]
        rfl
      show ((l.withKeys (.of .name g)).verdict g cap s >>= _) = (l.verdict f cap s >>= _).map _
      rw [hverdict]
      cases l.verdict f cap s <;> rfl

end Respelling

/-! ## What is shown corresponds -/

/-- Labels of keys show the name of one slot in two functions. -/
inductive KeyLabel.Matches (f g : Func) : KeyLabel → KeyLabel → Prop where
  | name {s r : String} (h : f.Matches g s r) : Matches f g (.name s) (.name r)

/-- A list of labels of `g` is one of `f` with each name replaced by that of the same slots: in the
same order, and without repetition in either. -/
structure KeyLabel.Respell (f g : Func) (labels labels' : List KeyLabel) : Prop where
  corresponds : List.Forall₂ (KeyLabel.Matches f g) labels labels'
  nodup : labels.Nodup
  nodup' : labels'.Nodup

namespace KeySpace

/-- **The names shown for a set do not repeat.** -/
theorem Lists.nodup {f : Func} {s : WordSet} {labels : List KeyLabel}
    (h : (of .name f).Lists s labels) :
    labels.Nodup := by
  obtain ⟨ks, hascending, -, hlabels⟩ := h
  have hks : ks.Nodup := hascending.imp Nat.ne_of_lt
  apply List.Nodup.of_map some
  rw [← hlabels]
  refine List.Nodup.map_on (fun k hk k' _ heq => ?_) hks
  obtain ⟨label, -, hlabel⟩ := List.mem_map.mp (hlabels ▸ List.mem_map_of_mem hk)
  obtain ⟨name, hname, rfl⟩ := Option.map_eq_some_iff.mp hlabel.symm
  obtain ⟨name', hname', hsame⟩ := Option.map_eq_some_iff.mp (heq.symm.trans hlabel.symm)
  obtain rfl := KeyLabel.name.inj hsame
  exact congrArg NameId.index (NameTable.resolve?_inj (NameTable.nodup_ofFunc f) hname hname')

end KeySpace

/-- What two functions answer for the members of a list corresponds, if it does for each. -/
theorem forall₂_of_map_eq {α β γ : Type} {R : β → γ → Prop} {p : α → Option β} {q : α → Option γ}
    (hR : ∀ a b c, p a = some b → q a = some c → R b c) {as : List α} {bs : List β} {cs : List γ}
    (hbs : as.map p = bs.map some) (hcs : as.map q = cs.map some) : List.Forall₂ R bs cs := by
  induction as generalizing bs cs with
  | nil =>
    obtain rfl := List.map_eq_nil_iff.mp hbs.symm
    obtain rfl := List.map_eq_nil_iff.mp hcs.symm
    exact .nil
  | cons a as ih =>
    obtain ⟨b, bs, rfl, hb, hbs⟩ := List.map_eq_cons_iff.mp hbs.symm
    obtain ⟨c, cs, rfl, hc, hcs⟩ := List.map_eq_cons_iff.mp hcs.symm
    exact .cons (hR a b c hb.symm hc.symm) (ih hbs.symm hcs.symm)

namespace Respelling

variable {f g : Func}

/-- **What is shown corresponds**: one set is listed over both functions by names of the same
slots. -/
theorem lists (h : Respelling f g) {s : WordSet} {labels labels' : List KeyLabel}
    (hf : (KeySpace.of .name f).Lists s labels) (hg : (KeySpace.of .name g).Lists s labels') :
    KeyLabel.Respell f g labels labels' := by
  refine ⟨?_, hf.nodup, hg.nodup⟩
  obtain ⟨ks, hks, hmem, hlabels⟩ := hf
  obtain ⟨ks', hks', hmem', hlabels'⟩ := hg
  obtain rfl : ks = ks' := hks.eq_of_mem_iff hks' fun k => (hmem k).trans (hmem' k).symm
  refine forall₂_of_map_eq (fun k label label' hlabel hlabel' => ?_) hlabels hlabels'
  obtain ⟨s, hs, rfl⟩ := Option.map_eq_some_iff.mp hlabel
  obtain ⟨r, hr, rfl⟩ := Option.map_eq_some_iff.mp hlabel'
  exact .name (h.alike.resolve? hs hr)

end Respelling

/-! ## The headline -/

namespace Liveness

open Sweep

/-- **Liveness by name depends only on which names are equal.**  Take two functions that are the
same but for the names of their slots, where slots share a name in `g` exactly if they do in `f`, be
they sound or not, and any limit on sweeps.

1. A run over one fails exactly if a run over the other does, and for the same reason: the same
   defect, or the same number of sweeps.
2. If they answer, they take the same number of sweeps, and every block has the same sets of keys in
   both, those live at its start included.
3. What a block reports in `g` is what it reports in `f`, with each name replaced by that of the
   same slots, in the same order, and no name twice. -/
theorem respelling_keeps_liveness {f g : Func} (h : Respelling f g) (cap : Option SweepCap) :
    (∀ halt, (compute (.of .name g) g cap).outcome = .error halt ↔
      (compute (.of .name f) f cap).outcome = .error halt) ∧
    ∀ l, (compute (.of .name f) f cap).outcome = .ok l → ∃ l',
      (compute (.of .name g) g cap).outcome = .ok l' ∧ l'.sweeps = l.sweeps ∧
      l'.blocks.size = l.blocks.size ∧ ∀ b : BlockId, b.index < f.blocks.size → ∃ sets report report',
        l.block? b = some sets ∧ l'.block? b = some sets ∧
        l.report? b = some report ∧ l'.report? b = some report' ∧
        report'.identity = report.identity ∧ report'.block = report.block ∧
        KeyLabel.Respell f g report.exposed report'.exposed ∧
        KeyLabel.Respell f g report.killed report'.killed ∧
        KeyLabel.Respell f g report.liveOut report'.liveOut := by
  have houtcome := h.compute_outcome cap
  refine ⟨fun halt => ?_, fun l hl => ?_⟩
  · rw [houtcome]
    cases (compute (.of .name f) f cap).outcome <;> simp [Except.map]
  · rw [hl] at houtcome
    refine ⟨_, houtcome, rfl, rfl, fun b hb => ?_⟩
    have hkeyed := (Reachable.compute hl).keyed
    have hkeyed' := (Reachable.compute houtcome).keyed
    obtain ⟨sets, hsets⟩ := exists_block (l := l) (b := b) (by rw [size_of_compute hl]; exact hb)
    obtain ⟨report, hreport⟩ := hkeyed.exists_report hsets
    obtain ⟨report', hreport'⟩ := hkeyed'.exists_report (b := b) hsets
    obtain ⟨hblock, hidentity, sets₁, hsets₁, hlists⟩ := report?_spec hreport
    obtain ⟨hblock', hidentity', sets₂, hsets₂, hlists'⟩ := report?_spec hreport'
    obtain rfl := Option.some.inj (hsets.symm.trans hsets₁)
    obtain rfl := Option.some.inj (hsets.symm.trans hsets₂)
    rw [hkeyed.keys_eq] at hidentity hlists
    refine ⟨sets, report, report', hsets, hsets, hreport, hreport', hidentity'.trans hidentity.symm,
      hblock'.trans hblock.symm, h.lists hlists.1 hlists'.1, h.lists hlists.2.1 hlists'.2.1,
      h.lists hlists.2.2 hlists'.2.2⟩

/-- Two slots of one name and one of another, copied and read in a loop. -/
def crossing : Func where
  name := "crossing"
  values := #[.slot "x", .slot "y", .slot "x", .result ⟨0⟩, .result ⟨2⟩]
  insts := #[⟨.load ⟨1⟩, some ⟨3⟩⟩, ⟨.store ⟨3⟩ ⟨0⟩, none⟩, ⟨.load ⟨2⟩, some ⟨4⟩⟩]
  blocks := #[⟨[⟨0⟩, ⟨1⟩], [⟨1⟩]⟩, ⟨[⟨2⟩], [⟨0⟩]⟩]

/-- Other names for the slots of `crossing`, of which the first comes last in the alphabet. -/
def crossingRenamed : Func :=
  { crossing with values := #[.slot "z", .slot "a", .slot "z", .result ⟨0⟩, .result ⟨2⟩] }

theorem respelling_crossing : Respelling crossing crossingRenamed where
  name := rfl
  params := rfl
  insts := rfl
  blocks := rfl
  values := by simp [crossing, crossingRenamed, Value.unnamed]
  names := by
    have hpairs : ∀ {s r : String}, crossing.Matches crossingRenamed s r →
        (s = "x" ∧ r = "z") ∨ (s = "y" ∧ r = "a") := by
      rintro s r ⟨⟨n⟩, hs, hr⟩
      match n, hs, hr with
      | 0, hs, hr => exact Or.inl ⟨(by cases hs; rfl), (by cases hr; rfl)⟩
      | 1, hs, hr => exact Or.inr ⟨(by cases hs; rfl), (by cases hr; rfl)⟩
      | 2, hs, hr => exact Or.inl ⟨(by cases hs; rfl), (by cases hr; rfl)⟩
      | 3, hs, _ => nomatch hs
      | 4, hs, _ => nomatch hs
    intro s s' r r' h h'
    rcases hpairs h with ⟨rfl, rfl⟩ | ⟨rfl, rfl⟩
    · rcases hpairs h' with ⟨rfl, rfl⟩ | ⟨rfl, rfl⟩ <;> decide
    · rcases hpairs h' with ⟨rfl, rfl⟩ | ⟨rfl, rfl⟩ <;> decide

/-- At rest, the first block of `crossing` reports its two names in the order in which they appear,
and so does the other spelling of it; with one sweep only, both give up. -/
theorem crossing_respelling_keeps_liveness :
    Respelling crossing crossingRenamed ∧
    (∃ l l' report report', (compute (.of .name crossing) crossing none).outcome = .ok l ∧
      (compute (.of .name crossingRenamed) crossingRenamed none).outcome = .ok l' ∧
      l.sweeps = 2 ∧ l'.sweeps = l.sweeps ∧ l.report? ⟨0⟩ = some report ∧
        l'.report? ⟨0⟩ = some report' ∧
      report.liveOut = [.name "x", .name "y"] ∧ report'.liveOut = [.name "z", .name "a"] ∧
      KeyLabel.Respell crossing crossingRenamed report.liveOut report'.liveOut) ∧
    (compute (.of .name crossingRenamed) crossingRenamed (SweepCap.ofNat? 1)).outcome
      = .error (.failed (.diverged "crossing" 1)) := by
  have hrun : (compute (.of .name crossing) crossing none).outcome = .ok _ := rfl
  obtain ⟨l', hl', hsweeps, -, hblocks⟩ := (respelling_keeps_liveness respelling_crossing none).2 _ hrun
  obtain ⟨-, report, report', -, -, hreport, hreport', -, -, -, -, hlive⟩ := hblocks ⟨0⟩ (by decide)
  have hrun' : (compute (.of .name crossingRenamed) crossingRenamed none).outcome = .ok _ := rfl
  obtain rfl := Except.ok.inj (hrun'.symm.trans hl')
  refine ⟨respelling_crossing, ⟨_, _, report, report', hrun, hrun', rfl, hsweeps, hreport, hreport',
    ?_, ?_, hlive⟩, ?_⟩
  · obtain rfl := Option.some.inj hreport
    rfl
  · obtain rfl := Option.some.inj hreport'
    rfl
  · exact ((respelling_keeps_liveness respelling_crossing (SweepCap.ofNat? 1)).1 _).mpr rfl

end Liveness

end Dataflow
