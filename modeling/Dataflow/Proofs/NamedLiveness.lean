import Dataflow.Proofs.Convergence

/-!
# A name is live only where a slot of that name is

Under name identity slots of one name are one key, and nothing but stores and loads counts; under
value identity every operand and every result does.  The two runs sum up a block differently, so
their sets cannot be compared one by one.  Their paths can.

1. **A read** (`exists_value_reads`): an instruction that reads a name has a slot of that name among
   its operands.

2. **An overwrite** (`overwrites_name`): a listed instruction that overwrites a slot overwrites its
   name, since all it can overwrite besides where it stores is its own result, and in a sound
   function that is no slot.

So the path that makes a name live makes a slot live: the one that is read at its end
(`exists_value_liveFrom`).
-/

namespace Dataflow

/-- Value `v` of the function is a slot, and label `n` stands for its name. -/
def Func.Bears (f : Func) (v : ValueId) (n : NameId) : Prop :=
  ∃ name, (NameTable.ofFunc f).resolve? n = some name ∧ f.values[v.index]? = some (.slot name)

namespace KeySpace

variable {f : Func} {n : NameId} {v : ValueId}

/-! ## Reading and overwriting -/

/-- **An instruction that reads a name reads a slot of that name.** -/
theorem exists_value_reads {table : NameTable} {i : InstId} (h : (names table).Reads f n.index i) :
    ∃ v, table.nameOf? v = some n ∧ values.Reads f v.index i := by
  obtain ⟨⟨action, result⟩, hinst, hk⟩ := h
  have hlabel : ∀ {v : ValueId}, n.index ∈ ((table.nameOf? v).map NameId.index).toList →
      table.nameOf? v = some n := by
    intro v hv
    obtain ⟨⟨m⟩, hm, rfl⟩ := Option.map_eq_some_iff.mp (Option.mem_toList.mp hv)
    exact hm
  cases action with
  | store value ptr =>
    refine ⟨value, hlabel hk, _, hinst, ?_⟩
    show value.index ∈ [value.index, ptr.index]
    exact List.mem_cons_self
  | load ptr =>
    refine ⟨ptr, hlabel hk, _, hinst, ?_⟩
    show ptr.index ∈ [ptr.index]
    exact List.mem_cons_self
  | binary op lhs rhs => nomatch hk
  | other opcode operands => nomatch hk

/-- A slot is no instruction's result. -/
theorem not_mem_result (hs : f.Sound) {b : BlockId} {i : InstId} (hi : i ∈ f.instsOf b)
    {inst : Instruction} (hinst : f.insts[i.index]? = some inst) (hv : f.Bears v n) :
    v.index ∉ inst.result.toList.map ValueId.index := by
  intro hmem
  obtain ⟨w, hw, hindex⟩ := List.mem_map.mp hmem
  obtain ⟨block, hblock, hi⟩ := Func.mem_instsOf.mp hi
  obtain ⟨inst', hinst', -, hresult⟩ := hs.exists_inst (Func.mem_layout.mp hblock) hi
  obtain rfl := Option.some.inj (hinst.symm.trans hinst')
  obtain ⟨name, -, hslot⟩ := hv
  have hown := hresult w (Option.mem_toList.mp hw)
  rw [hindex, hslot] at hown
  nomatch hown

/-- **A listed instruction that overwrites a slot overwrites its name.** -/
theorem overwrites_name (hs : f.Sound) {b : BlockId} {i : InstId} (hi : i ∈ f.instsOf b)
    (hv : (NameTable.ofFunc f).nameOf? v = some n) (h : values.Overwrites f v.index i) :
    (names (.ofFunc f)).Overwrites f n.index i := by
  obtain ⟨⟨action, result⟩, hinst, hk⟩ := h
  have hresult := not_mem_result hs hi hinst (NameTable.exists_slot_of_nameOf? hv)
  cases action with
  | store value ptr =>
    rcases List.mem_cons.mp hk with hptr | hk
    · obtain rfl : v = ptr := congrArg ValueId.mk hptr
      refine ⟨_, hinst, ?_⟩
      show n.index ∈ (((NameTable.ofFunc f).nameOf? v).map NameId.index).toList
      rw [hv]
      exact List.mem_cons_self
    · exact absurd hk hresult
  | load ptr => exact absurd hk hresult
  | binary op lhs rhs => exact absurd hk hresult
  | other opcode operands => exact absurd hk hresult

/-- Instructions of a block that leave a name alone leave its slots alone. -/
theorem spares_value (hs : f.Sound) {b : BlockId} {insts : List InstId} (hinsts : insts ⊆ f.instsOf b)
    (hv : (NameTable.ofFunc f).nameOf? v = some n) (h : (names (.ofFunc f)).Spares f n.index insts) :
    values.Spares f v.index insts := by
  intro i hi hover
  exact h i hi (overwrites_name hs (hinsts hi) hv hover)

/-! ## Paths -/

/-- **A name that is live has a slot that is**: the path is the same, and the slot is the one read
at its end. -/
theorem exists_value_liveFrom (hs : f.Sound) {b : BlockId}
    (h : (names (.ofFunc f)).LiveFrom f n.index b) :
    ∃ v, (NameTable.ofFunc f).nameOf? v = some n ∧ values.LiveFrom f v.index b := by
  refine LiveFrom.induct
    (P := fun b => ∃ v, (NameTable.ofFunc f).nameOf? v = some n ∧ values.LiveFrom f v.index b) ?_ ?_ h
  · -- the last block: what comes before the read leaves the slot alone
    rintro b ⟨before, i, after, hinsts, hreads, hspares⟩
    obtain ⟨v, hv, hvalue⟩ := exists_value_reads hreads
    have hbefore : before ⊆ f.instsOf b := by
      rw [hinsts]
      exact List.subset_append_left _ _
    exact ⟨v, hv, liveFrom_of_readsFirst
      ⟨before, i, after, hinsts, hvalue, spares_value hs hbefore hv hspares⟩⟩
  · -- a block before it: the slot is known by now, and passes
    rintro b s hspares hedge - ⟨v, hv, hlive⟩
    exact ⟨v, hv,
      liveFrom_of_liveAfter (spares_value hs (List.Subset.refl _) hv hspares) ⟨s, hedge, hlive⟩⟩

theorem exists_value_liveAfter (hs : f.Sound) {b : BlockId}
    (h : (names (.ofFunc f)).LiveAfter f b n.index) :
    ∃ v, (NameTable.ofFunc f).nameOf? v = some n ∧ values.LiveAfter f b v.index := by
  obtain ⟨s, hedge, hlive⟩ := h
  obtain ⟨v, hv, hvalue⟩ := exists_value_liveFrom hs hlive
  exact ⟨v, hv, s, hedge, hvalue⟩

end KeySpace

namespace Liveness

open Sweep

/-! ## The headline -/

/-- **Names are never live where values are not.**  On every function that validates, liveness
without a cap answers under both identities.  Wherever it finds a name of the function live under
name identity, at the end of a block or at its start, it finds some slot of that name live there
under value identity.  As for the default bound, the number of blocks has to be a count with one to
spare. -/
theorem live_name_has_live_slot (f : Func) (hvalid : f.validate = .ok ())
    (hroom : f.blocks.size < maxCount) :
    ∃ byName byValue, (compute (.of .name f) f none).outcome = .ok byName ∧
      (compute (.of .value f) f none).outcome = .ok byValue ∧
      ∀ b : BlockId, b.index < f.blocks.size → ∃ named valued,
        byName.block? b = some named ∧ byValue.block? b = some valued ∧ ∀ n : NameId,
          (n.index ∈ named.liveOut → ∃ v, f.Bears v n ∧ v.index ∈ valued.liveOut) ∧
          (n.index ∈ named.liveIn → ∃ v, f.Bears v n ∧ v.index ∈ valued.liveIn) := by
  have hs : f.Sound := f.validate_eq_ok_iff.mp hvalid
  obtain ⟨byName, hname⟩ := exists_compute .name f hs hroom
  obtain ⟨byValue, hvalue⟩ := exists_compute .value f hs hroom
  refine ⟨byName, byValue, hname, hvalue, fun b hb => ?_⟩
  obtain ⟨named, hnamed, hnames⟩ := compute_sets hname hb
  obtain ⟨valued, hvalued, hvalues⟩ := compute_sets hvalue hb
  refine ⟨named, valued, hnamed, hvalued, fun n => ⟨fun hout => ?_, fun hin => ?_⟩⟩
  · have hafter := (hnames n.index).2.2.1.mp hout
    obtain ⟨v, hv, hlive⟩ := KeySpace.exists_value_liveAfter hs hafter
    exact ⟨v, NameTable.exists_slot_of_nameOf? hv, (hvalues v.index).2.2.1.mpr hlive⟩
  · have hfrom := (hnames n.index).2.2.2.mp hin
    obtain ⟨v, hv, hlive⟩ := KeySpace.exists_value_liveFrom hs hfrom
    exact ⟨v, NameTable.exists_slot_of_nameOf? hv, (hvalues v.index).2.2.2.mpr hlive⟩

/-- One of two slots of a name is stored to, the other is then loaded in a loop. -/
def twins : Func where
  name := "twins"
  values := #[.slot "x", .const (.int 1), .slot "x", .result ⟨1⟩]
  insts := #[⟨.store ⟨1⟩ ⟨0⟩, none⟩, ⟨.load ⟨2⟩, some ⟨3⟩⟩]
  blocks := #[⟨[⟨0⟩], [⟨1⟩]⟩, ⟨[⟨1⟩], [⟨1⟩]⟩]

/-- The store to one slot of `twins` ends the life of the name, and not that of the other slot. -/
theorem twins_live_name_has_live_slot :
    twins.validate = .ok () ∧ twins.blocks.size < maxCount ∧
      ∃ byName byValue named valued, (compute (.of .name twins) twins none).outcome = .ok byName ∧
        (compute (.of .value twins) twins none).outcome = .ok byValue ∧
        byName.block? ⟨0⟩ = some named ∧ byValue.block? ⟨0⟩ = some valued ∧
        named.liveOut.toList = [0] ∧ valued.liveOut.toList = [2] ∧
        named.liveIn.toList = [] ∧ valued.liveIn.toList = [0, 1, 2] ∧
        ∃ v, twins.Bears v ⟨0⟩ ∧ v.index ∈ valued.liveOut := by
  have hvalid : twins.validate = .ok () := rfl
  have hname : (compute (.of .name twins) twins none).outcome = .ok _ := rfl
  have hvalue : (compute (.of .value twins) twins none).outcome = .ok _ := rfl
  obtain ⟨byName, byValue, hname', hvalue', hblocks⟩ := live_name_has_live_slot twins hvalid (by decide)
  obtain rfl := Except.ok.inj (hname.symm.trans hname')
  obtain rfl := Except.ok.inj (hvalue.symm.trans hvalue')
  obtain ⟨named, valued, hnamed, hvalued, hlive⟩ := hblocks ⟨0⟩ (by decide)
  obtain rfl := Option.some.inj hnamed
  obtain rfl := Option.some.inj hvalued
  exact ⟨hvalid, by decide, _, _, _, _, hname, hvalue, hnamed, hvalued, rfl, rfl, rfl, rfl,
    (hlive ⟨0⟩).1 rfl⟩

end Liveness

end Dataflow
