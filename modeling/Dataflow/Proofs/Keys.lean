import Dataflow.Proofs.Effects

/-!
# Keys in range

Whatever a placed instruction reads or overwrites is a key of the space.  Under value identity that
is what validation promises; under name identity it is a matter of the name table, which never hands
out a label without a name (`NameTable.Closed`), so it holds for a table taken from any function at
all.  The name of a label is that of every slot which has the label (`NameTable.Labels`).
-/

namespace Dataflow

/-! ## Name tables -/

namespace NameTable

/-- Every label that the table hands out has a name. -/
def Closed (t : NameTable) : Prop := ∀ id, some id ∈ t.ids → id.index < t.names.length

/-- Interning keeps the table closed: a new label is that of the name just added. -/
theorem Closed.intern {t : NameTable} (ht : t.Closed) (v : Value) : (t.intern v).Closed := by
  unfold NameTable.intern
  intro id
  cases v.slotName? with
  | none =>
    dsimp only
    intro hid
    rw [List.mem_append] at hid
    rcases hid with hid | hid
    · exact ht id hid
    · simp at hid
  | some name =>
    dsimp only
    cases hlookup : t.lookup? name with
    | none =>
      dsimp only
      intro hid
      rw [List.mem_append] at hid
      rw [List.length_append]
      rcases hid with hid | hid
      · have := ht id hid
        omega
      · obtain rfl : id = ⟨t.names.length⟩ := by simpa using hid
        exact Nat.lt_succ_self _
    | some known =>
      dsimp only
      intro hid
      rw [List.mem_append] at hid
      rcases hid with hid | hid
      · exact ht id hid
      · obtain rfl : id = known := by simpa using hid
        obtain ⟨n, hn, rfl⟩ := Option.map_eq_some_iff.mp hlookup
        exact (List.findIdx?_eq_some_iff_findIdx_eq.mp hn).1

/-- The table is that of these values, one label or none for each: a label stands for the name of
the slot. -/
def Labels (t : NameTable) (vs : List Value) : Prop :=
  t.ids.map (fun id => id.bind t.resolve?) = vs.map Value.slotName?

/-- A name that is found has the label it is found by. -/
theorem resolve?_of_lookup? {t : NameTable} {name : String} {id : NameId}
    (h : t.lookup? name = some id) :
    t.resolve? id = some name := by
  obtain ⟨n, hn, rfl⟩ := Option.map_eq_some_iff.mp h
  obtain ⟨hlt, hname, -⟩ := List.findIdx?_eq_some_iff_getElem.mp hn
  show t.names[n]? = some name
  rw [List.getElem?_eq_getElem hlt, eq_of_beq hname]

/-- A table with more names and one more value: the old labels stand for what they did. -/
theorem Labels.concat {t : NameTable} {vs : List Value} (ht : t.Closed) (h : t.Labels vs)
    {more : List String} {id : Option NameId} {v : Value}
    (hv : id.bind (NameTable.mk (t.names ++ more) (t.ids ++ [id])).resolve? = v.slotName?) :
    (NameTable.mk (t.names ++ more) (t.ids ++ [id])).Labels (vs ++ [v]) := by
  have hold : ∀ id' ∈ t.ids, id'.bind (NameTable.mk (t.names ++ more) (t.ids ++ [id])).resolve?
      = id'.bind t.resolve? := by
    intro id' hid'
    cases id' with
    | none => rfl
    | some n => exact List.getElem?_append_left (ht n hid')
  show (t.ids ++ [id]).map _ = (vs ++ [v]).map _
  rw [List.map_append, List.map_append, List.map_congr_left hold, h, List.map_singleton,
    List.map_singleton, hv]

/-- One more value is labelled, and the labels so far still stand for their names. -/
theorem Labels.intern {t : NameTable} {vs : List Value} (ht : t.Closed) (h : t.Labels vs) (v : Value) :
    (t.intern v).Labels (vs ++ [v]) := by
  unfold NameTable.intern
  have hsame : ∀ {id : Option NameId}, id.bind t.resolve? = v.slotName? →
      (NameTable.mk t.names (t.ids ++ [id])).Labels (vs ++ [v]) := by
    intro id hid
    rw [← List.append_nil t.names]
    refine h.concat ht ?_
    rw [List.append_nil]
    exact hid
  cases hv : v.slotName? with
  | none => exact hsame hv.symm
  | some name =>
    dsimp only
    cases hlookup : t.lookup? name with
    | some id => exact hsame ((resolve?_of_lookup? hlookup).trans hv.symm)
    | none =>
      refine h.concat ht (Eq.trans ?_ hv.symm)
      exact List.getElem?_concat_length

/-- Closed and labelling at the start, and after each value. -/
theorem ofValues_spec (vs : List Value) :
    (vs.foldl intern {}).Closed ∧ (vs.foldl intern {}).Labels vs := by
  induction vs using List.reverseRecOn with
  | nil => exact ⟨fun id hid => absurd hid List.not_mem_nil, rfl⟩
  | append_singleton vs v ih =>
    rw [List.foldl_append]
    exact ⟨ih.1.intern v, ih.2.intern ih.1 v⟩

theorem closed_ofFunc (g : Func) : (ofFunc g).Closed := (ofValues_spec g.values.toList).1

theorem labels_ofFunc (g : Func) : (ofFunc g).Labels g.values.toList :=
  (ofValues_spec g.values.toList).2

theorem Closed.nameOf?_lt {t : NameTable} (ht : t.Closed) {v : ValueId} {id : NameId}
    (h : t.nameOf? v = some id) : id.index < t.size := by
  exact ht id (List.mem_of_getElem? (Option.join_eq_some_iff.mp h))

/-- **A label stands for the name of the slot** that has it. -/
theorem exists_slot_of_nameOf? {g : Func} {v : ValueId} {id : NameId}
    (h : (ofFunc g).nameOf? v = some id) :
    ∃ name, (ofFunc g).resolve? id = some name ∧ g.values[v.index]? = some (.slot name) := by
  have hid : (ofFunc g).ids[v.index]? = some (some id) := Option.join_eq_some_iff.mp h
  have hname : (ofFunc g).resolve? id = some _ :=
    List.getElem?_eq_getElem ((closed_ofFunc g).nameOf?_lt h)
  have hat := congrArg (fun names => names[v.index]?) (labels_ofFunc g)
  simp only [List.getElem?_map, Array.getElem?_toList, hid, Option.map_some, Option.bind_some,
    hname] at hat
  obtain ⟨value, hvalue, hslot⟩ := Option.map_eq_some_iff.mp hat.symm
  refine ⟨_, hname, ?_⟩
  cases value with
  | slot name =>
    obtain rfl := Option.some.inj hslot
    exact hvalue
  | const c => nomatch hslot
  | arg n => nomatch hslot
  | result i => nomatch hslot

theorem lt_size_ofFunc {g : Func} {v : ValueId} {k : Nat}
    (h : k ∈ (((ofFunc g).nameOf? v).map NameId.index).toList) : k < (ofFunc g).size := by
  obtain ⟨id, hid, rfl⟩ := Option.map_eq_some_iff.mp (Option.mem_toList.mp h)
  exact (closed_ofFunc g).nameOf?_lt hid

end NameTable

/-! ## What placed instructions read and overwrite -/

namespace KeySpace

/-- **A key that is read is a key of the space**, whichever function the names are from. -/
theorem lt_size_of_reads (identity : Identity) (g : Func) {f : Func} (hs : f.Sound) {b : BlockId}
    {block : Block} (hb : f.blocks[b.index]? = some block) {i : InstId} (hi : i ∈ block.insts) {k : Nat}
    (h : (KeySpace.of identity g).Reads f k i) : k < (KeySpace.of identity g).size f := by
  obtain ⟨inst, hinst, hk⟩ := h
  cases identity with
  | value =>
    obtain ⟨inst', hinst', hmentions, -⟩ := hs.exists_inst hb hi
    obtain rfl := Option.some.inj (hinst.symm.trans hinst')
    obtain ⟨v, hv, rfl⟩ := List.mem_map.mp hk
    exact hmentions v (List.mem_append_left _ hv)
  | name =>
    unfold KeySpace.of KeySpace.uses at hk
    cases haction : inst.action with
    | store value ptr =>
      rw [haction] at hk
      exact NameTable.lt_size_ofFunc hk
    | load ptr =>
      rw [haction] at hk
      exact NameTable.lt_size_ofFunc hk
    | binary op lhs rhs =>
      rw [haction] at hk
      nomatch hk
    | other opcode operands =>
      rw [haction] at hk
      nomatch hk

/-- Under value identity an instruction overwrites only what it mentions. -/
theorem exists_mention_of_defs {inst : Instruction} {k : Nat} (h : k ∈ KeySpace.values.defs inst) :
    ∃ v ∈ inst.mentions, v.index = k := by
  obtain ⟨action, result⟩ := inst
  have hresult : k ∈ result.toList.map ValueId.index →
      ∃ v ∈ (Instruction.mk action result).mentions, v.index = k := by
    intro hk
    obtain ⟨v, hv, hvk⟩ := List.mem_map.mp hk
    exact ⟨v, List.mem_append_right _ hv, hvk⟩
  cases action with
  | store value ptr =>
    rcases List.mem_cons.mp h with rfl | hk
    · exact ⟨ptr, by simp [Instruction.mentions, Action.operands], rfl⟩
    · exact hresult hk
  | load ptr => exact hresult h
  | binary op lhs rhs => exact hresult h
  | other opcode operands => exact hresult h

/-- **A key that is overwritten is a key of the space**, whichever function the names are from. -/
theorem lt_size_of_overwrites (identity : Identity) (g : Func) {f : Func} (hs : f.Sound) {b : BlockId}
    {block : Block} (hb : f.blocks[b.index]? = some block) {i : InstId} (hi : i ∈ block.insts) {k : Nat}
    (h : (KeySpace.of identity g).Overwrites f k i) : k < (KeySpace.of identity g).size f := by
  obtain ⟨inst, hinst, hk⟩ := h
  cases identity with
  | value =>
    obtain ⟨inst', hinst', hmentions, -⟩ := hs.exists_inst hb hi
    obtain rfl := Option.some.inj (hinst.symm.trans hinst')
    obtain ⟨v, hv, rfl⟩ := exists_mention_of_defs hk
    exact hmentions v hv
  | name =>
    unfold KeySpace.of KeySpace.defs at hk
    cases haction : inst.action with
    | store value ptr =>
      rw [haction] at hk
      exact NameTable.lt_size_ofFunc hk
    | load ptr =>
      rw [haction] at hk
      nomatch hk
    | binary op lhs rhs =>
      rw [haction] at hk
      nomatch hk
    | other opcode operands =>
      rw [haction] at hk
      nomatch hk

/-- **The effect of a block is about keys of the space.** -/
theorem lt_size_of_effect (identity : Identity) (g : Func) {f : Func} (hs : f.Sound) {b : BlockId}
    {block : Block} (hb : f.blocks[b.index]? = some block) {e : Effect}
    (he : Effect.ofInsts? (KeySpace.of identity g) f block.insts = some e) {k : Nat}
    (hk : k ∈ e.exposed ∨ k ∈ e.killed) : k < (KeySpace.of identity g).size f := by
  obtain ⟨hexposed, hkilled⟩ := Effect.ofInsts?_spec block.insts he k
  rcases hk with hk | hk
  · obtain ⟨before, i, after, hinsts, hreads, -⟩ := hexposed.mp hk
    have hi : i ∈ block.insts := by simp [hinsts]
    exact lt_size_of_reads identity g hs hb hi hreads
  · have hover : ∃ i ∈ block.insts, (KeySpace.of identity g).Overwrites f k i := by
      simpa [Spares] using hkilled.mp hk
    obtain ⟨i, hi, hover⟩ := hover
    exact lt_size_of_overwrites identity g hs hb hi hover

/-- A key of the space can be shown. -/
theorem exists_describe {keys : KeySpace} {f : Func} {k : Nat} (h : k < keys.size f) :
    ∃ label, keys.describe? k = some label := by
  cases keys with
  | values => exact ⟨_, rfl⟩
  | names table =>
    have hname : table.resolve? ⟨k⟩ = some table.names[k] := List.getElem?_eq_getElem h
    exact ⟨.name table.names[k], by rw [describe?, hname]; rfl⟩

end KeySpace

end Dataflow
