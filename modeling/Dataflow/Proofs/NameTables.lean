import Dataflow.Proofs.Keys

/-!
# Names and their labels

A name table reads the values of a function once and keeps two lists: the distinct names of its
slots, and for each value the label of its name.  The two are built together, and names come again
and again with other values in between, so what holds of them is a statement about every part of the
reading.

1. **The names** (`NamesOf`): after any number of values, the names kept are those of the slots read
   so far, in the order in which each was read first.  A new name is read after all the others, so
   it belongs at the end; a name read before is where it was.

2. **A name has one label** (`lookup?_eq_some`): names in such an order do not repeat, so looking a
   name up undoes resolving a label, as resolving undoes looking up.

3. **A value has the label of its name** (`nameOf?_eq_some`): by `Labels` its label stands for the
   name, and by (2) no other label does.
-/

namespace Dataflow

theorem Value.slotName?_eq_some {v : Value} {s : String} : v.slotName? = some s ↔ v = .slot s := by
  cases v <;> simp [Value.slotName?]

namespace NameTable

variable {t : NameTable} {vs : List Value} {names : List String} {s r : String} {id n m : NameId}

/-! ## The names -/

/-- The names are those of the slots among these values, in the order of their first appearance. -/
structure NamesOf (vs : List Value) (names : List String) : Prop where
  mem_iff : ∀ s, s ∈ names ↔ .slot s ∈ vs
  ascending : names.Pairwise fun s r => vs.idxOf (.slot s) < vs.idxOf (.slot r)

namespace NamesOf

/-- Names listed by where they first occur are listed once. -/
theorem nodup (h : NamesOf vs names) : names.Nodup :=
  h.ascending.imp fun {s r} hlt heq => by
    rw [heq] at hlt
    omega

/-- Values read later do not change which name came first. -/
theorem ascending_append (h : NamesOf vs names) (more : List Value) :
    names.Pairwise fun s r => (vs ++ more).idxOf (.slot s) < (vs ++ more).idxOf (.slot r) := by
  refine h.ascending.imp_of_mem fun {s r} hs hr hlt => ?_
  rw [List.idxOf_append_of_mem ((h.mem_iff s).mp hs), List.idxOf_append_of_mem ((h.mem_iff r).mp hr)]
  exact hlt

/-- A value that brings no new name. -/
theorem old (h : NamesOf vs names) {v : Value} (hv : ∀ s, v = .slot s → s ∈ names) :
    NamesOf (vs ++ [v]) names where
  mem_iff := by
    intro s
    rw [List.mem_append, List.mem_singleton, ← h.mem_iff s]
    exact ⟨Or.inl, fun hs => hs.elim id fun heq => hv s heq.symm⟩
  ascending := h.ascending_append [v]

/-- A slot of a new name. -/
theorem new (h : NamesOf vs names) (hs : s ∉ names) : NamesOf (vs ++ [.slot s]) (names ++ [s]) where
  mem_iff := by
    intro r
    rw [List.mem_append, List.mem_append, List.mem_singleton, List.mem_singleton, Value.slot.injEq,
      h.mem_iff r]
  ascending := by
    refine List.pairwise_append.mpr ⟨h.ascending_append _, List.pairwise_singleton _ _,
      fun r hr s' hs' => ?_⟩
    obtain rfl := List.mem_singleton.mp hs'
    -- the old name was read somewhere before, the new one only now
    have hr : .slot r ∈ vs := (h.mem_iff r).mp hr
    have hs : .slot s' ∉ vs := fun hmem => hs ((h.mem_iff s').mpr hmem)
    have hlt : vs.idxOf (.slot r) < vs.length := List.idxOf_lt_length_of_mem hr
    rw [List.idxOf_append_of_mem hr, List.idxOf_append_of_notMem hs]
    omega

end NamesOf

theorem lookup?_eq_none : t.lookup? s = none ↔ s ∉ t.names := by
  rw [lookup?, Option.map_eq_none_iff, List.findIdx?_eq_none_iff]
  constructor
  · intro h hs
    simpa using h s hs
  · intro hs r hr
    exact beq_false_of_ne fun heq => hs (heq ▸ hr)

theorem mem_names_of_lookup? (h : t.lookup? s = some id) : s ∈ t.names := by
  by_contra hs
  rw [lookup?_eq_none.mpr hs] at h
  nomatch h

/-! What reading a value does: a value that is no slot gets no label, a slot of a known name gets
the name's label, and a slot of a new name gets the next one. -/

theorem intern_other {v : Value} (h : v.slotName? = none) :
    t.intern v = { t with ids := t.ids ++ [none] } := by
  rw [intern, h]

theorem intern_known (h : t.lookup? s = some id) :
    t.intern (.slot s) = { t with ids := t.ids ++ [some id] } := by
  simp only [intern, Value.slotName?, h]

/-- A name that was not found is added at the end. -/
theorem intern_new (h : t.lookup? s = none) :
    t.intern (.slot s) = ⟨t.names ++ [s], t.ids ++ [some ⟨t.names.length⟩]⟩ := by
  simp only [intern, Value.slotName?, h]

/-- **Reading one more value** keeps the names those of the values read. -/
theorem NamesOf.intern (h : NamesOf vs t.names) (v : Value) :
    NamesOf (vs ++ [v]) (t.intern v).names := by
  cases hv : v.slotName? with
  | none =>
    rw [intern_other hv]
    refine h.old fun s hs => ?_
    rw [Value.slotName?_eq_some.mpr hs] at hv
    nomatch hv
  | some name =>
    obtain rfl := Value.slotName?_eq_some.mp hv
    cases hlookup : t.lookup? name with
    | none =>
      rw [intern_new hlookup]
      exact h.new (lookup?_eq_none.mp hlookup)
    | some id =>
      rw [intern_known hlookup]
      refine h.old fun s hs => ?_
      obtain rfl := Value.slot.inj hs
      exact mem_names_of_lookup? hlookup

/-- **The table of a function lists the names of its slots**, by where they first occur. -/
theorem namesOf_ofFunc (f : Func) : NamesOf f.values.toList (ofFunc f).names := by
  rw [ofFunc]
  induction f.values.toList using List.reverseRecOn with
  | nil => exact ⟨fun s => by simp, List.Pairwise.nil⟩
  | append_singleton vs v ih =>
    rw [List.foldl_append]
    exact ih.intern v

/-! ## Labels -/

/-- **Looking up undoes resolving**, where no name repeats. -/
theorem lookup?_eq_some (hnodup : t.names.Nodup) : t.lookup? s = some id ↔ t.resolve? id = some s := by
  refine ⟨resolve?_of_lookup?, fun h => ?_⟩
  obtain ⟨hlt, hat⟩ := List.getElem?_eq_some_iff.mp h
  refine Option.map_eq_some_iff.mpr ⟨id.index, List.findIdx?_eq_some_iff_getElem.mpr ⟨hlt, ?_, ?_⟩, rfl⟩
  · exact beq_iff_eq.mpr hat
  · intro j hj heq
    have hsame : t.names[j] = t.names[id.index] := (eq_of_beq heq).trans hat.symm
    have := (hnodup.getElem_inj_iff).mp hsame
    omega

/-- A name has one label. -/
theorem resolve?_inj (hnodup : t.names.Nodup) (hn : t.resolve? n = some s)
    (hm : t.resolve? m = some s) :
    n = m := by
  rw [← lookup?_eq_some hnodup] at hn hm
  exact Option.some.inj (hn.symm.trans hm)

section

variable {f : Func} {v w : ValueId}

theorem nodup_ofFunc (f : Func) : (ofFunc f).names.Nodup := (namesOf_ofFunc f).nodup

/-- **A value has the label of its name.** -/
theorem nameOf?_eq_some : (ofFunc f).nameOf? v = some id ↔
    ∃ s, f.values[v.index]? = some (.slot s) ∧ (ofFunc f).resolve? id = some s := by
  constructor
  · intro h
    obtain ⟨s, hresolve, hslot⟩ := exists_slot_of_nameOf? h
    exact ⟨s, hslot, hresolve⟩
  · rintro ⟨s, hslot, hresolve⟩
    have hat := congrArg (fun names => names[v.index]?) (labels_ofFunc f)
    simp only [List.getElem?_map, Array.getElem?_toList, hslot, Option.map_some] at hat
    obtain ⟨label, hlabel, hname⟩ := Option.map_eq_some_iff.mp hat
    obtain ⟨id', rfl, hresolve'⟩ := Option.bind_eq_some_iff.mp hname
    obtain rfl := resolve?_inj (nodup_ofFunc f) hresolve' hresolve
    exact Option.join_eq_some_iff.mpr hlabel

/-- The names with a label are those of the slots. -/
theorem exists_resolve?_iff :
    (∃ id, (ofFunc f).resolve? id = some s) ↔ ∃ v : ValueId, f.values[v.index]? = some (.slot s) := by
  have hmem : s ∈ (ofFunc f).names ↔ .slot s ∈ f.values.toList := (namesOf_ofFunc f).mem_iff s
  constructor
  · rintro ⟨id, hid⟩
    obtain ⟨i, hi⟩ := List.mem_iff_getElem?.mp (hmem.mp (List.mem_of_getElem? hid))
    rw [Array.getElem?_toList] at hi
    exact ⟨⟨i⟩, hi⟩
  · rintro ⟨v, hv⟩
    rw [← Array.getElem?_toList] at hv
    obtain ⟨i, hi⟩ := List.mem_iff_getElem?.mp (hmem.mpr (List.mem_of_getElem? hv))
    exact ⟨⟨i⟩, hi⟩

/-- A slot has a label, which stands for its name. -/
theorem exists_nameOf?_slot (h : f.values[v.index]? = some (.slot s)) :
    ∃ id, (ofFunc f).nameOf? v = some id ∧ (ofFunc f).resolve? id = some s := by
  obtain ⟨id, hid⟩ := exists_resolve?_iff.mpr ⟨v, h⟩
  exact ⟨id, nameOf?_eq_some.mpr ⟨s, h, hid⟩, hid⟩

theorem exists_nameOf?_iff :
    (∃ id, (ofFunc f).nameOf? v = some id) ↔ ∃ s, f.values[v.index]? = some (.slot s) := by
  constructor
  · rintro ⟨id, hid⟩
    obtain ⟨s, hs, -⟩ := nameOf?_eq_some.mp hid
    exact ⟨s, hs⟩
  · rintro ⟨s, hs⟩
    obtain ⟨id, hid, -⟩ := exists_nameOf?_slot hs
    exact ⟨id, hid⟩

/-- The label of a slot stands for its name. -/
theorem resolve?_nameOf? (hid : (ofFunc f).nameOf? v = some id)
    (hs : f.values[v.index]? = some (.slot s)) :
    (ofFunc f).resolve? id = some s := by
  obtain ⟨s', hs', hresolve⟩ := nameOf?_eq_some.mp hid
  obtain rfl : s' = s := Value.slot.inj (Option.some.inj (hs'.symm.trans hs))
  exact hresolve

/-- Slots have the same label exactly if they have the same name. -/
theorem nameOf?_eq_iff (hs : f.values[v.index]? = some (.slot s))
    (hr : f.values[w.index]? = some (.slot r)) :
    (ofFunc f).nameOf? v = (ofFunc f).nameOf? w ↔ s = r := by
  obtain ⟨id, hid, hresolve⟩ := exists_nameOf?_slot hs
  constructor
  · intro heq
    -- one label stands for one name
    have hresolve' := resolve?_nameOf? (heq.symm.trans hid) hr
    exact Option.some.inj (hresolve.symm.trans hresolve')
  · rintro rfl
    rw [hid, nameOf?_eq_some.mpr ⟨s, hr, hresolve⟩]

/-- A label is in use exactly if it is below the number of names. -/
theorem lt_size_iff : id.index < (ofFunc f).size ↔ ∃ v, (ofFunc f).nameOf? v = some id := by
  constructor
  · intro h
    have hresolve : (ofFunc f).resolve? id = some (ofFunc f).names[id.index] :=
      List.getElem?_eq_getElem h
    obtain ⟨v, hv⟩ := exists_resolve?_iff.mp ⟨id, hresolve⟩
    exact ⟨v, nameOf?_eq_some.mpr ⟨_, hv, hresolve⟩⟩
  · rintro ⟨v, hv⟩
    exact (closed_ofFunc f).nameOf?_lt hv

end

/-- **The smaller label is that of the name that came first.** -/
theorem NamesOf.lt_iff (h : NamesOf vs t.names) (hn : t.resolve? n = some s)
    (hm : t.resolve? m = some r) :
    n.index < m.index ↔ vs.idxOf (.slot s) < vs.idxOf (.slot r) := by
  obtain ⟨hnlt, rfl⟩ := List.getElem?_eq_some_iff.mp hn
  obtain ⟨hmlt, rfl⟩ := List.getElem?_eq_some_iff.mp hm
  have hascending := List.pairwise_iff_getElem.mp h.ascending
  constructor
  · exact hascending n.index m.index hnlt hmlt
  · intro hlt
    by_contra hge
    rcases Nat.lt_or_eq_of_le (Nat.le_of_not_lt hge) with hgt | heq
    · have := hascending m.index n.index hmlt hnlt hgt
      omega
    · simp only [heq] at hlt
      omega

/-! ## The headline -/

/-- **Labels and names correspond one to one, in the order of first appearance.**  For every
function, sound or not, and its table:

1. a value has a label exactly if it is a slot, and the label stands for its name;
2. two slots have the same label exactly if they have the same name;
3. a name can be looked up exactly if some slot bears it, and the label found stands for it;
4. the labels in use are those below the number of names; each stands for a name, and looking that
   up gives the label back;
5. of two labels the smaller one stands for the name whose first slot comes first among the
   values. -/
theorem interning_is_bijective (f : Func) :
    (∀ v : ValueId, ((∃ id, (ofFunc f).nameOf? v = some id) ↔
      ∃ s, f.values[v.index]? = some (.slot s)) ∧
      ∀ id s, (ofFunc f).nameOf? v = some id → f.values[v.index]? = some (.slot s) →
        (ofFunc f).resolve? id = some s) ∧
    (∀ (v w : ValueId) (s r : String), f.values[v.index]? = some (.slot s) →
      f.values[w.index]? = some (.slot r) → ((ofFunc f).nameOf? v = (ofFunc f).nameOf? w ↔ s = r)) ∧
    (∀ s, ((∃ id, (ofFunc f).lookup? s = some id) ↔
      ∃ v : ValueId, f.values[v.index]? = some (.slot s)) ∧
      ∀ id, (ofFunc f).lookup? s = some id → (ofFunc f).resolve? id = some s) ∧
    (∀ id, (id.index < (ofFunc f).size ↔ ∃ v, (ofFunc f).nameOf? v = some id) ∧
      (id.index < (ofFunc f).size →
        ∃ s, (ofFunc f).resolve? id = some s ∧ (ofFunc f).lookup? s = some id)) ∧
    ∀ n m s r, (ofFunc f).resolve? n = some s → (ofFunc f).resolve? m = some r →
      (n.index < m.index ↔ f.values.toList.idxOf (.slot s) < f.values.toList.idxOf (.slot r)) := by
  have hlookup : ∀ s id, (ofFunc f).lookup? s = some id ↔ (ofFunc f).resolve? id = some s :=
    fun s id => lookup?_eq_some (nodup_ofFunc f)
  refine ⟨fun v => ⟨exists_nameOf?_iff, fun id s => resolve?_nameOf?⟩, fun v w s r => nameOf?_eq_iff,
    fun s => ⟨?_, fun id => (hlookup s id).mp⟩, fun id => ⟨lt_size_iff, fun hlt => ?_⟩,
    fun n m s r => (namesOf_ofFunc f).lt_iff⟩
  · simp only [hlookup]
    exact exists_resolve?_iff
  · have hresolve : (ofFunc f).resolve? id = some (ofFunc f).names[id.index] :=
      List.getElem?_eq_getElem hlt
    exact ⟨_, hresolve, (hlookup _ id).mpr hresolve⟩

end NameTable

end Dataflow
