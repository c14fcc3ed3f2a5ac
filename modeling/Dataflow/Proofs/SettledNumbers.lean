import Dataflow.Proofs.BuiltinRuns
import Dataflow.Proofs.Execution
import Dataflow.Proofs.ExpressionTable

/-!
# Numbers settle

A value gets its number in one of three ways: a constant or a parameter when it is first asked for,
a result from its instruction, and any value from a store.  A sound function lists each instruction
once and gives each its own result, so without stores a value is given a number once.

1. **One step** (`number?_keeps`): an instruction changes the number of a value only if it stores
   there or has it for its result, or if it asks for a constant or parameter that has none.

2. **Many steps** (`Reaches.keeps`), and so a number stays from one of these moments to the next:
   from a store to the loads from the same slot, and from an instruction with a result to the end of
   the run.

3. **Events** (`outcomesOf`): each listed instruction is reported once, so what an instruction did
   to its result or to memory can be read in its event.

Nothing here depends on numbers being different, so it does not matter if the counter runs over.
-/

namespace Dataflow

/-! ## Where numbers go -/

/-- The number that an event has for the result. -/
def Outcome.given? : Outcome → Option ValueNumber
  | .load n | .binary _ _ _ n _ => some n
  | _ => none

theorem Outcome.given?_of_number? {o : Outcome} {n : ValueNumber} (h : o.number? = some n) :
    o.given? = some n := by
  cases o with
  | binary op l r m redundant => exact h
  | store m => nomatch h
  | load m => nomatch h
  | other => nomatch h

namespace Func

/-- **Nothing is stored there** by a listed instruction. -/
def Unstored (f : Func) (v : ValueId) : Prop := ∀ p ∈ f.programOrder, f.storeTarget? p.2 ≠ some v

instance (f : Func) (v : ValueId) : Decidable (f.Unstored v) :=
  inferInstanceAs (Decidable (∀ p ∈ f.programOrder, f.storeTarget? p.2 ≠ some v))

variable {f : Func} {before after : List (BlockId × InstId)} {b : BlockId} {i : InstId} {v : ValueId}

/-- No earlier listing has the result of this one. -/
theorem Sound.result_ne_before (hs : f.Sound) (horder : f.programOrder = before ++ (b, i) :: after)
    (hv : f.resultOf? i = some v) : ∀ q ∈ before, f.resultOf? q.2 ≠ some v := by
  intro q hq hqv
  obtain ⟨earlier, between, rfl⟩ := List.append_of_mem hq
  rw [List.append_assoc, List.cons_append] at horder
  exact hs.result_ne (b := q.1) horder hqv (b, i) List.mem_append_cons_self hv

/-- A slot is no result. -/
theorem Sound.result_ne_slot (hs : f.Sound) {name : String}
    (hslot : f.values[v.index]? = some (.slot name))
    {p : BlockId × InstId} (hp : p ∈ f.programOrder) : f.resultOf? p.2 ≠ some v := by
  intro hv
  have hresult := hs.value_of_result hp hv
  rw [hslot] at hresult
  nomatch hresult

theorem isLeaf_of_slot {name : String} (hslot : f.values[v.index]? = some (.slot name)) :
    f.isLeaf v = false := by
  unfold isLeaf
  rw [hslot]

end Func

namespace Numbering

namespace State

variable {f : Func} {s s' : State} {b : BlockId} {i : InstId} {v w : ValueId} {n : ValueNumber}
  {o : Outcome} {inst : Instruction}

/-! ## One step -/

/-- Asking for `w` would not give it a number: it has one, or it is neither constant nor
parameter. -/
def Decided (f : Func) (s : State) (w : ValueId) : Prop := s.numberAt w ≠ none ∨ f.isLeaf w = false

theorem Decided.congr (h : s.Decided f w) (hw : s'.numberAt w = s.numberAt w) : s'.Decided f w := by
  unfold Decided
  rw [hw]
  exact h

/-- The result gets the number, and every other value keeps its own. -/
theorem give?_numberAt {result : Option ValueId} (h : s.give? result n = some s') (w : ValueId) :
    s'.numberAt w = if result = some w then some n else s.numberAt w := by
  cases result with
  | none =>
    obtain rfl := Option.some.inj h
    rfl
  | some v =>
    obtain ⟨hv, rfl⟩ := assign?_eq_some.mp h
    rw [numberAt_set hv rfl w]
    simp only [Option.some_inj, eq_comm]

/-- Asking for a number leaves alone what is decided. -/
theorem numberOf_keeps (hsize : s.numbers.size = f.values.size) (h : s.numberOf f v = (n, s'))
    (hw : s.Decided f w) : s'.numberAt w = s.numberAt w := by
  rcases numberOf_cases hsize v with ⟨m, -, hcase⟩ | ⟨hnone, hleaf, hv, hcase⟩ | ⟨-, -, hcase⟩ <;>
    cases h.symm.trans hcase
  · rfl
  · -- the value that is asked for gets a number, but `w` is another one
    rw [numberAt_set hv rfl w, if_neg]
    rintro rfl
    rcases hw with hsome | hnot
    · exact hsome hnone
    · rw [hleaf] at hnot
      nomatch hnot
  · rfl

section

variable (hsize : s.numbers.size = f.values.size) (hinst : f.insts[i.index]? = some inst)
  (h : s.number? f i inst = some (o, s'))

include hsize hinst h

/-- **What an instruction does not change.** -/
theorem number?_keeps (hstore : f.storeTarget? i ≠ some w) (hresult : f.resultOf? i ≠ some w)
    (hw : s.Decided f w) : s'.numberAt w = s.numberAt w := by
  unfold Func.storeTarget? at hstore
  unfold Func.resultOf? at hresult
  rw [hinst, Option.bind_some] at hstore hresult
  obtain ⟨action, result⟩ := inst
  cases action with
  | store value ptr =>
    obtain ⟨n, s₁, hvalue, -, hgive⟩ := store?_cases h
    rw [give?_numberAt hgive, if_neg hstore]
    exact numberOf_keeps hsize hvalue hw
  | load ptr =>
    rcases load?_eq_some h with ⟨-, rfl⟩ | ⟨n, -, hgive⟩
    · rfl
    · rw [give?_numberAt hgive, if_neg hresult]
  | other opcode operands =>
    cases h
    rfl
  | binary op lhs rhs =>
    obtain ⟨l, s₁, r, s₂, n, redundant, s₃, hleft, hright, hfound, -, hgive⟩ := binary?_cases h
    have h₁ := numberOf_keeps hsize hleft hw
    have h₂ := numberOf_keeps (numberOf_size hsize hleft) hright (hw.congr h₁)
    rw [give?_numberAt hgive, if_neg hresult, numberAt, lookup_numbers hfound]
    exact h₂.trans h₁

omit hsize in
/-- What a store leaves in its target. -/
theorem number?_store (hstore : f.storeTarget? i = some w) :
    ∃ n, o = .store n ∧ s'.numberAt w = some n := by
  unfold Func.storeTarget? at hstore
  rw [hinst, Option.bind_some] at hstore
  obtain ⟨action, result⟩ := inst
  cases action with
  | store value ptr =>
    obtain ⟨n, s₁, -, rfl, hgive⟩ := store?_cases h
    exact ⟨n, rfl, by rw [give?_numberAt hgive, if_pos hstore]⟩
  | load ptr => nomatch hstore
  | other opcode operands => nomatch hstore
  | binary op lhs rhs => nomatch hstore

omit hsize in
/-- What an instruction leaves in its result, if that had no number. -/
theorem number?_result (hresult : f.resultOf? i = some v) (hnone : s.numberAt v = none)
    (hgiven : o.given? = some n) : (s'.numberAt v).getD 0 = n := by
  unfold Func.resultOf? at hresult
  rw [hinst, Option.bind_some] at hresult
  obtain ⟨action, result⟩ := inst
  cases action with
  | store value ptr =>
    obtain ⟨m, s₁, -, rfl, -⟩ := store?_cases h
    nomatch hgiven
  | load ptr =>
    obtain rfl := load?_outcome h
    obtain rfl := Option.some.inj hgiven
    rcases load?_eq_some h with ⟨hptr, rfl⟩ | ⟨m, hptr, hgive⟩
    · rw [hnone, hptr]
    · rw [give?_numberAt hgive, if_pos hresult, hptr]
  | other opcode operands =>
    cases h
    nomatch hgiven
  | binary op lhs rhs =>
    obtain ⟨l, s₁, r, s₂, m, redundant, s₃, -, -, -, rfl, hgive⟩ := binary?_cases h
    obtain rfl := Option.some.inj hgiven
    rw [give?_numberAt hgive, if_pos hresult]
    rfl

end

end State

/-! ## Events -/

/-- The outcomes of `i` among these events. -/
def outcomesIn (events : List Event) (i : InstId) : List Outcome :=
  events.filterMap fun e => if e.inst = i then some e.outcome else none

/-- **What a run reports about `i`**, in order. -/
def outcomesOf (f : Func) (i : InstId) : List Outcome :=
  outcomesIn ((run f).reports.filterMap Report.event?) i

theorem outcomesIn_eq_nil {events : List Event} {i : InstId} (h : ∀ e ∈ events, e.inst ≠ i) :
    outcomesIn events i = [] :=
  List.filterMap_eq_nil_iff.mpr fun e he => if_neg (h e he)

/-- An instruction that is numbered once has one outcome. -/
theorem outcomesIn_of_nodup {events : List Event} {e : Event} (honce : (events.map Event.inst).Nodup)
    (he : e ∈ events) : outcomesIn events e.inst = [e.outcome] := by
  obtain ⟨before, after, rfl⟩ := List.append_of_mem he
  rw [List.map_append, List.map_cons] at honce
  obtain ⟨-, hafter, hbefore⟩ := List.nodup_append.mp honce
  have hnone : outcomesIn before e.inst = [] := by
    refine outcomesIn_eq_nil fun x hx => ?_
    exact hbefore _ (List.mem_map_of_mem hx) _ List.mem_cons_self
  have hnone' : outcomesIn after e.inst = [] := by
    refine outcomesIn_eq_nil fun x hx heq => ?_
    exact (List.nodup_cons.mp hafter).1 (heq ▸ List.mem_map_of_mem hx)
  calc outcomesIn (before ++ e :: after) e.inst
      = outcomesIn before e.inst ++ e.outcome :: outcomesIn after e.inst := by simp [outcomesIn]
    _ = [e.outcome] := by rw [hnone, hnone', List.nil_append]

section

variable {f : Func} (hs : f.Sound)

include hs

/-- **An event is all that is reported about a listed instruction.** -/
theorem listed_of_mem {e : Event} (he : e ∈ ((State.start f).walk f f.programOrder).1) :
    (e.block, e.inst) ∈ f.programOrder ∧ outcomesOf f e.inst = [e.outcome] := by
  obtain ⟨events, s, hwalk, hplaces, -⟩ :=
    State.walk_answers hs fun _ hp => hp
  have hreports : (run f).reports = events.map .numbered := by
    rw [reports_run hs (by rw [hwalk]), hwalk]
  have hinsts : events.map Event.inst = f.programOrder.map Prod.snd := by
    rw [← hplaces, List.map_map]
    rfl
  rw [hwalk] at he
  refine ⟨hplaces ▸ List.mem_map_of_mem he, ?_⟩
  unfold outcomesOf
  rw [hreports, Report.filterMap_event?_numbered]
  exact outcomesIn_of_nodup (hinsts ▸ hs.once) he

end

/-! ## Runs -/

/-- Numbering is at `s` after these listings. -/
def Reaches (f : Func) (done : List (BlockId × InstId)) (s : State) : Prop :=
  ((State.start f).walk f done).2 = .ok s

namespace Reaches

variable {f : Func} {done mid rest : List (BlockId × InstId)} {s t : State} {b : BlockId} {i : InstId}
  {w : ValueId}

theorem start (f : Func) : Reaches f [] (.start f) := rfl

theorem append_iff (h : Reaches f done s) : Reaches f (done ++ mid) t ↔ (s.walk f mid).2 = .ok t := by
  unfold Reaches
  rw [State.walk_append h]

variable (hs : f.Sound)

include hs

theorem size (h : Reaches f done s) (horder : f.programOrder = done ++ rest) :
    s.numbers.size = f.values.size := by
  obtain ⟨events, s', hwalk, -, hsize⟩ := State.walk_answers hs
    fun p hp => horder ▸ List.mem_append_left rest hp
  unfold Reaches at h
  rw [hwalk] at h
  obtain rfl := Except.ok.inj h
  exact hsize

/-- The walk over any beginning of the program answers a state. -/
theorem exists_state (horder : f.programOrder = done ++ rest) : ∃ s, Reaches f done s := by
  obtain ⟨events, s, hwalk, -, -⟩ := State.walk_answers hs
    fun p hp => horder ▸ List.mem_append_left rest hp
  exact ⟨s, congrArg Prod.snd hwalk⟩

/-- **The next listing**, and what is reported about it. -/
theorem next (h : Reaches f done s) (horder : f.programOrder = done ++ (b, i) :: rest) :
    ∃ inst o t, f.insts[i.index]? = some inst ∧ s.number? f i inst = some (o, t) ∧
      Reaches f (done ++ [(b, i)]) t ∧ outcomesOf f i = [o] := by
  have hlisted : (b, i) ∈ f.programOrder := horder ▸ List.mem_append_cons_self
  obtain ⟨inst, o, t, hinst, hnumber⟩ := State.exists_number_of_listed hs (h.size hs horder) hlisted
  have hreach : Reaches f (done ++ [(b, i)]) t := by
    rw [h.append_iff, State.walk_cons hinst hnumber]
    rfl
  refine ⟨inst, o, t, hinst, hnumber, hreach, ?_⟩
  have hmem : Event.mk b i o ∈ ((State.start f).walk f f.programOrder).1 := by
    rw [horder, State.walk_append h, State.walk_cons hinst hnumber]
    exact List.mem_append_cons_self
  exact (listed_of_mem hs hmem).2

/-- **What listings do not touch keeps its number.** -/
theorem keeps (h : Reaches f done s) (ht : Reaches f (done ++ mid) t)
    (horder : f.programOrder = done ++ mid ++ rest) (hstore : ∀ p ∈ mid, f.storeTarget? p.2 ≠ some w)
    (hresult : ∀ p ∈ mid, f.resultOf? p.2 ≠ some w) (hw : s.Decided f w) :
    t.numberAt w = s.numberAt w := by
  induction mid generalizing done s with
  | nil =>
    rw [List.append_nil] at ht
    obtain rfl := Except.ok.inj (ht.symm.trans h)
    rfl
  | cons p mid ih =>
    have hsplit : f.programOrder = done ++ p :: (mid ++ rest) := by rw [horder, List.append_assoc]; rfl
    obtain ⟨inst, o, s₁, hinst, hnumber, h₁, -⟩ := h.next hs hsplit
    have hkeep := State.number?_keeps (h.size hs hsplit) hinst hnumber (hstore p List.mem_cons_self)
      (hresult p List.mem_cons_self) hw
    rw [List.append_cons] at ht horder
    rw [ih h₁ ht horder (fun q hq => hstore q (List.mem_cons_of_mem p hq))
      (fun q hq => hresult q (List.mem_cons_of_mem p hq)) (hw.congr hkeep), hkeep]

end Reaches

/-! ## Results -/

section

variable {f : Func} {done mid rest : List (BlockId × InstId)} {i j : InstId} {v w : ValueId}
  {s t : State} {r : Numbering} {n : ValueNumber} {o : Outcome} (hs : f.Sound)

include hs

theorem exists_last : ∃ s, Reaches f f.programOrder s ∧ (run f).outcome = .ok s.finish := by
  obtain ⟨s, h⟩ := Reaches.exists_state hs (List.append_nil f.programOrder).symm
  exact ⟨s, h, run_eq_ok.mpr ⟨hs, s, h, rfl⟩⟩

/-- Before its instruction a result has no number, unless something was stored there. -/
theorem unassigned_before (horder : f.programOrder = done ++ rest) (h : Reaches f done s)
    {q : BlockId × InstId} (hq : q ∈ rest) (hv : f.resultOf? q.2 = some v) (hstore : f.Unstored v) :
    s.numberAt v = none := by
  have hleaf : f.isLeaf v = false := hs.isLeaf_of_result (horder ▸ List.mem_append_right _ hq) hv
  have hresult : ∀ p ∈ done, f.resultOf? p.2 ≠ some v := by
    intro p hp
    obtain ⟨between, later, rfl⟩ := List.append_of_mem hq
    rw [← List.append_assoc] at horder
    exact hs.result_ne_before horder hv p (List.mem_append_left _ hp)
  have hkeep := (Reaches.start f).keeps hs h horder
    (fun p hp => hstore p (horder ▸ List.mem_append_left _ hp)) hresult (Or.inr hleaf)
  exact hkeep.trans (State.numberAt_start f v)

/-- **A number stays** unless something is stored there. -/
theorem Reaches.settled (h : Reaches f done s) (ht : Reaches f (done ++ mid) t)
    (horder : f.programOrder = done ++ mid ++ rest) (hstore : f.Unstored v)
    (hn : s.numberAt v = some n) :
    t.numberAt v = some n := by
  have hlisted : ∀ p ∈ mid, p ∈ f.programOrder :=
    fun p hp => horder ▸ List.mem_append_left _ (List.mem_append_right _ hp)
  have hresult : ∀ p ∈ mid, f.resultOf? p.2 ≠ some v := by
    -- the instruction would come after its result has got a number
    intro p hp hv
    rw [List.append_assoc] at horder
    have hnone := unassigned_before hs horder h (List.mem_append_left rest hp) hv hstore
    rw [hn] at hnone
    nomatch hnone
  have hdecided : s.Decided f v := Or.inl (by rw [hn]; exact Option.some_ne_none n)
  exact (h.keeps hs ht horder (fun p hp => hstore p (hlisted p hp)) hresult hdecided).trans hn

/-- **What an instruction has left in its result is there at the end**, unless something is stored
there. -/
theorem numberOf_result (hr : (run f).outcome = .ok r) {p : BlockId × InstId} (hp : p ∈ f.programOrder)
    (hv : f.resultOf? p.2 = some v) (hstore : f.Unstored v) (ho : outcomesOf f p.2 = [o])
    (hn : o.given? = some n) : r.numberOf v = n := by
  obtain ⟨before, after, horder⟩ := List.append_of_mem hp
  obtain ⟨s, h⟩ := Reaches.exists_state hs horder
  obtain ⟨inst, o', t, hinst, hnumber, ht, ho'⟩ := h.next hs horder
  obtain rfl : o = o' := List.singleton_inj.mp (ho.symm.trans ho')
  have hgiven := State.number?_result hinst hnumber hv
    (unassigned_before hs horder h List.mem_cons_self hv hstore) hn
  obtain ⟨last, hlast, hrun⟩ := exists_last hs
  obtain rfl := Except.ok.inj (hr.symm.trans hrun)
  have hafter : ∀ q ∈ after, q ∈ f.programOrder :=
    fun q hq => horder ▸ List.mem_append_right _ (List.mem_cons_of_mem _ hq)
  have hend : f.programOrder = before ++ [p] ++ after ++ [] := by
    rw [horder, List.append_nil, ← List.append_cons]
  rw [horder, List.append_cons] at hlast
  have hkeep := ht.keeps hs hlast hend (fun q hq => hstore q (hafter q hq)) (hs.result_ne horder hv)
    (Or.inr (hs.isLeaf_of_result hp hv))
  rw [numberOf_finish, hkeep, hgiven]

/-- **A redundant result has the number of its source.** -/
theorem numberOf_source (hr : (run f).outcome = .ok r) (hsource : r.source? i = some j)
    (hv : f.resultOf? i = some v) (hw : f.resultOf? j = some w) (hvs : f.Unstored v)
    (hws : f.Unstored w) :
    r.numberOf v = r.numberOf w := by
  obtain ⟨last, hlast, hrun⟩ := exists_last hs
  obtain rfl := Except.ok.inj (hr.symm.trans hrun)
  have hlogged := State.Logged.walk hs (fun _ hp => hp) hlast
  obtain ⟨y, x, z, hlatest, hyx, hfirst, rfl⟩ := cited?_eq_some ((hlogged.source i).symm.trans hsource)
  obtain ⟨before, after, hbefore, rfl, -⟩ := latestRedundant?_eq_some hlatest
  obtain ⟨first, rest, hsplit, hzx, -⟩ := firstOf?_eq_some hfirst
  have hy := hbefore ▸ List.mem_append_cons_self
  have hz := hsplit ▸ List.mem_append_cons_self
  obtain ⟨known, hfound, hyn⟩ := hlogged.number hy hyx
  obtain ⟨known', hfound', hzn⟩ := hlogged.number hz hzx
  obtain rfl := Option.some.inj (hfound.symm.trans hfound')
  obtain ⟨hyp, hyo⟩ := listed_of_mem hs hy
  obtain ⟨hzp, hzo⟩ := listed_of_mem hs hz
  rw [numberOf_result hs hr hyp hv hvs hyo (Outcome.given?_of_number? hyn),
    numberOf_result hs hr hzp hw hws hzo (Outcome.given?_of_number? hzn)]

end

/-! ## Loads and stores -/

section

variable {f : Func} {before after : List (BlockId × InstId)} {b : BlockId} {i : InstId} {p : ValueId}
  {s : State} {result : Option ValueId} {name : String} (hs : f.Sound)

include hs

theorem outcomesOf_load (h : Reaches f before s) (horder : f.programOrder = before ++ (b, i) :: after)
    (hload : f.insts[i.index]? = some ⟨.load p, result⟩) :
    outcomesOf f i = [.load ((s.numberAt p).getD 0)] := by
  obtain ⟨inst, o, t, hinst, hnumber, -, ho⟩ := h.next hs horder
  obtain rfl := Option.some.inj (hload.symm.trans hinst)
  obtain rfl := State.load?_outcome hnumber
  exact ho

section

variable {r : Numbering} {v : ValueId} (hr : (run f).outcome = .ok r)
  (hlisted : (b, i) ∈ f.programOrder) (hstore : f.Unstored v)

include hr hlisted hstore

/-- The event of a load tells the number of its result. -/
theorem load_settles (hload : f.insts[i.index]? = some ⟨.load p, some v⟩) :
    outcomesOf f i = [.load (r.numberOf v)] := by
  obtain ⟨before, after, horder⟩ := List.append_of_mem hlisted
  obtain ⟨s, h⟩ := Reaches.exists_state hs horder
  have hv : f.resultOf? i = some v := by rw [Func.resultOf?, hload, Option.bind_some]
  have ho := outcomesOf_load hs h horder hload
  rw [numberOf_result hs hr hlisted hv hstore ho rfl]
  exact ho

/-- The event of an operator tells the number of its result. -/
theorem binary_settles {op : Operator} {lhs rhs : ValueId}
    (hbinary : f.insts[i.index]? = some ⟨.binary op lhs rhs, some v⟩) :
    ∃ m n redundant, outcomesOf f i = [.binary op m n (r.numberOf v) redundant] := by
  obtain ⟨before, after, horder⟩ := List.append_of_mem hlisted
  obtain ⟨s, h⟩ := Reaches.exists_state hs horder
  have hv : f.resultOf? i = some v := by rw [Func.resultOf?, hbinary, Option.bind_some]
  obtain ⟨inst, o, t, hinst, hnumber, -, ho⟩ := h.next hs horder
  obtain rfl := Option.some.inj (hbinary.symm.trans hinst)
  change s.binary? f i op lhs rhs (some v) = some (o, t) at hnumber
  obtain ⟨m, s₁, n, s₂, k, redundant, s₃, -, -, -, rfl, -⟩ := State.binary?_cases hnumber
  rw [numberOf_result hs hr hlisted hv hstore ho rfl]
  exact ⟨m, n, redundant, ho⟩

end

variable (hslot : f.values[p.index]? = some (.slot name))

include hslot

/-- Between stores to it a slot keeps its number. -/
theorem Reaches.keeps_slot {done mid rest : List (BlockId × InstId)} {t : State} (h : Reaches f done s)
    (ht : Reaches f (done ++ mid) t) (horder : f.programOrder = done ++ mid ++ rest)
    (hstore : ∀ q ∈ mid, f.storeTarget? q.2 ≠ some p) : t.numberAt p = s.numberAt p := by
  refine h.keeps hs ht horder hstore (fun q hq => hs.result_ne_slot hslot ?_)
    (Or.inr (Func.isLeaf_of_slot hslot))
  rw [horder]
  exact List.mem_append_left _ (List.mem_append_right _ hq)

section

variable (horder : f.programOrder = before ++ (b, i) :: after)
  (hload : f.insts[i.index]? = some ⟨.load p, result⟩)

include horder hload

theorem load_of_stored {earlier between : List (BlockId × InstId)} {c : BlockId} {j : InstId}
    (hbefore : before = earlier ++ (c, j) :: between) (hstore : f.storeTarget? j = some p)
    (hnone : ∀ q ∈ between, f.storeTarget? q.2 ≠ some p) :
    ∃ n, outcomesOf f j = [.store n] ∧ outcomesOf f i = [.load n] := by
  obtain ⟨s, h⟩ := Reaches.exists_state hs horder
  have hsplit : f.programOrder = earlier ++ (c, j) :: (between ++ (b, i) :: after) := by
    rw [horder, hbefore, List.append_assoc]
    rfl
  obtain ⟨s₀, h₀⟩ := Reaches.exists_state hs hsplit
  obtain ⟨inst, o, t, hinst, hnumber, ht, ho⟩ := h₀.next hs hsplit
  obtain ⟨n, rfl, hn⟩ := State.number?_store hinst hnumber hstore
  have hload' := outcomesOf_load hs h horder hload
  rw [hbefore, List.append_cons earlier] at h horder
  rw [ht.keeps_slot hs hslot h horder hnone, hn] at hload'
  exact ⟨n, ho, hload'⟩

theorem load_of_unstored (hnone : ∀ q ∈ before, f.storeTarget? q.2 ≠ some p) :
    outcomesOf f i = [.load 0] := by
  obtain ⟨s, h⟩ := Reaches.exists_state hs horder
  have hkeep := (Reaches.start f).keeps_slot hs hslot h horder hnone
  rw [outcomesOf_load hs h horder hload, hkeep, State.numberAt_start]
  rfl

end

end

/-! ## The headlines -/

/-- **Loads see the last store.**  Numbering answers on every function that validates, and of a
listed load from a slot it reports, once, the following number.

1. If a store to this very slot comes before, that which is reported of the last such store.  Stores
   to anything else, such as another slot of the same name, do not matter.
2. If none comes before, zero.
3. If the load has a result and nothing is stored there, in any case the number that the result has
   in the end. -/
theorem loads_see_last_store {f : Func} (hvalid : f.validate = .ok ()) :
    ∃ r, (run f).outcome = .ok r ∧
      ∀ before b i after p name result, f.programOrder = before ++ (b, i) :: after →
        f.insts[i.index]? = some ⟨.load p, result⟩ → f.values[p.index]? = some (.slot name) →
        (∀ earlier c j between, before = earlier ++ (c, j) :: between → f.storeTarget? j = some p →
          (∀ q ∈ between, f.storeTarget? q.2 ≠ some p) →
          ∃ n, outcomesOf f j = [.store n] ∧ outcomesOf f i = [.load n]) ∧
        ((∀ q ∈ before, f.storeTarget? q.2 ≠ some p) → outcomesOf f i = [.load 0]) ∧
        ∀ v, result = some v → f.Unstored v → outcomesOf f i = [.load (r.numberOf v)] := by
  have hs : f.Sound := f.validate_eq_ok_iff.mp hvalid
  obtain ⟨last, -, hr⟩ := exists_last hs
  refine ⟨last.finish, hr, fun before b i after p name result horder hload hslot => ⟨?_, ?_, ?_⟩⟩
  · intro earlier c j between hbefore hstore hnone
    exact load_of_stored hs hslot horder hload hbefore hstore hnone
  · exact load_of_unstored hs hslot horder hload
  · rintro v rfl hstore
    exact load_settles hs hr (horder ▸ List.mem_append_cons_self) hstore hload

/-- Two slots of one name: the second is read first, and the first after both have been written. -/
def namesakes : Func where
  name := "namesakes"
  params := [⟨0⟩]
  values := #[.arg 0, .const (.int 3), .slot "x", .slot "x", .result ⟨0⟩, .result ⟨3⟩]
  insts :=
    #[⟨.load ⟨3⟩, some ⟨4⟩⟩, ⟨.store ⟨0⟩ ⟨2⟩, none⟩, ⟨.store ⟨1⟩ ⟨3⟩, none⟩, ⟨.load ⟨2⟩, some ⟨5⟩⟩]
  blocks := #[⟨[⟨0⟩, ⟨1⟩], [⟨1⟩]⟩, ⟨[⟨2⟩, ⟨3⟩], []⟩]

/-- In `namesakes` the store to the second slot does not come between the store to the first and the
load from it. -/
theorem namesakes_loads_see_last_store :
    namesakes.validate = .ok () ∧ namesakes.storeTarget? ⟨1⟩ = some ⟨2⟩ ∧
    namesakes.storeTarget? ⟨2⟩ = some ⟨3⟩ ∧
    ∃ r n, (run namesakes).outcome = .ok r ∧ outcomesOf namesakes ⟨0⟩ = [.load 0] ∧
      outcomesOf namesakes ⟨1⟩ = [.store n] ∧ outcomesOf namesakes ⟨3⟩ = [.load n] ∧
      r.numberOf ⟨5⟩ = n := by
  have hvalid : namesakes.validate = .ok () := by decide
  obtain ⟨r, hr, hloads⟩ := loads_see_last_store hvalid
  obtain ⟨-, hzero, -⟩ := hloads [] ⟨0⟩ ⟨0⟩ [(⟨0⟩, ⟨1⟩), (⟨1⟩, ⟨2⟩), (⟨1⟩, ⟨3⟩)] ⟨3⟩ "x" (some ⟨4⟩)
    rfl rfl rfl
  obtain ⟨hlast, -, hend⟩ := hloads [(⟨0⟩, ⟨0⟩), (⟨0⟩, ⟨1⟩), (⟨1⟩, ⟨2⟩)] ⟨1⟩ ⟨3⟩ [] ⟨2⟩ "x" (some ⟨5⟩)
    rfl rfl rfl
  obtain ⟨n, hstore, hload⟩ := hlast [(⟨0⟩, ⟨0⟩)] ⟨0⟩ ⟨1⟩ [(⟨1⟩, ⟨2⟩)] rfl rfl (by decide)
  have hsame : [Outcome.load n] = [.load (r.numberOf ⟨5⟩)] :=
    hload.symm.trans (hend ⟨5⟩ rfl (by decide))
  exact ⟨hvalid, rfl, rfl, r, n, hr, hzero nofun, hstore, hload,
    (Outcome.load.inj (List.singleton_inj.mp hsame)).symm⟩

/-- **Numbers settle.**  Numbering answers on every function that validates, and the following holds
of values where nothing is stored.

1. Once a value has a number, no later instruction changes it, and it is the number in the result.
2. The number of a loaded or computed result is the one that was reported of its instruction.
3. The result of a redundant instruction has the number of the result of its source. -/
theorem numbers_settle {f : Func} (hvalid : f.validate = .ok ()) :
    ∃ r, (run f).outcome = .ok r ∧
      (∀ v, f.Unstored v → ∀ done rest s n, f.programOrder = done ++ rest → Reaches f done s →
        s.numberAt v = some n →
        (∀ mid later, rest = mid ++ later → ∃ t, Reaches f (done ++ mid) t ∧ t.numberAt v = some n) ∧
        r.numberOf v = n) ∧
      (∀ b i v, (b, i) ∈ f.programOrder → f.Unstored v →
        (∀ ptr, f.insts[i.index]? = some ⟨.load ptr, some v⟩ →
          outcomesOf f i = [.load (r.numberOf v)]) ∧
        ∀ op lhs rhs, f.insts[i.index]? = some ⟨.binary op lhs rhs, some v⟩ →
          ∃ m n redundant, outcomesOf f i = [.binary op m n (r.numberOf v) redundant]) ∧
      ∀ i j v w, r.source? i = some j → f.resultOf? i = some v → f.resultOf? j = some w →
        f.Unstored v → f.Unstored w → r.numberOf v = r.numberOf w := by
  have hs : f.Sound := f.validate_eq_ok_iff.mp hvalid
  obtain ⟨last, hlast, hr⟩ := exists_last hs
  refine ⟨last.finish, hr, fun v hstore done rest s n horder h hn => ⟨fun mid later hrest => ?_, ?_⟩,
    fun b i v hlisted hstore => ⟨fun ptr hload => load_settles hs hr hlisted hstore hload,
      fun op lhs rhs hbinary => binary_settles hs hr hlisted hstore hbinary⟩,
    fun i j v w hsource hv hw hvs hws => numberOf_source hs hr hsource hv hw hvs hws⟩
  · rw [hrest, ← List.append_assoc] at horder
    obtain ⟨t, ht⟩ := Reaches.exists_state hs horder
    exact ⟨t, ht, h.settled hs ht horder hstore hn⟩
  · rw [horder] at hlast
    rw [← List.append_nil (done ++ rest)] at horder
    rw [numberOf_finish, h.settled hs hlast horder hstore hn]
    rfl

/-- In `exchanged` the last product repeats the first, and both results have one number in the
end. -/
theorem exchanged_numbers_settle :
    exchanged.validate = .ok () ∧ exchanged.Unstored ⟨5⟩ ∧ exchanged.Unstored ⟨7⟩ ∧
    ∃ r, (run exchanged).outcome = .ok r ∧ r.source? ⟨5⟩ = some ⟨3⟩ ∧
      r.numberOf ⟨7⟩ = r.numberOf ⟨5⟩ ∧ outcomesOf exchanged ⟨2⟩ = [.load (r.numberOf ⟨4⟩)] ∧
      ∃ s, Reaches exchanged [(⟨0⟩, ⟨0⟩)] s ∧ s.numberAt ⟨3⟩ = some (r.numberOf ⟨3⟩) := by
  have hvalid : exchanged.validate = .ok () := by decide
  have hrun : (run exchanged).outcome
      = .ok ⟨#[1, 2, 3, 3, 3, 4, 3, 4], #[none, none, none, none, some ⟨0⟩, some ⟨3⟩], 5⟩ := by
    refine run_eq_ok.mpr ⟨exchanged.validate_eq_ok_iff.mp hvalid, _, rfl, ?_⟩
    decide +kernel
  obtain ⟨s, hs, hn⟩ : ∃ s, Reaches exchanged [(⟨0⟩, ⟨0⟩)] s ∧ s.numberAt ⟨3⟩ = some 3 := ⟨_, rfl, rfl⟩
  obtain ⟨r, hr, hstay, hevents, hsources⟩ := numbers_settle hvalid
  obtain rfl := Except.ok.inj (hrun.symm.trans hr)
  have hthree := (hstay ⟨3⟩ (by decide) [(⟨0⟩, ⟨0⟩)] _ s 3 rfl hs hn).2
  refine ⟨hvalid, by decide, by decide, _, hrun, rfl, ?_, ?_, s, hs, by rw [hn, hthree]⟩
  · exact hsources ⟨5⟩ ⟨3⟩ ⟨7⟩ ⟨5⟩ rfl rfl rfl (by decide) (by decide)
  · exact (hevents ⟨0⟩ ⟨2⟩ ⟨4⟩ (by decide) (by decide)).1 ⟨2⟩ rfl

end Numbering

end Dataflow
