import Dataflow.Proofs.SettledNumbers
import Mathlib.Data.List.Nodup
import Mathlib.Data.List.Perm.Subperm

/-!
# Numbers are dense

Numbers are handed out in two places: to a leaf that is asked for and has none, and to an expression
that is not in the table.  Either is paid for.

1. **What there is to pay with** (`State.unnumbered`, `Func.binariesIn`): a leaf pays when it gets
   its number, which it never loses, as a store gives it another one and takes none away; and a
   binary operator pays once, with a number or with being marked.  So a step never spends more than
   it uses up (`number?_budget`), and the bill of a whole run is known before it begins.

2. **In which order they appear** (`Counts`): a number in an event is an old one or the very next
   one.  The order inside an event matters here: the operands of a binary operator are asked for
   before the expression is looked up.

3. **Together** (`Dense`): the bill says that there is room for the next step, and with room a step
   draws the next numbers and does not begin again at zero.
-/

namespace Dataflow

/-! ## What a function can be charged for -/

/-- Whether an instruction applies a binary operator. -/
def Instruction.isBinary (inst : Instruction) : Bool :=
  match inst.action with
  | .binary .. => true
  | _ => false

namespace Func

/-- The constants and parameters, ascending. -/
def leaves (f : Func) : List ValueId := ((List.range f.values.size).map ValueId.mk).filter f.isLeaf

theorem mem_leaves {f : Func} {v : ValueId} : v ∈ f.leaves ↔ f.isLeaf v = true := by
  unfold leaves
  rw [List.mem_filter, and_iff_right_iff_imp]
  intro hleaf
  refine List.mem_map.mpr ⟨v.index, List.mem_range.mpr ?_, rfl⟩
  by_contra hge
  unfold isLeaf at hleaf
  rw [Array.getElem?_eq_none (Nat.le_of_not_lt hge)] at hleaf
  nomatch hleaf

theorem nodup_leaves (f : Func) : f.leaves.Nodup :=
  (List.nodup_range.map fun _ _ => ValueId.mk.inj).filter _

/-- How many of these listings are of binary operators. -/
def binariesIn (f : Func) (listings : List (BlockId × InstId)) : Nat :=
  listings.countP fun p => (f.insts[p.2.index]?).any Instruction.isBinary

theorem binariesIn_append (f : Func) (xs ys : List (BlockId × InstId)) :
    f.binariesIn (xs ++ ys) = f.binariesIn xs + f.binariesIn ys := List.countP_append

end Func

/-! ## Numbers in order -/

/-- The numbers that an event shows, in the order in which they were asked for. -/
def Outcome.numbers : Outcome → List ValueNumber
  | .store n | .load n => [n]
  | .binary _ l r n _ => [l, r, n]
  | .other => []

/-- The numbers shown by events. -/
def numbersIn (events : List Event) : List ValueNumber := events.flatMap fun e => e.outcome.numbers

/-- The numbers other than zero, each where it appears first. -/
def firstAppearances (ns : List ValueNumber) : List Nat :=
  ((ns.map UInt32.toNat).filter (0 < ·)).eraseDups

/-- **Counting up**: reading these numbers, where `m` is the next new one, each is old or the next
new one, and after them the next new one is `m'`. -/
inductive Counts : Nat → List ValueNumber → Nat → Prop where
  | nil (m : Nat) : Counts m [] m
  | old {m m' : Nat} {n : ValueNumber} {ns : List ValueNumber} (hn : n.toNat < m)
      (hns : Counts m ns m') : Counts m (n :: ns) m'
  | new {m m' : Nat} {n : ValueNumber} {ns : List ValueNumber} (hn : n.toNat = m)
      (hns : Counts (m + 1) ns m') : Counts m (n :: ns) m'

namespace Counts

variable {m m' m'' : Nat} {n : ValueNumber} {ns ns' : List ValueNumber}

theorem one_old (hn : n.toNat < m) : Counts m [n] m := .old hn (.nil m)

theorem one_new (hn : n.toNat = m) : Counts m [n] (m + 1) := .new hn (.nil (m + 1))

/-- Numbers counted on from where others end are counted in one go. -/
theorem append (h : Counts m ns m') (h' : Counts m' ns' m'') : Counts m (ns ++ ns') m'' := by
  induction h with
  | nil m => exact h'
  | old hn _ ih => exact .old hn (ih h')
  | new hn _ ih => exact .new hn (ih h')

/-- The counter does not go back. -/
theorem le (h : Counts m ns m') : m ≤ m' := by
  induction h with
  | nil m => exact Nat.le_refl m
  | old _ _ ih => exact ih
  | new _ _ ih => exact Nat.le_of_succ_le ih

/-- **The numbers that are not old appear in ascending order and without a gap.** -/
theorem eraseDups_eq_range' (h : Counts m ns m') :
    ((ns.map UInt32.toNat).filter (m ≤ ·)).eraseDups = List.range' m (m' - m) := by
  induction h with
  | nil m =>
    rw [Nat.sub_self]
    rfl
  | @old m m' n ns hn _ ih =>
    rw [List.map_cons, List.filter_cons_of_neg (by simpa using hn)]
    exact ih
  | @new m m' n ns hn hns ih =>
    have hle := hns.le
    -- what is neither old nor the number just met
    have hrest : ∀ k : Nat, (!(k == m) && decide (m ≤ k)) = decide (m + 1 ≤ k) := by
      intro k
      rw [Bool.eq_iff_iff]
      simp only [Bool.and_eq_true, Bool.not_eq_true', beq_eq_false_iff_ne, decide_eq_true_eq]
      omega
    rw [List.map_cons, hn, List.filter_cons_of_pos (by simp), List.eraseDups_cons, List.filter_filter,
      List.filter_congr fun k _ => hrest k, ih,
      show m' - m = m' - (m + 1) + 1 by omega, List.range'_succ]

end Counts

namespace Numbering

theorem nodup_redundant (r : Numbering) : r.redundant.Nodup :=
  (List.nodup_range.map fun _ _ => InstId.mk.inj).filter _

namespace State

variable {f : Func} {s s' : State} {v : ValueId} {i : InstId} {n : ValueNumber} {inst : Instruction}
  {o : Outcome}

/-! ## The bill of one step -/

/-- The leaves that have no number. -/
def unnumbered (f : Func) (s : State) : List ValueId := f.leaves.filter fun v => (s.numberAt v).isNone

/-- A leaf is unnumbered as long as it has no number. -/
theorem mem_unnumbered : v ∈ s.unnumbered f ↔ f.isLeaf v = true ∧ s.numberAt v = none := by
  unfold unnumbered
  rw [List.mem_filter, Func.mem_leaves, Option.isNone_iff_eq_none]

theorem nodup_unnumbered (f : Func) (s : State) : (s.unnumbered f).Nodup := f.nodup_leaves.filter _

theorem unnumbered_start (f : Func) : (State.start f).unnumbered f = f.leaves := by
  refine List.filter_eq_self.mpr fun v _ => ?_
  rw [numberAt_start]
  rfl

/-- No leaf loses its number, so there are no more leaves without one. -/
theorem unnumbered_le (h : ∀ v, s'.numberAt v = none → s.numberAt v = none) :
    (s'.unnumbered f).length ≤ (s.unnumbered f).length := by
  refine ((nodup_unnumbered f s').subperm fun v hv => ?_).length_le
  rw [mem_unnumbered] at hv ⊢
  exact ⟨hv.1, h v hv.2⟩

/-- Giving a number takes none away. -/
theorem unnumbered_give? {result : Option ValueId} (h : s.give? result n = some s') :
    (s'.unnumbered f).length ≤ (s.unnumbered f).length := by
  refine unnumbered_le fun v hv => ?_
  rw [give?_numberAt h] at hv
  split at hv
  · nomatch hv
  · exact hv

/-- **A leaf pays for its number.** -/
theorem numberOf_budget (hsize : s.numbers.size = f.values.size) (h : s.numberOf f v = (n, s')) :
    s.drawn s' + (s'.unnumbered f).length ≤ (s.unnumbered f).length := by
  rcases numberOf_cases hsize v with ⟨m, -, hcase⟩ | ⟨hnone, hleaf, hlt, hcase⟩ | ⟨-, -, hcase⟩
  · cases h.symm.trans hcase
    rw [drawn_eq_zero rfl, Nat.zero_add]
  · obtain ⟨-, hs'⟩ := Prod.mk.inj (h.symm.trans hcase)
    have hat := numberAt_set hlt (congrArg State.numbers hs')
    have hdrawn : s.drawn s' = 1 := drawn_eq_one (congrArg State.next hs')
    -- the leaf has a number now, and had none before
    have hnodup : (v :: s'.unnumbered f).Nodup := by
      refine List.nodup_cons.mpr ⟨fun hv => ?_, nodup_unnumbered f s'⟩
      have hv := (mem_unnumbered.mp hv).2
      rw [hat v, if_pos rfl] at hv
      nomatch hv
    have hsub : v :: s'.unnumbered f ⊆ s.unnumbered f := by
      refine List.cons_subset.mpr ⟨mem_unnumbered.mpr ⟨hleaf, hnone⟩, fun w hw => ?_⟩
      obtain ⟨hw, hwn⟩ := mem_unnumbered.mp hw
      rw [hat w] at hwn
      split at hwn
      · nomatch hwn
      · exact mem_unnumbered.mpr ⟨hw, hwn⟩
    have hle := (hnodup.subperm hsub).length_le
    rw [List.length_cons] at hle
    omega
  · cases h.symm.trans hcase
    rw [drawn_eq_zero rfl, Nat.zero_add]

/-- An instruction is listed as redundant if it has a place and a source. -/
theorem mem_redundant {j : InstId} :
    j ∈ s.finish.redundant ↔ j.index < s.sources.size ∧ s.isRedundant j = true := by
  unfold redundant
  rw [List.mem_filter, List.mem_map]
  refine and_congr_left fun _ => ⟨?_, fun hj => ⟨j.index, List.mem_range.mpr hj, rfl⟩⟩
  rintro ⟨k, hk, rfl⟩
  exact List.mem_range.mp hk

/-- What is redundant depends on the sources alone. -/
theorem redundant_congr (h : s'.sources = s.sources) : s'.finish.redundant = s.finish.redundant := by
  unfold redundant Numbering.isRedundant source? finish
  rw [h]

theorem redundant_start (f : Func) : (State.start f).finish.redundant = [] := by
  refine List.eq_nil_iff_forall_not_mem.mpr fun j hj => ?_
  have hj := (mem_redundant.mp hj).2
  unfold isRedundant at hj
  rw [source_start] at hj
  nomatch hj

/-- **A binary operator pays once**, with a number or with a mark. -/
theorem lookup_budget {e : Expression} {redundant : Bool} (h : s.lookup i e = (n, redundant, s')) :
    s.drawn s' + s'.finish.redundant.length ≤ s.finish.redundant.length + 1 := by
  rcases lookup_cases s i e with ⟨known, -, hcase⟩ | ⟨-, hcase⟩
  · obtain ⟨-, hs'⟩ := Prod.mk.inj (Prod.mk.inj (h.symm.trans hcase)).2
    have hsources := congrArg State.sources hs'
    have hdrawn : s.drawn s' = 0 := drawn_eq_zero (by rw [hs'])
    have hsub : s'.finish.redundant ⊆ i :: s.finish.redundant := by
      intro j hj
      rw [List.mem_cons, mem_redundant]
      rw [mem_redundant, isRedundant, hsources, Array.size_setIfInBounds] at hj
      by_cases hij : j = i
      · exact Or.inl hij
      · have hindex : i.index ≠ j.index := fun h => hij (congrArg InstId.mk h.symm)
        rw [Array.getElem?_setIfInBounds, if_neg hindex] at hj
        exact Or.inr hj
    have hle := ((nodup_redundant _).subperm hsub).length_le
    rw [List.length_cons] at hle
    omega
  · obtain ⟨-, hs'⟩ := Prod.mk.inj (Prod.mk.inj (h.symm.trans hcase)).2
    have hsources : s'.sources = s.sources := by rw [hs']
    rw [drawn_eq_one (congrArg State.next hs'), redundant_congr hsources, Nat.add_comm]

/-- **One step never spends more than it uses up.** -/
theorem number?_budget (hsize : s.numbers.size = f.values.size)
    (h : s.number? f i inst = some (o, s')) :
    s.drawn s' + (s'.unnumbered f).length + s'.finish.redundant.length ≤
      (s.unnumbered f).length + s.finish.redundant.length + if inst.isBinary then 1 else 0 := by
  obtain ⟨action, result⟩ := inst
  cases action with
  | store value ptr =>
    obtain ⟨m, s₁, hvalue, -, hgive⟩ := store?_cases h
    obtain ⟨hnext, -, hsources⟩ := give?_frame hgive
    have hpaid := numberOf_budget hsize hvalue
    have hgiven := unnumbered_give? (f := f) hgive
    rw [drawn_congr hnext, redundant_congr hsources, redundant_congr (numberOf_frame hsize hvalue).2]
    omega
  | load ptr =>
    have hnothing : s'.next = s.next ∧ s'.sources = s.sources ∧
        (s'.unnumbered f).length ≤ (s.unnumbered f).length := by
      rcases load?_eq_some h with ⟨-, rfl⟩ | ⟨m, -, hgive⟩
      · exact ⟨rfl, rfl, Nat.le_refl _⟩
      · obtain ⟨hnext, -, hsources⟩ := give?_frame hgive
        exact ⟨hnext, hsources, unnumbered_give? hgive⟩
    obtain ⟨hnext, hsources, hle⟩ := hnothing
    rw [drawn_eq_zero hnext, redundant_congr hsources]
    omega
  | other opcode operands =>
    cases h
    rw [drawn_eq_zero rfl]
    omega
  | binary op lhs rhs =>
    obtain ⟨l, s₁, r, s₂, m, redundant, s₃, hleft, hright, hfound, -, hgive⟩ := binary?_cases h
    obtain ⟨hnext, -, hsources⟩ := give?_frame hgive
    have hsize₁ := numberOf_size hsize hleft
    have hpaid₁ := numberOf_budget hsize hleft
    have hpaid₂ := numberOf_budget hsize₁ hright
    have hpaid₃ := lookup_budget hfound
    have hgiven := unnumbered_give? (f := f) hgive
    -- looking up leaves the numbers of values alone
    have hfound₃ : (s₃.unnumbered f).length ≤ (s₂.unnumbered f).length := by
      refine unnumbered_le fun v hv => ?_
      rw [numberAt, lookup_numbers hfound] at hv
      exact hv
    rw [redundant_congr (numberOf_frame hsize₁ hright).2,
      redundant_congr (numberOf_frame hsize hleft).2] at hpaid₃
    rw [drawn_congr hnext, drawn_binary hsize hleft hright hfound, redundant_congr hsources]
    show _ ≤ _ + 1
    omega

/-! ## The order within one step -/

section

variable {t : Valuation} {past : List Term} {meaning : ValueNumber → Term}
  (h : Mirrors f t past s meaning)

include h

/-- What a value has is old, and so is the zero that stands for having none. -/
theorem Mirrors.getD_lt_next (v : ValueId) : ((s.numberAt v).getD 0).toNat < s.next.toNat :=
  UInt32.lt_iff_toNat_lt.mp (h.means_getD v).lt

/-- Asking for a value answers an old number or the next one. -/
theorem Mirrors.counts_numberOf (hv : s.numberOf f v = (n, s'))
    (hroom : s.next.toNat + s.drawn s' < UInt32.size) : Counts s.next.toNat [n] s'.next.toNat := by
  have hold := h.getD_lt_next v
  rcases numberOf_cases h.values v with ⟨m, hm, hcase⟩ | ⟨-, -, -, hcase⟩ | ⟨hm, -, hcase⟩ <;>
    cases hv.symm.trans hcase
  · rw [hm] at hold
    exact .one_old hold
  · rw [next_of_room hroom, drawn_eq_one rfl]
    exact .one_new rfl
  · rw [hm] at hold
    exact .one_old hold

/-- Looking up answers an old number or the next one. -/
theorem Mirrors.counts_lookup {e : Expression} {redundant : Bool}
    (hfound : s.lookup i e = (n, redundant, s')) (hroom : s.next.toNat + s.drawn s' < UInt32.size) :
    Counts s.next.toNat [n] s'.next.toNat := by
  rcases lookup_cases s i e with ⟨known, hknown, hcase⟩ | ⟨-, hcase⟩ <;> cases hfound.symm.trans hcase
  · exact .one_old (UInt32.lt_iff_toNat_lt.mp (h.denotes.entry hknown).1)
  · rw [next_of_room hroom, drawn_eq_one rfl]
    exact .one_new rfl

/-- **The numbers in an event are old ones and the next ones, in this order.** -/
theorem Mirrors.counts_number? (hnumber : s.number? f i inst = some (o, s'))
    (hroom : s.next.toNat + s.drawn s' < UInt32.size) :
    Counts s.next.toNat o.numbers s'.next.toNat := by
  obtain ⟨action, result⟩ := inst
  cases action with
  | store value ptr =>
    obtain ⟨m, s₁, hvalue, rfl, hgive⟩ := store?_cases hnumber
    obtain ⟨hnext, -, -⟩ := give?_frame hgive
    rw [drawn_congr hnext] at hroom
    rw [hnext]
    exact h.counts_numberOf hvalue hroom
  | load ptr =>
    obtain ⟨-, hnext, -, -⟩ := h.load hnumber
    rw [load?_outcome hnumber, hnext]
    exact .one_old (h.getD_lt_next ptr)
  | other opcode operands =>
    cases hnumber
    exact .nil _
  | binary op lhs rhs =>
    obtain ⟨l, s₁, r, s₂, m, redundant, s₃, hleft, hright, hfound, rfl, hgive⟩ := binary?_cases hnumber
    obtain ⟨hnext, -, -⟩ := give?_frame hgive
    rw [drawn_congr hnext] at hroom
    rw [hnext]
    obtain ⟨hroom₁, hroom₂, hroom₃⟩ := room_of_binary h.values hleft hright hfound hroom
    obtain ⟨_, h₁, -, -⟩ := h.query hleft hroom₁
    obtain ⟨_, h₂, -, -⟩ := h₁.query hright hroom₂
    have hl := h.counts_numberOf hleft hroom₁
    have hr := h₁.counts_numberOf hright hroom₂
    have hm := h₂.counts_lookup hfound hroom₃
    exact hl.append (hr.append hm)

end

/-! ## Runs -/

/-- **Where the counter stands** after these listings, which were reported with these events. -/
structure Dense (f : Func) (done : List (BlockId × InstId)) (events : List Event) (s : State) :
    Prop where
  follows : Follows f done s
  counts : Counts 1 (numbersIn events) s.next.toNat
  /-- The counter stands at one before anything is paid for. -/
  paid : s.next.toNat + (s.unnumbered f).length + s.finish.redundant.length ≤
    f.leaves.length + f.binariesIn done + 1

namespace Dense

variable {done rest : List (BlockId × InstId)} {events : List Event} {b : BlockId}

/-- Nothing is issued at the start, and every leaf is still to be paid for. -/
theorem start (f : Func) : Dense f [] [] (.start f) where
  follows := .start f
  counts := .nil 1
  paid := by
    rw [unnumbered_start, redundant_start]
    show 1 + f.leaves.length + 0 ≤ f.leaves.length + 0 + 1
    omega

/-- **One step** finds room for what it draws, and keeps all this. -/
theorem step (h : Dense f done events s) (hinst : f.insts[i.index]? = some inst)
    (hnumber : s.number? f i inst = some (o, s'))
    (hbill : f.leaves.length + f.binariesIn (done ++ [(b, i)]) ≤ UInt32.size - 2) :
    s.next.toNat + s.drawn s' < UInt32.size ∧
      Dense f (done ++ [(b, i)]) (events ++ [⟨b, i, o⟩]) s' := by
  obtain ⟨meaning, hmirrors⟩ := h.follows.mirrors
  have hwidth : UInt32.size = 4294967296 := rfl
  have hpaid := h.paid
  have hstep := number?_budget hmirrors.values hnumber
  have hmore : f.binariesIn (done ++ [(b, i)])
      = f.binariesIn done + if inst.isBinary then 1 else 0 := by
    rw [f.binariesIn_append, Func.binariesIn, Func.binariesIn, List.countP_singleton, hinst]
    rfl
  -- the room comes out of the bill alone, so that nothing is asked of the counter beforehand
  have hroom : s.next.toNat + s.drawn s' < UInt32.size := by omega
  have hnext := next_of_room hroom
  refine ⟨hroom, h.follows.step hinst hnumber hroom, ?_, by omega⟩
  have hcounts := h.counts.append (hmirrors.counts_number? hnumber hroom)
  unfold numbersIn at hcounts ⊢
  rw [List.flatMap_append, List.flatMap_singleton]
  exact hcounts

/-- **All steps.**  The walk succeeds, and the counter goes up by as many numbers as are handed
out. -/
theorem walk (hs : f.Sound) {order : List (BlockId × InstId)}
    (hlisted : ∀ p ∈ order, p ∈ f.programOrder)
    (hbill : f.leaves.length + f.binariesIn order ≤ UInt32.size - 2) :
    ∃ s, ((State.start f).walk f order).2 = .ok s ∧ Dense f order ((State.start f).walk f order).1 s ∧
      s.next.toNat = (State.start f).issued f order + 1 := by
  have hend := walk_induction hs (P := fun done events s =>
    Dense f done events s ∧ s.next.toNat = (State.start f).issued f done + 1) hlisted ⟨start f, rfl⟩ ?_
  · obtain ⟨events, s, hwalk, -, hdense, hnext⟩ := hend
    rw [hwalk]
    exact ⟨s, rfl, hdense, hnext⟩
  · rintro done b i later events s s' inst o horder hwalk - ⟨hdense, hnext⟩ hinst hnumber
    -- the bill for all listings covers the one up to here
    have hbill' : f.leaves.length + f.binariesIn (done ++ [(b, i)]) ≤ UInt32.size - 2 := by
      rw [horder, List.append_cons, f.binariesIn_append] at hbill
      omega
    obtain ⟨hroom, hdense'⟩ := hdense.step hinst hnumber hbill'
    have hissued := issued_append (congrArg Prod.snd hwalk) [(b, i)]
    rw [issued_cons hinst hnumber] at hissued
    have hnone : s'.issued f [] = 0 := rfl
    have hnext' := next_of_room hroom
    exact ⟨hdense', by omega⟩

end Dense

end State

/-- **Numbers are dense.**  Let there be room for one number for each constant, parameter and listed
binary operator, zero and the next one being spoken for.  Then numbering a valid function answers,
and

1. the counter never runs over: after any of the listings it stands at one more than the numbers
   handed out;
2. there are no more numbers and redundant instructions together than constants, parameters and
   listed binary operators;
3. reading the events, the numbers other than zero appear for the first time in the order in which
   one counts, from one to the largest and without a gap;
4. no value has a larger number than the largest. -/
theorem numbers_are_dense {f : Func} (hvalid : f.validate = .ok ())
    (hroom : f.leaves.length + f.binariesIn f.programOrder ≤ UInt32.size - 2) :
    ∃ r, (run f).outcome = .ok r ∧
      (∀ done rest, f.programOrder = done ++ rest →
        ∃ s, Reaches f done s ∧ s.next.toNat = (State.start f).issued f done + 1) ∧
      r.maxNumber.toNat + r.redundant.length ≤ f.leaves.length + f.binariesIn f.programOrder ∧
      firstAppearances (numbersIn ((run f).reports.filterMap Report.event?)) =
        List.range' 1 r.maxNumber.toNat ∧
      ∀ v, r.numberOf v ≤ r.maxNumber := by
  have hs := (Func.validate_eq_ok_iff f).mp hvalid
  -- what is known after a part of the listings, and in the end after all of them
  have hpart : ∀ {done rest}, f.programOrder = done ++ rest → ∃ s, Reaches f done s ∧
      State.Dense f done ((State.start f).walk f done).1 s ∧
      s.next.toNat = (State.start f).issued f done + 1 := by
    intro done rest horder
    have hbill : f.leaves.length + f.binariesIn done ≤ UInt32.size - 2 := by
      rw [horder, f.binariesIn_append] at hroom
      omega
    exact State.Dense.walk hs (fun p hp => horder ▸ List.mem_append_left rest hp) hbill
  obtain ⟨s, hreach, hdense, -⟩ := hpart (List.append_nil f.programOrder).symm
  have hone : 1 ≤ s.next.toNat := hdense.counts.le
  have hmax : s.finish.maxNumber.toNat = s.next.toNat - 1 :=
    UInt32.toNat_sub_of_le _ _ (UInt32.le_iff_toNat_le.mpr hone)
  refine ⟨s.finish, run_eq_ok.mpr ⟨hs, s, hreach, rfl⟩, fun done rest horder => ?_, ?_, ?_, fun v => ?_⟩
  · obtain ⟨t, ht, -, hnext⟩ := hpart horder
    exact ⟨t, ht, hnext⟩
  · have hpaid := hdense.paid
    omega
  · rw [reports_run hs hreach, Report.filterMap_event?_numbered, hmax]
    exact hdense.counts.eraseDups_eq_range'
  · obtain ⟨_, hmirrors⟩ := hdense.follows.mirrors
    have hlt := hmirrors.getD_lt_next v
    rw [UInt32.le_iff_toNat_le, hmax, numberOf_finish]
    omega

/-- What is not known is stored in a parameter, which so has the number zero and never one of its
own; the sum with it is computed twice. -/
def blotted : Func where
  name := "blotted"
  params := [⟨0⟩]
  values := #[.arg 0, .const (.int 7), .slot "x", .result ⟨1⟩, .result ⟨2⟩, .result ⟨3⟩]
  insts := #[⟨.store ⟨2⟩ ⟨0⟩, none⟩, ⟨.binary .add ⟨0⟩ ⟨1⟩, some ⟨3⟩⟩, ⟨.binary .add ⟨1⟩ ⟨0⟩, some ⟨4⟩⟩,
    ⟨.binary .mul ⟨3⟩ ⟨1⟩, some ⟨5⟩⟩]
  blocks := #[⟨[⟨0⟩, ⟨1⟩], [⟨1⟩]⟩, ⟨[⟨2⟩, ⟨3⟩], []⟩]

/-- Five numbers could be charged for, and three are handed out: the parameter has none of its own,
and one of the sums is redundant. -/
theorem blotted_numbers_are_dense :
    blotted.validate = .ok () ∧
    blotted.leaves.length + blotted.binariesIn blotted.programOrder = 5 ∧
    ∃ r, (run blotted).outcome = .ok r ∧ r.maxNumber = 3 ∧ r.redundant = [⟨2⟩] ∧
      r.numberOf ⟨0⟩ = 0 ∧
      firstAppearances (numbersIn ((run blotted).reports.filterMap Report.event?)) = [1, 2, 3] := by
  have hvalid : blotted.validate = .ok () := by decide
  have hbill : blotted.leaves.length + blotted.binariesIn blotted.programOrder = 5 := by decide
  have hrun : (run blotted).outcome
      = .ok ⟨#[0, 1, 0, 2, 2, 3], #[none, none, some ⟨1⟩, none], 4⟩ := by
    refine run_eq_ok.mpr ⟨blotted.validate_eq_ok_iff.mp hvalid, _, rfl, ?_⟩
    decide +kernel
  obtain ⟨r, hr, -, -, hfirst, -⟩ := numbers_are_dense hvalid (by rw [hbill]; decide)
  obtain rfl := Except.ok.inj (hrun.symm.trans hr)
  exact ⟨hvalid, hbill, _, hrun, rfl, rfl, rfl, hfirst⟩

end Numbering

end Dataflow
