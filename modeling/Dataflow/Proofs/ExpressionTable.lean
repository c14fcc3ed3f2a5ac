import Dataflow.Proofs.InBounds

/-!
# The table of expressions is the history read back

Numbering need not go through a function in program order.  Here it is driven by any calls at all: a
value is asked for, or any instruction of the function is numbered, listed or not, as often as one
likes and each time under the numbers that its operands have by then (`Session`).  An instruction
may so be numbered under several expressions, and it may repeat what it has computed itself.

1. **One step** (`number?_recorded`): numbering an instruction leaves the table and the marks alone,
   or it finds the expression and marks the instruction, or it enters the expression under a number
   just drawn.

2. **The history tells all** (`Logged`): an expression is known if an event had it, by the
   instruction of the first such event; an event is redundant if an earlier one had its expression;
   and a mark is that of the latest event in which the instruction was redundant (`cited?`).

3. **Numbers tell expressions apart** (`OneToOne`), as long as the counter does not run over: an
   expression that is entered gets a number above all those in the table, whatever constants and
   parameters have drawn in between.

(2) speaks of expressions only and holds even if the counter runs over; by (3) it can be read with
numbers in their place.
-/

namespace Dataflow

/-! ## Reading events -/

namespace Outcome

/-- The expression that an operator was looked up by. -/
def expression? : Outcome → Option Expression
  | .binary op l r _ _ => some (.normal op l r)
  | _ => none

/-- The number that an operator was given. -/
def number? : Outcome → Option ValueNumber
  | .binary _ _ _ n _ => some n
  | _ => none

/-- Whether an operator was found to repeat an expression. -/
def isRedundant : Outcome → Bool
  | .binary _ _ _ _ redundant => redundant
  | _ => false

theorem exists_expression {o : Outcome} {n : ValueNumber} (h : o.number? = some n) :
    ∃ x, o.expression? = some x := by
  cases o with
  | binary op l r m redundant => exact ⟨_, rfl⟩
  | store m => nomatch h
  | load m => nomatch h
  | other => nomatch h

theorem exists_expression_of_redundant {o : Outcome} (h : o.isRedundant = true) :
    ∃ x, o.expression? = some x := by
  cases o with
  | binary op l r m redundant => exact ⟨_, rfl⟩
  | store m => nomatch h
  | load m => nomatch h
  | other => nomatch h

end Outcome

namespace Numbering

/-- The first event with this expression. -/
def firstOf? (events : List Event) (x : Expression) : Option Event :=
  events.find? fun e => e.outcome.expression? = some x

/-- The latest event in which `i` is redundant. -/
def latestRedundant? (events : List Event) (i : InstId) : Option Event :=
  events.reverse.find? fun e => e.inst = i ∧ e.outcome.isRedundant = true

/-- **The instruction cited for `i`**: where the expression was first met that `i` has repeated
last. -/
def cited? (events : List Event) (i : InstId) : Option InstId :=
  (latestRedundant? events i).bind fun e =>
    e.outcome.expression?.bind fun x => (firstOf? events x).map Event.inst

section

variable {events : List Event} {e y : Event} {x : Expression} {i : InstId}

theorem exists_firstOf (hy : y ∈ events) (hx : y.outcome.expression? = some x) :
    ∃ z, firstOf? events x = some z := by
  have hsome : (firstOf? events x).isSome = true :=
    List.find?_isSome.mpr ⟨y, hy, decide_eq_true hx⟩
  exact Option.isSome_iff_exists.mp hsome

/-- Where the first event stands. -/
theorem firstOf?_eq_some (h : firstOf? events x = some y) : ∃ first rest, events = first ++ y :: rest ∧
    y.outcome.expression? = some x ∧ ∀ z ∈ first, z.outcome.expression? ≠ some x := by
  obtain ⟨hx, first, rest, hsplit, hfirst⟩ := List.find?_eq_some_iff_append.mp h
  refine ⟨first, rest, hsplit, of_decide_eq_true hx, fun z hz hzx => ?_⟩
  have hnot := hfirst z hz
  simp [hzx] at hnot

/-- Where the latest redundant event stands. -/
theorem latestRedundant?_eq_some (h : latestRedundant? events i = some y) :
    ∃ before after, events = before ++ y :: after ∧ y.inst = i ∧ y.outcome.isRedundant = true ∧
      ∀ z ∈ after, z.inst = i → z.outcome.isRedundant = false := by
  obtain ⟨hy, after, before, hsplit, hafter⟩ := List.find?_eq_some_iff_append.mp h
  obtain ⟨hinst, hredundant⟩ := of_decide_eq_true hy
  refine ⟨before.reverse, after.reverse, ?_, hinst, hredundant, fun z hz hzi => ?_⟩
  · rw [← List.reverse_reverse events, hsplit]
    simp
  · have hnot := hafter z (List.mem_reverse.mp hz)
    simpa [hzi] using hnot

/-- A citation comes from the latest redundant event of the instruction and names the first event of
its expression. -/
theorem cited?_eq_some {j : InstId} (h : cited? events i = some j) :
    ∃ y x z, latestRedundant? events i = some y ∧ y.outcome.expression? = some x ∧
      firstOf? events x = some z ∧ z.inst = j := by
  obtain ⟨y, hlatest, hcited⟩ := Option.bind_eq_some_iff.mp h
  obtain ⟨x, hx, hfirst⟩ := Option.bind_eq_some_iff.mp hcited
  obtain ⟨z, hz, hinst⟩ := Option.map_eq_some_iff.mp hfirst
  exact ⟨y, x, z, hlatest, hx, hz, hinst⟩

/-- **Something is cited** for the instructions that were redundant at some time. -/
theorem cited?_isSome : (cited? events i).isSome = true ↔
    ∃ y ∈ events, y.inst = i ∧ y.outcome.isRedundant = true := by
  constructor
  · intro h
    obtain ⟨j, hj⟩ := Option.isSome_iff_exists.mp h
    obtain ⟨y, x, z, hlatest, -⟩ := cited?_eq_some hj
    obtain ⟨before, after, hsplit, hinst, hredundant, -⟩ := latestRedundant?_eq_some hlatest
    exact ⟨y, hsplit ▸ List.mem_append_cons_self, hinst, hredundant⟩
  · rintro ⟨y, hy, hinst, hredundant⟩
    have hsome : (latestRedundant? events i).isSome = true :=
      List.find?_isSome.mpr ⟨y, List.mem_reverse.mpr hy, decide_eq_true ⟨hinst, hredundant⟩⟩
    obtain ⟨z, hz⟩ := Option.isSome_iff_exists.mp hsome
    obtain ⟨before, after, hsplit, -, hzredundant, -⟩ := latestRedundant?_eq_some hz
    obtain ⟨x, hx⟩ := Outcome.exists_expression_of_redundant hzredundant
    obtain ⟨w, hw⟩ := exists_firstOf (hsplit ▸ List.mem_append_cons_self) hx
    unfold cited?
    rw [hz, Option.bind_some, hx, Option.bind_some, hw]
    rfl

theorem firstOf?_concat_new (h : ∀ y ∈ events, y.outcome.expression? ≠ some x)
    (hx : e.outcome.expression? = some x) : firstOf? (events ++ [e]) x = some e := by
  have hnone : events.find? (fun y => y.outcome.expression? = some x) = none :=
    List.find?_eq_none.mpr fun y hy hyx => h y hy (of_decide_eq_true hyx)
  unfold firstOf?
  rw [List.find?_append, hnone, Option.none_or]
  simp [hx]

/-- The first event stays the first. -/
theorem firstOf?_concat_old (hy : y ∈ events) (hx : y.outcome.expression? = some x) (e : Event) :
    firstOf? (events ++ [e]) x = firstOf? events x := by
  obtain ⟨z, hz⟩ := exists_firstOf hy hx
  unfold firstOf? at hz ⊢
  rw [List.find?_append, hz, Option.some_or]

/-- What is cited changes only for the instruction of a redundant event. -/
theorem cited?_concat : cited? (events ++ [e]) i =
    if e.inst = i ∧ e.outcome.isRedundant = true then
      e.outcome.expression?.bind fun x => (firstOf? (events ++ [e]) x).map Event.inst
    else cited? events i := by
  unfold cited? latestRedundant?
  rw [List.reverse_append, List.reverse_singleton, List.singleton_append, List.find?_cons]
  by_cases h : e.inst = i ∧ e.outcome.isRedundant = true
  · rw [if_pos h, decide_eq_true h]
    rfl
  · rw [if_neg h, decide_eq_false h]
    cases hlatest :
        events.reverse.find? fun y => decide (y.inst = i ∧ y.outcome.isRedundant = true) with
    | none => rfl
    | some y =>
      have hy : y ∈ events := List.mem_reverse.mp (List.mem_of_find?_eq_some hlatest)
      show y.outcome.expression?.bind _ = y.outcome.expression?.bind _
      cases hx : y.outcome.expression? with
      | none => rfl
      | some x =>
        show (firstOf? (events ++ [e]) x).map _ = _
        rw [firstOf?_concat_old hy hx]
        rfl

end

namespace State

variable {f : Func} {events : List Event} {s s' : State} {b : BlockId} {i : InstId} {o : Outcome}

/-! ## One step -/

/-- **What numbering `i` does to the table and the marks.** -/
inductive Recorded (s s' : State) (i : InstId) : Outcome → Prop where
  /-- Nothing is looked up. -/
  | nothing {o : Outcome} (hx : o.expression? = none) (htable : s'.table = s.table)
      (hsources : s'.sources = s.sources) : Recorded s s' i o
  /-- The expression is there, and the instruction is marked with its source. -/
  | found {op : Operator} {l r : ValueNumber} {known : Known}
      (hfound : s.table.lookup (.normal op l r) = some known) (htable : s'.table = s.table)
      (hsources : s'.sources = s.sources.setIfInBounds i.index (some known.source)) :
      Recorded s s' i (.binary op l r known.number true)
  /-- The expression is entered under the number that was drawn last. -/
  | entered {op : Operator} {l r n : ValueNumber} (hmiss : s.table.lookup (.normal op l r) = none)
      (hnext : s'.next = n + 1) (hdrawn : 0 < s.drawn s')
      (htable : s'.table = (.normal op l r, ⟨n, i⟩) :: s.table) (hsources : s'.sources = s.sources) :
      Recorded s s' i (.binary op l r n false)

/-- **Numbering one instruction** changes the table and the marks as its outcome says. -/
theorem number?_recorded (hsize : s.numbers.size = f.values.size) {inst : Instruction}
    (h : s.number? f i inst = some (o, s')) : Recorded s s' i o := by
  obtain ⟨action, result⟩ := inst
  cases action with
  | store value ptr =>
    obtain ⟨n, s₁, hvalue, rfl, hgive⟩ := store?_cases h
    obtain ⟨-, htable, hsources⟩ := give?_frame hgive
    obtain ⟨htable₁, hsources₁⟩ := numberOf_frame hsize hvalue
    exact .nothing rfl (htable.trans htable₁) (hsources.trans hsources₁)
  | load ptr =>
    obtain rfl := load?_outcome h
    rcases load?_eq_some h with ⟨-, rfl⟩ | ⟨n, -, hgive⟩
    · exact .nothing rfl rfl rfl
    · exact .nothing rfl (give?_frame hgive).2.1 (give?_frame hgive).2.2
  | other opcode operands =>
    cases h
    exact .nothing rfl rfl rfl
  | binary op lhs rhs =>
    obtain ⟨l, s₁, r, s₂, n, redundant, s₃, hleft, hright, hfound, rfl, hgive⟩ := binary?_cases h
    obtain ⟨htable₁, hsources₁⟩ := numberOf_frame hsize hleft
    obtain ⟨htable₂, hsources₂⟩ := numberOf_frame (numberOf_size hsize hleft) hright
    obtain ⟨hnext, htable, hsources⟩ := give?_frame hgive
    have hdrawn := drawn_binary hsize hleft hright hfound
    rcases lookup_cases s₂ i (.normal op l r) with ⟨known, hknown, hcase⟩ | ⟨hmiss, hcase⟩ <;>
      cases hfound.symm.trans hcase
    · dsimp only at htable hsources
      rw [htable₂, htable₁] at htable hknown
      rw [hsources₂, hsources₁] at hsources
      exact .found hknown htable hsources
    · dsimp only at htable hsources
      rw [htable₂, htable₁] at htable hmiss
      rw [hsources₂, hsources₁] at hsources
      rw [drawn_eq_one (s := s₂) rfl] at hdrawn
      refine .entered hmiss hnext ?_ htable hsources
      rw [drawn_congr hnext]
      omega

/-! ## The history tells all -/

/-- **The table and the marks are those of the history.** -/
structure Logged (f : Func) (events : List Event) (s : State) : Prop where
  insts : s.sources.size = f.insts.size
  /-- An entry names the instruction that had its expression first. -/
  entry : ∀ {x known}, s.table.lookup x = some known →
    (firstOf? events x).map Event.inst = some known.source
  /-- An event has the number of the entry for its expression. -/
  number : ∀ {e x}, e ∈ events → e.outcome.expression? = some x →
    ∃ known, s.table.lookup x = some known ∧ e.outcome.number? = some known.number
  /-- An event is redundant if an earlier one had its expression. -/
  redundant : ∀ {before e x}, (before, e) ∈ withBefore events → e.outcome.expression? = some x →
    (e.outcome.isRedundant = true ↔ ∃ y ∈ before, y.outcome.expression? = some x)
  source : ∀ i, (s.sources[i.index]?).join = cited? events i

namespace Logged

theorem start (f : Func) : Logged f [] (.start f) where
  insts := Array.size_replicate
  entry := by
    intro x known h
    nomatch h
  number := by
    intro e x he
    nomatch he
  redundant := by
    intro before e x he
    nomatch he
  source := source_start f

/-- What leaves the table and the marks alone, such as asking for a value. -/
theorem of_frame (h : Logged f events s) (htable : s'.table = s.table)
    (hsources : s'.sources = s.sources) :
    Logged f events s' where
  insts := by
    rw [hsources]
    exact h.insts
  entry := by
    rw [htable]
    exact h.entry
  number := by
    rw [htable]
    exact h.number
  redundant := h.redundant
  source := by
    rw [hsources]
    exact h.source

theorem exists_event (h : Logged f events s) {x : Expression} {known : Known}
    (hfound : s.table.lookup x = some known) :
    ∃ y ∈ events, y.outcome.expression? = some x ∧ y.inst = known.source := by
  obtain ⟨y, hy, hinst⟩ := Option.map_eq_some_iff.mp (h.entry hfound)
  obtain ⟨first, rest, hsplit, hx, -⟩ := firstOf?_eq_some hy
  exact ⟨y, hsplit ▸ List.mem_append_cons_self, hx, hinst⟩

/-- An expression that the table does not hold has not been met. -/
theorem not_mem_of_missing (h : Logged f events s) {x : Expression} (hmiss : s.table.lookup x = none) :
    ∀ y ∈ events, y.outcome.expression? ≠ some x := by
  intro y hy hx
  obtain ⟨known, hfound, -⟩ := h.number hy hx
  rw [hmiss] at hfound
  nomatch hfound

/-- An old entry still names the first event. -/
theorem entry_concat (h : Logged f events s) {x : Expression} {known : Known}
    (hfound : s.table.lookup x = some known) (e : Event) :
    (firstOf? (events ++ [e]) x).map Event.inst = some known.source := by
  obtain ⟨y, hy, hx, -⟩ := h.exists_event hfound
  rw [firstOf?_concat_old hy hx]
  exact h.entry hfound

/-- One more event, in a state that keeps the old entries. -/
theorem concat (h : Logged f events s) {e : Event} (hsize : s'.sources.size = s.sources.size)
    (hkeep : ∀ {x known}, s.table.lookup x = some known → s'.table.lookup x = some known)
    (hentry : ∀ {x known}, s'.table.lookup x = some known →
      (firstOf? (events ++ [e]) x).map Event.inst = some known.source)
    (hnumber : ∀ {x}, e.outcome.expression? = some x →
      ∃ known, s'.table.lookup x = some known ∧ e.outcome.number? = some known.number)
    (hredundant : ∀ {x}, e.outcome.expression? = some x →
      (e.outcome.isRedundant = true ↔ ∃ y ∈ events, y.outcome.expression? = some x))
    (hsource : ∀ j, (s'.sources[j.index]?).join = cited? (events ++ [e]) j) :
    Logged f (events ++ [e]) s' where
  insts := hsize.trans h.insts
  entry := hentry
  number := by
    intro y x hy hx
    rcases List.mem_append.mp hy with hy | hy
    · obtain ⟨known, hfound, hn⟩ := h.number hy hx
      exact ⟨known, hkeep hfound, hn⟩
    · obtain rfl := List.mem_singleton.mp hy
      exact hnumber hx
  redundant := by
    intro before y x hy hx
    rw [withBefore_concat, List.mem_append, List.mem_singleton] at hy
    rcases hy with hy | hy
    · exact h.redundant hy hx
    · cases hy
      exact hredundant hx
  source := hsource

/-- **One step.** -/
theorem step (h : Logged f events s) (hi : i.index < f.insts.size) (hr : Recorded s s' i o)
    (b : BlockId) : Logged f (events ++ [⟨b, i, o⟩]) s' := by
  cases hr with
  | nothing hx htable hsources =>
    have hquiet : ∀ x, (Event.mk b i o).outcome.expression? ≠ some x := by
      intro x hsome
      rw [hx] at hsome
      nomatch hsome
    refine h.concat (by rw [hsources]) (by rw [htable]; exact id) ?_
      (fun hsome => absurd hsome (hquiet _)) (fun hsome => absurd hsome (hquiet _)) fun j => ?_
    · rw [htable]
      exact fun hfound => h.entry_concat hfound _
    · rw [hsources, h.source j, cited?_concat, if_neg]
      rintro ⟨-, hredundant⟩
      obtain ⟨x, hsome⟩ := Outcome.exists_expression_of_redundant hredundant
      exact hquiet x hsome
  | found hfound htable hsources =>
    obtain ⟨y, hy, hyx, -⟩ := h.exists_event hfound
    refine h.concat (by rw [hsources, Array.size_setIfInBounds]) (by rw [htable]; exact id) ?_ ?_ ?_
      fun j => ?_
    · rw [htable]
      exact fun hfound => h.entry_concat hfound _
    · intro x hx
      obtain rfl := Option.some.inj hx
      rw [htable]
      exact ⟨_, hfound, rfl⟩
    · intro x hx
      obtain rfl := Option.some.inj hx
      exact ⟨fun _ => ⟨y, hy, hyx⟩, fun _ => rfl⟩
    · rw [cited?_concat, hsources, Array.getElem?_setIfInBounds]
      by_cases hj : i = j
      · subst hj
        rw [if_pos rfl, if_pos (h.insts ▸ hi), if_pos ⟨rfl, rfl⟩]
        exact (h.entry_concat hfound _).symm
      · have hindex : i.index ≠ j.index := fun heq => hj (congrArg InstId.mk heq)
        rw [if_neg hindex, if_neg fun heq => hj heq.1]
        exact h.source j
  | @entered op l r n hmiss hnext hdrawn htable hsources =>
    have habsent := h.not_mem_of_missing hmiss
    have hself : s'.table.lookup (.normal op l r) = some ⟨n, i⟩ := by
      rw [htable]
      exact List.lookup_cons_self
    refine h.concat (by rw [hsources]) (fun hfound => ?_) (fun {x known} hfound => ?_) ?_ ?_ fun j => ?_
    · rw [htable]
      exact lookup_enter hmiss hfound
    · by_cases hx : x = .normal op l r
      · subst hx
        obtain rfl := Option.some.inj (hself.symm.trans hfound)
        rw [firstOf?_concat_new habsent rfl]
        rfl
      · rw [htable, List.lookup_cons, beq_false_of_ne hx] at hfound
        exact h.entry_concat hfound _
    · intro x hx
      obtain rfl := Option.some.inj hx
      exact ⟨_, hself, rfl⟩
    · intro x hx
      obtain rfl := Option.some.inj hx
      constructor
      · intro hfalse
        nomatch hfalse
      · rintro ⟨y, hy, hyx⟩
        exact absurd hyx (habsent y hy)
    · rw [hsources, h.source j, cited?_concat, if_neg]
      rintro ⟨-, hfalse⟩
      nomatch hfalse

end Logged

/-! ## Numbers tell expressions apart -/

/-- **No two entries have one number**, and none has a number that is still to be drawn. -/
structure OneToOne (s : State) : Prop where
  older : ∀ {x known}, s.table.lookup x = some known → known.number.toNat < s.next.toNat
  distinct : ∀ {x y known known'}, s.table.lookup x = some known → s.table.lookup y = some known' →
    known.number = known'.number → x = y

namespace OneToOne

theorem start (f : Func) : OneToOne (.start f) where
  older := by
    intro x known h
    nomatch h
  distinct := by
    intro x y known known' h
    nomatch h

theorem of_frame (h : OneToOne s) (htable : s'.table = s.table) (hnext : s.next.toNat ≤ s'.next.toNat) :
    OneToOne s' where
  older := by
    intro x known hfound
    rw [htable] at hfound
    exact Nat.lt_of_lt_of_le (h.older hfound) hnext
  distinct := by
    rw [htable]
    exact h.distinct

/-- **One step**, if there is room for the numbers it draws. -/
theorem step (h : OneToOne s) (hr : Recorded s s' i o)
    (hroom : s.next.toNat + s.drawn s' < UInt32.size) : OneToOne s' := by
  have hnext' := next_of_room hroom
  cases hr with
  | nothing _ htable _ => exact h.of_frame htable (by omega)
  | found _ htable _ => exact h.of_frame htable (by omega)
  | @entered op l r n hmiss hnext hdrawn htable _ =>
    -- the number drawn last is above all that were handed out before
    have hn : n.toNat + 1 = s'.next.toNat := by
      have hwidth : UInt32.size = 4294967296 := rfl
      have hlt := n.toNat_lt
      have hone : (1 : UInt32).toNat = 1 := rfl
      rw [hnext, UInt32.toNat_add] at hnext' ⊢
      omega
    have hold : ∀ {x known}, x ≠ .normal op l r → s'.table.lookup x = some known →
        s.table.lookup x = some known := by
      intro x known hx hfound
      rw [htable, List.lookup_cons, beq_false_of_ne hx] at hfound
      exact hfound
    have hnew : ∀ {known}, s'.table.lookup (.normal op l r) = some known → known.number = n := by
      intro known hfound
      rw [htable, List.lookup_cons_self] at hfound
      rw [← Option.some.inj hfound]
    refine ⟨fun {x known} hx => ?_, fun {x y known known'} hx hy heq => ?_⟩
    · by_cases hxn : x = .normal op l r
      · subst hxn
        rw [hnew hx]
        omega
      · have hlt := h.older (hold hxn hx)
        omega
    · by_cases hxn : x = .normal op l r <;> by_cases hyn : y = .normal op l r
      · rw [hxn, hyn]
      · subst hxn
        have hlt := h.older (hold hyn hy)
        rw [← heq, hnew hx] at hlt
        omega
      · subst hyn
        have hlt := h.older (hold hxn hx)
        rw [heq, hnew hy] at hlt
        omega
      · exact h.distinct (hold hxn hx) (hold hyn hy) heq

end OneToOne

/-- **A walk over listed instructions**, whether the counter runs over or not. -/
theorem Logged.walk (hs : f.Sound) {order : List (BlockId × InstId)}
    (hlisted : ∀ p ∈ order, p ∈ f.programOrder) (hwalk : ((State.start f).walk f order).2 = .ok s) :
    Logged f ((State.start f).walk f order).1 s := by
  obtain ⟨events, last, hall, -, hlogged⟩ :=
    walk_induction hs (P := fun _ events s => Logged f events s)
      hlisted (.start f) fun _ _ hsize h hinst hnumber =>
        h.step (Array.getElem?_eq_some_iff.mp hinst).1 (number?_recorded hsize hnumber) _
  rw [hall] at hwalk ⊢
  obtain rfl := Except.ok.inj hwalk
  exact hlogged

/-- **Events with one number are events with one expression.** -/
theorem Logged.number_eq_iff (h : Logged f events s) (hone : OneToOne s) {x y : Event} {a : Expression}
    {n : ValueNumber} (hx : x ∈ events) (hy : y ∈ events) (hxa : x.outcome.expression? = some a)
    (hxn : x.outcome.number? = some n) :
    y.outcome.number? = some n ↔ y.outcome.expression? = some a := by
  obtain ⟨known, hfound, hn⟩ := h.number hx hxa
  obtain rfl := Option.some.inj (hxn.symm.trans hn)
  constructor
  · intro hyn
    obtain ⟨c, hyc⟩ := Outcome.exists_expression hyn
    obtain ⟨known', hfound', hn'⟩ := h.number hy hyc
    rw [hone.distinct hfound hfound' (Option.some.inj (hyn.symm.trans hn'))]
    exact hyc
  · intro hya
    obtain ⟨known', hfound', hn'⟩ := h.number hy hya
    obtain rfl := Option.some.inj (hfound.symm.trans hfound')
    exact hn'

theorem Logged.binary_number_eq_iff (h : Logged f events s) (hone : OneToOne s) {x y : Event}
    (hx : x ∈ events) (hy : y ∈ events) {op op' : Operator} {l r n l' r' n' : ValueNumber}
    {marked marked' : Bool} (hxo : x.outcome = .binary op l r n marked)
    (hyo : y.outcome = .binary op' l' r' n' marked') :
    n = n' ↔ op = op' ∧ (l = l' ∧ r = r' ∨ op.isCommutative = true ∧ l = r' ∧ r = l') := by
  have hiff := h.number_eq_iff hone hx hy (by rw [hxo]; rfl) (by rw [hxo]; rfl)
  rw [hyo] at hiff
  rw [← Expression.normal_eq_iff]
  constructor
  · rintro rfl
    exact (Option.some.inj (hiff.mp rfl)).symm
  · intro heq
    exact (Option.some.inj (hiff.mpr (congrArg some heq.symm))).symm

/-- **Redundant is what has an old number.** -/
theorem Logged.redundant_iff_number (h : Logged f events s) (hone : OneToOne s)
    {before after : List Event} {x : Event} {n : ValueNumber} (hsplit : events = before ++ x :: after)
    (hxn : x.outcome.number? = some n) :
    x.outcome.isRedundant = true ↔ ∃ y ∈ before, y.outcome.number? = some n := by
  obtain ⟨a, hxa⟩ := Outcome.exists_expression hxn
  refine (h.redundant (mem_withBefore.mpr ⟨after, hsplit⟩) hxa).trans
    (exists_congr fun y => and_congr_right fun hy => ?_)
  exact (h.number_eq_iff hone (hsplit ▸ List.mem_append_cons_self)
    (hsplit ▸ List.mem_append_left _ hy) hxa hxn).symm

theorem Logged.isRedundant_iff (h : Logged f events s) :
    s.isRedundant i = true ↔ ∃ x ∈ events, x.inst = i ∧ x.outcome.isRedundant = true := by
  rw [State.isRedundant, h.source i]
  exact cited?_isSome

/-- **The source of a redundant instruction.** -/
theorem Logged.exists_source (h : Logged f events s) (hone : OneToOne s) (hi : s.isRedundant i = true) :
    ∃ (before after first rest : List Event) (x y : Event) (n : ValueNumber),
      events = before ++ x :: after ∧ x.inst = i ∧ x.outcome.isRedundant = true ∧
      (∀ z ∈ after, z.inst = i → z.outcome.isRedundant = false) ∧
      x.outcome.number? = some n ∧ events = first ++ y :: rest ∧ y.outcome.number? = some n ∧
      (∀ z ∈ first, z.outcome.number? ≠ some n) ∧ y.outcome.isRedundant = false ∧
      (s.sources[i.index]?).join = some y.inst := by
  rw [State.isRedundant] at hi
  obtain ⟨j, hj⟩ := Option.isSome_iff_exists.mp hi
  obtain ⟨x, a, y, hlatest, hxa, hfirst, rfl⟩ := cited?_eq_some ((h.source i).symm.trans hj)
  obtain ⟨before, after, hbefore, hinst, hredundant, hafter⟩ := latestRedundant?_eq_some hlatest
  obtain ⟨first, rest, hsplit, hya, hnew⟩ := firstOf?_eq_some hfirst
  have hx : x ∈ events := hbefore ▸ List.mem_append_cons_self
  obtain ⟨known, -, hxn⟩ := h.number hx hxa
  have hyn : y.outcome.number? = some known.number :=
    (h.number_eq_iff hone hx (hsplit ▸ List.mem_append_cons_self) hxa hxn).mpr hya
  have hfresh : ∀ z ∈ first, z.outcome.number? ≠ some known.number := by
    intro z hz hzn
    exact hnew z hz ((h.number_eq_iff hone hx (hsplit ▸ List.mem_append_left _ hz) hxa hxn).mp hzn)
  refine ⟨before, after, first, rest, x, y, known.number, hbefore, hinst, hredundant, hafter, hxn,
    hsplit, hyn, hfresh, ?_, hj⟩
  rw [← Bool.not_eq_true, h.redundant_iff_number hone hsplit hyn]
  rintro ⟨z, hz, hzn⟩
  exact hfresh z hz hzn

end State

/-! ## Sessions -/

/-- A call on numbering. -/
inductive Call where
  /-- Asks for the number of a value. -/
  | ask (v : ValueId)
  /-- Numbers an instruction, which is said to stand in block `b`. -/
  | number (b : BlockId) (i : InstId)
deriving DecidableEq, Repr

/-- What calls have come to: the state, the events so far, and how many numbers were handed out.
The counter is read after every call, and a call draws three numbers at most, so this counts them
all. -/
structure Session where
  state : State
  events : List Event := []
  issued : Nat := 0
deriving DecidableEq, Repr

namespace Session

/-- One call.  An instruction that is not there is refused and changes nothing; `none` if a value
that has to be there is not. -/
def call? (f : Func) (d : Session) : Call → Option Session
  | .ask v =>
    let s := (d.state.numberOf f v).2
    some ⟨s, d.events, d.issued + d.state.drawn s⟩
  | .number b i =>
    match d.state.step f b i with
    | .ok (event, s) => some ⟨s, d.events ++ [event], d.issued + d.state.drawn s⟩
    | .error (.failed _) => some d
    | .error .outOfRange => none

/-- Calls one after the other. -/
def calls? (f : Func) (d : Session) (calls : List Call) : Option Session := calls.foldlM (call? f) d

variable {f : Func} {d d' : Session}

/-- **What a call can do**: ask for a value, number an instruction, or nothing. -/
theorem call?_cases {c : Call} (h : d.call? f c = some d') :
    (∃ v n s, d.state.numberOf f v = (n, s) ∧ d' = ⟨s, d.events, d.issued + d.state.drawn s⟩) ∨
    (∃ b i inst o s, f.insts[i.index]? = some inst ∧ d.state.number? f i inst = some (o, s) ∧
      d' = ⟨s, d.events ++ [⟨b, i, o⟩], d.issued + d.state.drawn s⟩) ∨
    d' = d := by
  cases c with
  | ask v => exact Or.inl ⟨v, _, _, rfl, (Option.some.inj h).symm⟩
  | number b i =>
    dsimp only [call?] at h
    split at h
    · next e s hstep =>
      obtain ⟨inst, o, hinst, hnumber, rfl⟩ := State.step_eq_ok.mp hstep
      exact Or.inr (Or.inl ⟨b, i, inst, o, s, hinst, hnumber, (Option.some.inj h).symm⟩)
    · exact Or.inr (Or.inr (Option.some.inj h).symm)
    · nomatch h

/-- **Where a session stands**: the events tell the table and the marks, and the numbers in the
table tell expressions apart if no more of them were handed out than the counter can tell apart. -/
structure Exact (f : Func) (d : Session) : Prop where
  values : d.state.numbers.size = f.values.size
  logged : d.state.Logged f d.events
  oneToOne : d.issued ≤ UInt32.size - 2 → d.state.next.toNat = d.issued + 1 ∧ d.state.OneToOne

theorem Exact.start (f : Func) : Exact f { state := .start f } where
  values := Array.size_replicate
  logged := .start f
  oneToOne := fun _ => ⟨rfl, .start f⟩

/-- **One call.** -/
theorem Exact.call {c : Call} (h : d.Exact f) (hc : d.call? f c = some d') : d'.Exact f := by
  have hwidth : UInt32.size = 4294967296 := rfl
  -- the room there is after the call was there before it
  have hroom : ∀ {s : State}, d.issued + d.state.drawn s ≤ UInt32.size - 2 →
      d.state.OneToOne ∧ d.state.next.toNat + d.state.drawn s < UInt32.size ∧
        s.next.toNat = d.issued + d.state.drawn s + 1 := by
    intro s hfew
    obtain ⟨hnext, hone⟩ := h.oneToOne (by omega)
    have hfits : d.state.next.toNat + d.state.drawn s < UInt32.size := by omega
    have hnext' := State.next_of_room hfits
    exact ⟨hone, hfits, by omega⟩
  rcases call?_cases hc with ⟨v, n, s, hask, rfl⟩ | ⟨b, i, inst, o, s, hinst, hnumber, rfl⟩ | rfl
  · obtain ⟨htable, hsources⟩ := State.numberOf_frame h.values hask
    refine ⟨State.numberOf_size h.values hask, h.logged.of_frame htable hsources, fun hfew => ?_⟩
    obtain ⟨hone, hfits, hnext⟩ := hroom hfew
    exact ⟨hnext, hone.of_frame htable (by rw [State.next_of_room hfits]; omega)⟩
  · have hi : i.index < f.insts.size := (Array.getElem?_eq_some_iff.mp hinst).1
    have hrecorded := State.number?_recorded h.values hnumber
    refine ⟨State.number?_size h.values hnumber, h.logged.step hi hrecorded b, fun hfew => ?_⟩
    obtain ⟨hone, hfits, hnext⟩ := hroom hfew
    exact ⟨hnext, hone.step hrecorded hfits⟩
  · exact h

/-- **All calls.** -/
theorem Exact.calls {calls : List Call} (h : d.Exact f) (hc : d.calls? f calls = some d') :
    d'.Exact f := by
  induction calls generalizing d with
  | nil =>
    obtain rfl := Option.some.inj hc
    exact h
  | cons c calls ih =>
    obtain ⟨d₁, hfirst, hrest⟩ := Option.bind_eq_some_iff.mp hc
    exact ih (h.call hfirst) hrest

end Session

/-! ## The headline -/

/-- **The table of expressions is exact, however numbering is driven.**  Start on a function that
validates and make any calls, in any order and as often as one likes, such that none is sent past
the end of a table and no more numbers are handed out than the counter can tell apart.  Then of the
events of binary operators

1. two have the same number exactly if they have the same operator and the same numbers for
   operands, or, if the operator commutes, the same with operands exchanged;
2. one is redundant exactly if an earlier one has its number;
3. an instruction is redundant, during the session and in the result, exactly if one of its events
   was;
4. and its source is then the instruction of the first event, itself not redundant, that has the
   number of the latest event in which it was. -/
theorem table_exact {f : Func} (hvalid : f.validate = .ok ()) {calls : List Call} {d : Session}
    (hcalls : ({ state := .start f } : Session).calls? f calls = some d)
    (hroom : d.issued ≤ UInt32.size - 2) :
    start f = .ok (.start f) ∧
    (∀ x ∈ d.events, ∀ y ∈ d.events, ∀ op l r n marked op' l' r' n' marked',
      x.outcome = .binary op l r n marked → y.outcome = .binary op' l' r' n' marked' →
      (n = n' ↔ op = op' ∧ (l = l' ∧ r = r' ∨ op.isCommutative = true ∧ l = r' ∧ r = l'))) ∧
    (∀ (before after : List Event) (x : Event) op l r n marked, d.events = before ++ x :: after →
      x.outcome = .binary op l r n marked →
      (marked = true ↔ ∃ y ∈ before, y.outcome.number? = some n)) ∧
    (∀ i, (d.state.isRedundant i = true ↔ ∃ x ∈ d.events, x.inst = i ∧ x.outcome.isRedundant = true) ∧
      d.state.finish.isRedundant i = d.state.isRedundant i) ∧
    ∀ i, d.state.isRedundant i = true →
      ∃ (before after first rest : List Event) (x y : Event) (n : ValueNumber),
        d.events = before ++ x :: after ∧ x.inst = i ∧ x.outcome.isRedundant = true ∧
        (∀ z ∈ after, z.inst = i → z.outcome.isRedundant = false) ∧
        x.outcome.number? = some n ∧ d.events = first ++ y :: rest ∧ y.outcome.number? = some n ∧
        (∀ z ∈ first, z.outcome.number? ≠ some n) ∧ y.outcome.isRedundant = false ∧
        d.state.finish.source? i = some y.inst := by
  obtain ⟨-, hlogged, hone⟩ := (Session.Exact.start f).calls hcalls
  obtain ⟨-, hone⟩ := hone hroom
  refine ⟨start_eq_ok.mpr ⟨f.validate_eq_ok_iff.mp hvalid, rfl⟩, ?_, ?_,
    fun i => ⟨hlogged.isRedundant_iff, rfl⟩, fun i hi => hlogged.exists_source hone hi⟩
  · intro x hx y hy op l r n marked op' l' r' n' marked' hxo hyo
    exact hlogged.binary_number_eq_iff hone hx hy hxo hyo
  · intro before after x op l r n marked hsplit hxo
    have hiff := hlogged.redundant_iff_number (n := n) hone hsplit (by rw [hxo]; rfl)
    rwa [hxo] at hiff

/-- A running total: a constant is added to an argument and the sum is stored over it.  The sum with
its operands exchanged stands in no block. -/
def runningTotal : Func where
  name := "running_total"
  params := [⟨0⟩]
  values := #[.arg 0, .const (.int 3), .result ⟨0⟩, .result ⟨2⟩]
  insts := #[⟨.binary .add ⟨0⟩ ⟨1⟩, some ⟨2⟩⟩, ⟨.store ⟨2⟩ ⟨0⟩, none⟩, ⟨.binary .add ⟨1⟩ ⟨0⟩, some ⟨3⟩⟩]
  blocks := #[⟨[⟨0⟩, ⟨1⟩], []⟩]

/-- The sum of `runningTotal` is taken twice, then once more after the total has gone up; then the
sum that stands nowhere, an instruction that does not exist and a value that does not exist. -/
def twoRounds : List Call :=
  [.number ⟨0⟩ ⟨0⟩, .number ⟨0⟩ ⟨0⟩, .number ⟨0⟩ ⟨1⟩, .number ⟨0⟩ ⟨0⟩, .number ⟨0⟩ ⟨2⟩, .number ⟨0⟩ ⟨9⟩,
    .ask ⟨99⟩]

/-- In `twoRounds` the sum repeats itself and has then another number, which the other sum
repeats. -/
theorem runningTotal_table_exact :
    runningTotal.validate = .ok () ∧
    ∃ d, ({ state := .start runningTotal } : Session).calls? runningTotal twoRounds = some d ∧
      d.issued = 4 ∧
      d.events.map Event.outcome = [.binary .add 1 2 3 false, .binary .add 1 2 3 true, .store 3,
        .binary .add 3 2 4 false, .binary .add 2 3 4 true] ∧
      (∀ i, d.state.isRedundant i = true ↔ ∃ x ∈ d.events, x.inst = i ∧ x.outcome.isRedundant = true) ∧
      d.state.finish.source? ⟨2⟩ = some ⟨0⟩ ∧
      ∃ (first rest : List Event) (y : Event), d.events = first ++ y :: rest ∧
        y.outcome.number? = some 4 ∧
        (∀ z ∈ first, z.outcome.number? ≠ some 4) ∧ y.outcome.isRedundant = false ∧ y.inst = ⟨0⟩ := by
  have hvalid : runningTotal.validate = .ok () := by decide
  obtain ⟨d, hcalls, hissued, hevents, hmarked, hsource⟩ : ∃ d,
      ({ state := .start runningTotal } : Session).calls? runningTotal twoRounds = some d ∧
      d.issued = 4 ∧
      d.events = [⟨⟨0⟩, ⟨0⟩, .binary .add 1 2 3 false⟩, ⟨⟨0⟩, ⟨0⟩, .binary .add 1 2 3 true⟩,
        ⟨⟨0⟩, ⟨1⟩, .store 3⟩, ⟨⟨0⟩, ⟨0⟩, .binary .add 3 2 4 false⟩,
        ⟨⟨0⟩, ⟨2⟩, .binary .add 2 3 4 true⟩] ∧
      d.state.isRedundant ⟨2⟩ = true ∧ d.state.finish.source? ⟨2⟩ = some ⟨0⟩ :=
    ⟨_, rfl, rfl, rfl, rfl, rfl⟩
  obtain ⟨-, -, -, hredundant, hcited⟩ := table_exact hvalid hcalls (by rw [hissued]; decide)
  obtain ⟨before, after, first, rest, x, y, n, hx, hinst, -, -, hxn, hy, hyn, hfirst, hyr, hys⟩ :=
    hcited ⟨2⟩ hmarked
  have hfour : ∀ z ∈ d.events, z.inst = ⟨2⟩ → z.outcome.number? = some 4 := by
    rw [hevents]
    decide
  obtain rfl : n = 4 :=
    Option.some.inj (hxn.symm.trans (hfour x (hx ▸ List.mem_append_cons_self) hinst))
  exact ⟨hvalid, d, hcalls, hissued, by rw [hevents]; rfl, fun i => (hredundant i).1, hsource,
    first, rest, y, hy, hyn, hfirst, hyr, Option.some.inj (hys.symm.trans hsource)⟩

end Numbering

end Dataflow
