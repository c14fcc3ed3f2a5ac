import Dataflow.Proofs.NumberedSteps
import Dataflow.Proofs.Outcomes

/-!
# Value numbering is symbolic evaluation

From steps to runs.  `Follows` says where numbering stands after some of the listings: its numbers
mirror the terms that the symbolic run has at that point, and it has marked the instructions that
recompute.  It holds at the start, a step keeps it, and so it holds at the end, where numbers can be
read as terms: equal numbers are equal terms up to exchanged operands, and zero is `unresolved`.

What each instruction keeps, a walk keeps (`walk_induction`), and this says so for every statement
about walks: of the listings, the events and the state.  With room for the numbers that are handed
out it comes in a form in which each instruction finds room as well (`run_induction`).
-/

namespace Dataflow

namespace Numbering

namespace State

variable {f : Func} {s s' : State} {done : List (BlockId × InstId)}

/-- **How many numbers are handed out** over these listings, up to the first failure.  The counter
is read after every step, and a step draws three numbers at most, so this counts them all even if
the counter runs over on the way. -/
def issued (f : Func) (s : State) : List (BlockId × InstId) → Nat
  | [] => 0
  | (b, i) :: rest =>
    match s.step f b i with
    | .error _ => 0
    | .ok (_, s') => s.drawn s' + s'.issued f rest

/-- A step answers if it finds the instruction and can number it. -/
theorem step_eq_ok {b : BlockId} {i : InstId} {e : Event} : s.step f b i = .ok (e, s') ↔
    ∃ inst o, f.insts[i.index]? = some inst ∧ s.number? f i inst = some (o, s') ∧ e = ⟨b, i, o⟩ := by
  unfold State.step
  constructor
  · intro h
    split at h
    · nomatch h
    · next inst hinst =>
      obtain ⟨⟨o, s₁⟩, hnumber, heq⟩ := bind_eq_ok.mp h
      obtain ⟨rfl, rfl⟩ := Prod.mk.inj (Except.ok.inj heq)
      exact ⟨inst, o, hinst, Halt.require_eq_ok.mp hnumber, rfl⟩
  · rintro ⟨inst, o, hinst, hnumber, rfl⟩
    simp only [hinst, hnumber]
    rfl

/-- **A listed instruction is numbered.** -/
theorem exists_number_of_listed (hs : f.Sound) (hsize : s.numbers.size = f.values.size) {b : BlockId}
    {i : InstId} (hlisted : (b, i) ∈ f.programOrder) :
    ∃ inst o s', f.insts[i.index]? = some inst ∧ s.number? f i inst = some (o, s') := by
  obtain ⟨inst, hinst, hmentions, -⟩ := hs.listed (b, i) hlisted
  obtain ⟨o, s', hnumber⟩ := exists_number hsize hmentions i
  exact ⟨inst, o, s', hinst, hnumber⟩

section

variable {b : BlockId} {i : InstId} {inst : Instruction} {o : Outcome}
  (hinst : f.insts[i.index]? = some inst) (hnumber : s.number? f i inst = some (o, s'))

include hinst hnumber

theorem walk_cons (rest : List (BlockId × InstId)) : s.walk f ((b, i) :: rest)
    = (⟨b, i, o⟩ :: (s'.walk f rest).1, (s'.walk f rest).2) := by
  rw [walk, step_eq_ok.mpr ⟨inst, o, hinst, hnumber, rfl⟩]

theorem issued_cons (rest : List (BlockId × InstId)) :
    s.issued f ((b, i) :: rest) = s.drawn s' + s'.issued f rest := by
  rw [issued, step_eq_ok.mpr ⟨inst, o, hinst, hnumber, rfl⟩]

end

/-- A walk that does not stop takes its first step and goes on from there. -/
theorem exists_step_of_walk {b : BlockId} {i : InstId} {rest : List (BlockId × InstId)}
    (h : (s.walk f ((b, i) :: rest)).2 = .ok s') :
    ∃ e t, s.step f b i = .ok (e, t) ∧ (t.walk f rest).2 = .ok s' := by
  rw [walk] at h
  cases hone : s.step f b i with
  | error halt =>
    rw [hone] at h
    nomatch h
  | ok answer =>
    rw [hone] at h
    exact ⟨answer.1, answer.2, rfl, h⟩

/-- A walk that goes on where another one has ended. -/
theorem walk_append {rest : List (BlockId × InstId)} (h : (s.walk f rest).2 = .ok s')
    (more : List (BlockId × InstId)) :
    s.walk f (rest ++ more) = ((s.walk f rest).1 ++ (s'.walk f more).1, (s'.walk f more).2) := by
  induction rest generalizing s with
  | nil =>
    obtain rfl := Except.ok.inj h
    rfl
  | cons p rest ih =>
    obtain ⟨e, t, hone, hrest⟩ := exists_step_of_walk h
    rw [List.cons_append, walk, walk, hone]
    simp only [ih hrest]
    rfl

/-- It hands out the numbers of both. -/
theorem issued_append {rest : List (BlockId × InstId)} (h : (s.walk f rest).2 = .ok s')
    (more : List (BlockId × InstId)) :
    s.issued f (rest ++ more) = s.issued f rest + s'.issued f more := by
  induction rest generalizing s with
  | nil =>
    obtain rfl := Except.ok.inj h
    exact (Nat.zero_add _).symm
  | cons p rest ih =>
    obtain ⟨e, t, hone, hrest⟩ := exists_step_of_walk h
    rw [List.cons_append, issued, issued, hone]
    simp only [ih hrest]
    exact (Nat.add_assoc ..).symm

/-- A walk with one more instruction at its end. -/
theorem walk_concat {events : List Event} {b : BlockId} {i : InstId} {inst : Instruction} {o : Outcome}
    {t : State} (h : s.walk f done = (events, .ok t)) (hinst : f.insts[i.index]? = some inst)
    (hnumber : t.number? f i inst = some (o, s')) :
    s.walk f (done ++ [(b, i)]) = (events ++ [⟨b, i, o⟩], .ok s') := by
  rw [walk_append (congrArg Prod.snd h), h, walk_cons hinst hnumber]
  rfl

/-- **Induction over a walk.**  The walk over listed instructions does not stop, and it ends with
whatever is known at the start and kept by each instruction: of the listings taken, the events about
them, and the state. -/
theorem walk_induction (hs : f.Sound) {P : List (BlockId × InstId) → List Event → State → Prop}
    {order : List (BlockId × InstId)} (hlisted : ∀ p ∈ order, p ∈ f.programOrder)
    (hstart : P [] [] (.start f))
    (hstep : ∀ {done b i later events s s' inst o}, order = done ++ (b, i) :: later →
      (State.start f).walk f done = (events, .ok s) → s.numbers.size = f.values.size → P done events s →
      f.insts[i.index]? = some inst → s.number? f i inst = some (o, s') →
      P (done ++ [(b, i)]) (events ++ [⟨b, i, o⟩]) s') :
    ∃ events s, (State.start f).walk f order = (events, .ok s) ∧ s.numbers.size = f.values.size ∧
      P order events s := by
  -- by induction on the part of the walk that is done, from its end
  have hpart : ∀ done later, order = done ++ later → ∃ events s,
      (State.start f).walk f done = (events, .ok s) ∧ s.numbers.size = f.values.size ∧
        P done events s := by
    intro done
    induction done using List.reverseRecOn with
    | nil => exact fun _ _ => ⟨[], .start f, rfl, Array.size_replicate, hstart⟩
    | append_singleton done p ih =>
      obtain ⟨b, i⟩ := p
      intro later horder
      rw [← List.append_cons] at horder
      obtain ⟨events, s, hwalk, hsize, hP⟩ := ih _ horder
      obtain ⟨inst, o, s', hinst, hnumber⟩ :=
        exists_number_of_listed hs hsize (hlisted (b, i) (horder ▸ List.mem_append_cons_self))
      exact ⟨_, s', walk_concat hwalk hinst hnumber, number?_size hsize hnumber,
        hstep horder hwalk hsize hP hinst hnumber⟩
  exact hpart order [] (List.append_nil order).symm

/-- **Induction over a run** that hands out no more numbers than the counter can tell apart: each
instruction finds room for those it draws, and what is known of all events is known of its own. -/
theorem run_induction (hs : f.Sound) (hroom : (State.start f).issued f f.programOrder ≤ UInt32.size - 2)
    {P : List (BlockId × InstId) → State → Prop} (hstart : P [] (.start f))
    (hstep : ∀ {done s s' b i inst o}, P done s → f.insts[i.index]? = some inst →
      s.number? f i inst = some (o, s') → s.next.toNat + s.drawn s' < UInt32.size →
      ⟨b, i, o⟩ ∈ ((State.start f).walk f f.programOrder).1 → P (done ++ [(b, i)]) s') :
    ∃ s, ((State.start f).walk f f.programOrder).2 = .ok s ∧ P f.programOrder s := by
  have hwidth : UInt32.size = 4294967296 := rfl
  -- up to here the counter tells how many numbers were handed out
  have hend := walk_induction hs
    (P := fun done _ s => s.next.toNat = (State.start f).issued f done + 1 ∧ P done s)
    (fun _ hp => hp) ⟨rfl, hstart⟩ ?_
  · obtain ⟨events, s, hwalk, -, -, hP⟩ := hend
    exact ⟨s, congrArg Prod.snd hwalk, hP⟩
  · rintro done b i later events s s' inst o horder hwalk - ⟨hnext, hP⟩ hinst hnumber
    have hdone : ((State.start f).walk f done).2 = .ok s := congrArg Prod.snd hwalk
    have hall := issued_append hdone ((b, i) :: later)
    have hone := issued_append hdone [(b, i)]
    rw [issued_cons hinst hnumber] at hall hone
    rw [← horder] at hall
    have hnone : s'.issued f [] = 0 := rfl
    have hfits : s.next.toNat + s.drawn s' < UInt32.size := by omega
    have hnext' := next_of_room hfits
    refine ⟨by omega, hstep hP hinst hnumber hfits ?_⟩
    rw [horder, walk_append hdone, walk_cons hinst hnumber]
    exact List.mem_append_cons_self

/-- **Where numbering stands** after these listings. -/
structure Follows (f : Func) (done : List (BlockId × InstId)) (s : State) : Prop where
  mirrors : ∃ meaning, Mirrors f (.after f done) (f.computedTerms done) s meaning
  redundant : ∀ i, s.isRedundant i = true ↔
    ∃ before b later, done = before ++ (b, i) :: later ∧ f.Recomputes before i

/-- One listing more: an instruction recomputes among the old ones, or it is the new one and
recomputes after them. -/
theorem exists_recomputes_concat {b : BlockId} {i j : InstId} :
    (∃ before c later, done ++ [(b, i)] = before ++ (c, j) :: later ∧ f.Recomputes before j) ↔
      (∃ before c later, done = before ++ (c, j) :: later ∧ f.Recomputes before j) ∨
      j = i ∧ f.Recomputes done i := by
  constructor
  · rintro ⟨before, c, later, hsplit, hrec⟩
    have hmem : (before, (c, j)) ∈ withBefore (done ++ [(b, i)]) := mem_withBefore.mpr ⟨later, hsplit⟩
    rw [withBefore_concat, List.mem_append, List.mem_singleton] at hmem
    rcases hmem with hmem | heq
    · obtain ⟨later, hsplit⟩ := mem_withBefore.mp hmem
      exact Or.inl ⟨before, c, later, hsplit, hrec⟩
    · cases heq
      exact Or.inr ⟨rfl, hrec⟩
  · rintro (⟨before, c, later, rfl, hrec⟩ | ⟨rfl, hrec⟩)
    · exact ⟨before, c, later ++ [(b, i)], by simp, hrec⟩
    · exact ⟨done, b, [], rfl, hrec⟩

namespace Follows

theorem start (f : Func) : Follows f [] (.start f) where
  mirrors := ⟨_, Mirrors.start f⟩
  redundant := by
    intro i
    have hfalse : (State.start f).isRedundant i = false := by
      rw [isRedundant, source_start]
      rfl
    constructor
    · intro htrue
      rw [hfalse] at htrue
      nomatch htrue
    · rintro ⟨before, b, later, hsplit, -⟩
      simp at hsplit

/-- **One step** keeps numbering and terms together, if there is room for the numbers it draws. -/
theorem step (h : Follows f done s) {b : BlockId} {i : InstId} {inst : Instruction} {o : Outcome}
    (hinst : f.insts[i.index]? = some inst) (hnumber : s.number? f i inst = some (o, s'))
    (hroom : s.next.toNat + s.drawn s' < UInt32.size) : Follows f (done ++ [(b, i)]) s' := by
  have hi : i.index < f.insts.size := (Array.getElem?_eq_some_iff.mp hinst).1
  obtain ⟨meaning, hmirrors⟩ := h.mirrors
  obtain ⟨⟨meaning', hnext, -⟩, hmark⟩ := hmirrors.number hi hnumber hroom
  refine ⟨?_, fun j => ?_⟩
  · rw [Valuation.after_concat hinst, Func.computedTerms_concat, Func.computed?_eq hinst]
    exact ⟨meaning', hnext⟩
  · rw [hmark j, h.redundant j, ← Func.computed?_eq hinst, ← Func.recomputes_iff]
    exact exists_recomputes_concat.symm

/-- **All steps.**  With room for the numbers it hands out, the walk ends where the symbolic run
ends. -/
theorem walk (hs : f.Sound) (hroom : (State.start f).issued f f.programOrder ≤ UInt32.size - 2) :
    ∃ s, ((State.start f).walk f f.programOrder).2 = .ok s ∧ Follows f f.programOrder s :=
  run_induction hs hroom (start f) fun h hinst hnumber hroom _ => h.step hinst hnumber hroom

end Follows

/-- At any point a value's number, zero if it has none, means its term, `unresolved` if it has
none. -/
theorem Mirrors.means_getD {t : Valuation} {past : List Term} {meaning : ValueNumber → Term}
    (h : Mirrors f t past s meaning) (v : ValueId) :
    Means s.next meaning ((s.numberAt v).getD 0) ((t v).getD .unresolved) := by
  cases hn : s.numberAt v with
  | none =>
    rw [h.term_eq_none hn]
    exact h.denotes.means_zero
  | some n =>
    obtain ⟨u, ht, hmeans⟩ := h.exists_term hn
    rw [ht]
    exact hmeans

end State

theorem numberOf_finish (s : State) (v : ValueId) : s.finish.numberOf v = (s.numberAt v).getD 0 := by
  unfold State.finish numberOf State.numberAt
  rw [Array.getElem?_map]
  cases s.numbers[v.index]? with
  | none => rfl
  | some o => rfl

/-- In a list without repeated instructions there is one place for each. -/
theorem before_unique {order before before' later later' : List (BlockId × InstId)} {b b' : BlockId}
    {i : InstId} (hnodup : (order.map Prod.snd).Nodup) (h : order = before ++ (b, i) :: later)
    (h' : order = before' ++ (b', i) :: later') : before = before' := by
  have hnot : ∀ {x y c}, order = x ++ (c, i) :: y → i ∉ x.map Prod.snd := by
    rintro x y c rfl hmem
    rw [List.map_append, List.nodup_append] at hnodup
    exact hnodup.2.2 i hmem i List.mem_cons_self rfl
  -- where the two places differ, the longer part before contains the instruction
  rcases List.append_eq_append_iff.mp (h.symm.trans h') with ⟨gap, hgap, hrest⟩ | ⟨gap, hgap, hrest⟩
  · cases gap with
    | nil => rw [hgap, List.append_nil]
    | cons p gap =>
      obtain rfl : (b, i) = p := (List.cons.inj hrest).1
      exact absurd (by rw [hgap]; simp) (hnot h')
  · cases gap with
    | nil => rw [hgap, List.append_nil]
    | cons p gap =>
      obtain rfl : (b', i) = p := (List.cons.inj hrest).1
      exact absurd (by rw [hgap]; simp) (hnot h)

/-- **Numbers coincide with symbolic terms.**  Numbering a valid function answers if it hands out no
more numbers than the counter can tell apart, zero and the next one being spoken for, and then

1. two values have the same number exactly if their terms are equal up to exchanged operands of
   commutative operators;
2. the number zero is that of the values about which nothing is known;
3. an instruction is redundant exactly if a binary operator earlier in program order computed the
   same term. -/
theorem numbers_are_terms {f : Func} (hvalid : f.validate = .ok ())
    (hroom : (State.start f).issued f f.programOrder ≤ UInt32.size - 2) :
    ∃ r, (run f).outcome = .ok r ∧
      (∀ v w, r.numberOf v = r.numberOf w ↔ (f.finalTerm v).Same (f.finalTerm w)) ∧
      (∀ v, r.numberOf v = 0 ↔ f.finalTerm v = .unresolved) ∧
      ∀ before b i after, f.programOrder = before ++ (b, i) :: after →
        (r.isRedundant i = true ↔ f.Recomputes before i) := by
  have hsound := (Func.validate_eq_ok_iff f).mp hvalid
  obtain ⟨s, hwalk, hend⟩ := State.Follows.walk hsound hroom
  obtain ⟨meaning, hmirrors⟩ := hend.mirrors
  refine ⟨s.finish, run_eq_ok.mpr ⟨hsound, s, hwalk, rfl⟩, fun v w => ?_, fun v => ?_, ?_⟩
  · rw [numberOf_finish, numberOf_finish]
    exact hmirrors.denotes.eq_iff_same (hmirrors.means_getD v) (hmirrors.means_getD w)
  · rw [numberOf_finish, hmirrors.denotes.eq_iff_same (hmirrors.means_getD v)
      hmirrors.denotes.means_zero]
    show (f.finalTerm v).Same .unresolved ↔ _
    constructor
    · intro hsame
      generalize f.finalTerm v = u at hsame ⊢
      cases hsame
      rfl
    · intro hterm
      rw [hterm]
      exact .unresolved
  · intro before b i after hsplit
    refine (hend.redundant i).trans ⟨?_, fun hrec => ⟨before, b, after, hsplit, hrec⟩⟩
    rintro ⟨before', b', later, hsplit', hrec⟩
    rw [before_unique hsound.once hsplit hsplit']
    exact hrec

/-- A sum, kept in memory and multiplied by one of its operands; then the same with all operands
exchanged. -/
def exchanged : Func where
  name := "exchanged"
  params := [⟨0⟩, ⟨1⟩]
  values := #[.arg 0, .arg 1, .slot "x", .result ⟨0⟩, .result ⟨2⟩, .result ⟨3⟩, .result ⟨4⟩,
    .result ⟨5⟩]
  insts := #[⟨.binary .add ⟨0⟩ ⟨1⟩, some ⟨3⟩⟩, ⟨.store ⟨3⟩ ⟨2⟩, none⟩, ⟨.load ⟨2⟩, some ⟨4⟩⟩,
    ⟨.binary .mul ⟨4⟩ ⟨1⟩, some ⟨5⟩⟩, ⟨.binary .add ⟨1⟩ ⟨0⟩, some ⟨6⟩⟩,
    ⟨.binary .mul ⟨1⟩ ⟨6⟩, some ⟨7⟩⟩]
  blocks := #[⟨[⟨0⟩, ⟨1⟩, ⟨2⟩], [⟨1⟩]⟩, ⟨[⟨3⟩, ⟨4⟩, ⟨5⟩], []⟩]

/-- The two products of `exchanged` are one computation, which the second one repeats. -/
theorem exchanged_numbers_are_terms :
    exchanged.validate = .ok () ∧
    (State.start exchanged).issued exchanged exchanged.programOrder = 4 ∧
    ∃ r, (run exchanged).outcome = .ok r ∧ r.numberOf ⟨5⟩ = r.numberOf ⟨7⟩ ∧
      r.numberOf ⟨3⟩ ≠ r.numberOf ⟨5⟩ ∧ r.numberOf ⟨5⟩ ≠ 0 ∧ r.isRedundant ⟨5⟩ = true := by
  have hvalid : exchanged.validate = .ok () := by decide
  have hissued : (State.start exchanged).issued exchanged exchanged.programOrder = 4 := by decide
  have hsum : Term.Same (.app .add (.leaf ⟨0⟩) (.leaf ⟨1⟩)) (.app .add (.leaf ⟨1⟩) (.leaf ⟨0⟩)) :=
    .swap .add rfl (.leaf _) (.leaf _)
  obtain ⟨r, hrun, hsame, hzero, hredundant⟩ := numbers_are_terms hvalid (by rw [hissued]; decide)
  refine ⟨hvalid, hissued, r, hrun, ?_, ?_, ?_, ?_⟩
  · exact (hsame _ _).mpr (.swap .mul rfl hsum (.leaf _))
  · intro h
    have hne : Term.Same (.app .add (.leaf ⟨0⟩) (.leaf ⟨1⟩))
      (.app .mul (.app .add (.leaf ⟨0⟩) (.leaf ⟨1⟩)) (.leaf ⟨1⟩)) := (hsame _ _).mp h
    nomatch hne
  · intro h
    have hunresolved := (hzero ⟨5⟩).mp h
    nomatch hunresolved
  · refine (hredundant (exchanged.programOrder.take 5) ⟨1⟩ ⟨5⟩ [] rfl).mpr ?_
    exact ⟨_, rfl, exchanged.programOrder.take 3, ⟨1⟩, ⟨3⟩, [(⟨1⟩, ⟨4⟩)], _, rfl, rfl,
      .swap .mul rfl (.leaf _) hsum.symm⟩

end Numbering

end Dataflow
