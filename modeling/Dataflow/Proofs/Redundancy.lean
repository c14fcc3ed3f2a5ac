import Dataflow.Proofs.Execution
import Dataflow.Proofs.NumberedRuns

/-!
# Redundant instructions recompute data

Value numbering never sees a datum, and yet what it says is about data: values of one number hold
the same in the end, and a redundant instruction computes what its source has computed.

1. **Marks are traced** (`Traced`): an entry of the table names as its source an instruction that
   computed the entry's term, and an instruction is marked with a source that had computed the term
   before.

2. **Events show what is known** (`Filed.operandsKnown`): an operand with a number other than zero
   has a known term.

3. **Known terms are worth what cells hold** (`Dataflow.Holds`), and equal numbers are equal terms,
   up to exchanged operands, which are worth the same.
-/

namespace Dataflow

/-! ## Who computed what -/

namespace Func

variable {f : Func} {done : List (BlockId × InstId)} {i j : InstId} {u : Term}

/-- In the course of these listings `j` computed the term `u`. -/
def Computes (f : Func) (done : List (BlockId × InstId)) (j : InstId) (u : Term) : Prop :=
  ∃ earlier c later, done = earlier ++ (c, j) :: later ∧ f.computed? earlier j = some u

/-- In the course of these listings `i` computed what `j` had computed before. -/
def RecomputesFrom (f : Func) (done : List (BlockId × InstId)) (i j : InstId) : Prop :=
  ∃ before b later t u, done = before ++ (b, i) :: later ∧ f.computed? before i = some t ∧
    f.Computes before j u ∧ t.Same u

theorem Computes.concat (h : f.Computes done j u) (p : BlockId × InstId) :
    f.Computes (done ++ [p]) j u := by
  obtain ⟨earlier, c, later, rfl, hu⟩ := h
  exact ⟨earlier, c, later ++ [p], by simp, hu⟩

theorem RecomputesFrom.concat (h : f.RecomputesFrom done i j) (p : BlockId × InstId) :
    f.RecomputesFrom (done ++ [p]) i j := by
  obtain ⟨before, b, later, t, u, rfl, ht, hu, hsame⟩ := h
  exact ⟨before, b, later ++ [p], t, u, by simp, ht, hu, hsame⟩

end Func

/-- A report of a binary operator has numbers other than zero for both operands; other reports have
none. -/
def Report.operandsNumbered : Report → Bool
  | .numbered ⟨_, _, .binary _ l r _ _⟩ => l != 0 && r != 0
  | _ => true

namespace Numbering

namespace State

variable {f : Func} {s s' : State} {done : List (BlockId × InstId)} {i j k : InstId} {o : Outcome}
  {means : ValueNumber → Term → Prop} {meaning : ValueNumber → Term} {computed : Option Term}

/-! ## What is filed -/

/-- An entry was there before, or it is filed under the instruction. -/
theorem Filed.entry_cases (h : Filed s s' i means o computed) {e : Expression} {known : Known}
    (hfound : s'.table.lookup e = some known) :
    s.table.lookup e = some known ∨
      known.source = i ∧ ∃ u, computed = some u ∧ means known.number u := by
  cases h with
  | nothing htable _ =>
    rw [htable] at hfound
    exact Or.inl hfound
  | source _ _ _ _ htable _ =>
    rw [htable] at hfound
    exact Or.inl hfound
  | entry _ _ _ hn htable _ =>
    rw [htable, List.lookup_cons] at hfound
    split at hfound
    · obtain rfl := Option.some.inj hfound
      exact Or.inr ⟨rfl, _, rfl, hn⟩
    · exact Or.inl hfound

/-- A mark was there before, or it is the instruction's own and comes from an entry for what it
computes. -/
theorem Filed.source_cases (h : Filed s s' i means o computed)
    (hmark : (s'.sources[j.index]?).join = some k) :
    (s.sources[j.index]?).join = some k ∨ j = i ∧ ∃ u e known, computed = some u ∧
      s.table.lookup e = some known ∧ means known.number u ∧ known.source = k := by
  cases h with
  | nothing _ hsources =>
    rw [hsources] at hmark
    exact Or.inl hmark
  | entry _ _ _ _ _ hsources =>
    rw [hsources] at hmark
    exact Or.inl hmark
  | source _ _ hfound hn _ hsources =>
    rw [hsources, Array.getElem?_setIfInBounds] at hmark
    split at hmark
    · next hindex =>
      have hji : j = i := congrArg InstId.mk hindex.symm
      split at hmark
      · exact Or.inr ⟨hji, _, _, _, rfl, hfound, hn, Option.some.inj hmark⟩
      · nomatch hmark
    · exact Or.inl hmark

/-- **An event with numbers for its operands tells that they are known.** -/
theorem Filed.operandsKnown {table : List (Expression × Known)} {next : ValueNumber}
    {held : ValueId → Prop} {b : BlockId} {u : Term} (hd : Denotes table next held meaning)
    (h : Filed s s' i (Means next meaning) o (some u))
    (ho : (Report.numbered ⟨b, i, o⟩).operandsNumbered = true) : u.OperandsKnown := by
  have hboth : ∀ {l r a c}, Means next meaning l a → Means next meaning r c →
      (l != 0 && r != 0) = true → a ≠ .unresolved ∧ c ≠ .unresolved := by
    intro l r a c hl hr hne
    obtain ⟨hl₀, hr₀⟩ := Bool.and_eq_true_iff.mp hne
    exact ⟨hd.ne_unresolved hl (bne_iff_ne.mp hl₀), hd.ne_unresolved hr (bne_iff_ne.mp hr₀)⟩
  cases h with
  | source hl hr _ _ _ _ => exact hboth hl hr ho
  | entry hl hr _ _ _ _ => exact hboth hl hr ho

/-! ## Tracing -/

/-- **Where numbers and marks come from** after these listings. -/
structure Traced (f : Func) (done : List (BlockId × InstId)) (s : State)
    (meaning : ValueNumber → Term) : Prop where
  mirrors : Mirrors f (.after f done) (f.computedTerms done) s meaning
  /-- The source of an entry computed what the entry's number means. -/
  entry : ∀ {e known}, s.table.lookup e = some known →
    ∃ u, f.Computes done known.source u ∧ Means s.next meaning known.number u
  /-- A marked instruction computed what its source had computed before. -/
  source : ∀ {i j}, (s.sources[i.index]?).join = some j → f.RecomputesFrom done i j

namespace Traced

theorem start (f : Func) : Traced f [] (.start f) (fun _ => .unresolved) where
  mirrors := Mirrors.start f
  entry := by
    intro e known h
    nomatch h
  source := by
    intro i j h
    rw [source_start] at h
    nomatch h

/-- **One step**, with what it files. -/
theorem step (h : Traced f done s meaning) {inst : Instruction} (hinst : f.insts[i.index]? = some inst)
    (hnumber : s.number? f i inst = some (o, s')) (hroom : s.next.toNat + s.drawn s' < UInt32.size)
    (b : BlockId) :
    ∃ meaning', Traced f (done ++ [(b, i)]) s' meaning' ∧
      Filed s s' i (Means s'.next meaning') o (f.computed? done i) := by
  have hi : i.index < f.insts.size := (Array.getElem?_eq_some_iff.mp hinst).1
  obtain ⟨⟨meaning', hmirrors, hkeeps, hfiled⟩, -⟩ := h.mirrors.number hi hnumber hroom
  rw [← Func.computed?_eq hinst] at hmirrors hfiled
  have hnow : ∀ {u}, f.computed? done i = some u → f.Computes (done ++ [(b, i)]) i u :=
    fun hu => ⟨done, b, [], rfl, hu⟩
  refine ⟨meaning', ⟨?_, fun {e known} hfound => ?_, fun {j k} hmark => ?_⟩, hfiled⟩
  · rw [Valuation.after_concat hinst, Func.computedTerms_concat]
    exact hmirrors
  · rcases hfiled.entry_cases hfound with hold | ⟨rfl, u, hu, hmeans⟩
    · obtain ⟨u, hu, hmeans⟩ := h.entry hold
      exact ⟨u, hu.concat (b, i), hkeeps hmeans⟩
    · exact ⟨u, hnow hu, hmeans⟩
  · rcases hfiled.source_cases hmark with hold | ⟨rfl, t, e, known, ht, hfound, hmeans, rfl⟩
    · exact (h.source hold).concat (b, i)
    · -- the entry's number means both what the source computed and what is computed now
      obtain ⟨u, hu, hmeans'⟩ := h.entry hfound
      exact ⟨done, b, [], t, u, rfl, ht, hu, hmeans.same.symm.trans (hkeeps hmeans').same⟩

/-- **All steps.**  If the events have numbers for all operands, then all operands are known. -/
theorem walk (hs : f.Sound) (hroom : (State.start f).issued f f.programOrder ≤ UInt32.size - 2)
    (hevents : ∀ e ∈ ((State.start f).walk f f.programOrder).1,
      (Report.numbered e).operandsNumbered = true) :
    ∃ s' meaning, ((State.start f).walk f f.programOrder).2 = .ok s' ∧
      Traced f f.programOrder s' meaning ∧ f.OperandsKnown := by
  have hend := run_induction hs hroom (P := fun done s =>
    (∃ meaning, Traced f done s meaning) ∧ ∀ u ∈ f.computedTerms done, u.OperandsKnown)
    ⟨⟨_, start f⟩, fun u hu => nomatch hu⟩ ?_
  · obtain ⟨s, hwalk, ⟨meaning, htraced⟩, hknown⟩ := hend
    exact ⟨s, meaning, hwalk, htraced, hknown⟩
  · rintro done s s' b i inst o ⟨⟨meaning, htraced⟩, hknown⟩ hinst hnumber hroom hevent
    obtain ⟨meaning', htraced', hfiled⟩ := htraced.step hinst hnumber hroom b
    refine ⟨⟨meaning', htraced'⟩, fun u hu => ?_⟩
    rw [Func.computedTerms_concat, List.mem_append] at hu
    rcases hu with hu | hu
    · exact hknown u hu
    · rw [Option.mem_toList.mp hu] at hfiled
      exact hfiled.operandsKnown htraced'.mirrors.denotes (hevents _ hevent)

end Traced

end State

/-! ## The headline -/

/-- **Redundancy is sound for data.**  Take a valid function in which no store comes before its
target is computed, and whose run reports no operator with an operand numbered zero and hands out no
more numbers than the counter can tell apart.  Run its listed instructions once each in program
order, on data of any kind, with any contents of the values to begin with, any operators of which
those commute that have to, and any leftovers.  Then numbering answers, and

1. values with the same number, other than zero, hold the same in the end;
2. every redundant instruction has a source that is listed before it, and what the one computed when
   its turn came the other computes again. -/
theorem redundancy_sound {D : Type*} (m : Machine D) (init : Cells D) {f : Func}
    (hvalid : f.validate = .ok ()) (hlate : f.StoresComeLate)
    (hevents : ∀ report ∈ (run f).reports, report.operandsNumbered = true)
    (hroom : (State.start f).issued f f.programOrder ≤ UInt32.size - 2) :
    ∃ r, (run f).outcome = .ok r ∧
      (∀ v w, r.numberOf v = r.numberOf w → r.numberOf v ≠ 0 →
        m.after f init f.programOrder v = m.after f init f.programOrder w) ∧
      ∀ i, r.isRedundant i = true → ∃ j, r.source? i = some j ∧
        ∃ earlier c between b later d,
          f.programOrder = (earlier ++ (c, j) :: between) ++ (b, i) :: later ∧
          m.computed? f init earlier j = some d ∧
          m.computed? f init (earlier ++ (c, j) :: between) i = some d := by
  have hs : f.Sound := f.validate_eq_ok_iff.mp hvalid
  obtain ⟨s₀, hwalk₀, -⟩ := State.Follows.walk hs hroom
  rw [reports_run hs hwalk₀, List.forall_mem_map] at hevents
  obtain ⟨s, meaning, hwalk, htraced, hknown⟩ := State.Traced.walk hs hroom hevents
  refine ⟨s.finish, run_eq_ok.mpr ⟨hs, s, hwalk, rfl⟩, fun v w heq hne => ?_, fun i hi => ?_⟩
  · rw [numberOf_finish] at hne
    rw [numberOf_finish, numberOf_finish] at heq
    have hholds := Holds.run hs hlate hknown m init (List.append_nil _).symm
    have hd := htraced.mirrors.denotes
    have hv := htraced.mirrors.means_getD v
    have hw := htraced.mirrors.means_getD w
    have heval := ((hd.eq_iff_same hv hw).mp heq).eval_eq m init
    rw [hholds.eval_getD (hd.ne_unresolved hv hne),
      hholds.eval_getD (hd.ne_unresolved hw (heq ▸ hne))] at heval
    exact Option.some.inj heval
  · obtain ⟨j, hj⟩ := Option.isSome_iff_exists.mp hi
    obtain ⟨before, b, later, t, u, horder, ht, ⟨earlier, c, between, rfl, hu⟩, hsame⟩ :=
      htraced.source hj
    have horder' : f.programOrder = earlier ++ (c, j) :: (between ++ (b, i) :: later) := by
      rw [horder, List.append_assoc, List.cons_append]
    -- both data are what the two terms are worth
    obtain ⟨d, ht', hagain⟩ := Holds.computed hs hlate hknown m init horder ht
    obtain ⟨d', hu', hfirst⟩ := Holds.computed hs hlate hknown m init horder' hu
    obtain rfl : d = d' := Option.some.inj (ht'.symm.trans ((hsame.eval_eq m init).trans hu'))
    exact ⟨j, hj, earlier, c, between, b, later, d, horder, hfirst, hagain⟩

/-- The sum of an argument and a constant is stored over the argument and added to the constant;
then the constant is stored over the sum, and the two are added again from their new places. -/
def overwritten : Func where
  name := "overwritten"
  params := [⟨0⟩]
  values := #[.arg 0, .const (.int 3), .result ⟨0⟩, .result ⟨2⟩, .result ⟨4⟩]
  insts := #[⟨.binary .add ⟨0⟩ ⟨1⟩, some ⟨2⟩⟩, ⟨.store ⟨2⟩ ⟨0⟩, none⟩, ⟨.binary .add ⟨1⟩ ⟨0⟩, some ⟨3⟩⟩,
    ⟨.store ⟨1⟩ ⟨2⟩, none⟩, ⟨.binary .add ⟨0⟩ ⟨2⟩, some ⟨4⟩⟩]
  blocks := #[⟨[⟨0⟩, ⟨1⟩, ⟨2⟩], [⟨1⟩]⟩, ⟨[⟨3⟩, ⟨4⟩], []⟩]

/-- Integers that are added if the operator commutes, and else subtracted. -/
def integers : Machine Int where
  compute op x y := if op.isCommutative then x + y else x - y
  comm op hop x y := by rw [if_pos hop, if_pos hop, Int.add_comm]
  leftover _ := 0

/-- In `overwritten` the last sum repeats the second one, on data that have moved. -/
theorem overwritten_redundancy_sound :
    overwritten.validate = .ok () ∧ overwritten.StoresComeLate ∧
    ∃ r, (run overwritten).outcome = .ok r ∧ r.numberOf ⟨3⟩ = r.numberOf ⟨4⟩ ∧ r.numberOf ⟨3⟩ ≠ 0 ∧
      integers.after overwritten (fun v => v.index) overwritten.programOrder ⟨3⟩
        = integers.after overwritten (fun v => v.index) overwritten.programOrder ⟨4⟩ ∧
      r.source? ⟨4⟩ = some ⟨2⟩ ∧
        ∃ earlier c between b later d,
          overwritten.programOrder = (earlier ++ (c, ⟨2⟩) :: between) ++ (b, ⟨4⟩) :: later ∧
          integers.computed? overwritten (fun v => v.index) earlier ⟨2⟩ = some d ∧
          integers.computed? overwritten (fun v => v.index) (earlier ++ (c, ⟨2⟩) :: between) ⟨4⟩
            = some d := by
  have hvalid : overwritten.validate = .ok () := by decide
  have hlate : overwritten.StoresComeLate := by decide
  have hrun : (run overwritten).outcome
      = .ok ⟨#[3, 2, 2, 4, 4], #[none, none, none, none, some ⟨2⟩], 5⟩ := by
    refine run_eq_ok.mpr ⟨overwritten.validate_eq_ok_iff.mp hvalid, _, rfl, ?_⟩
    decide +kernel
  obtain ⟨r, hr, hvalues, hredundant⟩ := redundancy_sound integers (fun v => v.index) hvalid hlate
    (by decide) (by decide)
  obtain rfl := Except.ok.inj (hrun.symm.trans hr)
  obtain ⟨j, hj, hcomputed⟩ := hredundant ⟨4⟩ rfl
  obtain rfl : ⟨2⟩ = j := Option.some.inj hj
  exact ⟨hvalid, hlate, _, hrun, rfl, by decide, hvalues ⟨3⟩ ⟨4⟩ rfl (by decide), hj, hcomputed⟩

end Numbering

end Dataflow
