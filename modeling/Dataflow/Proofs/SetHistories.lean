import Dataflow.Proofs.WordSets
import Mathlib.Data.Finset.Dedup
import Mathlib.Data.Finset.Erase
import Mathlib.Data.Finset.SDiff
import Mathlib.Logic.Function.Basic

/-!
# Histories of word sets

Word sets live long: they are made with room or without it, copied, changed in place and joined with
each other, and each has as many words as its own past has made it have.  None of this shows.  A
script of such commands over any number of sets gives the same answers as for finite sets of
numbers, and leaves the same members.

1. **One script, two readings** (`SetKit`): what can be done with sets is a record of operations,
   and a script runs over any such record.  There are two, the operations of word sets
   (`WordSet.kit`) and those of mathematics (`finiteKit`), where room means nothing and "news" is
   that the set has become another one.

2. **One operation** (`Models`): it takes sets with the members of finite sets to a set with the
   members of the finite one.  What it answers is found out word by word, and is news about the
   finite set all the same: a bit that is looked at before it is set (`Models.insert_fst`), and
   words compared with what they were as they are joined (`Models.joinDiff_fst`).

3. **One command** (`perform_agrees`), **then all** (`foldl_step_agrees`), by induction along the
   script.
-/

namespace Dataflow

/-! ## Scripts -/

/-- What can be done with sets of indices.  An operation that tells whether something is new answers
that first. -/
structure SetKit (σ : Type) where
  empty : σ
  withCapacity : Nat → σ
  ofList : List Nat → σ
  contains : σ → Nat → Bool
  insert : σ → Nat → Bool × σ
  erase : σ → Nat → σ
  join : σ → σ → Bool × σ
  joinDiff : σ → σ → σ → Bool × σ
  clear : σ → σ

/-- Word sets. -/
def WordSet.kit : SetKit WordSet where
  empty := WordSet.empty
  withCapacity := WordSet.withCapacity
  ofList := WordSet.ofList
  contains := WordSet.contains
  insert := WordSet.insert
  erase := WordSet.erase
  join := WordSet.join
  joinDiff := WordSet.joinDiff
  clear := WordSet.clear

/-- Finite sets of numbers. -/
def finiteKit : SetKit (Finset Nat) where
  empty := ∅
  withCapacity _ := ∅
  ofList is := is.toFinset
  contains s i := decide (i ∈ s)
  insert s i := (decide (i ∉ s), Insert.insert i s)
  erase s i := s.erase i
  join s t := (decide (s ∪ t ≠ s), s ∪ t)
  joinDiff s t x := (decide (s ∪ t \ x ≠ s), s ∪ t \ x)
  clear _ := ∅

/-- A command about the set named `r`.  The sets it reads may be that very one. -/
inductive SetCommand where
  /-- Makes it anew, without members. -/
  | renew (r : Nat)
  /-- Makes it anew, with room for the indices below `n`. -/
  | reserve (r n : Nat)
  /-- Makes it anew from the members of a list. -/
  | collect (r : Nat) (is : List Nat)
  /-- Makes it a copy of `q`. -/
  | copy (r q : Nat)
  | contains (r i : Nat)
  | insert (r i : Nat)
  | erase (r i : Nat)
  /-- Adds the members of `q`. -/
  | join (r q : Nat)
  /-- Adds the members of `q` that are not in `x`. -/
  | joinDiff (r q x : Nat)
  | clear (r : Nat)
deriving DecidableEq, Repr

/-- The sets by name, and what the commands so far have answered. -/
structure SetHistory (σ : Type) where
  sets : Nat → σ
  answers : List (Option Bool) := []

namespace SetKit

variable {σ : Type}

/-- What a command answers, if anything, and the set that it leaves under its name. -/
def perform (kit : SetKit σ) (sets : Nat → σ) : SetCommand → Option Bool × Nat × σ
  | .renew r => (none, r, kit.empty)
  | .reserve r n => (none, r, kit.withCapacity n)
  | .collect r is => (none, r, kit.ofList is)
  | .copy r q => (none, r, sets q)
  | .contains r i => (some (kit.contains (sets r) i), r, sets r)
  | .insert r i => (some (kit.insert (sets r) i).1, r, (kit.insert (sets r) i).2)
  | .erase r i => (none, r, kit.erase (sets r) i)
  | .join r q => (some (kit.join (sets r) (sets q)).1, r, (kit.join (sets r) (sets q)).2)
  | .joinDiff r q x =>
    (some (kit.joinDiff (sets r) (sets q) (sets x)).1, r, (kit.joinDiff (sets r) (sets q) (sets x)).2)
  | .clear r => (none, r, kit.clear (sets r))

/-- One more command. -/
def step (kit : SetKit σ) (h : SetHistory σ) (c : SetCommand) : SetHistory σ :=
  let done := kit.perform h.sets c
  ⟨Function.update h.sets done.2.1 done.2.2, h.answers ++ [done.1]⟩

/-- **A whole script**; a set that was never made has no members. -/
def run (kit : SetKit σ) (script : List SetCommand) : SetHistory σ :=
  script.foldl kit.step { sets := fun _ => kit.empty }

end SetKit

/-! ## One operation -/

namespace WordSet

/-- The word set has the members of the finite set. -/
def Models (s : WordSet) (a : Finset Nat) : Prop := ∀ i, s.contains i = true ↔ i ∈ a

namespace Models

variable {s t x : WordSet} {a b c : Finset Nat}

theorem empty : Models .empty ∅ := by
  intro i
  simp

theorem withCapacity (n : Nat) : Models (.withCapacity n) ∅ := by
  intro i
  simp

theorem clear (s : WordSet) : Models s.clear ∅ := by
  intro i
  simp

/-- A set made of a list is the list as a set. -/
theorem ofList (is : List Nat) : Models (.ofList is) is.toFinset := by
  intro i
  rw [List.mem_toFinset]
  exact mem_foldl_add.trans (or_iff_right fun h => Bool.false_ne_true h)

/-- A lookup answers whether the index is a member. -/
theorem contains_eq (h : Models s a) (i : Nat) : s.contains i = decide (i ∈ a) := by
  rw [Bool.eq_iff_iff, h i, decide_eq_true_iff]

/-- Adding an index is adding a member. -/
theorem add (h : Models s a) (j : Nat) : Models (s.add j) (Insert.insert j a) := by
  intro i
  rw [contains_add, Bool.or_eq_true, decide_eq_true_iff, h i, Finset.mem_insert]

/-- Erasing an index is removing a member. -/
theorem erase (h : Models s a) (j : Nat) : Models (s.erase j) (a.erase j) := by
  intro i
  rw [contains_erase, Bool.and_eq_true, decide_eq_true_iff, h i, Finset.mem_erase]

theorem union (hs : Models s a) (ht : Models t b) : Models (s.union t) (a ∪ b) := by
  intro i
  rw [contains_union, Bool.or_eq_true, hs i, ht i, Finset.mem_union]

/-- The join of words is the join of sets. -/
theorem unionDiff (hs : Models s a) (ht : Models t b) (hx : Models x c) :
    Models (s.unionDiff t x) (a ∪ b \ c) := by
  intro i
  rw [contains_unionDiff, Bool.or_eq_true, Bool.and_eq_true, Bool.not_eq_true', ← Bool.not_eq_true,
    hs i, ht i, hx i, Finset.mem_union, Finset.mem_sdiff]

/-- **Adding answers whether the index was absent.** -/
theorem insert_fst (h : Models s a) (i : Nat) : (s.insert i).1 = decide (i ∉ a) := by
  rw [WordSet.insert_fst, h.contains_eq i, decide_not]

/-- **Joining a difference answers whether the finite set has become another one.** -/
theorem joinDiff_fst (hs : Models s a) (ht : Models t b) (hx : Models x c) :
    (s.joinDiff t x).1 = decide (a ∪ b \ c ≠ a) := by
  rw [Bool.eq_iff_iff, decide_eq_true_iff, WordSet.joinDiff_fst, ne_eq, Finset.ext_iff]
  exact not_congr (forall_congr' fun i => iff_congr (hs.unionDiff ht hx i) (hs i))

/-- **Joining answers the same**, as nothing is left out. -/
theorem join_fst (hs : Models s a) (ht : Models t b) : (s.join t).1 = decide (a ∪ b ≠ a) := by
  have hnone := hs.joinDiff_fst ht Models.empty
  rwa [Finset.sdiff_empty] at hnone

end Models

/-! ## One command, then all -/

variable {words : Nat → WordSet} {sets : Nat → Finset Nat}

/-- **One command**: the same answer, and a set with the same members under the same name. -/
theorem perform_agrees (h : ∀ r, Models (words r) (sets r)) (c : SetCommand) :
    (kit.perform words c).1 = (finiteKit.perform sets c).1 ∧
      (kit.perform words c).2.1 = (finiteKit.perform sets c).2.1 ∧
      Models (kit.perform words c).2.2 (finiteKit.perform sets c).2.2 := by
  cases c with
  | renew r => exact ⟨rfl, rfl, .empty⟩
  | reserve r n => exact ⟨rfl, rfl, .withCapacity n⟩
  | collect r is => exact ⟨rfl, rfl, .ofList is⟩
  | copy r q => exact ⟨rfl, rfl, h q⟩
  | contains r i => exact ⟨congrArg some ((h r).contains_eq i), rfl, h r⟩
  | insert r i => exact ⟨congrArg some ((h r).insert_fst i), rfl, (h r).add i⟩
  | erase r i => exact ⟨rfl, rfl, (h r).erase i⟩
  | join r q => exact ⟨congrArg some ((h r).join_fst (h q)), rfl, (h r).union (h q)⟩
  | joinDiff r q x =>
    exact ⟨congrArg some ((h r).joinDiff_fst (h q) (h x)), rfl, (h r).unionDiff (h q) (h x)⟩
  | clear r => exact ⟨rfl, rfl, .clear (words r)⟩

/-- **All commands**, from where the sets agree. -/
theorem foldl_step_agrees (script : List SetCommand) {h : SetHistory WordSet}
    {k : SetHistory (Finset Nat)} (hsets : ∀ r, Models (h.sets r) (k.sets r))
    (hanswers : h.answers = k.answers) :
    (script.foldl kit.step h).answers = (script.foldl finiteKit.step k).answers ∧
      ∀ r, Models ((script.foldl kit.step h).sets r) ((script.foldl finiteKit.step k).sets r) := by
  induction script generalizing h k with
  | nil => exact ⟨hanswers, hsets⟩
  | cons c script ih =>
    obtain ⟨hanswer, hname, hset⟩ := perform_agrees hsets c
    refine ih (fun r => ?_) ?_
    · unfold SetKit.step
      dsimp only
      rw [hname, Function.update_apply, Function.update_apply]
      split
      · exact hset
      · exact hsets r
    · unfold SetKit.step
      dsimp only
      rw [hanswers, hanswer]

/-- **Word sets are finite sets over whole histories.**  Whatever is done with any number of sets,
in any order, the answers are those of finite sets: whether an index is a member, whether one that
is added was absent, and whether a set has become another one by a join.  And every set contains in
the end exactly the members of the finite set that the same commands give. -/
theorem histories_are_those_of_sets (script : List SetCommand) :
    (kit.run script).answers = (finiteKit.run script).answers ∧
      ∀ r i, ((kit.run script).sets r).contains i = true ↔ i ∈ (finiteKit.run script).sets r :=
  foldl_step_agrees script (fun _ => .empty) rfl

-- the first join makes the set longer by a word, and yet it is no news
example : (kit.run [.reserve 0 1, .insert 0 63, .copy 1 0, .insert 1 64, .collect 2 [64, 200],
    .joinDiff 0 1 2, .join 0 1, .erase 0 64, .insert 0 64]).answers
      = [none, some true, none, some true, none, some false, some true, none, some true] := by decide

end WordSet

end Dataflow
