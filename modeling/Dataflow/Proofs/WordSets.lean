import Dataflow.WordSet.Lemmas
import Mathlib.Data.List.Sort

/-!
# Word sets as sets

The equations of `Dataflow.WordSet.Lemmas` read as statements about `∈`, and what they leave open:
comparing two sets word by word, past any zeros at the end, compares their members
(`beq_iff_same_members`), a join that finds a word changed has found the members changed
(`joinDiff_fst`), and a set is listed in ascending order (`pairwise_toList`).  From here on nothing
looks inside a word.

So whatever can be seen of a set is a matter of its members (`observers_see_members`): its list, its
size, whether it is empty, and what it is equal to.  How many words it has does not show.
-/

namespace Dataflow

/-- Positions ascend. -/
theorem pairwise_zipIdx {α : Type} (l : List α) : l.zipIdx.Pairwise fun x y => x.2 < y.2 := by
  rw [List.pairwise_iff_getElem]
  intro i j hi hj hij
  simpa using hij

namespace WordSet

/-! ## Members -/

theorem mem_iff {s : WordSet} {i : Nat} : i ∈ s ↔ s.contains i = true := Iff.rfl

@[simp] theorem not_mem_withCapacity (n i : Nat) : i ∉ withCapacity n := by
  simp [mem_iff]

@[simp] theorem mem_add {s : WordSet} {i j : Nat} : i ∈ s.add j ↔ i = j ∨ i ∈ s := by
  simp [mem_iff]

@[simp] theorem mem_union {s t : WordSet} {i : Nat} : i ∈ s.union t ↔ i ∈ s ∨ i ∈ t := by
  simp [mem_iff]

@[simp] theorem mem_unionDiff {s t x : WordSet} {i : Nat} :
    i ∈ s.unionDiff t x ↔ i ∈ s ∨ (i ∈ t ∧ i ∉ x) := by
  simp [mem_iff]

theorem mem_foldl_add {s : WordSet} {is : List Nat} {i : Nat} :
    i ∈ is.foldl add s ↔ i ∈ s ∨ i ∈ is := by
  induction is generalizing s with
  | nil => simp
  | cons j is ih =>
    rw [List.foldl_cons, ih, mem_add, List.mem_cons, or_assoc, or_left_comm]

/-! ## Comparing -/

/-- Lists of words agree up to zeros at the end if they agree at every position, a word past the end
being zero. -/
theorem sameWords_iff (ws vs : List UInt64) :
    sameWords ws vs = true ↔ ∀ k : Nat, (ws[k]?).getD 0 = (vs[k]?).getD 0 := by
  have hzeros : ∀ us : List UInt64, us.all (· == 0) = true ↔ ∀ k : Nat, (us[k]?).getD 0 = 0 := by
    intro us
    rw [List.all_eq_true]
    constructor
    · intro h k
      cases hk : us[k]? with
      | none => rfl
      | some u => simpa using h u (List.mem_of_getElem? hk)
    · intro h u hu
      obtain ⟨k, hk⟩ := List.mem_iff_getElem?.mp hu
      simpa [hk] using h k
  induction ws generalizing vs with
  | nil =>
    rw [sameWords, hzeros]
    simp [eq_comm]
  | cons w ws ih =>
    cases vs with
    | nil =>
      rw [sameWords, hzeros]
      · simp
      · simp
    | cons v vs =>
      rw [sameWords, Bool.and_eq_true]
      constructor
      · rintro ⟨hw, hrest⟩ k
        cases k with
        | zero => simpa using hw
        | succ k => simpa using (ih vs).mp hrest k
      · intro h
        exact ⟨by simpa using h 0, (ih vs).mpr fun k => by simpa using h (k + 1)⟩

/-- Words with the same bits are the same. -/
theorem eq_of_testBit_eq {w v : UInt64}
    (h : ∀ j, j < 64 → w.toNat.testBit j = v.toNat.testBit j) : w = v := by
  apply UInt64.toNat_inj.mp
  apply Nat.eq_of_testBit_eq
  intro j
  rcases Nat.lt_or_ge j 64 with hj | hj
  · exact h j hj
  · -- a bit past the word is not set
    have hpow : 2 ^ 64 ≤ 2 ^ j := Nat.pow_le_pow_right (by decide) hj
    have hw := UInt64.toNat_lt w
    have hv := UInt64.toNat_lt v
    rw [Nat.testBit_lt_two_pow (by omega), Nat.testBit_lt_two_pow (by omega)]

/-- **Equal sets have the same members**, and only they. -/
theorem beq_iff_same_members (s t : WordSet) : (s == t) = true ↔ ∀ i, i ∈ s ↔ i ∈ t := by
  show sameWords s.words t.words = true ↔ _
  rw [sameWords_iff]
  simp only [mem_iff, contains_eq]
  constructor
  · intro h i
    rw [h (i / 64)]
  · intro h k
    apply eq_of_testBit_eq
    intro j hj
    -- bit `j` of word `k` is the membership of `64 * k + j`
    have hbit := h (64 * k + j)
    rw [show (64 * k + j) / 64 = k by omega, show (64 * k + j) % 64 = j by omega] at hbit
    exact Bool.eq_iff_iff.mpr hbit

/-- Comparing is an equivalence. -/
theorem equivalence_beq : Equivalence fun s t : WordSet => (s == t) = true := by
  refine ⟨fun s => ?_, fun {s t} h => ?_, fun {s t u} hst htu => ?_⟩
  · exact (beq_iff_same_members s s).mpr fun i => Iff.rfl
  · rw [beq_iff_same_members] at h ⊢
    exact fun i => (h i).symm
  · rw [beq_iff_same_members] at hst htu ⊢
    exact fun i => (hst i).trans (htu i)

theorem beq_comm (s t : WordSet) : (s == t) = (t == s) :=
  Bool.eq_iff_iff.mpr ⟨equivalence_beq.symm, equivalence_beq.symm⟩

/-- Words of zeros at the end do not show. -/
theorem beq_padTo (s : WordSet) (n : Nat) : ((⟨padTo n s.words⟩ : WordSet) == s) = true :=
  (sameWords_iff _ _).mpr (getD_padTo n s.words)

/-! ## News -/

/-- **A join tells whether the members have changed**: the word in which one of them is new has
become another word, and no word can become another without that. -/
theorem joinDiff_fst (s t x : WordSet) :
    (s.joinDiff t x).1 = true ↔ ¬ ∀ i, i ∈ s.unionDiff t x ↔ i ∈ s := by
  have hwords : (s.joinDiff t x).1 = true ↔
      ∃ k : Nat, (((s.unionDiff t x).words)[k]?).getD 0 ≠ (s.words[k]?).getD 0 := by
    have hwalk := joinWords_fst false (padTo t.words.length s.words) t.words x.words
    simp only [getD_padTo, Bool.false_eq_true, false_or] at hwalk
    exact hwalk
  rw [hwords, ← beq_iff_same_members, ← not_forall]
  exact not_congr (sameWords_iff _ _).symm

/-! ## Listing -/

theorem mem_bitsOf {w : UInt64} {j : Nat} : j ∈ bitsOf w ↔ j < 64 ∧ w.toNat.testBit j = true := by
  unfold bitsOf
  rw [List.mem_filter, List.mem_range, and_bit_bne_zero]
  constructor
  · rintro ⟨hj, hbit⟩
    rw [Nat.mod_eq_of_lt hj] at hbit
    exact ⟨hj, hbit⟩
  · rintro ⟨hj, hbit⟩
    rw [Nat.mod_eq_of_lt hj]
    exact ⟨hj, hbit⟩

/-- **The list has the members** and nothing else. -/
theorem mem_toList {s : WordSet} {i : Nat} : i ∈ s.toList ↔ i ∈ s := by
  rw [mem_iff, contains_eq]
  unfold toList
  simp only [List.mem_flatMap, List.mem_map, mem_bitsOf, Prod.exists, List.mem_zipIdx_iff_getElem?]
  constructor
  · rintro ⟨w, k, hw, j, ⟨hj, hbit⟩, rfl⟩
    rw [show (64 * k + j) / 64 = k by omega, show (64 * k + j) % 64 = j by omega, hw]
    exact hbit
  · intro hbit
    cases hw : s.words[i / 64]? with
    | none =>
      rw [hw] at hbit
      simp at hbit
    | some w =>
      rw [hw] at hbit
      exact ⟨w, i / 64, hw, i % 64, ⟨Nat.mod_lt _ (by decide), hbit⟩, by omega⟩

/-- **The list ascends.** -/
theorem pairwise_toList (s : WordSet) : s.toList.Pairwise (· < ·) := by
  unfold toList
  rw [List.pairwise_flatMap]
  constructor
  · intro p _
    have hbits : (bitsOf p.1).Pairwise (· < ·) := List.pairwise_lt_range.filter _
    rw [List.pairwise_map]
    apply hbits.imp
    intro i j hij
    omega
  · apply (pairwise_zipIdx s.words).imp
    -- the bits of a word come before those of any later one
    intro p q hpq x hx y hy
    obtain ⟨i, hi, rfl⟩ := List.mem_map.mp hx
    obtain ⟨j, -, rfl⟩ := List.mem_map.mp hy
    have hlt := (mem_bitsOf.mp hi).1
    omega

/-- **Sets are equal exactly if their lists are**: there is one ascending list of given members. -/
theorem beq_iff_toList_eq (s t : WordSet) : (s == t) = true ↔ s.toList = t.toList := by
  rw [beq_iff_same_members]
  constructor
  · intro h
    refine (pairwise_toList s).eq_of_mem_iff (pairwise_toList t) fun i => ?_
    rw [mem_toList, mem_toList]
    exact h i
  · intro h i
    rw [← mem_toList, h, mem_toList]

/-- **Counting bits word by word counts the list.** -/
theorem size_eq_length_toList (s : WordSet) : s.size = s.toList.length := by
  have hcount : ∀ (ws : List UInt64) (n k : Nat), ws.foldl (fun n w => n + (bitsOf w).length) n
      = n + ((ws.zipIdx k).flatMap fun p => (bitsOf p.1).map (64 * p.2 + ·)).length := by
    intro ws
    induction ws with
    | nil => exact fun n k => rfl
    | cons w ws ih =>
      intro n k
      rw [List.foldl_cons, ih _ (k + 1), List.zipIdx_cons, List.flatMap_cons, List.length_append,
        List.length_map]
      exact Nat.add_assoc ..
  rw [size, hcount s.words 0 0, Nat.zero_add]
  rfl

theorem isEmpty_iff (s : WordSet) : s.isEmpty = true ↔ s.toList = [] := by
  -- all words are zero if the set is equal to the one without words
  have hempty : s.isEmpty = (empty == s) := rfl
  rw [hempty, beq_iff_toList_eq, eq_comm]
  rfl

/-- **Collecting the list gives the set back.** -/
theorem ofList_toList_beq (s : WordSet) : (ofList s.toList == s) = true := by
  rw [beq_iff_same_members]
  intro i
  rw [ofList, mem_foldl_add, mem_toList]
  exact or_iff_right fun h => Bool.false_ne_true h

/-! ## The headline -/

/-- **Observers see the members only**, whatever the words of two sets are and however many.

1. The list of a set ascends and has exactly the indices that it contains.
2. Its size is the length of the list, and it is empty if the list is.
3. Two sets are equal exactly if they contain the same indices, so exactly if their lists are equal;
   this is an equivalence, and words of zeros at the end do not matter to it.
4. Collecting the list gives the set back. -/
theorem observers_see_members (s t : WordSet) :
    (s.toList.Pairwise (· < ·) ∧ ∀ i, i ∈ s.toList ↔ s.contains i = true) ∧
    s.size = s.toList.length ∧ (s.isEmpty = true ↔ s.toList = []) ∧
    ((s == t) = true ↔ ∀ i, s.contains i = t.contains i) ∧ ((s == t) = true ↔ s.toList = t.toList) ∧
    (s == t) = (t == s) ∧ (Equivalence fun a b : WordSet => (a == b) = true) ∧
    (∀ n, ((⟨padTo n s.words⟩ : WordSet) == s) = true) ∧ (ofList s.toList == s) = true := by
  refine ⟨⟨pairwise_toList s, fun i => mem_toList⟩, size_eq_length_toList s, isEmpty_iff s, ?_,
    beq_iff_toList_eq s t, beq_comm s t, equivalence_beq, beq_padTo s, ofList_toList_beq s⟩
  rw [beq_iff_same_members]
  exact forall_congr' fun i => Bool.eq_iff_iff.symm

-- the last member of one word and the first of the next, with room to spare
example : (⟨[9223372036854775808, 1, 0]⟩ : WordSet).toList = [63, 64] := by decide

end WordSet

end Dataflow
