import Dataflow.WordSet

/-!
# Membership after each operation

One equation for each operation on word sets, in terms of `contains`.  The bridge is `contains_eq`:
an index is a member if its bit is set in its word, read as a natural number, where a word past the
end is zero.

Two operations also tell whether they change anything, and they find out on the way: adding an index
looks at its bit once there is room for it (`insert_fst`), and joining compares each word with what
it was (`joinWord_fst`) and carries the news along the walk (`joinWords_fst`).
-/

namespace Dataflow

namespace WordSet

/-! ## Bits of a word -/

theorem toNat_bit (i : Nat) : (bit i).toNat = Nat.pow 2 (i % 64) := by
  have h : i % 64 < 64 := Nat.mod_lt _ (by decide)
  have h2 : 2 ^ (i % 64) < 2 ^ 64 := Nat.pow_lt_pow_right (by decide) h
  simp [bit, UInt64.toNat_shiftLeft, Nat.shiftLeft_eq, Nat.mod_eq_of_lt h]
  omega

/-- A word and the bit of an index have something in common if the bit is set. -/
theorem and_bit_bne_zero (w : UInt64) (i : Nat) :
    (w &&& bit i != 0) = w.toNat.testBit (i % 64) := by
  have hzero : w &&& bit i = 0 ↔ w.toNat.testBit (i % 64) = false := by
    rw [← UInt64.toNat_inj, UInt64.toNat_and, toNat_bit]
    constructor
    · intro h
      have hbit := congrArg (fun n => n.testBit (i % 64)) h
      simpa using hbit
    · intro h
      apply Nat.eq_of_testBit_eq
      intro j
      by_cases hj : i % 64 = j
      · simp [← hj, h]
      · simp [hj]
  cases hb : w.toNat.testBit (i % 64) with
  | false => simp [hzero.mpr hb]
  | true =>
    have hne : w &&& bit i ≠ 0 := fun h => by simp [hzero.mp h] at hb
    simp [hne]

/-- Turning a word over turns each of its bits over. -/
theorem testBit_not (w : UInt64) (k : Nat) (h : k < 64) :
    (~~~w).toNat.testBit k = !w.toNat.testBit k := by
  have hw := UInt64.toNat_lt w
  have hsub : UInt64.size - 1 - w.toNat = 2 ^ 64 - (w.toNat + 1) := by
    simp only [UInt64.size]
    omega
  rw [UInt64.toNat_not, hsub, Nat.testBit_two_pow_sub_succ hw]
  simp [h]

/-- **The bridge** to natural numbers. -/
theorem contains_eq (s : WordSet) (i : Nat) :
    s.contains i = ((s.words[i / 64]?).getD 0).toNat.testBit (i % 64) := by
  rw [contains]
  cases s.words[i / 64]? with
  | none => simp
  | some w => exact and_bit_bne_zero w i

/-- Two indices of one word with the same bit are the same index. -/
theorem eq_of_word_of_bit {i j : Nat} (hw : i / 64 = j / 64) (hb : i % 64 = j % 64) : i = j := by
  omega

/-! ## Making sets -/

@[simp] theorem contains_empty (i : Nat) : empty.contains i = false := rfl

@[simp] theorem contains_withCapacity (n i : Nat) : (withCapacity n).contains i = false := by
  rw [contains_eq, withCapacity]
  dsimp only
  rw [List.getElem?_replicate]
  split <;> simp

@[simp] theorem contains_clear (s : WordSet) (i : Nat) : s.clear.contains i = false := by
  rw [contains_eq, clear]
  dsimp only
  rw [List.getElem?_map]
  cases s.words[i / 64]? <;> simp

/-! ## Adding and removing -/

/-- Lengthening with zeros changes no word. -/
theorem getD_padTo (n : Nat) (ws : List UInt64) (k : Nat) :
    ((padTo n ws)[k]?).getD 0 = (ws[k]?).getD 0 := by
  rw [padTo, List.getElem?_append]
  by_cases hk : k < ws.length
  · rw [if_pos hk]
  · rw [if_neg hk, List.getElem?_eq_none (Nat.le_of_not_lt hk), List.getElem?_replicate]
    split <;> rfl

theorem le_length_padTo (n : Nat) (ws : List UInt64) : n ≤ (padTo n ws).length := by
  rw [padTo, List.length_append, List.length_replicate]
  omega

/-- **Adding**: the new member, and all the old ones. -/
@[simp] theorem contains_add (s : WordSet) (j i : Nat) :
    (s.add j).contains i = (decide (i = j) || s.contains i) := by
  rw [contains_eq, contains_eq, add, insert]
  dsimp only
  rw [List.getElem?_modify, ← getD_padTo (j / 64 + 1) s.words (i / 64)]
  by_cases hw : j / 64 = i / 64
  · have hlt : i / 64 < (padTo (j / 64 + 1) s.words).length := by
      have hle := le_length_padTo (j / 64 + 1) s.words
      omega
    rw [List.getElem?_eq_getElem hlt]
    by_cases hb : j % 64 = i % 64
    · have hij := eq_of_word_of_bit hw hb
      simp [hij, UInt64.toNat_or, toNat_bit]
    · have hij : i ≠ j := fun h => hb (by rw [h])
      simp [hw, hij, UInt64.toNat_or, toNat_bit, hb]
  · have hij : i ≠ j := fun h => hw (by rw [h])
    simp [hw, hij]

/-- **Adding tells whether the member is new**: room made for it shows as a bit that is not set. -/
theorem insert_fst (s : WordSet) (i : Nat) : (s.insert i).1 = !s.contains i := by
  rw [contains_eq, insert]
  dsimp only
  rw [getD_padTo, ← and_bit_bne_zero, bne, Bool.not_not]

/-- **Removing**: all members but one. -/
@[simp] theorem contains_erase (s : WordSet) (j i : Nat) :
    (s.erase j).contains i = (decide (i ≠ j) && s.contains i) := by
  have hlt : i % 64 < 64 := Nat.mod_lt _ (by decide)
  rw [contains_eq, contains_eq, erase]
  dsimp only
  rw [List.getElem?_modify]
  by_cases hw : j / 64 = i / 64
  · cases hword : s.words[i / 64]? with
    | none => simp [hw]
    | some w =>
      by_cases hb : j % 64 = i % 64
      · have hij := eq_of_word_of_bit hw hb
        subst hij
        simp [UInt64.toNat_and, testBit_not _ _ hlt, toNat_bit, -UInt64.toNat_not]
      · have hij : i ≠ j := fun h => hb (by rw [h])
        simp [hw, hij, UInt64.toNat_and, testBit_not _ _ hlt, toNat_bit, hb, -UInt64.toNat_not]
  · have hij : i ≠ j := fun h => hw (by rw [h])
    simp [hw, hij]

/-! ## Joining -/

/-- **Joining one word tells whether it has become another.** -/
theorem joinWord_fst (w v x : UInt64) : (joinWord w v x).1 = true ↔ (joinWord w v x).2 ≠ w := bne_iff_ne

theorem joinWords_nil (changed : Bool) (ws xs : List UInt64) :
    joinWords changed ws [] xs = (changed, ws) := by
  cases ws <;> rfl

/-- **One word of a walk**: it is joined, and what it tells is carried on to the words after it. -/
theorem joinWords_cons (changed : Bool) (w v : UInt64) (ws vs xs : List UInt64) :
    joinWords changed (w :: ws) (v :: vs) xs
      = ((joinWords (changed || (joinWord w v (xs.headD 0)).1) ws vs xs.tail).1,
        (joinWord w v (xs.headD 0)).2 ::
          (joinWords (changed || (joinWord w v (xs.headD 0)).1) ws vs xs.tail).2) := rfl

/-- **A word of a join**, wherever it lies. -/
theorem getD_joinWords (changed : Bool) {ws vs : List UInt64} (h : vs.length ≤ ws.length)
    (xs : List UInt64) (k : Nat) :
    ((joinWords changed ws vs xs).2[k]?).getD 0
      = (ws[k]?).getD 0 ||| ((vs[k]?).getD 0 &&& ~~~((xs[k]?).getD 0)) := by
  induction vs generalizing changed ws xs k with
  | nil => simp [joinWords_nil]
  | cons v vs ih =>
    cases ws with
    | nil => simp at h
    | cons w ws =>
      rw [joinWords_cons]
      cases k with
      | zero => simp [joinWord, List.head?_eq_getElem?]
      | succ k => simpa using ih _ (Nat.le_of_succ_le_succ h) xs.tail k

/-- **A walk tells of a change** exactly if there was one before or it leaves another word
somewhere. -/
theorem joinWords_fst (changed : Bool) (ws vs xs : List UInt64) :
    (joinWords changed ws vs xs).1 = true ↔
      changed = true ∨ ∃ k : Nat, ((joinWords changed ws vs xs).2[k]?).getD 0 ≠ (ws[k]?).getD 0 := by
  induction vs generalizing changed ws xs with
  | nil => simp [joinWords_nil]
  | cons v vs ih =>
    cases ws with
    | nil => simp [joinWords]
    | cons w ws =>
      rw [joinWords_cons, ih, Bool.or_eq_true, joinWord_fst, or_assoc]
      refine or_congr_right ⟨?_, ?_⟩
      · rintro (hhere | ⟨k, hk⟩)
        · exact ⟨0, by simpa using hhere⟩
        · exact ⟨k + 1, by simpa using hk⟩
      · rintro ⟨k, hk⟩
        cases k with
        | zero => exact Or.inl (by simpa using hk)
        | succ k => exact Or.inr ⟨k, by simpa using hk⟩

/-- **Joining a difference**: the old members, and the others that are not excluded. -/
@[simp] theorem contains_unionDiff (s t x : WordSet) (i : Nat) :
    (s.unionDiff t x).contains i = (s.contains i || (t.contains i && !x.contains i)) := by
  have hlt : i % 64 < 64 := Nat.mod_lt _ (by decide)
  have hroom := le_length_padTo t.words.length s.words
  simp only [contains_eq, unionDiff, joinDiff, getD_joinWords false hroom, getD_padTo]
  rw [UInt64.toNat_or, UInt64.toNat_and, Nat.testBit_or, Nat.testBit_and, testBit_not _ _ hlt]

/-- **Joining**: the members of either. -/
@[simp] theorem contains_union (s t : WordSet) (i : Nat) :
    (s.union t).contains i = (s.contains i || t.contains i) := by
  have h := contains_unionDiff s t empty i
  simpa [union, join, unionDiff] using h

end WordSet

end Dataflow
