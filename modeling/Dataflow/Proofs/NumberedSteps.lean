import Dataflow.Proofs.NumberedTerms

/-!
# One step of value numbering

Numbering and the symbolic run take the same steps, one on numbers and one on terms.

1. **One relation** (`Mirrors`): the numbers have meanings, a value has a number exactly if it has a
   term and then the number means the term, and the table has exactly the computations done so far.
2. **One lemma per operation**: asking for a value, assigning one, looking an expression up.  Each
   keeps the relation, and asking keeps the meanings of old numbers with it.
3. **One lemma per kind of instruction**, put together in `Mirrors.number`.

What can go wrong is the counter only: it is 32 bits wide, and once it runs over a number is handed
out twice.  So the lemmas ask for room for the numbers that are drawn (`State.drawn`).
-/

namespace Dataflow

namespace Numbering

namespace State

variable {f : Func} {s s' s'' : State} {t : Valuation} {past : List Term}
  {meaning : ValueNumber → Term} {v w : ValueId} {i j : InstId} {n l r : ValueNumber}
  {a b u : Term} {op : Operator}

/-! ## Numbers handed out -/

/-- How many numbers are handed out between two states, as the counter tells. -/
def drawn (s s' : State) : Nat := (s'.next - s.next).toNat

theorem drawn_eq_zero (h : s'.next = s.next) : s.drawn s' = 0 := by
  unfold drawn
  rw [h, UInt32.sub_self]
  rfl

theorem drawn_eq_one (h : s'.next = s.next + 1) : s.drawn s' = 1 := by
  unfold drawn
  have hone : (1 : UInt32).toNat = 1 := rfl
  have hlt := s.next.toNat_lt
  rw [h, UInt32.toNat_sub, UInt32.toNat_add]
  omega

/-- With room for them, the counter has grown by as many numbers as were drawn. -/
theorem next_of_room (h : s.next.toNat + s.drawn s' < UInt32.size) :
    s'.next.toNat = s.next.toNat + s.drawn s' := by
  unfold drawn at h ⊢
  have hsize : UInt32.size = 4294967296 := rfl
  have hlt := s.next.toNat_lt
  have hlt' := s'.next.toNat_lt
  rw [UInt32.toNat_sub] at h ⊢
  omega

/-- Two steps draw as many numbers as each of them together, unless the counter runs around. -/
theorem drawn_trans (hfew : s.drawn s' + s'.drawn s'' < UInt32.size) :
    s.drawn s'' = s.drawn s' + s'.drawn s'' := by
  unfold drawn at hfew ⊢
  have hsize : UInt32.size = 4294967296 := rfl
  have hlt := s.next.toNat_lt
  have hlt' := s'.next.toNat_lt
  have hlt'' := s''.next.toNat_lt
  rw [UInt32.toNat_sub, UInt32.toNat_sub] at hfew
  rw [UInt32.toNat_sub, UInt32.toNat_sub, UInt32.toNat_sub]
  omega

theorem drawn_congr (h : s''.next = s'.next) : s.drawn s'' = s.drawn s' := by
  unfold drawn
  rw [h]

/-! ## What the operations do -/

/-- The number that a value has been assigned. -/
def numberAt (s : State) (v : ValueId) : Option ValueNumber := (s.numbers[v.index]?).join

theorem join_getElem?_replicate_none {α : Type} (n k : Nat) :
    ((Array.replicate n (none : Option α))[k]?).join = none := by
  rw [Array.getElem?_replicate]
  split <;> rfl

theorem numberAt_start (f : Func) (v : ValueId) : (State.start f).numberAt v = none :=
  join_getElem?_replicate_none _ _

theorem source_start (f : Func) (i : InstId) : ((State.start f).sources[i.index]?).join = none :=
  join_getElem?_replicate_none _ _

/-- **What asking for a value does**: it answers the number assigned, or draws one for a leaf, or
answers zero. -/
theorem numberOf_cases (hsize : s.numbers.size = f.values.size) (v : ValueId) :
    (∃ n, s.numberAt v = some n ∧ s.numberOf f v = (n, s)) ∨
    (s.numberAt v = none ∧ f.isLeaf v = true ∧ v.index < s.numbers.size ∧
      s.numberOf f v = (s.next, { s with
        numbers := s.numbers.setIfInBounds v.index (some s.next)
        next := s.next + 1 })) ∨
    (s.numberAt v = none ∧ f.isLeaf v = false ∧ s.numberOf f v = (0, s)) := by
  unfold numberOf numberAt Func.isLeaf
  rcases Nat.lt_or_ge v.index s.numbers.size with hlt | hge
  · have hlt' : v.index < f.values.size := by omega
    rw [Array.getElem?_eq_getElem hlt, Array.getElem?_eq_getElem hlt']
    cases s.numbers[v.index] with
    | some n => exact Or.inl ⟨n, rfl, rfl⟩
    | none =>
      refine Or.inr ?_
      cases f.values[v.index] with
      | const c => exact Or.inl ⟨rfl, rfl, hlt, rfl⟩
      | arg k => exact Or.inl ⟨rfl, rfl, hlt, rfl⟩
      | result k => exact Or.inr ⟨rfl, rfl, rfl⟩
      | slot name => exact Or.inr ⟨rfl, rfl, rfl⟩
  · have hge' : f.values.size ≤ v.index := by omega
    rw [Array.getElem?_eq_none hge, Array.getElem?_eq_none hge']
    exact Or.inr (Or.inr ⟨rfl, rfl, rfl⟩)

/-- A value gets a number if it has a place in the table, and nothing else changes. -/
theorem assign?_eq_some : s.assign? v n = some s' ↔ v.index < s.numbers.size ∧
    s' = { s with numbers := s.numbers.setIfInBounds v.index (some n) } := by
  unfold assign?
  split
  · next hlt =>
    rw [Option.some_inj]
    exact ⟨fun h => ⟨hlt, h.symm⟩, fun h => h.2.symm⟩
  · next hge =>
    constructor
    · intro h
      nomatch h
    · rintro ⟨hlt, -⟩
      exact absurd hlt hge

/-- Setting a number in the array of numbers sets it for this value only. -/
theorem numberAt_set (hv : v.index < s.numbers.size)
    (hs' : s'.numbers = s.numbers.setIfInBounds v.index (some n)) (w : ValueId) :
    s'.numberAt w = if w = v then some n else s.numberAt w := by
  unfold numberAt
  rw [hs', Array.getElem?_setIfInBounds]
  by_cases hw : w = v
  · rw [hw, if_pos rfl, if_pos hv, if_pos rfl]
    rfl
  · have hindex : v.index ≠ w.index := fun h => hw (congrArg ValueId.mk h.symm)
    rw [if_neg hindex, if_neg hw]

/-- **What looking up does**: it finds the expression and marks the instruction, or enters it. -/
theorem lookup_cases (s : State) (i : InstId) (e : Expression) :
    (∃ known, s.table.lookup e = some known ∧ s.lookup i e = (known.number, true,
      { s with sources := s.sources.setIfInBounds i.index (some known.source) })) ∨
    (s.table.lookup e = none ∧ s.lookup i e = (s.next, false,
      { s with table := (e, ⟨s.next, i⟩) :: s.table, next := s.next + 1 })) := by
  unfold lookup
  cases s.table.lookup e with
  | none => exact Or.inr ⟨rfl, rfl⟩
  | some known => exact Or.inl ⟨known, rfl, rfl⟩

section

variable (hsize : s.numbers.size = f.values.size) (h : s.numberOf f v = (n, s'))

include hsize h

/-- Asking for a value leaves the state as it is or draws a number for the value. -/
theorem numberOf_state :
    s' = s ∨ s' = { s with
      numbers := s.numbers.setIfInBounds v.index (some s.next)
      next := s.next + 1 } := by
  rcases numberOf_cases hsize v with ⟨m, -, hcase⟩ | ⟨-, -, -, hcase⟩ | ⟨-, -, hcase⟩
  · exact Or.inl (congrArg Prod.snd (h.symm.trans hcase))
  · exact Or.inr (congrArg Prod.snd (h.symm.trans hcase))
  · exact Or.inl (congrArg Prod.snd (h.symm.trans hcase))

/-- Asking for a number leaves the expressions and the sources alone. -/
theorem numberOf_frame : s'.table = s.table ∧ s'.sources = s.sources := by
  rcases numberOf_state hsize h with hs' | hs'
  · rw [hs']
    exact ⟨rfl, rfl⟩
  · rw [hs']
    exact ⟨rfl, rfl⟩

theorem numberOf_size : s'.numbers.size = f.values.size := by
  rcases numberOf_state hsize h with hs' | hs'
  · rw [hs', hsize]
  · rw [hs', ← hsize]
    exact Array.size_setIfInBounds

/-- Asking for the number of a value draws one number at most. -/
theorem drawn_numberOf_le : s.drawn s' ≤ 1 := by
  rcases numberOf_state hsize h with hs' | hs'
  · have hzero : s.drawn s' = 0 := drawn_eq_zero (by rw [hs'])
    omega
  · have hone : s.drawn s' = 1 := drawn_eq_one (by rw [hs'])
    omega

end

/-- Looking up an expression draws one number at most. -/
theorem drawn_lookup_le {e : Expression} {redundant : Bool} (h : s.lookup i e = (n, redundant, s')) :
    s.drawn s' ≤ 1 := by
  rcases lookup_cases s i e with ⟨known, -, hcase⟩ | ⟨-, hcase⟩ <;> cases h.symm.trans hcase
  · have hzero : s.drawn _ = 0 := drawn_eq_zero rfl
    exact Nat.le_trans (Nat.le_of_eq hzero) (Nat.zero_le 1)
  · exact Nat.le_of_eq (drawn_eq_one rfl)

theorem isRedundant_congr (h : s'.sources = s.sources) (j : InstId) :
    s'.isRedundant j = s.isRedundant j := by
  unfold isRedundant
  rw [h]

/-- Looking up marks the instruction it is done for, if the expression is known, and no other. -/
theorem isRedundant_lookup {e : Expression} {redundant : Bool}
    (h : s.lookup i e = (n, redundant, s')) (hi : i.index < s.sources.size) (j : InstId) :
    s'.isRedundant j = true ↔ s.isRedundant j = true ∨ j = i ∧ redundant = true := by
  rcases lookup_cases s i e with ⟨known, -, hcase⟩ | ⟨-, hcase⟩ <;> cases h.symm.trans hcase
  · unfold isRedundant
    dsimp only
    rw [Array.getElem?_setIfInBounds]
    by_cases hj : j = i
    · rw [hj, if_pos rfl, if_pos hi]
      exact ⟨fun _ => Or.inr ⟨rfl, rfl⟩, fun _ => rfl⟩
    · have hindex : i.index ≠ j.index := fun h => hj (congrArg InstId.mk h.symm)
      rw [if_neg hindex]
      exact ⟨Or.inl, fun h => h.resolve_right fun h => hj h.1⟩
  · exact ⟨Or.inl, fun h => h.resolve_right fun h => Bool.false_ne_true h.2⟩

/-- Gives a number to a result, if there is one. -/
def give? (s : State) (result : Option ValueId) (n : ValueNumber) : Option State :=
  result.elim (some s) fun v => s.assign? v n

theorem give?_frame {result : Option ValueId} (h : s.give? result n = some s') :
    s'.next = s.next ∧ s'.table = s.table ∧ s'.sources = s.sources := by
  cases result with
  | none =>
    obtain rfl := Option.some.inj h
    exact ⟨rfl, rfl, rfl⟩
  | some v =>
    obtain ⟨-, rfl⟩ := assign?_eq_some.mp h
    exact ⟨rfl, rfl, rfl⟩

/-- **A store in steps**: the value is asked for, and its number goes to the pointer. -/
theorem store?_cases {value ptr : ValueId} {o : Outcome} (h : s.store? f value ptr = some (o, s')) :
    ∃ n s₁, s.numberOf f value = (n, s₁) ∧ o = .store n ∧ s₁.give? (some ptr) n = some s' := by
  obtain ⟨s₂, hassign, hs₂⟩ := Option.bind_eq_some_iff.mp h
  obtain ⟨rfl, rfl⟩ := Prod.mk.inj (Option.some.inj hs₂)
  exact ⟨_, _, rfl, rfl, hassign⟩

/-- A load gives its result the number of what it reads, if that has one. -/
theorem load?_eq_some {ptr : ValueId} {result : Option ValueId} {o : Outcome}
    (h : s.load? ptr result = some (o, s')) :
    (s.numberAt ptr = none ∧ s' = s) ∨
    ∃ n, s.numberAt ptr = some n ∧ s.give? result n = some s' := by
  unfold load? at h
  unfold numberAt
  split at h
  · nomatch h
  · next hnone =>
    cases h
    exact Or.inl ⟨by rw [hnone]; rfl, rfl⟩
  · next n hn =>
    cases h
    exact Or.inr ⟨n, by rw [hn]; rfl, rfl⟩
  · next n r hn =>
    obtain ⟨s₁, hassign, hs₁⟩ := Option.map_eq_some_iff.mp h
    cases hs₁
    exact Or.inr ⟨n, by rw [hn]; rfl, hassign⟩

/-- A load is reported with the number of its pointer, zero if that has none. -/
theorem load?_outcome {ptr : ValueId} {result : Option ValueId} {o : Outcome}
    (h : s.load? ptr result = some (o, s')) : o = .load ((s.numberAt ptr).getD 0) := by
  unfold load? at h
  unfold numberAt
  split at h
  · nomatch h
  · next hnone =>
    cases h
    rw [hnone]
    rfl
  · next n hn =>
    cases h
    rw [hn]
    rfl
  · next n r hn =>
    obtain ⟨s₁, -, hs₁⟩ := Option.map_eq_some_iff.mp h
    cases hs₁
    rw [hn]
    rfl

/-- **A binary operator in steps**: both operands are asked for, the expression is looked up, and
its number goes to the result. -/
theorem binary?_cases {lhs rhs : ValueId} {result : Option ValueId} {o : Outcome}
    (h : s.binary? f i op lhs rhs result = some (o, s')) :
    ∃ l s₁ r s₂ n redundant s₃, s.numberOf f lhs = (l, s₁) ∧ s₁.numberOf f rhs = (r, s₂) ∧
      s₂.lookup i (.normal op l r) = (n, redundant, s₃) ∧ o = .binary op l r n redundant ∧
      s₃.give? result n = some s' := by
  refine ⟨_, _, _, _, _, _, _, rfl, rfl, rfl, ?_⟩
  unfold binary? at h
  cases result with
  | none =>
    obtain ⟨rfl, rfl⟩ := Prod.mk.inj (Option.some.inj h)
    exact ⟨rfl, rfl⟩
  | some v =>
    obtain ⟨s₄, hassign, hs₄⟩ := Option.bind_eq_some_iff.mp h
    obtain ⟨rfl, rfl⟩ := Prod.mk.inj (Option.some.inj hs₄)
    exact ⟨rfl, hassign⟩

section

variable {s₁ s₂ s₃ : State} {redundant : Bool} (hsize : s.numbers.size = f.values.size)
  (hleft : s.numberOf f v = (l, s₁)) (hright : s₁.numberOf f w = (r, s₂))
  (hfound : s₂.lookup i (.normal op l r) = (n, redundant, s₃))

include hsize hleft hright hfound

/-- A binary operator draws what its parts draw, each of them one number at most. -/
theorem drawn_binary : s.drawn s₃ = s.drawn s₁ + s₁.drawn s₂ + s₂.drawn s₃ := by
  have hwidth : UInt32.size = 4294967296 := rfl
  have hdrawn₁ := drawn_numberOf_le hsize hleft
  have hdrawn₂ := drawn_numberOf_le (numberOf_size hsize hleft) hright
  have hdrawn₃ := drawn_lookup_le hfound
  have hsum₂ : s.drawn s₂ = s.drawn s₁ + s₁.drawn s₂ := drawn_trans (by omega)
  have hsum₃ : s.drawn s₃ = s.drawn s₂ + s₂.drawn s₃ := drawn_trans (by omega)
  rw [hsum₃, hsum₂]

/-- There is room at all three parts if there is room for all. -/
theorem room_of_binary (hroom : s.next.toNat + s.drawn s₃ < UInt32.size) :
    s.next.toNat + s.drawn s₁ < UInt32.size ∧ s₁.next.toNat + s₁.drawn s₂ < UInt32.size ∧
      s₂.next.toNat + s₂.drawn s₃ < UInt32.size := by
  have hsum := drawn_binary hsize hleft hright hfound
  have hroom₁ : s.next.toNat + s.drawn s₁ < UInt32.size := by omega
  have hnext₁ := next_of_room hroom₁
  have hroom₂ : s₁.next.toNat + s₁.drawn s₂ < UInt32.size := by omega
  have hnext₂ := next_of_room hroom₂
  exact ⟨hroom₁, hroom₂, by omega⟩

end

/-! ## What a step files

The table and the sources change only for what an instruction computes. -/

/-- **What a step files under `i`**, where `means` says what numbers mean after it: nothing if
nothing is computed; the source of an entry if there is one for what is computed; and else a new
entry. -/
inductive Filed (s s' : State) (i : InstId) (means : ValueNumber → Term → Prop) :
    Outcome → Option Term → Prop where
  | nothing {o : Outcome} (htable : s'.table = s.table) (hsources : s'.sources = s.sources) :
      Filed s s' i means o none
  | source {op : Operator} {l r : ValueNumber} {a b : Term} {known : Known} (hl : means l a)
      (hr : means r b) (hfound : s.table.lookup (.normal op l r) = some known)
      (hn : means known.number (.app op a b)) (htable : s'.table = s.table)
      (hsources : s'.sources = s.sources.setIfInBounds i.index (some known.source)) :
      Filed s s' i means (.binary op l r known.number true) (some (.app op a b))
  | entry {op : Operator} {l r n : ValueNumber} {a b : Term} (hl : means l a) (hr : means r b)
      (hmiss : s.table.lookup (.normal op l r) = none) (hn : means n (.app op a b))
      (htable : s'.table = (.normal op l r, ⟨n, i⟩) :: s.table) (hsources : s'.sources = s.sources) :
      Filed s s' i means (.binary op l r n false) (some (.app op a b))

/-- What looking up files, in a state with the old table and the old sources. -/
theorem filed_lookup {means : ValueNumber → Term → Prop} {s₂ s₃ : State} {redundant : Bool}
    (hframe : s₂.table = s.table ∧ s₂.sources = s.sources)
    (hfound : s₂.lookup i (.normal op l r) = (n, redundant, s₃))
    (hframe' : s'.table = s₃.table ∧ s'.sources = s₃.sources) (hl : means l a) (hr : means r b)
    (hn : means n (.app op a b)) :
    Filed s s' i means (.binary op l r n redundant) (some (.app op a b)) := by
  rcases lookup_cases s₂ i (.normal op l r) with ⟨known, hknown, hcase⟩ | ⟨hmiss, hcase⟩ <;>
    cases hfound.symm.trans hcase
  · dsimp only at hframe'
    rw [hframe.1, hframe.2] at hframe'
    rw [hframe.1] at hknown
    exact .source hl hr hknown hn hframe'.1 hframe'.2
  · dsimp only at hframe'
    rw [hframe.1, hframe.2] at hframe'
    rw [hframe.1] at hmiss
    exact .entry hl hr hmiss hn hframe'.1 hframe'.2

/-! ## The relation -/

/-- Old numbers keep their meaning. -/
def Keeps (s s' : State) (meaning meaning' : ValueNumber → Term) : Prop :=
  ∀ {m u}, Means s.next meaning m u → Means s'.next meaning' m u

/-- **Numbers mirror terms**, where `past` are the terms computed so far. -/
structure Mirrors (f : Func) (t : Valuation) (past : List Term) (s : State)
    (meaning : ValueNumber → Term) : Prop where
  values : s.numbers.size = f.values.size
  insts : s.sources.size = f.insts.size
  denotes : Denotes s.table s.next (fun v => t v ≠ none) meaning
  assigned : ∀ v, Option.Rel (Means s.next meaning) (s.numberAt v) (t v)
  /-- The table has the computations of the past and no others. -/
  recorded : ∀ u, (∃ known e, s.table.lookup e = some known ∧ Means s.next meaning known.number u) ↔
    ∃ σ ∈ past, u.Same σ

namespace Mirrors

/-- At the start nothing has a number, and nothing has a term. -/
theorem start (f : Func) : Mirrors f .blank [] (.start f) (fun _ => .unresolved) where
  values := Array.size_replicate
  insts := Array.size_replicate
  denotes := Denotes.start.mono fun _ h => h.elim
  assigned := by
    intro v
    rw [numberAt_start]
    exact .none
  recorded := by
    intro u
    constructor
    · rintro ⟨known, e, h, -⟩
      nomatch h
    · rintro ⟨σ, h, -⟩
      nomatch h

/-- A value with a number has a term, and the number means it. -/
theorem exists_term (h : Mirrors f t past s meaning) (hn : s.numberAt v = some n) :
    ∃ u, t v = some u ∧ Means s.next meaning n u := by
  have hrel := h.assigned v
  rw [hn] at hrel
  generalize t v = term at hrel ⊢
  cases hrel with
  | some hmeans => exact ⟨_, rfl, hmeans⟩

theorem term_eq_none (h : Mirrors f t past s meaning) (hn : s.numberAt v = none) : t v = none := by
  have hrel := h.assigned v
  rw [hn] at hrel
  generalize t v = term at hrel ⊢
  cases hrel with
  | none => rfl

/-- A fresh number takes nothing from the meanings of the numbers in use. -/
theorem assigned_update (h : Mirrors f t past s meaning) (hroom : s.next.toNat + 1 < UInt32.size)
    (v : ValueId) :
    Option.Rel (Means (s.next + 1) (Function.update meaning s.next u)) (s.numberAt v) (t v) := by
  cases hn : s.numberAt v with
  | none =>
    rw [h.term_eq_none hn]
    exact .none
  | some n =>
    obtain ⟨a, ha, hmeans⟩ := h.exists_term hn
    rw [ha]
    exact .some (hmeans.update hroom)

/-- Assigning a number and the term it means. -/
theorem assign (h : Mirrors f t past s meaning) (hn : Means s.next meaning n u)
    (hs' : s.assign? v n = some s') : Mirrors f (t.assign v u) past s' meaning := by
  obtain ⟨hv, rfl⟩ := assign?_eq_some.mp hs'
  refine ⟨?_, h.insts, h.denotes.mono ?_, ?_, h.recorded⟩
  · show (s.numbers.setIfInBounds v.index (some n)).size = f.values.size
    rw [Array.size_setIfInBounds]
    exact h.values
  · intro w hw
    unfold Valuation.assign
    split
    · exact Option.some_ne_none u
    · exact hw
  · intro w
    rw [numberAt_set hv rfl w]
    unfold Valuation.assign
    split
    · exact .some hn
    · exact h.assigned w

/-- **Drawing a number for a leaf** mirrors letting it stand for itself. -/
theorem draw (h : Mirrors f t past s meaning) (hroom : s.next.toNat + 1 < UInt32.size)
    (hv : v.index < s.numbers.size) (hnone : t v = none) :
    Mirrors f (t.assign v (.leaf v)) past
      { s with
        numbers := s.numbers.setIfInBounds v.index (some s.next)
        next := s.next + 1 }
      (Function.update meaning s.next (.leaf v)) := by
  refine ⟨?_, h.insts, ?_, fun w => ?_, fun u => ?_⟩
  · show (s.numbers.setIfInBounds v.index (some s.next)).size = f.values.size
    rw [Array.size_setIfInBounds]
    exact h.values
  · refine (h.denotes.draw_leaf hroom (v := v) (fun hheld => hheld hnone)).mono fun w hw => ?_
    unfold Valuation.assign
    split
    · exact Option.some_ne_none _
    · next hne => exact hw.resolve_right hne
  · rw [numberAt_set hv rfl w]
    unfold Valuation.assign
    split
    · exact .some (means_update hroom (.refl _))
    · exact h.assigned_update hroom w
  · -- the table is the old one, and its numbers are older than the one drawn
    rw [← h.recorded u]
    refine exists_congr fun known => exists_congr fun e => and_congr_right fun hfound => ?_
    exact means_update_iff hroom (h.denotes.entry hfound).1

/-- **Asking for a value** mirrors asking for its term, and old numbers keep their meaning. -/
theorem query (h : Mirrors f t past s meaning) (hv : s.numberOf f v = (n, s'))
    (hroom : s.next.toNat + s.drawn s' < UInt32.size) :
    ∃ meaning', Mirrors f (t.query f v).2 past s' meaning' ∧
      Means s'.next meaning' n (t.query f v).1 ∧ Keeps s s' meaning meaning' := by
  unfold Valuation.query
  rcases numberOf_cases h.values v
    with ⟨m, hm, hcase⟩ | ⟨hm, hleaf, hlt, hcase⟩ | ⟨hm, hleaf, hcase⟩ <;>
    cases hv.symm.trans hcase
  · obtain ⟨u, ht, hmeans⟩ := h.exists_term hm
    rw [ht]
    exact ⟨meaning, h, hmeans, fun hm => hm⟩
  · have ht := h.term_eq_none hm
    rw [drawn_eq_one rfl] at hroom
    simp only [ht, hleaf, if_true]
    exact ⟨_, h.draw hroom hlt ht, means_update hroom (.refl _), fun hm => hm.update hroom⟩
  · have ht := h.term_eq_none hm
    simp only [ht, hleaf, Bool.false_eq_true, if_false]
    exact ⟨meaning, h, h.denotes.means_zero, fun hm => hm⟩

/-- An expression that is found adds nothing to the past but a repetition. -/
theorem found (h : Mirrors f t past s meaning) (hu : ∃ σ ∈ past, u.Same σ)
    (source : InstId) (i : InstId) :
    Mirrors f t (past ++ [u])
      { s with sources := s.sources.setIfInBounds i.index (some source) } meaning := by
  refine ⟨h.values, ?_, h.denotes, h.assigned, fun a => (h.recorded a).trans ⟨?_, ?_⟩⟩
  · show (s.sources.setIfInBounds i.index (some source)).size = f.insts.size
    rw [Array.size_setIfInBounds]
    exact h.insts
  · rintro ⟨σ, hσ, hsame⟩
    exact ⟨σ, List.mem_append_left _ hσ, hsame⟩
  · rintro ⟨σ, hσ, hsame⟩
    rcases List.mem_append.mp hσ with hσ | hσ
    · exact ⟨σ, hσ, hsame⟩
    · obtain rfl := List.mem_singleton.mp hσ
      obtain ⟨τ, hτ, hrepeat⟩ := hu
      exact ⟨τ, hτ, hsame.trans hrepeat⟩

/-- An expression that is entered adds its term to the past. -/
theorem entered (h : Mirrors f t past s meaning) (hroom : s.next.toNat + 1 < UInt32.size)
    (hl : Means s.next meaning l a) (hr : Means s.next meaning r b)
    (hmiss : s.table.lookup (.normal op l r) = none) (i : InstId) :
    Mirrors f t (past ++ [.app op a b])
      { s with table := (.normal op l r, ⟨s.next, i⟩) :: s.table, next := s.next + 1 }
      (Function.update meaning s.next ((Expression.normal op l r).term meaning)) := by
  have hnew := Denotes.means_entered op hroom hl hr
  refine ⟨h.values, h.insts, h.denotes.draw_expression hroom hl.lt hr.lt hmiss i,
    h.assigned_update hroom, fun u => ⟨?_, ?_⟩⟩
  · -- what the table has now was there before or is the new entry
    rintro ⟨known, e, hfound, hmeans⟩
    rw [List.lookup_cons] at hfound
    split at hfound
    · obtain rfl := Option.some.inj hfound
      exact ⟨_, List.mem_append_right _ (List.mem_singleton_self _), hmeans.same.symm.trans hnew.same⟩
    · rw [means_update_iff hroom (h.denotes.entry hfound).1] at hmeans
      obtain ⟨σ, hσ, hsame⟩ := (h.recorded u).mp ⟨known, e, hfound, hmeans⟩
      exact ⟨σ, List.mem_append_left _ hσ, hsame⟩
  · rintro ⟨σ, hσ, hsame⟩
    rcases List.mem_append.mp hσ with hσ | hσ
    · obtain ⟨known, e, hfound, hmeans⟩ := (h.recorded u).mpr ⟨σ, hσ, hsame⟩
      exact ⟨known, e, lookup_enter hmiss hfound, hmeans.update hroom⟩
    · obtain rfl := List.mem_singleton.mp hσ
      exact ⟨_, _, List.lookup_cons_self, hnew.lt, hnew.same.trans hsame.symm⟩

/-- **Looking an expression up** mirrors computing its term: it is found exactly if the term was
computed before, up to exchanged operands. -/
theorem lookup (h : Mirrors f t past s meaning) (hl : Means s.next meaning l a)
    (hr : Means s.next meaning r b) {redundant : Bool}
    (hfound : s.lookup i (.normal op l r) = (n, redundant, s'))
    (hroom : s.next.toNat + s.drawn s' < UInt32.size) :
    ∃ meaning', Mirrors f t (past ++ [.app op a b]) s' meaning' ∧
      Means s'.next meaning' n (.app op a b) ∧ Keeps s s' meaning meaning' ∧
      (redundant = true ↔ ∃ σ ∈ past, (Term.app op a b).Same σ) := by
  rcases lookup_cases s i (.normal op l r) with ⟨known, hknown, hcase⟩ | ⟨hmiss, hcase⟩ <;>
    cases hfound.symm.trans hcase
  · have hmeans := h.denotes.means_of_lookup hl hr hknown
    have hpast := (h.recorded _).mp ⟨known, _, hknown, hmeans⟩
    exact ⟨meaning, h.found hpast known.source i, hmeans, fun hm => hm, fun _ => hpast, fun _ => rfl⟩
  · rw [drawn_eq_one rfl] at hroom
    refine ⟨_, h.entered hroom hl hr hmiss i, Denotes.means_entered op hroom hl hr,
      fun hm => hm.update hroom, ?_, ?_⟩
    · intro hfalse
      nomatch hfalse
    · intro hpast
      obtain ⟨known, e, -, hmeans⟩ := (h.recorded _).mpr hpast
      exact absurd hmeans (h.denotes.not_means_app hl hr hmiss known.number)

/-! ### Instructions -/

/-- Giving a result, if there is one, a number and the term it means. -/
theorem give (h : Mirrors f t past s meaning) (hn : Means s.next meaning n u)
    {result : Option ValueId} (hs' : s.give? result n = some s') :
    Mirrors f (t.give result u) past s' meaning := by
  cases result with
  | none =>
    obtain rfl := Option.some.inj hs'
    exact h
  | some r => exact h.assign hn hs'

/-- **A store** asks for the number of the value and gives it to the pointer. -/
theorem store (h : Mirrors f t past s meaning) {value ptr : ValueId} {o : Outcome}
    (hstep : s.store? f value ptr = some (o, s')) (hroom : s.next.toNat + s.drawn s' < UInt32.size) :
    (∃ meaning', Mirrors f ((t.query f value).2.assign ptr (t.query f value).1) past s' meaning' ∧
      Keeps s s' meaning meaning') ∧ s'.table = s.table ∧ s'.sources = s.sources := by
  obtain ⟨n, s₁, hvalue, -, hgive⟩ := store?_cases hstep
  obtain ⟨hnext, htable, hsources⟩ := give?_frame hgive
  obtain ⟨htable₁, hsources₁⟩ := numberOf_frame h.values hvalue
  rw [drawn_congr hnext] at hroom
  obtain ⟨meaning', hmirrors, hmeans, hkeeps⟩ := h.query hvalue hroom
  refine ⟨⟨meaning', hmirrors.give hmeans hgive, ?_⟩, htable.trans htable₁, hsources.trans hsources₁⟩
  unfold Keeps
  rw [hnext]
  exact hkeeps

/-- **A load** passes on the number of the pointer, and the term with it. -/
theorem load (h : Mirrors f t past s meaning) {ptr : ValueId} {result : Option ValueId} {o : Outcome}
    (hstep : s.load? ptr result = some (o, s')) :
    Mirrors f (match t ptr with
      | some term => t.give result term
      | none => t) past s' meaning ∧
      s'.next = s.next ∧ s'.table = s.table ∧ s'.sources = s.sources := by
  rcases load?_eq_some hstep with ⟨hnone, rfl⟩ | ⟨n, hn, hgive⟩
  · rw [h.term_eq_none hnone]
    exact ⟨h, rfl, rfl, rfl⟩
  · obtain ⟨u, ht, hmeans⟩ := h.exists_term hn
    rw [ht]
    exact ⟨h.give hmeans hgive, give?_frame hgive⟩

/-- **A binary operator** mirrors a symbolic application, which it files, and is marked exactly if
its term was computed before. -/
theorem binary (h : Mirrors f t past s meaning) {lhs rhs : ValueId} {result : Option ValueId}
    {o : Outcome} (hi : i.index < f.insts.size)
    (hstep : s.binary? f i op lhs rhs result = some (o, s'))
    (hroom : s.next.toNat + s.drawn s' < UInt32.size) :
    (∃ meaning', Mirrors f ((t.apply f op lhs rhs).2.give result (t.apply f op lhs rhs).1)
        (past ++ [(t.apply f op lhs rhs).1]) s' meaning' ∧ Keeps s s' meaning meaning' ∧
      Filed s s' i (Means s'.next meaning') o (some (t.apply f op lhs rhs).1)) ∧
    ∀ j, s'.isRedundant j = true ↔ s.isRedundant j = true ∨
      j = i ∧ ∃ σ ∈ past, (t.apply f op lhs rhs).1.Same σ := by
  -- the states after the left operand, the right operand and the expression
  obtain ⟨l, s₁, r, s₂, n, redundant, s₃, hleft, hright, hfound, rfl, hgive⟩ := binary?_cases hstep
  obtain ⟨hnext, hframe'⟩ := give?_frame hgive
  rw [drawn_congr hnext] at hroom
  obtain ⟨hroom₁, hroom₂, hroom₃⟩ := room_of_binary h.values hleft hright hfound hroom
  obtain ⟨meaning₁, h₁, hl, hkeeps₁⟩ := h.query hleft hroom₁
  obtain ⟨meaning₂, h₂, hr, hkeeps₂⟩ := h₁.query hright hroom₂
  obtain ⟨meaning₃, h₃, hn, hkeeps₃, hknown⟩ := h₂.lookup (hkeeps₂ hl) hr hfound hroom₃
  have hframe : s₂.table = s.table ∧ s₂.sources = s.sources := by
    obtain ⟨htable₁, hsources₁⟩ := numberOf_frame h.values hleft
    obtain ⟨htable₂, hsources₂⟩ := numberOf_frame h₁.values hright
    exact ⟨htable₂.trans htable₁, hsources₂.trans hsources₁⟩
  refine ⟨⟨meaning₃, h₃.give hn hgive, ?_, ?_⟩, fun j => ?_⟩
  · unfold Keeps
    rw [hnext]
    exact fun hm => hkeeps₃ (hkeeps₂ (hkeeps₁ hm))
  · rw [hnext]
    exact filed_lookup hframe hfound hframe' (hkeeps₃ (hkeeps₂ hl)) (hkeeps₃ hr) hn
  · have hmark := isRedundant_lookup hfound (by rw [h₂.insts]; exact hi) j
    rw [isRedundant_congr hframe'.2 j, hmark, isRedundant_congr hframe.2 j]
    exact or_congr_right (and_congr_right fun _ => hknown)

/-- **One instruction** mirrors one symbolic step. -/
theorem number (h : Mirrors f t past s meaning) {inst : Instruction} {o : Outcome}
    (hi : i.index < f.insts.size) (hstep : s.number? f i inst = some (o, s'))
    (hroom : s.next.toNat + s.drawn s' < UInt32.size) :
    (∃ meaning', Mirrors f (t.step f inst) (past ++ (t.computes? f inst).toList) s' meaning' ∧
      Keeps s s' meaning meaning' ∧ Filed s s' i (Means s'.next meaning') o (t.computes? f inst)) ∧
    ∀ j, s'.isRedundant j = true ↔ s.isRedundant j = true ∨
      j = i ∧ ∃ u, t.computes? f inst = some u ∧ ∃ σ ∈ past, u.Same σ := by
  obtain ⟨action, result⟩ := inst
  -- an instruction that computes nothing adds nothing to the past, files nothing and marks nothing
  have hquiet : ∀ {t' : Valuation}, t.computes? f ⟨action, result⟩ = none →
      (∃ meaning', Mirrors f t' past s' meaning' ∧ Keeps s s' meaning meaning') →
      s'.table = s.table → s'.sources = s.sources →
      (∃ meaning', Mirrors f t' (past ++ (t.computes? f ⟨action, result⟩).toList) s' meaning' ∧
        Keeps s s' meaning meaning' ∧
        Filed s s' i (Means s'.next meaning') o (t.computes? f ⟨action, result⟩)) ∧
      ∀ j, s'.isRedundant j = true ↔ s.isRedundant j = true ∨
        j = i ∧ ∃ u, t.computes? f ⟨action, result⟩ = some u ∧ ∃ σ ∈ past, u.Same σ := by
    rintro t' hnone ⟨meaning', hmirrors, hkeeps⟩ htable hsources
    rw [hnone, Option.toList_none, List.append_nil]
    refine ⟨⟨meaning', hmirrors, hkeeps, .nothing htable hsources⟩, fun j => ?_⟩
    rw [isRedundant_congr hsources j]
    refine ⟨Or.inl, fun hj => hj.resolve_right ?_⟩
    rintro ⟨-, u, hu, -⟩
    nomatch hu
  cases action with
  | store value ptr =>
    obtain ⟨hmirrors, htable, hsources⟩ := h.store hstep hroom
    exact hquiet rfl hmirrors htable hsources
  | load ptr =>
    obtain ⟨hmirrors, hnext, htable, hsources⟩ := h.load hstep
    refine hquiet rfl ⟨meaning, hmirrors, ?_⟩ htable hsources
    unfold Keeps
    rw [hnext]
    exact fun hm => hm
  | other opcode operands =>
    cases hstep
    exact hquiet rfl ⟨meaning, h, fun hm => hm⟩ rfl rfl
  | binary op lhs rhs =>
    obtain ⟨hmirrors, hmark⟩ := h.binary hi hstep hroom
    refine ⟨hmirrors, fun j => (hmark j).trans (or_congr_right (and_congr_right fun _ => ?_))⟩
    constructor
    · intro hpast
      exact ⟨_, rfl, hpast⟩
    · rintro ⟨u, hu, hpast⟩
      obtain rfl := Option.some.inj hu
      exact hpast

end Mirrors

/-! ## No instruction of a sound function stops the walk -/

theorem exists_assign (hv : v.index < s.numbers.size) (n : ValueNumber) :
    ∃ s', s.assign? v n = some s' :=
  ⟨_, assign?_eq_some.mpr ⟨hv, rfl⟩⟩

theorem lookup_numbers {e : Expression} {redundant : Bool} (h : s.lookup i e = (n, redundant, s')) :
    s'.numbers = s.numbers := by
  rcases lookup_cases s i e with ⟨known, -, hcase⟩ | ⟨-, hcase⟩ <;> cases h.symm.trans hcase
  · rfl
  · rfl

theorem give?_size {result : Option ValueId} (h : s.give? result n = some s') :
    s'.numbers.size = s.numbers.size := by
  cases result with
  | none => rw [Option.some.inj h]
  | some v =>
    obtain ⟨-, rfl⟩ := assign?_eq_some.mp h
    exact Array.size_setIfInBounds

/-- **Numbering an instruction keeps the table of numbers as long as the table of values.** -/
theorem number?_size (hsize : s.numbers.size = f.values.size) {inst : Instruction} {o : Outcome}
    (h : s.number? f i inst = some (o, s')) : s'.numbers.size = f.values.size := by
  obtain ⟨action, result⟩ := inst
  cases action with
  | store value ptr =>
    obtain ⟨n, s₁, hvalue, -, hgive⟩ := store?_cases h
    rw [give?_size hgive, numberOf_size hsize hvalue]
  | load ptr =>
    rcases load?_eq_some h with ⟨-, rfl⟩ | ⟨n, -, hgive⟩
    · exact hsize
    · rw [give?_size hgive, hsize]
  | other opcode operands =>
    cases h
    exact hsize
  | binary op lhs rhs =>
    obtain ⟨l, s₁, r, s₂, n, redundant, s₃, hleft, hright, hfound, -, hgive⟩ := binary?_cases h
    rw [give?_size hgive, lookup_numbers hfound]
    exact numberOf_size (numberOf_size hsize hleft) hright

/-- **A sound instruction can be numbered**: all it mentions has a place in the table. -/
theorem exists_number (hsize : s.numbers.size = f.values.size) {inst : Instruction}
    (hmentions : ∀ v ∈ inst.mentions, v.index < f.values.size) (i : InstId) :
    ∃ o s', s.number? f i inst = some (o, s') := by
  obtain ⟨action, result⟩ := inst
  have hresult : ∀ r, result = some r → r.index < f.values.size := by
    rintro r rfl
    exact hmentions r (List.mem_append_right _ (List.mem_singleton_self r))
  cases action with
  | store value ptr =>
    obtain ⟨n, s₁, hvalue⟩ : ∃ n s₁, s.numberOf f value = (n, s₁) := ⟨_, _, rfl⟩
    have hptr : ptr.index < s₁.numbers.size := by
      rw [numberOf_size hsize hvalue]
      exact hmentions ptr (by simp [Instruction.mentions, Action.operands])
    obtain ⟨s₂, hassign⟩ := exists_assign hptr n
    refine ⟨.store n, s₂, ?_⟩
    show s.store? f value ptr = _
    simp only [store?, hvalue, hassign]
    rfl
  | load ptr =>
    have hptr : ptr.index < s.numbers.size := by
      rw [hsize]
      exact hmentions ptr (by simp [Instruction.mentions, Action.operands])
    show ∃ o s', s.load? ptr result = some (o, s')
    unfold load?
    rw [Array.getElem?_eq_getElem hptr]
    cases s.numbers[ptr.index] with
    | none => exact ⟨_, _, rfl⟩
    | some n =>
      cases result with
      | none => exact ⟨_, _, rfl⟩
      | some r =>
        obtain ⟨s₁, hassign⟩ := exists_assign (hsize ▸ hresult r rfl : r.index < s.numbers.size) n
        exact ⟨.load n, s₁, by dsimp only; rw [hassign]; rfl⟩
  | other opcode operands => exact ⟨.other, s, rfl⟩
  | binary op lhs rhs =>
    obtain ⟨l, s₁, hleft⟩ : ∃ l s₁, s.numberOf f lhs = (l, s₁) := ⟨_, _, rfl⟩
    obtain ⟨r, s₂, hright⟩ : ∃ r s₂, s₁.numberOf f rhs = (r, s₂) := ⟨_, _, rfl⟩
    obtain ⟨n, redundant, s₃, hfound⟩ : ∃ n redundant s₃,
        s₂.lookup i (.normal op l r) = (n, redundant, s₃) := ⟨_, _, _, rfl⟩
    have hsize₃ : s₃.numbers.size = f.values.size := by
      rw [lookup_numbers hfound]
      exact numberOf_size (numberOf_size hsize hleft) hright
    show ∃ o s', s.binary? f i op lhs rhs result = some (o, s')
    simp only [binary?, hleft, hright, hfound]
    cases result with
    | none => exact ⟨_, _, rfl⟩
    | some v =>
      obtain ⟨s₄, hassign⟩ := exists_assign (hsize₃ ▸ hresult v rfl : v.index < s₃.numbers.size) n
      exact ⟨.binary op l r n redundant, s₄, by simp only [hassign]; rfl⟩

end State

end Numbering

end Dataflow
