import Dataflow.Proofs.NumberedRuns
import Mathlib.Logic.Equiv.Basic

/-!
# Exchanging operands does not change what is redundant

Exchanging the operands of a commutative operator changes the order in which values are asked for,
so constants and parameters draw other numbers, and with them all expressions that are built on top.
The two runs still go through the same states up to the names of the numbers.

1. **One state under other numbers** (`Renamed`): a permutation of the numbers, which leaves zero
   and the numbers not yet handed out in place, takes the numbers of the values and the table of one
   state to those of the other.  The order of operands in the table is no obstacle: normal forms are
   equal exactly if the operands are, in one order or the other (`Expression.normal_eq_iff`), and a
   permutation keeps that.

2. **Numbering does not look at the names of numbers** (`Renamed.number`): an instruction takes
   renamed states to renamed states, under the same permutation.

3. **Two questions may be asked in either order** (`Mirrors.exchange_queries`): if both draw a
   number, the two numbers are exchanged, and this is the only way in which a permutation grows.

By (2) and (3) exchanging operands anywhere leaves a renamed state (`Renamed.step`).
-/

namespace Dataflow

/-! ## Exchanging operands -/

/-- The action with its operands exchanged, if it is an operator that commutes. -/
def Action.exchange : Action → Action
  | .binary op lhs rhs => if op.isCommutative then .binary op rhs lhs else .binary op lhs rhs
  | action => action

/-- **The function with operands exchanged** in the chosen instructions, wherever the operator
commutes. -/
def Func.exchange (f : Func) (chosen : InstId → Bool) : Func :=
  { f with insts := f.insts.mapIdx fun n inst =>
      if chosen ⟨n⟩ then { inst with action := inst.action.exchange } else inst }

/-- What may become of an instruction: it stays, or it is a commutative operator whose operands are
exchanged. -/
inductive Instruction.Exchanged : Instruction → Instruction → Prop where
  | same (inst : Instruction) : Exchanged inst inst
  | swap (op : Operator) (hop : op.isCommutative = true) (lhs rhs : ValueId) (result : Option ValueId) :
      Exchanged ⟨.binary op lhs rhs, result⟩ ⟨.binary op rhs lhs, result⟩

namespace Instruction

theorem exchanged_exchange (inst : Instruction) :
    inst.Exchanged { inst with action := inst.action.exchange } := by
  obtain ⟨action, result⟩ := inst
  cases action with
  | store value ptr => exact .same _
  | load ptr => exact .same _
  | other opcode operands => exact .same _
  | binary op lhs rhs =>
    by_cases hop : op.isCommutative = true
    · simp only [Action.exchange, if_pos hop]
      exact .swap op hop lhs rhs result
    · simp only [Action.exchange, if_neg hop]
      exact .same _

theorem Exchanged.result_eq {inst inst' : Instruction} (h : inst.Exchanged inst') :
    inst'.result = inst.result := by
  cases h with
  | same => rfl
  | swap => rfl

/-- Exchanging operands brings in no other value. -/
theorem Exchanged.mem_mentions {inst inst' : Instruction} (h : inst.Exchanged inst') {v : ValueId}
    (hv : v ∈ inst'.mentions) : v ∈ inst.mentions := by
  cases h with
  | same => exact hv
  | swap op hop lhs rhs result =>
    simp only [mentions, Action.operands, List.mem_append, List.mem_cons, List.not_mem_nil,
      or_false] at hv ⊢
    exact hv.imp_left Or.symm

end Instruction

namespace Func

variable {f : Func}

theorem getElem?_exchange {i : InstId} {inst : Instruction} (h : f.insts[i.index]? = some inst)
    (chosen : InstId → Bool) :
    ∃ inst', (f.exchange chosen).insts[i.index]? = some inst' ∧ inst.Exchanged inst' := by
  unfold exchange
  rw [Array.getElem?_mapIdx, h]
  refine ⟨_, rfl, ?_⟩
  split
  · exact inst.exchanged_exchange
  · exact .same inst

/-- Exchanging operands keeps a function sound. -/
theorem Sound.exchange (hs : f.Sound) (chosen : InstId → Bool) : (f.exchange chosen).Sound where
  nonempty := hs.nonempty
  succs := hs.succs
  once := hs.once
  listed := by
    intro p hp
    obtain ⟨inst, hinst, hmentions, hresult⟩ := hs.listed p hp
    obtain ⟨inst', hinst', hexchanged⟩ := getElem?_exchange hinst chosen
    refine ⟨inst', hinst', fun v hv => hmentions v (hexchanged.mem_mentions hv), fun v hv => ?_⟩
    rw [hexchanged.result_eq] at hv
    exact hresult v hv

end Func

namespace Numbering

namespace State

variable {f : Func} {s s' s'' t : State} {ρ σ : Equiv.Perm ValueNumber} {v w : ValueId} {i : InstId}
  {n l r : ValueNumber} {op : Operator}

/-! ## Asking for a value, as an equation -/

/-- The state after drawing a number for a value. -/
def draw (s : State) (v : ValueId) : State :=
  { s with numbers := s.numbers.setIfInBounds v.index (some s.next), next := s.next + 1 }

/-- Asking for the value draws a number: it is a constant or parameter that has none. -/
def Draws (f : Func) (s : State) (v : ValueId) : Prop := s.numberAt v = none ∧ f.isLeaf v = true

/-- **Asking for a value** either draws a number for it or leaves the state alone. -/
theorem numberOf_draws (hsize : s.numbers.size = f.values.size) (v : ValueId) :
    (Draws f s v ∧ v.index < s.numbers.size ∧ s.numberOf f v = (s.next, s.draw v)) ∨
    (¬ Draws f s v ∧ s.numberOf f v = ((s.numberAt v).getD 0, s)) := by
  rcases numberOf_cases hsize v with ⟨n, hn, hcase⟩ | ⟨hnone, hleaf, hlt, hcase⟩ | ⟨hnone, hleaf, hcase⟩
  · refine Or.inr ⟨fun hdraws => ?_, by rw [hn, hcase]; rfl⟩
    rw [hdraws.1] at hn
    nomatch hn
  · exact Or.inl ⟨⟨hnone, hleaf⟩, hlt, hcase⟩
  · refine Or.inr ⟨fun hdraws => ?_, by rw [hnone, hcase]; rfl⟩
    rw [hdraws.2] at hleaf
    nomatch hleaf

theorem numberOf_of_draws (hsize : s.numbers.size = f.values.size) (h : Draws f s v) :
    s.numberOf f v = (s.next, s.draw v) := by
  rcases numberOf_draws hsize v with ⟨-, -, hcase⟩ | ⟨hnot, -⟩
  · exact hcase
  · exact absurd h hnot

/-- Asking for a number that need not be drawn changes nothing. -/
theorem numberOf_of_not_draws (hsize : s.numbers.size = f.values.size) (h : ¬ Draws f s v) :
    s.numberOf f v = ((s.numberAt v).getD 0, s) := by
  rcases numberOf_draws hsize v with ⟨hdraws, -⟩ | ⟨-, hcase⟩
  · exact absurd hdraws h
  · exact hcase

theorem Draws.lt_size (hsize : s.numbers.size = f.values.size) (h : Draws f s v) :
    v.index < s.numbers.size := by
  rcases numberOf_draws hsize v with ⟨-, hlt, -⟩ | ⟨hnot, -⟩
  · exact hlt
  · exact absurd h hnot

theorem numberAt_draw (hv : v.index < s.numbers.size) (w : ValueId) :
    (s.draw v).numberAt w = if w = v then some s.next else s.numberAt w :=
  numberAt_set hv rfl w

theorem size_draw (s : State) (v : ValueId) : (s.draw v).numbers.size = s.numbers.size :=
  Array.size_setIfInBounds

/-- A value that draws nothing has the same answer after another question. -/
theorem numberOf_after (hsize : s.numbers.size = f.values.size) (hv : ¬ Draws f s v)
    (hw : s.numberOf f w = (n, s')) : s'.numberOf f v = ((s.numberAt v).getD 0, s') := by
  have hsize' := numberOf_size hsize hw
  rcases numberOf_draws hsize w with ⟨hdraws, hlt, hcase⟩ | ⟨-, hcase⟩ <;> cases hw.symm.trans hcase
  · have hat : (s.draw w).numberAt v = s.numberAt v := by
      rw [numberAt_draw hlt, if_neg]
      rintro rfl
      exact hv hdraws
    rw [numberOf_of_not_draws hsize', hat]
    unfold Draws
    rw [hat]
    exact hv
  · exact numberOf_of_not_draws hsize hv

/-- Asked for again, a value has the number that was drawn for it. -/
theorem numberOf_draw (hsize : s.numbers.size = f.values.size) (hv : Draws f s v) :
    (s.draw v).numberOf f v = (s.next, s.draw v) := by
  have hat : (s.draw v).numberAt v = some s.next := by
    rw [numberAt_draw (hv.lt_size hsize), if_pos rfl]
  rw [numberOf_of_not_draws ((s.size_draw v).trans hsize), hat, Option.getD_some]
  rintro ⟨hnone, -⟩
  rw [hat] at hnone
  nomatch hnone

/-- A value that draws a number still does so after another one has. -/
theorem numberOf_draw_other (hsize : s.numbers.size = f.values.size) (hv : Draws f s v)
    (hw : Draws f s w) (hne : v ≠ w) :
    (s.draw v).numberOf f w = (s.next + 1, (s.draw v).draw w) := by
  refine numberOf_of_draws ((s.size_draw v).trans hsize) ⟨?_, hw.2⟩
  rw [numberAt_draw (hv.lt_size hsize), if_neg (Ne.symm hne)]
  exact hw.1

/-! ## One state under other numbers -/

/-- **`s'` is `s` under other numbers.** -/
structure Renamed (ρ : Equiv.Perm ValueNumber) (s s' : State) : Prop where
  zero : ρ 0 = 0
  /-- Numbers that are not handed out yet keep their names. -/
  fresh : ∀ n, s.next ≤ n → ρ n = n
  next : s'.next = s.next
  sources : s'.sources = s.sources
  numbers : s'.numbers = s.numbers.map (Option.map ρ)
  table : ∀ op l r, s'.table.lookup (.normal op (ρ l) (ρ r))
    = (s.table.lookup (.normal op l r)).map fun known => { known with number := ρ known.number }

namespace Renamed

theorem refl (s : State) : Renamed (Equiv.refl _) s s where
  zero := rfl
  fresh _ _ := rfl
  next := rfl
  sources := rfl
  numbers := by
    rw [Equiv.coe_refl, Option.map_id, Array.map_id]
  table _ _ _ := Option.map_id'.symm

/-- Renamings compose. -/
theorem trans (h : Renamed ρ s s') (h' : Renamed σ s' s'') : Renamed (ρ.trans σ) s s'' where
  zero := by
    rw [Equiv.trans_apply, h.zero, h'.zero]
  fresh n hn := by
    rw [Equiv.trans_apply, h.fresh n hn, h'.fresh n (h.next ▸ hn)]
  next := h'.next.trans h.next
  sources := h'.sources.trans h.sources
  numbers := by
    rw [h'.numbers, h.numbers, Array.map_map]
    congr 1
    funext o
    exact Option.map_map ..
  table op l r := by
    rw [Equiv.trans_apply, Equiv.trans_apply, h'.table, h.table, Option.map_map]
    rfl

theorem numberAt (h : Renamed ρ s s') (v : ValueId) : s'.numberAt v = (s.numberAt v).map ρ := by
  unfold State.numberAt
  rw [h.numbers, Array.getElem?_map]
  cases s.numbers[v.index]? with
  | none => rfl
  | some o => rfl

/-- Renamed states draw for the same values. -/
theorem draws_iff (h : Renamed ρ s s') : Draws f s' v ↔ Draws f s v := by
  unfold Draws
  rw [h.numberAt v, Option.map_eq_none_iff]

theorem size (h : Renamed ρ s s') : s'.numbers.size = s.numbers.size := by
  rw [h.numbers, Array.size_map]

/-- The next number has the same name on both sides. -/
theorem apply_next (h : Renamed ρ s s') : ρ s.next = s'.next := by
  rw [h.fresh _ UInt32.le_rfl, h.next]

/-- What is not handed out after a number is drawn was not handed out before. -/
theorem fresh_succ (h : Renamed ρ s s') (hroom : s.next.toNat + 1 < UInt32.size) (n : ValueNumber)
    (hn : s.next + 1 ≤ n) : ρ n = n := by
  refine h.fresh n ?_
  rw [UInt32.le_iff_toNat_le] at hn ⊢
  rw [toNat_next hroom] at hn
  omega

/-! ### Numbering does not look at the names of numbers -/

/-- Both states draw the same number, since those not handed out yet keep their names. -/
theorem draw (h : Renamed ρ s s') (hroom : s.next.toNat + 1 < UInt32.size) (v : ValueId) :
    Renamed ρ (s.draw v) (s'.draw v) where
  zero := h.zero
  fresh := h.fresh_succ hroom
  next := congrArg (· + 1) h.next
  sources := h.sources
  numbers := by
    show s'.numbers.setIfInBounds _ _ = Array.map _ (s.numbers.setIfInBounds _ _)
    rw [Array.map_setIfInBounds, ← h.numbers, Option.map_some, h.apply_next]
  table := h.table

/-- **Asking for a value** answers the same number under its other name. -/
theorem query (h : Renamed ρ s s') (hsize : s.numbers.size = f.values.size)
    (hv : s.numberOf f v = (n, t)) (hroom : s.next.toNat + s.drawn t < UInt32.size) :
    ∃ t', s'.numberOf f v = (ρ n, t') ∧ Renamed ρ t t' := by
  rcases numberOf_draws hsize v with ⟨hdraws, -, hcase⟩ | ⟨hquiet, hcase⟩ <;> cases hv.symm.trans hcase
  · rw [drawn_eq_one rfl] at hroom
    refine ⟨s'.draw v, ?_, h.draw hroom v⟩
    rw [numberOf_of_draws (h.size.trans hsize) (h.draws_iff.mpr hdraws), h.apply_next]
  · refine ⟨s', ?_, h⟩
    rw [numberOf_of_not_draws (h.size.trans hsize) fun hd => hquiet (h.draws_iff.mp hd), h.numberAt v]
    cases s.numberAt v with
    | none => exact congrArg (·, s') h.zero.symm
    | some n => rfl

theorem give (h : Renamed ρ s s') {result : Option ValueId} (hgive : s.give? result n = some t) :
    ∃ t', s'.give? result (ρ n) = some t' ∧ Renamed ρ t t' := by
  cases result with
  | none =>
    obtain rfl := Option.some.inj hgive
    exact ⟨s', rfl, h⟩
  | some v =>
    obtain ⟨hv, rfl⟩ := assign?_eq_some.mp hgive
    refine ⟨_, assign?_eq_some.mpr ⟨by rw [h.size]; exact hv, rfl⟩, h.zero, h.fresh, h.next, h.sources,
      ?_, h.table⟩
    show s'.numbers.setIfInBounds _ _ = Array.map _ (s.numbers.setIfInBounds _ _)
    rw [Array.map_setIfInBounds, ← h.numbers, Option.map_some]

/-- **Looking an expression up** finds it on both sides or on neither. -/
theorem lookup (h : Renamed ρ s s') {redundant : Bool}
    (hfound : s.lookup i (.normal op l r) = (n, redundant, t))
    (hroom : s.next.toNat + s.drawn t < UInt32.size) :
    ∃ t', s'.lookup i (.normal op (ρ l) (ρ r)) = (ρ n, redundant, t') ∧ Renamed ρ t t' := by
  have htable := h.table op l r
  rcases lookup_cases s i (.normal op l r) with ⟨known, hknown, hcase⟩ | ⟨hmiss, hcase⟩ <;>
    cases hfound.symm.trans hcase
  · rw [hknown] at htable
    unfold State.lookup
    rw [htable]
    refine ⟨_, rfl, h.zero, h.fresh, h.next, ?_, h.numbers, h.table⟩
    show s'.sources.setIfInBounds _ _ = s.sources.setIfInBounds _ _
    rw [h.sources]
  · rw [drawn_eq_one rfl] at hroom
    rw [hmiss] at htable
    unfold State.lookup
    rw [htable]
    refine ⟨{ s' with
        table := (.normal op (ρ l) (ρ r), ⟨s'.next, i⟩) :: s'.table
        next := s'.next + 1 }, by rw [h.apply_next]; rfl, h.zero, h.fresh_succ hroom,
      congrArg (· + 1) h.next, h.sources, h.numbers, fun op' l' r' => ?_⟩
    -- the new entry answers for the same operands on both sides
    have hkey : Expression.normal op' (ρ l') (ρ r') = .normal op (ρ l) (ρ r) ↔
        Expression.normal op' l' r' = .normal op l r := by
      simp only [Expression.normal_eq_iff, ρ.injective.eq_iff]
    show List.lookup _ (_ :: s'.table) = Option.map _ (List.lookup _ (_ :: s.table))
    rw [List.lookup_cons, List.lookup_cons]
    by_cases heq : Expression.normal op' l' r' = .normal op l r
    · rw [beq_iff_eq.mpr heq, beq_iff_eq.mpr (hkey.mpr heq)]
      simp only [Option.map_some, h.apply_next]
    · rw [beq_false_of_ne heq, beq_false_of_ne fun h => heq (hkey.mp h)]
      exact h.table op' l' r'

end Renamed

/-- The parts of a binary operator put together. -/
theorem binary?_of_parts {lhs rhs : ValueId} {result : Option ValueId} {s₁ s₂ s₃ : State}
    {redundant : Bool} (hleft : s.numberOf f lhs = (l, s₁)) (hright : s₁.numberOf f rhs = (r, s₂))
    (hfound : s₂.lookup i (.normal op l r) = (n, redundant, s₃)) (hgive : s₃.give? result n = some s') :
    s.binary? f i op lhs rhs result = some (.binary op l r n redundant, s') := by
  simp only [binary?, hleft, hright, hfound]
  cases result with
  | none =>
    obtain rfl := Option.some.inj hgive
    rfl
  | some v =>
    change s₃.assign? v n = some s' at hgive
    simp only [hgive]
    rfl

/-- **A load** goes through in the renamed state too. -/
theorem Renamed.load (h : Renamed ρ s s') {ptr : ValueId} {result : Option ValueId} {o : Outcome}
    (hstep : s.load? ptr result = some (o, t)) :
    ∃ o' t', s'.load? ptr result = some (o', t') ∧ Renamed ρ t t' := by
  unfold load? at hstep ⊢
  rw [h.numbers, Array.getElem?_map]
  split at hstep
  · cases hstep
  · next hnone =>
    cases hstep
    rw [hnone]
    exact ⟨_, _, rfl, h⟩
  · next n hn =>
    cases hstep
    rw [hn]
    exact ⟨_, _, rfl, h⟩
  · next n v hn =>
    obtain ⟨s₁, hassign, hs₁⟩ := Option.map_eq_some_iff.mp hstep
    cases hs₁
    have hgive : s.give? (some v) n = some t := hassign
    obtain ⟨t', hgive', ht⟩ := h.give hgive
    change s'.assign? v (ρ n) = some t' at hgive'
    rw [hn]
    exact ⟨.load (ρ n), t', by simp only [Option.map_some, hgive'], ht⟩

/-- **An instruction** takes renamed states to renamed states. -/
theorem Renamed.number (h : Renamed ρ s s') (hsize : s.numbers.size = f.values.size)
    {inst : Instruction} {o : Outcome} (hstep : s.number? f i inst = some (o, t))
    (hroom : s.next.toNat + s.drawn t < UInt32.size) :
    ∃ o' t', s'.number? f i inst = some (o', t') ∧ Renamed ρ t t' := by
  obtain ⟨action, result⟩ := inst
  cases action with
  | store value ptr =>
    obtain ⟨n, s₁, hvalue, -, hgive⟩ := store?_cases hstep
    rw [drawn_congr (give?_frame hgive).1] at hroom
    obtain ⟨s₁', hvalue', h₁⟩ := h.query hsize hvalue hroom
    obtain ⟨t', hgive', ht⟩ := h₁.give hgive
    refine ⟨.store (ρ n), t', ?_, ht⟩
    change s₁'.assign? ptr (ρ n) = some t' at hgive'
    show s'.store? f value ptr = _
    simp only [store?, hvalue', hgive']
    rfl
  | load ptr => exact h.load hstep
  | other opcode operands =>
    cases hstep
    exact ⟨.other, s', rfl, h⟩
  | binary op lhs rhs =>
    obtain ⟨l, s₁, r, s₂, n, redundant, s₃, hleft, hright, hfound, -, hgive⟩ := binary?_cases hstep
    rw [drawn_congr (give?_frame hgive).1] at hroom
    obtain ⟨hroom₁, hroom₂, hroom₃⟩ := room_of_binary hsize hleft hright hfound hroom
    obtain ⟨s₁', hleft', h₁⟩ := h.query hsize hleft hroom₁
    obtain ⟨s₂', hright', h₂⟩ := h₁.query (numberOf_size hsize hleft) hright hroom₂
    obtain ⟨s₃', hfound', h₃⟩ := h₂.lookup hfound hroom₃
    obtain ⟨t', hgive', ht⟩ := h₃.give hgive
    exact ⟨_, t', binary?_of_parts hleft' hright' hfound' hgive', ht⟩

/-! ## Asking in either order -/

section

variable {terms : Valuation} {past : List Term} {meaning : ValueNumber → Term}

/-- A permutation that moves no number handed out does not show in the numbers of the values. -/
theorem Mirrors.numbers_of_fixes (h : Mirrors f terms past s meaning)
    (hfix : ∀ n, n < s.next → ρ n = n) :
    s.numbers.map (Option.map ρ) = s.numbers := by
  apply Array.ext_getElem?
  intro k
  rw [Array.getElem?_map]
  cases hk : s.numbers[k]? with
  | none => rfl
  | some o =>
    cases o with
    | none => rfl
    | some n =>
      obtain ⟨u, -, hmeans⟩ := h.exists_term (v := ⟨k⟩) (n := n) (by rw [State.numberAt, hk]; rfl)
      rw [Option.map_some, Option.map_some, hfix n hmeans.lt]

/-- Nor does it show in the table: the operands of an entry are numbers handed out. -/
theorem Mirrors.table_of_fixes (h : Mirrors f terms past s meaning) (hfix : ∀ n, n < s.next → ρ n = n)
    (op : Operator) (l r : ValueNumber) : s.table.lookup (.normal op (ρ l) (ρ r))
      = (s.table.lookup (.normal op l r)).map fun known => { known with number := ρ known.number } := by
  have hback : ∀ n, ρ n < s.next → ρ n = n := fun n hn => ρ.injective (hfix _ hn)
  have hops : ∀ {l r known}, s.table.lookup (.normal op l r) = some known →
      l < s.next ∧ r < s.next ∧ known.number < s.next := by
    intro l r known hfound
    obtain ⟨hnumber, hlhs, hrhs, -⟩ := h.denotes.entry hfound
    rcases Expression.normal_cases op l r with hcase | ⟨-, hcase⟩ <;> rw [hcase] at hlhs hrhs
    · exact ⟨hlhs, hrhs, hnumber⟩
    · exact ⟨hrhs, hlhs, hnumber⟩
  cases hfound : s.table.lookup (.normal op l r) with
  | some known =>
    obtain ⟨hl, hr, hnumber⟩ := hops hfound
    rw [hfix l hl, hfix r hr, hfound, Option.map_some, hfix _ hnumber]
  | none =>
    cases hfound' : s.table.lookup (.normal op (ρ l) (ρ r)) with
    | none => rfl
    | some known =>
      obtain ⟨hl, hr, -⟩ := hops hfound'
      rw [hback l hl, hback r hr, hfound] at hfound'
      cases hfound'

/-- Two numbers drawn in the other order are exchanged. -/
theorem Mirrors.renamed_draws (h : Mirrors f terms past s meaning)
    (hroom : s.next.toNat + 2 < UInt32.size) (hne : v ≠ w) :
    Renamed (Equiv.swap s.next (s.next + 1)) ((s.draw v).draw w) ((s.draw w).draw v) := by
  have hnext : (s.next + 1).toNat = s.next.toNat + 1 := toNat_next (by omega)
  have hnext' : (s.next + 1 + 1).toNat = s.next.toNat + 2 := by
    rw [toNat_next (by omega), hnext]
  have hpos := UInt32.lt_iff_toNat_lt.mp h.denotes.pos
  have hfix : ∀ n, n < s.next ∨ s.next + 1 + 1 ≤ n → Equiv.swap s.next (s.next + 1) n = n := by
    intro n hn
    rw [UInt32.lt_iff_toNat_lt, UInt32.le_iff_toNat_le, hnext'] at hn
    apply Equiv.swap_apply_of_ne_of_ne
    · rintro rfl
      omega
    · rintro rfl
      rw [hnext] at hn
      omega
  have hnumbers := h.numbers_of_fixes fun n hn => hfix n (Or.inl hn)
  have htable := h.table_of_fixes fun n hn => hfix n (Or.inl hn)
  have hindex : v.index ≠ w.index := fun heq => hne (congrArg ValueId.mk heq)
  refine ⟨hfix 0 (Or.inl h.denotes.pos), fun n hn => hfix n (Or.inr hn), rfl, rfl, ?_, htable⟩
  show (s.numbers.setIfInBounds w.index (some s.next)).setIfInBounds v.index (some (s.next + 1))
    = Array.map _ ((s.numbers.setIfInBounds v.index (some s.next)).setIfInBounds w.index
      (some (s.next + 1)))
  rw [Array.map_setIfInBounds, Array.map_setIfInBounds, hnumbers, Option.map_some, Option.map_some,
    Equiv.swap_apply_left, Equiv.swap_apply_right]
  exact Array.setIfInBounds_comm _ _ hindex.symm

/-- **Two values may be asked for in either order**: they get the same numbers, or the two that are
drawn are exchanged. -/
theorem Mirrors.exchange_queries (h : Mirrors f terms past s meaning) {s₁ s₂ : State}
    (hleft : s.numberOf f v = (l, s₁)) (hright : s₁.numberOf f w = (r, s₂))
    (hroom₁ : s.next.toNat + s.drawn s₁ < UInt32.size)
    (hroom₂ : s₁.next.toNat + s₁.drawn s₂ < UInt32.size) :
    ∃ ρ s₁' s₂', s.numberOf f w = (ρ r, s₁') ∧ s₁'.numberOf f v = (ρ l, s₂') ∧ Renamed ρ s₂ s₂' := by
  have hsize := h.values
  by_cases hv : Draws f s v
  · by_cases hw : Draws f s w
    · cases hleft.symm.trans (numberOf_of_draws hsize hv)
      by_cases hvw : v = w
      · -- asked for again, the value has the number that was drawn
        subst hvw
        have hagain := numberOf_draw hsize hv
        cases hright.symm.trans hagain
        exact ⟨Equiv.refl _, _, _, hleft, hagain, .refl _⟩
      · -- both draw, and each gets the number of the other
        have hright' := numberOf_draw_other hsize hv hw hvw
        cases hright.symm.trans hright'
        have hnext : (s.draw v).next.toNat = s.next.toNat + 1 := by
          rw [next_of_room hroom₁, drawn_eq_one rfl]
        rw [hnext, drawn_eq_one rfl] at hroom₂
        refine ⟨Equiv.swap s.next (s.next + 1), s.draw w, (s.draw w).draw v, ?_, ?_,
          h.renamed_draws hroom₂ hvw⟩
        · rw [numberOf_of_draws hsize hw, Equiv.swap_apply_right]
        · rw [numberOf_draw_other hsize hw hv (Ne.symm hvw), Equiv.swap_apply_left]
    · -- the second question changes nothing
      cases hright.symm.trans (numberOf_after hsize hw hleft)
      exact ⟨Equiv.refl _, s, s₁, numberOf_of_not_draws hsize hw, hleft, .refl _⟩
  · -- the first question changes nothing
    cases hleft.symm.trans (numberOf_of_not_draws hsize hv)
    exact ⟨Equiv.refl _, s₂, s₂, hright, numberOf_after hsize hv hright, .refl _⟩

/-- **A commutative operator with its operands exchanged** leaves a renamed state. -/
theorem Mirrors.exchange_binary (h : Mirrors f terms past s meaning) (hop : op.isCommutative = true)
    {lhs rhs : ValueId} {result : Option ValueId} {o : Outcome}
    (hstep : s.binary? f i op lhs rhs result = some (o, t))
    (hroom : s.next.toNat + s.drawn t < UInt32.size) :
    ∃ ρ o' t', s.binary? f i op rhs lhs result = some (o', t') ∧ Renamed ρ t t' := by
  obtain ⟨l, s₁, r, s₂, n, redundant, s₃, hleft, hright, hfound, -, hgive⟩ := binary?_cases hstep
  rw [drawn_congr (give?_frame hgive).1] at hroom
  obtain ⟨hroom₁, hroom₂, hroom₃⟩ := room_of_binary h.values hleft hright hfound hroom
  obtain ⟨ρ, s₁', s₂', hright', hleft', h₂⟩ := h.exchange_queries hleft hright hroom₁ hroom₂
  obtain ⟨s₃', hfound', h₃⟩ := h₂.lookup hfound hroom₃
  obtain ⟨t', hgive', ht⟩ := h₃.give hgive
  rw [Expression.normal_comm hop] at hfound'
  exact ⟨ρ, _, t', binary?_of_parts hright' hleft' hfound' hgive', ht⟩

/-! ## Runs -/

/-- **One step**: from renamed states, an instruction and what exchanging made of it lead to renamed
states. -/
theorem Renamed.step (h : Renamed ρ s s') (hmirrors : Mirrors f terms past s meaning)
    {inst inst' : Instruction} (hexchanged : inst.Exchanged inst') {o : Outcome}
    (hstep : s.number? f i inst = some (o, t)) (hroom : s.next.toNat + s.drawn t < UInt32.size) :
    ∃ σ o' t', s'.number? f i inst' = some (o', t') ∧ Renamed σ t t' := by
  cases hexchanged with
  | same => exact ⟨ρ, h.number hmirrors.values hstep hroom⟩
  | swap op hop lhs rhs result =>
    -- first exchange the operands, then go over to the other numbers
    obtain ⟨σ, o₁, t₁, hstep₁, h₁⟩ := hmirrors.exchange_binary hop hstep hroom
    rw [← drawn_congr h₁.next] at hroom
    have hexchange : s.number? f i ⟨.binary op rhs lhs, result⟩ = some (o₁, t₁) := hstep₁
    obtain ⟨o', t', hstep', ht⟩ := h.number hmirrors.values hexchange hroom
    exact ⟨σ.trans ρ, o', t', hstep', h₁.trans ht⟩

end

theorem start_exchange (f : Func) (chosen : InstId → Bool) :
    State.start (f.exchange chosen) = .start f := by
  unfold State.start Func.exchange
  rw [Array.size_mapIdx]

/-- Numbering an instruction looks at the values of the function only, and these are not changed. -/
theorem number?_exchange (f : Func) (chosen : InstId → Bool) (s : State) (i : InstId)
    (inst : Instruction) : s.number? (f.exchange chosen) i inst = s.number? f i inst := by
  have hnumberOf : ∀ (s : State) (v : ValueId), s.numberOf (f.exchange chosen) v = s.numberOf f v :=
    fun _ _ => rfl
  unfold number? store? binary?
  simp only [hnumberOf]

/-- **All steps.** -/
theorem Renamed.walk (hs : f.Sound) (chosen : InstId → Bool)
    (hroom : (State.start f).issued f f.programOrder ≤ UInt32.size - 2) :
    ∃ s s' ρ, ((State.start f).walk f f.programOrder).2 = .ok s ∧
      ((State.start (f.exchange chosen)).walk (f.exchange chosen) f.programOrder).2 = .ok s' ∧
      Renamed ρ s s' := by
  have hend := run_induction hs hroom (P := fun done s =>
    Follows f done s ∧ ∃ events' s' ρ, (State.start (f.exchange chosen)).walk (f.exchange chosen) done
      = (events', .ok s') ∧ Renamed ρ s s')
    ⟨.start f, [], .start f, Equiv.refl _, by rw [start_exchange]; rfl, .refl _⟩ ?_
  · obtain ⟨s, hwalk, -, events', s', ρ, hwalk', h⟩ := hend
    exact ⟨s, s', ρ, hwalk, congrArg Prod.snd hwalk', h⟩
  · rintro done s t b i inst o ⟨hfollows, events', s', ρ, hwalk', h⟩ hinst hstep hroom -
    obtain ⟨meaning, hmirrors⟩ := hfollows.mirrors
    obtain ⟨inst', hinst', hexchanged⟩ := Func.getElem?_exchange hinst chosen
    obtain ⟨σ, o', t', hstep', ht⟩ := h.step hmirrors hexchanged hstep hroom
    rw [← number?_exchange f chosen] at hstep'
    exact ⟨hfollows.step hinst hstep hroom, _, t', σ, walk_concat hwalk' hinst' hstep', ht⟩

end State

/-! ## The headline -/

/-- **Exchanging operands of commutative operators does not change what is redundant.**  Take any
function that validates and hands out no more numbers than the counter can tell apart, and exchange
the operands of any of its instructions whose operators commute.  Numbering answers on both
functions; the same instructions are redundant, with the same sources; as many numbers are handed
out; and the numbers of the values are the same up to a permutation that leaves zero in place. -/
theorem exchange_keeps_redundancy {f : Func} (hvalid : f.validate = .ok ())
    (hroom : (State.start f).issued f f.programOrder ≤ UInt32.size - 2) (chosen : InstId → Bool) :
    ∃ r r', (run f).outcome = .ok r ∧ (run (f.exchange chosen)).outcome = .ok r' ∧
      r'.redundant = r.redundant ∧ (∀ i, r'.source? i = r.source? i) ∧ r'.maxNumber = r.maxNumber ∧
      ∃ ρ : Equiv.Perm ValueNumber, ρ 0 = 0 ∧ ∀ v, r'.numberOf v = ρ (r.numberOf v) := by
  have hs : f.Sound := f.validate_eq_ok_iff.mp hvalid
  obtain ⟨s, s', ρ, hwalk, hwalk', h⟩ := State.Renamed.walk hs chosen hroom
  have hsource : ∀ i, s'.finish.source? i = s.finish.source? i := by
    intro i
    show (s'.sources[i.index]?).join = (s.sources[i.index]?).join
    rw [h.sources]
  refine ⟨s.finish, s'.finish, run_eq_ok.mpr ⟨hs, s, hwalk, rfl⟩,
    run_eq_ok.mpr ⟨hs.exchange chosen, s', hwalk', rfl⟩, ?_, hsource, ?_, ρ, h.zero, fun v => ?_⟩
  · have hsize : s'.finish.sources.size = s.finish.sources.size := congrArg Array.size h.sources
    have hmark : s'.finish.isRedundant = s.finish.isRedundant := by
      funext i
      exact congrArg Option.isSome (hsource i)
    unfold redundant
    rw [hsize, hmark]
  · show s'.next - 1 = s.next - 1
    rw [h.next]
  · rw [numberOf_finish, numberOf_finish, h.numberAt v]
    cases s.numberAt v with
    | none => exact h.zero.symm
    | some n => rfl

/-- In `exchanged`, with the operands of its first sum exchanged, the parameters and so the sums
and products have other numbers, but the second sum and the second product still repeat the
first ones. -/
theorem exchanged_exchange_keeps_redundancy :
    exchanged.validate = .ok () ∧
    (State.start exchanged).issued exchanged exchanged.programOrder ≤ UInt32.size - 2 ∧
    ∃ r r', (run exchanged).outcome = .ok r ∧
      (run (exchanged.exchange fun i => i = ⟨0⟩)).outcome = .ok r' ∧
      r.numberOf ⟨0⟩ = 1 ∧ r'.numberOf ⟨0⟩ = 2 ∧ r.redundant = [⟨4⟩, ⟨5⟩] ∧ r'.redundant = r.redundant ∧
      r.source? ⟨5⟩ = some ⟨3⟩ ∧ r'.source? ⟨5⟩ = some ⟨3⟩ ∧ r'.maxNumber = r.maxNumber ∧
      ∃ ρ : Equiv.Perm ValueNumber, ρ 0 = 0 ∧ ∀ v, r'.numberOf v = ρ (r.numberOf v) := by
  have hvalid : exchanged.validate = .ok () := by decide
  have hroom : (State.start exchanged).issued exchanged exchanged.programOrder ≤ UInt32.size - 2 := by
    decide
  have hsound := exchanged.validate_eq_ok_iff.mp hvalid
  have hrun : (run exchanged).outcome
      = .ok ⟨#[1, 2, 3, 3, 3, 4, 3, 4], #[none, none, none, none, some ⟨0⟩, some ⟨3⟩], 5⟩ := by
    refine run_eq_ok.mpr ⟨hsound, _, rfl, ?_⟩
    decide +kernel
  have hrun' : (run (exchanged.exchange fun i => i = ⟨0⟩)).outcome
      = .ok ⟨#[2, 1, 3, 3, 3, 4, 3, 4], #[none, none, none, none, some ⟨0⟩, some ⟨3⟩], 5⟩ := by
    refine run_eq_ok.mpr ⟨hsound.exchange _, _, rfl, ?_⟩
    decide +kernel
  obtain ⟨r, r', hr, hr', hredundant, hsource, hmax, hnumbers⟩ :=
    exchange_keeps_redundancy hvalid hroom fun i => i = ⟨0⟩
  obtain rfl := Except.ok.inj (hrun.symm.trans hr)
  obtain rfl := Except.ok.inj (hrun'.symm.trans hr')
  exact ⟨hvalid, hroom, _, _, hrun, hrun', rfl, rfl, by decide, hredundant, rfl, hsource ⟨5⟩, hmax,
    hnumbers⟩

end Numbering

end Dataflow
