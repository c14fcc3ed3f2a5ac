import Dataflow.Proofs.Terms
import Mathlib.Logic.Function.Basic

/-!
# What numbers mean

The table of expressions speaks of numbers only.  Here every number gets a term (`meaning`), and the
table, the counter and the meaning are held together by `Denotes`:

1. zero means `unresolved`, and different numbers handed out mean different computations;
2. an entry of the table means its operator applied to what its operands mean;
3. every number handed out is that of a value's own leaf or that of an entry.

There are two ways to draw a number, for a leaf and for an expression, and either keeps all this as
long as the counter does not run over.  No induction on terms is needed: by (1) operands that mean
the same are equal numbers, so the comparison of terms is one look into the table
(`Denotes.lookup_of_same`).
-/

namespace Dataflow

/-! ## Normal forms -/

namespace Expression

/-- The normal form is one of the two orders. -/
theorem normal_cases (op : Operator) (l r : ValueNumber) :
    normal op l r = ⟨op, l, r⟩ ∨ op.isCommutative = true ∧ normal op l r = ⟨op, r, l⟩ := by
  unfold normal
  split
  · next h =>
    rw [Bool.and_eq_true] at h
    exact Or.inr ⟨h.1, rfl⟩
  · exact Or.inl rfl

/-- The order of the operands does not matter if the operator commutes. -/
theorem normal_comm {op : Operator} (hop : op.isCommutative = true) (l r : ValueNumber) :
    normal op l r = normal op r l := by
  unfold normal
  rw [hop, Bool.true_and, Bool.true_and]
  have hasymm : ∀ {m n : ValueNumber}, m.toNat < n.toNat → m < n ∧ ¬ n < m := by
    intro m n h
    rw [UInt32.lt_iff_toNat_lt, UInt32.lt_iff_toNat_lt]
    exact ⟨h, Nat.lt_asymm h⟩
  rcases Nat.lt_trichotomy l.toNat r.toNat with hlt | heq | hgt
  · rw [decide_eq_true (hasymm hlt).1, decide_eq_false (hasymm hlt).2]
    rfl
  · rw [UInt32.toNat_inj.mp heq]
  · rw [decide_eq_true (hasymm hgt).1, decide_eq_false (hasymm hgt).2]
    rfl

theorem normal_normal (op : Operator) (l r : ValueNumber) :
    normal (normal op l r).op (normal op l r).lhs (normal op l r).rhs = normal op l r := by
  rcases normal_cases op l r with h | ⟨hop, h⟩
  · rw [h]
    exact h
  · rw [h]
    exact (normal_comm hop r l).trans h

/-- **Normal forms are equal** exactly if the operators are and the operands are, in one order or,
if the operator commutes, in the other. -/
theorem normal_eq_iff {op op' : Operator} {l r l' r' : ValueNumber} :
    normal op l r = normal op' l' r' ↔
      op = op' ∧ (l = l' ∧ r = r' ∨ op.isCommutative = true ∧ l = r' ∧ r = l') := by
  constructor
  · intro h
    rcases normal_cases op l r with hl | ⟨hop, hl⟩ <;>
      rcases normal_cases op' l' r' with hr | ⟨hop', hr⟩ <;>
      rw [hl, hr] at h <;> obtain ⟨rfl, h₁, h₂⟩ := Expression.mk.inj h
    · exact ⟨rfl, Or.inl ⟨h₁, h₂⟩⟩
    · exact ⟨rfl, Or.inr ⟨hop', h₁, h₂⟩⟩
    · exact ⟨rfl, Or.inr ⟨hop, h₂, h₁⟩⟩
    · exact ⟨rfl, Or.inl ⟨h₂, h₁⟩⟩
  · rintro ⟨rfl, ⟨rfl, rfl⟩ | ⟨hop, rfl, rfl⟩⟩
    · rfl
    · exact normal_comm hop l r

/-- The term of an expression, given what numbers mean. -/
def term (meaning : ValueNumber → Term) (e : Expression) : Term :=
  .app e.op (meaning e.lhs) (meaning e.rhs)

theorem term_normal_same (meaning : ValueNumber → Term) (op : Operator) (l r : ValueNumber) :
    ((normal op l r).term meaning).Same (.app op (meaning l) (meaning r)) := by
  rcases normal_cases op l r with h | ⟨hop, h⟩
  · rw [h]
    exact .refl _
  · rw [h]
    exact .swap op hop (.refl _) (.refl _)

end Expression

/-! ## Meanings -/

/-- A number that has been handed out and means this computation. -/
structure Means (next : ValueNumber) (meaning : ValueNumber → Term) (n : ValueNumber) (t : Term) :
    Prop where
  lt : n < next
  same : (meaning n).Same t

/-- **What the numbers mean**, where `held` are the values that have a number. -/
structure Denotes (table : List (Expression × Known)) (next : ValueNumber) (held : ValueId → Prop)
    (meaning : ValueNumber → Term) : Prop where
  pos : 0 < next
  zero : meaning 0 = .unresolved
  distinct : ∀ {m n}, m < next → n < next → (meaning m).Same (meaning n) → m = n
  entry : ∀ {e known}, table.lookup e = some known →
    known.number < next ∧ e.lhs < next ∧ e.rhs < next ∧ meaning known.number = e.term meaning
  origin : ∀ {n}, n < next → n ≠ 0 → (∃ v, held v ∧ meaning n = .leaf v) ∨
    ∃ e known, table.lookup e = some known ∧ known.number = n ∧
      Expression.normal e.op e.lhs e.rhs = e

section

variable {table : List (Expression × Known)} {next : ValueNumber} {held : ValueId → Prop}
  {meaning : ValueNumber → Term} {op : Operator} {l r n : ValueNumber} {a b t u : Term}

/-- Entering what is missing hides nothing. -/
theorem lookup_enter {e e' : Expression} {known known' : Known} (hmiss : table.lookup e' = none)
    (hfound : table.lookup e = some known) : ((e', known') :: table).lookup e = some known := by
  have hne : e ≠ e' := by
    rintro rfl
    rw [hmiss] at hfound
    nomatch hfound
  rw [List.lookup_cons, beq_false_of_ne hne]
  exact hfound

/-- The counter goes up if it does not run over. -/
theorem toNat_next (hroom : next.toNat + 1 < UInt32.size) : (next + 1).toNat = next.toNat + 1 := by
  rw [UInt32.toNat_add]
  exact Nat.mod_eq_of_lt hroom

theorem lt_next_iff (hroom : next.toNat + 1 < UInt32.size) : n < next + 1 ↔ n < next ∨ n = next := by
  rw [UInt32.lt_iff_toNat_lt, UInt32.lt_iff_toNat_lt, ← UInt32.toNat_inj, toNat_next hroom]
  omega

/-- A number drawn does not change what older ones mean. -/
theorem means_update_iff (hroom : next.toNat + 1 < UInt32.size) (hlt : n < next) :
    Means (next + 1) (Function.update meaning next u) n t ↔ Means next meaning n t := by
  have hold : Function.update meaning next u n = meaning n :=
    Function.update_of_ne (UInt32.ne_of_lt hlt) ..
  constructor
  · rintro ⟨-, hsame⟩
    exact ⟨hlt, hold ▸ hsame⟩
  · rintro ⟨-, hsame⟩
    exact ⟨(lt_next_iff hroom).mpr (Or.inl hlt), hold.symm ▸ hsame⟩

theorem Means.update (hroom : next.toNat + 1 < UInt32.size) (h : Means next meaning n t) :
    Means (next + 1) (Function.update meaning next u) n t :=
  (means_update_iff hroom h.lt).mpr h

theorem means_update (hroom : next.toNat + 1 < UInt32.size) (h : u.Same t) :
    Means (next + 1) (Function.update meaning next u) next t := by
  refine ⟨(lt_next_iff hroom).mpr (Or.inr rfl), ?_⟩
  rw [Function.update_self]
  exact h

namespace Denotes

theorem start : Denotes [] 1 (fun _ => False) (fun _ => .unresolved) where
  pos := by decide
  zero := rfl
  distinct := by
    intro m n hm hn _
    have hzero : ∀ {k : ValueNumber}, k < 1 → k = 0 := by
      intro k hk
      rw [UInt32.lt_iff_toNat_lt] at hk
      exact UInt32.toNat_inj.mp (Nat.lt_one_iff.mp hk)
    rw [hzero hm, hzero hn]
  entry := by
    intro e known h
    nomatch h
  origin := by
    intro n hn hzero
    rw [UInt32.lt_iff_toNat_lt] at hn
    exact absurd (UInt32.toNat_inj.mp (Nat.lt_one_iff.mp hn)) hzero

/-- Meanings do not depend on which values hold a number, as long as none is lost. -/
theorem mono {held' : ValueId → Prop} (h : Denotes table next held meaning)
    (hheld : ∀ v, held v → held' v) : Denotes table next held' meaning where
  pos := h.pos
  zero := h.zero
  distinct := h.distinct
  entry := h.entry
  origin := by
    intro n hn hzero
    rcases h.origin hn hzero with ⟨v, hv, hleaf⟩ | hentry
    · exact Or.inl ⟨v, hheld v hv, hleaf⟩
    · exact Or.inr hentry

/-- **Numbers are as good as terms.** -/
theorem eq_iff_same (h : Denotes table next held meaning) (hl : Means next meaning l a)
    (hr : Means next meaning r b) : l = r ↔ a.Same b := by
  constructor
  · rintro rfl
    exact hl.same.symm.trans hr.same
  · intro hab
    exact h.distinct hl.lt hr.lt (hl.same.trans (hab.trans hr.same.symm))

theorem means_zero (h : Denotes table next held meaning) : Means next meaning 0 .unresolved :=
  ⟨h.pos, by rw [h.zero]; exact .unresolved⟩

/-- A number other than zero means something known. -/
theorem ne_unresolved (h : Denotes table next held meaning) (hn : Means next meaning n t)
    (hzero : n ≠ 0) : t ≠ .unresolved := by
  rintro rfl
  exact hzero ((h.eq_iff_same hn h.means_zero).mpr .unresolved)

/-- What the table answers for two operands means the operator applied to them. -/
theorem means_of_lookup (h : Denotes table next held meaning) (hl : Means next meaning l a)
    (hr : Means next meaning r b) {known : Known}
    (hfound : table.lookup (.normal op l r) = some known) :
    Means next meaning known.number (.app op a b) := by
  obtain ⟨hlt, -, -, hterm⟩ := h.entry hfound
  refine ⟨hlt, ?_⟩
  rw [hterm]
  exact (Expression.term_normal_same meaning op l r).trans (.app op hl.same hr.same)

/-- **The table is complete**: a number that means an operator applied to two operands is found
under the numbers of the operands. -/
theorem lookup_of_same (h : Denotes table next held meaning) (hl : Means next meaning l a)
    (hr : Means next meaning r b) (hn : Means next meaning n (.app op a b)) :
    ∃ known, table.lookup (.normal op l r) = some known ∧ known.number = n := by
  have hsame := hn.same
  by_cases hzero : n = 0
  · rw [hzero, h.zero] at hsame
    nomatch hsame
  rcases h.origin hn.lt hzero with ⟨v, -, hleaf⟩ | ⟨e, known, hfound, hnumber, hnormal⟩
  · rw [hleaf] at hsame
    nomatch hsame
  · obtain ⟨-, hlhs, hrhs, hterm⟩ := h.entry hfound
    refine ⟨known, ?_, hnumber⟩
    rw [← hnumber, hterm] at hsame
    have hkey : Expression.normal op l r = e := by
      rw [← hnormal]
      -- operands that mean the same are the same numbers
      cases hsame with
      | app _ ha hb =>
        have hleft : e.lhs = l := (h.eq_iff_same ⟨hlhs, ha⟩ hl).mpr (.refl a)
        have hright : e.rhs = r := (h.eq_iff_same ⟨hrhs, hb⟩ hr).mpr (.refl b)
        rw [hleft, hright]
      | swap _ hop hb ha =>
        have hleft : e.lhs = r := (h.eq_iff_same ⟨hlhs, hb⟩ hr).mpr (.refl b)
        have hright : e.rhs = l := (h.eq_iff_same ⟨hrhs, ha⟩ hl).mpr (.refl a)
        rw [hleft, hright]
        exact Expression.normal_comm hop l r
    rw [hkey]
    exact hfound

/-! ### Drawing a number -/

/-- A number drawn for a term that no number means yet keeps the meanings distinct. -/
theorem distinct_update (h : Denotes table next held meaning) (hroom : next.toNat + 1 < UInt32.size)
    (hnew : ∀ m, ¬ Means next meaning m u) {m n : ValueNumber} (hm : m < next + 1)
    (hn : n < next + 1)
    (hsame : (Function.update meaning next u m).Same (Function.update meaning next u n)) : m = n := by
  rcases (lt_next_iff hroom).mp hm with hm | rfl <;> rcases (lt_next_iff hroom).mp hn with hn | rfl
  · rw [Function.update_of_ne (UInt32.ne_of_lt hm), Function.update_of_ne (UInt32.ne_of_lt hn)] at hsame
    exact h.distinct hm hn hsame
  · rw [Function.update_of_ne (UInt32.ne_of_lt hm), Function.update_self] at hsame
    exact absurd ⟨hm, hsame⟩ (hnew m)
  · rw [Function.update_self, Function.update_of_ne (UInt32.ne_of_lt hn)] at hsame
    exact absurd ⟨hn, hsame.symm⟩ (hnew n)
  · rfl

theorem pos_next (hroom : next.toNat + 1 < UInt32.size) : 0 < next + 1 := by
  rw [UInt32.lt_iff_toNat_lt, toNat_next hroom]
  exact Nat.succ_pos _

theorem update_zero (h : Denotes table next held meaning) :
    Function.update meaning next u 0 = .unresolved := by
  rw [Function.update_of_ne (UInt32.ne_of_lt h.pos), h.zero]

/-- An entry still means what it meant. -/
theorem entry_update (h : Denotes table next held meaning) (hroom : next.toNat + 1 < UInt32.size)
    {e : Expression} {known : Known} (hfound : table.lookup e = some known) :
    known.number < next + 1 ∧ e.lhs < next + 1 ∧ e.rhs < next + 1 ∧
      Function.update meaning next u known.number = e.term (Function.update meaning next u) := by
  obtain ⟨hnumber, hlhs, hrhs, hterm⟩ := h.entry hfound
  have hlt : ∀ {m}, m < next → m < next + 1 := fun hm => (lt_next_iff hroom).mpr (Or.inl hm)
  refine ⟨hlt hnumber, hlt hlhs, hlt hrhs, ?_⟩
  unfold Expression.term
  rw [Function.update_of_ne (UInt32.ne_of_lt hnumber), Function.update_of_ne (UInt32.ne_of_lt hlhs),
    Function.update_of_ne (UInt32.ne_of_lt hrhs)]
  exact hterm

/-- No number means the leaf of a value that holds none. -/
theorem not_means_leaf (h : Denotes table next held meaning) {v : ValueId} (hv : ¬ held v)
    (m : ValueNumber) : ¬ Means next meaning m (.leaf v) := by
  rintro ⟨hm, hsame⟩
  by_cases hzero : m = 0
  · rw [hzero, h.zero] at hsame
    nomatch hsame
  rcases h.origin hm hzero with ⟨w, hw, hleaf⟩ | ⟨e, known, hfound, rfl, -⟩
  · rw [hleaf] at hsame
    cases hsame
    exact hv hw
  · rw [(h.entry hfound).2.2.2] at hsame
    nomatch hsame

/-- **Drawing for a leaf.** -/
theorem draw_leaf (h : Denotes table next held meaning) (hroom : next.toNat + 1 < UInt32.size)
    {v : ValueId} (hv : ¬ held v) :
    Denotes table (next + 1) (fun w => held w ∨ w = v) (Function.update meaning next (.leaf v)) where
  pos := pos_next hroom
  zero := h.update_zero
  distinct := h.distinct_update hroom (h.not_means_leaf hv)
  entry := h.entry_update hroom
  origin := by
    intro n hn hzero
    rcases (lt_next_iff hroom).mp hn with hn | rfl
    · rw [Function.update_of_ne (UInt32.ne_of_lt hn)]
      rcases h.origin hn hzero with ⟨w, hw, hleaf⟩ | hentry
      · exact Or.inl ⟨w, Or.inl hw, hleaf⟩
      · exact Or.inr hentry
    · exact Or.inl ⟨v, Or.inr rfl, Function.update_self ..⟩

/-- No number means an operator applied to two operands that the table does not have it for. -/
theorem not_means_app (h : Denotes table next held meaning) (hl : Means next meaning l a)
    (hr : Means next meaning r b) (hmiss : table.lookup (.normal op l r) = none) (m : ValueNumber) :
    ¬ Means next meaning m (.app op a b) := by
  intro hm
  obtain ⟨known, hfound, -⟩ := h.lookup_of_same hl hr hm
  rw [hmiss] at hfound
  nomatch hfound

/-- The number drawn for an expression means its operator applied to its operands. -/
theorem means_entered (op : Operator) (hroom : next.toNat + 1 < UInt32.size)
    (hl : Means next meaning l a) (hr : Means next meaning r b) :
    Means (next + 1) (Function.update meaning next ((Expression.normal op l r).term meaning)) next
      (.app op a b) :=
  means_update hroom
    ((Expression.term_normal_same meaning op l r).trans (.app op hl.same hr.same))

/-- **Drawing for an expression** that the table does not have. -/
theorem draw_expression (h : Denotes table next held meaning) (hroom : next.toNat + 1 < UInt32.size)
    (hl : l < next) (hr : r < next) (hmiss : table.lookup (.normal op l r) = none) (i : InstId) :
    Denotes ((.normal op l r, ⟨next, i⟩) :: table) (next + 1) held
      (Function.update meaning next ((Expression.normal op l r).term meaning)) where
  pos := pos_next hroom
  zero := h.update_zero
  distinct := by
    refine h.distinct_update hroom fun m hm => ?_
    have hsame := hm.same.trans (Expression.term_normal_same meaning op l r)
    exact h.not_means_app ⟨hl, .refl _⟩ ⟨hr, .refl _⟩ hmiss m ⟨hm.lt, hsame⟩
  entry := by
    intro e known hfound
    rw [List.lookup_cons] at hfound
    split at hfound
    · next heq =>
      obtain rfl : e = .normal op l r := eq_of_beq heq
      obtain rfl := Option.some.inj hfound
      -- the operands are older than the new number, in either order
      have hlt : (Expression.normal op l r).lhs < next ∧ (Expression.normal op l r).rhs < next := by
        rcases Expression.normal_cases op l r with hcase | ⟨-, hcase⟩
        · rw [hcase]
          exact ⟨hl, hr⟩
        · rw [hcase]
          exact ⟨hr, hl⟩
      have hup : ∀ {m}, m < next → m < next + 1 := fun hm => (lt_next_iff hroom).mpr (Or.inl hm)
      refine ⟨(lt_next_iff hroom).mpr (Or.inr rfl), hup hlt.1, hup hlt.2, ?_⟩
      show Function.update meaning next _ next = _
      unfold Expression.term
      rw [Function.update_self, Function.update_of_ne (UInt32.ne_of_lt hlt.1),
        Function.update_of_ne (UInt32.ne_of_lt hlt.2)]
    · exact h.entry_update hroom hfound
  origin := by
    intro n hn hzero
    rcases (lt_next_iff hroom).mp hn with hn | rfl
    · rw [Function.update_of_ne (UInt32.ne_of_lt hn)]
      rcases h.origin hn hzero with hleaf | ⟨e, known, hfound, hnumber, hnormal⟩
      · exact Or.inl hleaf
      · exact Or.inr ⟨e, known, lookup_enter hmiss hfound, hnumber, hnormal⟩
    · exact Or.inr ⟨_, _, List.lookup_cons_self, rfl, Expression.normal_normal op l r⟩

end Denotes

end

end Dataflow
