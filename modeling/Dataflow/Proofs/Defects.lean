import Dataflow.Func.Validity
import Mathlib.Data.List.Induction
import Mathlib.Data.List.Nodup

/-!
# Validation finds the first defect

`Func.validate` is a scan that stops early and carries a table of what it has passed.  Here stands
what it is meant to find, without the scan: `Func.defects` lists everything that is wrong with a
function, each listed instruction being judged by its place alone (`withBefore` pairs it with the
listings before it), and `Func.Sound` says what a function without defects looks like.

1. **The two loops are one** (`foldlM_eq_firstOr`): a fold that at every element answers the first
   defect found there, and whose state is determined by the elements passed, answers the first
   defect of the whole list.  The loop over instructions and the loop over blocks are both of this
   kind.

2. **The table is the past** (`placedOf`): after any run of listings the scan's table holds exactly
   these, the latest first, so looking an instruction up in it finds its latest earlier listing.

3. **Nested and flat positions agree** (`withBefore_flatMap`): "listed earlier in this block or in a
   block before it" is "listed earlier in program order".
-/

namespace Dataflow

/-! ## Elements with what stands before them -/

/-- Every element of a list with the elements before it, in order. -/
def withBefore {α : Type} (l : List α) : List (List α × α) :=
  l.zipIdx.map fun (x, n) => (l.take n, x)

theorem withBefore_nil {α : Type} : withBefore ([] : List α) = [] := rfl

/-- An element at the end stands behind the whole list. -/
theorem withBefore_concat {α : Type} (l : List α) (x : α) :
    withBefore (l ++ [x]) = withBefore l ++ [(l, x)] := by
  unfold withBefore
  rw [List.zipIdx_append, List.map_append]
  congr 1
  · -- the elements of `l` see only elements of `l`
    apply List.map_congr_left
    rintro ⟨y, n⟩ hy
    have hn : n < l.length := by
      have := List.snd_lt_of_mem_zipIdx hy
      omega
    have htake : (l ++ [x]).take n = l.take n := List.take_append_of_le_length (by omega)
    simp only [htake]
  · simp

/-- In two lists one after the other, the elements of the second stand behind the first as well. -/
theorem withBefore_append {α : Type} (l m : List α) :
    withBefore (l ++ m) = withBefore l ++ (withBefore m).map fun (before, x) => (l ++ before, x) := by
  induction m using List.reverseRecOn with
  | nil => simp [withBefore_nil]
  | append_singleton m x ih =>
    rw [← List.append_assoc, withBefore_concat, ih, withBefore_concat]
    simp

/-- Changing the elements changes them where they stand, and before other elements. -/
theorem withBefore_map {α β : Type} (g : α → β) (l : List α) :
    withBefore (l.map g) = (withBefore l).map fun (before, x) => (before.map g, g x) := by
  induction l using List.reverseRecOn with
  | nil => rfl
  | append_singleton l x ih =>
    rw [List.map_append, List.map_singleton, withBefore_concat, withBefore_concat, ih]
    simp

theorem map_snd_withBefore {α : Type} (l : List α) : (withBefore l).map Prod.snd = l := by
  induction l using List.reverseRecOn with
  | nil => rfl
  | append_singleton l x ih =>
    rw [withBefore_concat, List.map_append, ih]
    rfl

/-- To stand in a list after some elements is to split it there. -/
theorem mem_withBefore {α : Type} {l before : List α} {x : α} :
    (before, x) ∈ withBefore l ↔ ∃ after, l = before ++ x :: after := by
  induction l using List.reverseRecOn with
  | nil => simp [withBefore_nil]
  | append_singleton l y ih =>
    rw [withBefore_concat, List.mem_append, ih, List.mem_singleton, Prod.mk.injEq]
    constructor
    · rintro (⟨after, rfl⟩ | ⟨rfl, rfl⟩)
      · exact ⟨after ++ [y], by simp⟩
      · exact ⟨[], rfl⟩
    · rintro ⟨after, h⟩
      -- the split point is the last element, or the last element lies in what follows it
      rcases List.eq_nil_or_concat after with rfl | ⟨after, z, rfl⟩
      · obtain ⟨h1, h2⟩ := List.append_inj' h rfl
        exact Or.inr ⟨h1.symm, (List.cons.inj h2).1.symm⟩
      · have hsplit : l ++ [y] = (before ++ x :: after) ++ [z] := by
          simpa using h
        exact Or.inl ⟨after, (List.append_inj' hsplit rfl).1⟩

/-- **Nested positions are flat positions.** -/
theorem withBefore_flatMap {α β : Type} (g : α → List β) (l : List α) :
    withBefore (l.flatMap g) = (withBefore l).flatMap fun (before, x) =>
      (withBefore (g x)).map fun (inner, y) => (before.flatMap g ++ inner, y) := by
  induction l using List.reverseRecOn with
  | nil => rfl
  | append_singleton l x ih =>
    rw [List.flatMap_append, withBefore_append, withBefore_concat, List.flatMap_append, ih]
    simp

/-- **Nothing repeats** if no element stands among those before it. -/
theorem nodup_iff_withBefore {α : Type} (l : List α) :
    l.Nodup ↔ ∀ p ∈ withBefore l, p.2 ∉ p.1 := by
  induction l using List.reverseRecOn with
  | nil => simp [withBefore_nil]
  | append_singleton l x ih =>
    rw [withBefore_concat, List.nodup_append]
    simp only [List.mem_append, List.mem_singleton]
    constructor
    · rintro ⟨hl, -, hx⟩ p (hp | rfl)
      · exact ih.mp hl p hp
      · exact fun hmem => hx x hmem x rfl rfl
    · intro h
      refine ⟨ih.mpr fun p hp => h p (Or.inl hp), List.nodup_singleton x, ?_⟩
      rintro a ha b rfl rfl
      exact h (l, a) (Or.inr rfl) ha

/-! ## Everything that is wrong -/

/-- The first of some defects, or `a` if there is none. -/
def firstOr {α : Type} (a : α) : List Defect → Except Defect α
  | [] => .ok a
  | d :: _ => .error d

namespace Func

/-- What a block lists, each instruction with the block's label. -/
def listings (b : BlockId × Block) : List (BlockId × InstId) := b.2.insts.map fun i => (b.1, i)

/-- The edges of a block that leave the graph. -/
def strayDefects (f : Func) (b : BlockId × Block) : List Defect :=
  (b.2.succs.filter fun s => f.blocks.size ≤ s.index).map (.straySuccessor b.1)

/-- The first value that an instruction mentions and that is not there. -/
def unknownValue? (f : Func) (i : InstId) (inst : Instruction) : Option Defect :=
  (inst.mentions.find? fun v => f.values.size ≤ v.index).map (.unknownValue i)

/-- A result that stands for something else than its instruction. -/
def resultMismatch? (f : Func) (i : InstId) (inst : Instruction) : Option Defect :=
  match inst.result with
  | none => none
  | some v => if f.values[v.index]? = some (.result i) then none else some (.resultMismatch i v)

/-- An instruction listed in `b` that is not there. -/
def unknownInst? (f : Func) (b : BlockId) (i : InstId) : Option Defect :=
  if f.insts.size ≤ i.index then some (.unknownInstruction b i) else none

/-- The latest listing of `i` among those before, against the one in `b`. -/
def duplicate? (before : List (BlockId × InstId)) (b : BlockId) (i : InstId) : Option Defect :=
  (before.reverse.find? fun p => p.2 = i).map fun p => .duplicateInstruction i p.1 b

/-- What is wrong with the listing of `i` in `b` after the listings `before`. -/
def listingDefects (f : Func) (before : List (BlockId × InstId)) (b : BlockId) (i : InstId) :
    List Defect :=
  [f.unknownInst? b i, duplicate? before b i,
    (f.insts[i.index]?).bind (f.unknownValue? i),
    (f.insts[i.index]?).bind (f.resultMismatch? i)].filterMap id

/-- What is wrong with a block after the blocks `before`: its edges, then its listings in order. -/
def blockDefects (f : Func) (before : List (BlockId × Block)) (b : BlockId × Block) : List Defect :=
  f.strayDefects b ++ (withBefore b.2.insts).flatMap fun (passed, i) =>
    f.listingDefects (before.flatMap listings ++ passed.map fun j => (b.1, j)) b.1 i

/-- **Every defect**, in the order in which a reader meets them. -/
def defects (f : Func) : List Defect :=
  (if f.blocks.isEmpty then [.noBlocks] else []) ++
    (withBefore f.layout).flatMap fun (before, b) => f.blockDefects before b

/-- What a function without defects looks like. -/
structure Sound (f : Func) : Prop where
  /-- There is a block. -/
  nonempty : 0 < f.blocks.size
  /-- Every edge ends at a block. -/
  succs : ∀ block ∈ f.blocks, ∀ s ∈ block.succs, s.index < f.blocks.size
  /-- No instruction is listed twice. -/
  once : (f.programOrder.map Prod.snd).Nodup
  /-- Every listed instruction exists, mentions only values that exist, and has no result but its
  own. -/
  listed : ∀ p ∈ f.programOrder, ∃ inst, f.insts[p.2.index]? = some inst ∧
    (∀ v ∈ inst.mentions, v.index < f.values.size) ∧
    ∀ v, inst.result = some v → f.values[v.index]? = some (.result p.2)

/-! ## The scan, one check at a time -/

/-- The scan's table after these listings. -/
def placedOf (before : List (BlockId × InstId)) : Placed := (before.map Prod.swap).reverse

/-- The latest listing is the first entry. -/
theorem placedOf_concat (before : List (BlockId × InstId)) (b : BlockId) (i : InstId) :
    placedOf (before ++ [(b, i)]) = (i, b) :: placedOf before := by
  simp [placedOf]

/-- **The table is the past**: it finds the latest listing. -/
theorem lookup_placedOf (before : List (BlockId × InstId)) (i : InstId) :
    (placedOf before).lookup i = (before.reverse.find? fun p => p.2 = i).map Prod.fst := by
  induction before using List.reverseRecOn with
  | nil => rfl
  | append_singleton before p ih =>
    obtain ⟨b, j⟩ := p
    rw [placedOf_concat, List.reverse_append]
    by_cases h : j = i
    · subst h
      simp
    · have hne : (i == j) = false := by simpa using fun heq : i = j => h heq.symm
      simp [List.lookup_cons, h, hne, ih]

/-- **One instruction**: its values are checked first, then its result. -/
theorem checkMentions_eq (f : Func) (i : InstId) (inst : Instruction) :
    f.checkMentions i inst
      = firstOr () ([f.unknownValue? i inst, f.resultMismatch? i inst].filterMap id) := by
  unfold checkMentions unknownValue? resultMismatch?
  cases inst.mentions.find? fun v => f.values.size ≤ v.index with
  | some v => rfl
  | none =>
    cases inst.result with
    | none => rfl
    | some v =>
      by_cases h : f.values[v.index]? = some (.result i)
      · simp only [if_pos h]
        rfl
      · simp only [if_neg h]
        rfl

/-- **One listing**: the scan stops at its first defect, or goes on with the listing in its
table. -/
theorem checkListed_eq (f : Func) (b : BlockId) (before : List (BlockId × InstId)) (i : InstId) :
    f.checkListed b (placedOf before) i
      = firstOr (placedOf (before ++ [(b, i)])) (f.listingDefects before b i) := by
  unfold checkListed listingDefects unknownInst? duplicate?
  rw [lookup_placedOf, placedOf_concat]
  cases hinst : f.insts[i.index]? with
  | none =>
    have hsize : f.insts.size ≤ i.index := Array.getElem?_eq_none_iff.mp hinst
    rw [if_pos hsize]
    rfl
  | some inst =>
    have hsize : ¬ f.insts.size ≤ i.index := by
      have := (Array.getElem?_eq_some_iff.mp hinst).1
      omega
    rw [if_neg hsize]
    cases before.reverse.find? fun p => p.2 = i with
    | some p => rfl
    | none =>
      simp only [Option.map_none, Option.bind_some, checkMentions_eq]
      cases f.unknownValue? i inst <;> cases f.resultMismatch? i inst <;> rfl

/-- **A scan that stops early answers the first of all defects**, if its state is determined by what
it has passed and every step answers the first defect there. -/
theorem foldlM_eq_firstOr {α σ : Type} (step : σ → α → Except Defect σ) (state : List α → σ)
    (found : List α → α → List Defect)
    (hstep : ∀ before x, step (state before) x = firstOr (state (before ++ [x])) (found before x))
    (l : List α) :
    l.foldlM step (state [])
      = firstOr (state l) ((withBefore l).flatMap fun (before, x) => found before x) := by
  induction l using List.reverseRecOn with
  | nil => rfl
  | append_singleton l x ih =>
    rw [List.foldlM_append, ih, withBefore_concat, List.flatMap_append]
    cases (withBefore l).flatMap fun (before, x) => found before x with
    | nil =>
      rw [List.nil_append, List.flatMap_singleton, ← hstep l x]
      exact bind_pure (step (state l) x)
    | cons d ds => rfl

/-- A block's listings are checked after its edges. -/
theorem checkBlock_eq (f : Func) (before : List (BlockId × Block)) (b : BlockId × Block) :
    f.checkBlock (placedOf (before.flatMap listings)) b
      = firstOr (placedOf ((before ++ [b]).flatMap listings)) (f.blockDefects before b) := by
  unfold checkBlock blockDefects strayDefects
  rw [← List.head?_filter]
  cases b.2.succs.filter fun s => f.blocks.size ≤ s.index with
  | cons s ss => rfl
  | nil =>
    -- the table of the loop over instructions: the blocks before, then what this block has passed
    have hloop := foldlM_eq_firstOr (f.checkListed b.1)
      (fun passed => placedOf (before.flatMap listings ++ passed.map fun j => (b.1, j)))
      (fun passed i => f.listingDefects (before.flatMap listings ++ passed.map fun j => (b.1, j)) b.1 i)
      (fun passed i => by rw [checkListed_eq, List.map_append, ← List.append_assoc]; rfl)
      b.2.insts
    simpa [listings] using hloop

/-- **Validation answers the first defect**: the loop over blocks stops where the list of all
defects begins. -/
theorem validate_eq_firstOr (f : Func) : f.validate = firstOr () f.defects := by
  unfold validate defects
  by_cases h : f.blocks.isEmpty
  · rw [if_pos h, if_pos h]
    rfl
  · have hloop := foldlM_eq_firstOr f.checkBlock (fun before => placedOf (before.flatMap listings))
      f.blockDefects f.checkBlock_eq f.layout
    rw [if_neg h, if_neg h, List.nil_append,
      show ([] : Placed) = placedOf ([].flatMap listings) from rfl, hloop]
    cases (withBefore f.layout).flatMap fun (before, b) => f.blockDefects before b <;> rfl

/-! ## No defects -/

theorem programOrder_eq (f : Func) : f.programOrder = f.layout.flatMap listings := rfl

/-- A block stands in the layout with the label by which it is found. -/
theorem mem_layout {f : Func} {b : BlockId} {block : Block} :
    (b, block) ∈ f.layout ↔ f.blocks[b.index]? = some block := by
  obtain ⟨n⟩ := b
  unfold layout
  simp [List.mem_zipIdx_iff_getElem?]

/-- No stray edges: every successor exists. -/
theorem strayDefects_eq_nil_iff (f : Func) (b : BlockId × Block) :
    f.strayDefects b = [] ↔ ∀ s ∈ b.2.succs, s.index < f.blocks.size := by
  simp [strayDefects, List.filter_eq_nil_iff]

/-- No duplicate: the instruction is not listed before. -/
theorem duplicate?_eq_none_iff (before : List (BlockId × InstId)) (b : BlockId) (i : InstId) :
    duplicate? before b i = none ↔ i ∉ before.map Prod.snd := by
  simp only [duplicate?, Option.map_eq_none_iff, List.find?_eq_none, List.mem_reverse,
    decide_eq_true_eq, List.mem_map, not_exists, not_and]

/-- No unknown value: all that the instruction mentions exists. -/
theorem unknownValue?_eq_none_iff (f : Func) (i : InstId) (inst : Instruction) :
    f.unknownValue? i inst = none ↔ ∀ v ∈ inst.mentions, v.index < f.values.size := by
  simp [unknownValue?]

/-- No mismatch: the result, if there is one, points back at the instruction. -/
theorem resultMismatch?_eq_none_iff (f : Func) (i : InstId) (inst : Instruction) :
    f.resultMismatch? i inst = none
      ↔ ∀ v, inst.result = some v → f.values[v.index]? = some (.result i) := by
  unfold resultMismatch?
  cases inst.result with
  | none => simp
  | some v => simp

/-- A listing is in order if it exists, is the first of its instruction, and mentions what it
may. -/
theorem listingDefects_eq_nil_iff (f : Func) (before : List (BlockId × InstId)) (b : BlockId)
    (i : InstId) :
    f.listingDefects before b i = [] ↔ i ∉ before.map Prod.snd ∧
      ∃ inst, f.insts[i.index]? = some inst ∧ (∀ v ∈ inst.mentions, v.index < f.values.size) ∧
        ∀ v, inst.result = some v → f.values[v.index]? = some (.result i) := by
  unfold listingDefects unknownInst?
  rw [← duplicate?_eq_none_iff before b i]
  cases hinst : f.insts[i.index]? with
  | none =>
    have hsize : f.insts.size ≤ i.index := Array.getElem?_eq_none_iff.mp hinst
    simp [hsize]
  | some inst =>
    have hsize : ¬ f.insts.size ≤ i.index := by
      have := (Array.getElem?_eq_some_iff.mp hinst).1
      omega
    simp only [if_neg hsize, Option.bind_some, Option.some.injEq, exists_eq_left',
      ← unknownValue?_eq_none_iff f i, ← resultMismatch?_eq_none_iff]
    simp [List.filterMap_eq_nil_iff]

/-- Where a defect of a function lies.  The listings are judged block by block, but that is judging
them in program order. -/
theorem mem_defects {f : Func} {d : Defect} :
    d ∈ f.defects ↔ (f.blocks.size = 0 ∧ d = .noBlocks) ∨ (∃ b ∈ f.layout, d ∈ f.strayDefects b) ∨
      ∃ p ∈ withBefore f.programOrder, d ∈ f.listingDefects p.1 p.2.1 p.2.2 := by
  have hempty : d ∈ (if f.blocks.isEmpty then [Defect.noBlocks] else [])
      ↔ f.blocks.size = 0 ∧ d = .noBlocks := by
    by_cases h : f.blocks.isEmpty
    · simp [h, Array.isEmpty_iff_size_eq_zero.mp h]
    · have hsize : f.blocks.size ≠ 0 := fun h0 => h (Array.isEmpty_iff_size_eq_zero.mpr h0)
      simp [h, hsize]
  have hstray : f.layout.flatMap f.strayDefects
      = (withBefore f.layout).flatMap fun p => f.strayDefects p.2 := by
    conv_lhs => rw [← map_snd_withBefore f.layout]
    rw [List.flatMap_map]
  have hlisting : (withBefore f.programOrder).flatMap (fun p => f.listingDefects p.1 p.2.1 p.2.2)
      = (withBefore f.layout).flatMap fun p => (withBefore p.2.2.insts).flatMap fun q =>
        f.listingDefects (p.1.flatMap listings ++ q.1.map fun j => (p.2.1, j)) p.2.1 q.2 := by
    rw [programOrder_eq, withBefore_flatMap, List.flatMap_assoc]
    simp only [List.flatMap_map, listings, withBefore_map]
  rw [← List.mem_flatMap, ← List.mem_flatMap, hstray, hlisting, ← hempty]
  simp only [defects, blockDefects, List.mem_append, List.mem_flatMap, and_or_left, exists_or]

/-- **A function without defects is a sound one.** -/
theorem defects_eq_nil_iff (f : Func) : f.defects = [] ↔ f.Sound := by
  have hstray : (∀ b ∈ f.layout, f.strayDefects b = [])
      ↔ ∀ block ∈ f.blocks, ∀ s ∈ block.succs, s.index < f.blocks.size := by
    simp only [strayDefects_eq_nil_iff, Prod.forall, mem_layout, Array.mem_iff_getElem?]
    constructor
    · rintro h block ⟨n, hn⟩
      exact h ⟨n⟩ block hn
    · intro h b block hb
      exact h block ⟨b.index, hb⟩
  have honce : (∀ p ∈ withBefore f.programOrder, p.2.2 ∉ p.1.map Prod.snd)
      ↔ (f.programOrder.map Prod.snd).Nodup := by
    rw [nodup_iff_withBefore, withBefore_map]
    simp only [List.forall_mem_map]
  constructor
  · intro h
    have hnone : ∀ d, d ∉ f.defects := List.eq_nil_iff_forall_not_mem.mp h
    have hlist : ∀ p ∈ withBefore f.programOrder, f.listingDefects p.1 p.2.1 p.2.2 = [] :=
      fun p hp => List.eq_nil_iff_forall_not_mem.mpr fun d hd =>
        hnone d (mem_defects.mpr (Or.inr (Or.inr ⟨p, hp, hd⟩)))
    simp only [listingDefects_eq_nil_iff] at hlist
    refine ⟨?_, hstray.mp ?_, honce.mp fun p hp => (hlist p hp).1, ?_⟩
    · rcases Nat.eq_zero_or_pos f.blocks.size with h0 | hpos
      · exact absurd (mem_defects.mpr (Or.inl ⟨h0, rfl⟩)) (hnone .noBlocks)
      · exact hpos
    · exact fun b hb => List.eq_nil_iff_forall_not_mem.mpr fun d hd =>
        hnone d (mem_defects.mpr (Or.inr (Or.inl ⟨b, hb, hd⟩)))
    · intro p hp
      rw [← map_snd_withBefore f.programOrder] at hp
      obtain ⟨q, hq, rfl⟩ := List.mem_map.mp hp
      exact (hlist q hq).2
  · intro hs
    apply List.eq_nil_iff_forall_not_mem.mpr
    intro d hd
    rcases mem_defects.mp hd with ⟨h0, -⟩ | ⟨b, hb, hmem⟩ | ⟨p, hp, hmem⟩
    · have := hs.nonempty
      omega
    · rw [hstray.mpr hs.succs b hb] at hmem
      exact List.not_mem_nil hmem
    · have hplaced : p.2 ∈ f.programOrder := by
        rw [← map_snd_withBefore f.programOrder]
        exact List.mem_map_of_mem hp
      rw [(listingDefects_eq_nil_iff f p.1 p.2.1 p.2.2).mpr
        ⟨honce.mpr hs.once p hp, hs.listed p.2 hplaced⟩] at hmem
      exact List.not_mem_nil hmem

/-- **Validation accepts the sound functions**, and only them. -/
theorem validate_eq_ok_iff (f : Func) : f.validate = .ok () ↔ f.Sound := by
  rw [validate_eq_firstOr, ← defects_eq_nil_iff]
  cases f.defects <;> simp [firstOr]

/-- The blocks of a sound function and their successors have their place in a table of that many
entries. -/
theorem Sound.layout_in_range {f : Func} (hs : f.Sound) {n : Nat} (hn : n = f.blocks.size) :
    ∀ b ∈ f.layout, b.1.index < n ∧ ∀ s ∈ b.2.succs, s.index < n := by
  rintro ⟨b, block⟩ hb
  have hblock := mem_layout.mp hb
  rw [hn]
  exact ⟨(Array.getElem?_eq_some_iff.mp hblock).1,
    fun s hsucc => hs.succs block (Array.mem_of_getElem? hblock) s hsucc⟩

/-- A report of a second listing is about two listings, the first of them the latest before the
second. -/
theorem duplicate_reported {f : Func} {i : InstId} {first second : BlockId}
    (h : .duplicateInstruction i first second ∈ f.defects) :
    ∃ before between after,
      f.programOrder = before ++ (first, i) :: between ++ (second, i) :: after ∧
        i ∉ between.map Prod.snd := by
  rcases mem_defects.mp h with ⟨-, h⟩ | ⟨b, -, h⟩ | ⟨⟨passed, b, j⟩, hp, h⟩
  · nomatch h
  · simp [strayDefects] at h
  · -- of the four checks only the second speaks of another listing
    have hdup : duplicate? passed b j = some (.duplicateInstruction i first second) := by
      obtain ⟨check, hcheck, rfl⟩ := List.mem_filterMap.mp h
      simp only [List.mem_cons, List.not_mem_nil, or_false] at hcheck
      rcases hcheck with hcheck | hcheck | hcheck | hcheck
      · unfold unknownInst? at hcheck
        split at hcheck <;> nomatch hcheck
      · exact hcheck.symm
      · obtain ⟨inst, -, hcheck⟩ := Option.bind_eq_some_iff.mp hcheck.symm
        obtain ⟨v, -, hcheck⟩ := Option.map_eq_some_iff.mp hcheck
        nomatch hcheck
      · obtain ⟨inst, -, hcheck⟩ := Option.bind_eq_some_iff.mp hcheck.symm
        unfold resultMismatch? at hcheck
        split at hcheck
        · nomatch hcheck
        · split at hcheck <;> nomatch hcheck
    obtain ⟨⟨c, i'⟩, hfind, heq⟩ := Option.map_eq_some_iff.mp hdup
    obtain ⟨rfl, rfl, rfl⟩ := Defect.duplicateInstruction.inj heq
    obtain ⟨hi, later, earlier, hrev, hlater⟩ := List.find?_eq_some_iff_append.mp hfind
    obtain rfl : i' = j := by simpa using hi
    obtain ⟨after, hsplit⟩ := mem_withBefore.mp hp
    have hpassed : passed = earlier.reverse ++ (c, i') :: later.reverse := by
      rw [← List.reverse_reverse passed, hrev]
      simp
    refine ⟨earlier.reverse, later.reverse, after, by rw [hsplit, hpassed], ?_⟩
    intro hmem
    obtain ⟨q, hq, hqi⟩ := List.mem_map.mp hmem
    have hne := hlater q (List.mem_reverse.mp hq)
    simp [hqi] at hne

/-! ## The headline -/

/-- **Validation is the first-defect function**: it answers the first of all defects; there is none
exactly if the function is sound; and where it reports a second listing, it names the block of the
latest listing before and then the block it has come to. -/
theorem validate_answers_first_defect (f : Func) :
    f.validate = firstOr () f.defects ∧ (f.defects = [] ↔ f.Sound) ∧ (f.validate = .ok () ↔ f.Sound) ∧
      ∀ i first second, f.validate = .error (.duplicateInstruction i first second) →
        ∃ before between after,
          f.programOrder = before ++ (first, i) :: between ++ (second, i) :: after ∧
            i ∉ between.map Prod.snd := by
  refine ⟨f.validate_eq_firstOr, f.defects_eq_nil_iff, f.validate_eq_ok_iff, ?_⟩
  intro i first second h
  apply duplicate_reported
  rw [validate_eq_firstOr] at h
  cases hdefects : f.defects with
  | nil =>
    rw [hdefects] at h
    nomatch h
  | cons d ds =>
    rw [hdefects] at h
    rw [← Except.error.inj h]
    exact List.mem_cons_self

-- one block, three things wrong with it; the scan stops at the edge
example : defects { name := "three", blocks := #[⟨[⟨5⟩, ⟨5⟩], [⟨0⟩, ⟨1⟩]⟩] }
    = [.straySuccessor ⟨0⟩ ⟨1⟩, .unknownInstruction ⟨0⟩ ⟨5⟩, .unknownInstruction ⟨0⟩ ⟨5⟩,
      .duplicateInstruction ⟨5⟩ ⟨0⟩ ⟨0⟩] := by decide

end Func

end Dataflow
