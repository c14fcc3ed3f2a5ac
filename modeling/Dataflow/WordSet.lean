/-!
# Sets of indices packed into words

A set of small natural numbers, one bit each, sixty-four to a word.  The list of words may be of any
length: a bit past its end is absent, and words of zeros at the end mean nothing.  Operations
lengthen the list when they need room and never shorten it, so equality has to look past trailing
zeros.

The view of a set is `contains`; every operation is determined by what it does to that.
-/

namespace Dataflow

/-- A set of indices: bit `i % 64` of word `i / 64` says whether `i` is a member. -/
structure WordSet where
  words : List UInt64 := []
deriving Repr

namespace WordSet

/-- The bit of an index within its word. -/
def bit (i : Nat) : UInt64 := 1 <<< (i % 64).toUInt64

/-- Whether an index is a member. -/
def contains (s : WordSet) (i : Nat) : Bool :=
  match s.words[i / 64]? with
  | some w => w &&& bit i != 0
  | none => false

instance : Membership Nat WordSet := ⟨fun s i => s.contains i = true⟩

instance (i : Nat) (s : WordSet) : Decidable (i ∈ s) := inferInstanceAs (Decidable (_ = true))

/-- The set without members. -/
def empty : WordSet := ⟨[]⟩

/-- The set without members, with room for the indices below `n`. -/
def withCapacity (n : Nat) : WordSet := ⟨List.replicate ((n + 63) / 64) 0⟩

/-- Lengthens a list of words with zeros up to `n`. -/
def padTo (n : Nat) (ws : List UInt64) : List UInt64 :=
  ws ++ List.replicate (n - ws.length) 0

/-- The set with `i`, and whether `i` is new to it: its bit is looked at, once there is room for it,
before it is set. -/
def insert (s : WordSet) (i : Nat) : Bool × WordSet :=
  let words := padTo (i / 64 + 1) s.words
  ((words[i / 64]?).getD 0 &&& bit i == 0, ⟨words.modify (i / 64) (· ||| bit i)⟩)

/-- The set with `i`. -/
def add (s : WordSet) (i : Nat) : WordSet := (s.insert i).2

/-- The set without `i`. -/
def erase (s : WordSet) (i : Nat) : WordSet :=
  ⟨s.words.modify (i / 64) (· &&& ~~~bit i)⟩

/-- The set without members, of the same length. -/
def clear (s : WordSet) : WordSet := ⟨s.words.map fun _ => 0⟩

/-- The members of a list. -/
def ofList (is : List Nat) : WordSet := is.foldl add empty

/-! ## Comparing -/

/-- Whether two lists of words agree up to zeros at the end. -/
def sameWords : List UInt64 → List UInt64 → Bool
  | [], vs => vs.all (· == 0)
  | ws, [] => ws.all (· == 0)
  | w :: ws, v :: vs => w == v && sameWords ws vs

/-- Whether two sets have the same members. -/
def same (s t : WordSet) : Bool := sameWords s.words t.words

instance : BEq WordSet := ⟨same⟩

/-! ## Joining -/

/-- A word with the bits of `v` that are not in `x`, and whether that makes it another word. -/
def joinWord (w v x : UInt64) : Bool × UInt64 :=
  let joined := w ||| (v &&& ~~~x)
  (joined != w, joined)

/-- Adds to the first list, word by word, the bits of the second that are not in the third, and
tells whether a word has become another one, there or before (`changed`).  The second list must not
be longer than the first; the third goes on with zeros. -/
def joinWords (changed : Bool) : List UInt64 → List UInt64 → List UInt64 → Bool × List UInt64
  | w :: ws, v :: vs, xs =>
    let (here, joined) := joinWord w v (xs.headD 0)
    let (changed, rest) := joinWords (changed || here) ws vs xs.tail
    (changed, joined :: rest)
  | ws, _, _ => (changed, ws)

/-- The set with every member of `t` that is not in `x`, and whether that is any news: it is if a
word has become another one. -/
def joinDiff (s t x : WordSet) : Bool × WordSet :=
  let (changed, words) := joinWords false (padTo t.words.length s.words) t.words x.words
  (changed, ⟨words⟩)

/-- The set with every member of `t`, and whether that is any news. -/
def join (s t : WordSet) : Bool × WordSet := s.joinDiff t empty

/-- The members of either set. -/
def union (s t : WordSet) : WordSet := (s.join t).2

/-- The members of `s`, and those of `t` that are not in `x`. -/
def unionDiff (s t x : WordSet) : WordSet := (s.joinDiff t x).2

/-! ## Listing -/

/-- The positions of the bits set in a word, ascending. -/
def bitsOf (w : UInt64) : List Nat :=
  (List.range 64).filter fun i => w &&& bit i != 0

/-- The members, ascending. -/
def toList (s : WordSet) : List Nat :=
  s.words.zipIdx.flatMap fun (w, k) => (bitsOf w).map (64 * k + ·)

/-- The number of members. -/
def size (s : WordSet) : Nat := s.words.foldl (fun n w => n + (bitsOf w).length) 0

/-- Whether there are no members. -/
def isEmpty (s : WordSet) : Bool := s.words.all (· == 0)

/-- On one line: `{3, 70}`. -/
def text (s : WordSet) : String :=
  "\x7b" ++ ", ".intercalate (s.toList.map toString) ++ "\x7d"

/-- One member a line, indented; an empty set stays on one line. -/
def textLines (s : WordSet) : String :=
  match s.toList with
  | [] => "\x7b\x7d"
  | is => "\x7b\n" ++ String.join (is.map fun i => s!"    {i},\n") ++ "\x7d"

/-! ## Small examples -/

example : (ofList [70, 3, 3]).toList = [3, 70] := by decide
example : (ofList [3] == (ofList [3, 70]).erase 70) = true := by decide
-- no news, though a word is added
example : ((ofList [3]).joinDiff (ofList [3, 70]) (ofList [70])).1 = false := by decide

end WordSet

end Dataflow
