import Dataflow.Json.Draft

/-!
# The text of a value reads back

A value is written without blanks and read by a reader that never fails.  Read whole, the text of a
value is its draft (`Json.draft`), and nothing is left over.

1. **Strings** (`Json.exists_readString?`): what a character is written as, plain or escaped, is
   read as that one character.

2. **Numbers** (`Json.readNumber?_toString`): the digits of a number that fits in a word are taken
   in one by one.  A number does not end by itself, so what follows must be something that cannot go
   on with it (`Json.Stops`).

3. **Arrays and objects** are read part by part, and both readers do the same with a comma and with
   the end (`Json.ReadsParts`).  One induction over the parts (`Json.ReadsParts.rest`) serves both.

That a value reads back (`Json.Reads`) is said for any text behind it and for any fuel that is at
least the length of its own text; so it passes from the parts of a value to the value.
-/

namespace Dataflow

namespace Json

open Draft

/-! ## The draft of a value -/

mutual

/-- The draft of a value, when its text is read whole. -/
def draft : Json → Draft
  | .null => .null
  | .bool b => .bool b
  | .number n => .number n
  | .string s => .string s
  | .array items => .array (itemDrafts items)
  | .object members => .object (memberDrafts members)

/-- The drafts of items. -/
def itemDrafts : List Json → List Draft
  | [] => []
  | item :: rest => item.draft :: itemDrafts rest

/-- The drafts of members, with their names. -/
def memberDrafts : List (String × Json) → List (Option String × Draft)
  | [] => []
  | (name, value) :: rest => (some name, value.draft) :: memberDrafts rest

end

theorem itemDrafts_eq (items : List Json) : itemDrafts items = items.map draft := by
  induction items with
  | nil => rfl
  | cons item items ih => rw [itemDrafts, ih, List.map_cons]

theorem memberDrafts_eq (members : List (String × Json)) :
    memberDrafts members = members.map fun m => (some m.1, m.2.draft) := by
  induction members with
  | nil => rfl
  | cons m members ih => rw [memberDrafts, ih, List.map_cons]

theorem itemTexts_eq (items : List Json) : itemTexts items = items.map text := by
  induction items with
  | nil => rfl
  | cons item items ih => rw [itemTexts, ih, List.map_cons]

/-- The text of a member. -/
def memberText (m : String × Json) : String := stringText m.1 ++ ":" ++ m.2.text

theorem memberTexts_eq (members : List (String × Json)) :
    memberTexts members = members.map memberText := by
  induction members with
  | nil => rfl
  | cons m members ih => rw [memberTexts, ih, List.map_cons, memberText]

/-! ## Strings -/

/-- An escape of two characters stands for one unit. -/
theorem readUnits?_escape {c : Char} {n : Nat} (hc : escape? c = some n) (hu : c ≠ 'u')
    (units : List Nat) (rest : List Char) :
    readUnits? units ('\\' :: c :: rest) = readUnits? (n :: units) rest := by
  rw [readUnits?, hc]
  intro a b d e rest' h
  exact absurd h hu

/-- An escape `\u00ab` stands for the unit of its two digits. -/
theorem readUnits?_hex {a b : Char} {m n : Nat} (ha : hexDigit? a = some m) (hb : hexDigit? b = some n)
    (units : List Nat) (rest : List Char) :
    readUnits? units ('\\' :: 'u' :: '0' :: '0' :: a :: b :: rest)
      = readUnits? ((m * 16 + n) :: units) rest := by
  have hzero : hexDigit? '0' = some 0 := rfl
  rw [readUnits?, hzero, ha, hb]
  simp

/-- Any character that needs no escape stands for itself. -/
theorem readUnits?_plain {c : Char} (hquote : c ≠ '"') (hslash : c ≠ '\\') (hcontrol : 0x20 ≤ c.toNat)
    (units : List Nat) (rest : List Char) :
    readUnits? units (c :: rest) = readUnits? (c.toNat :: units) rest := by
  have hplain : ¬ (decide (c.toNat < 0x20) || decide (c = '\\')) = true := by
    simp only [hslash, decide_false, Bool.or_false, decide_eq_true_eq]
    omega
  rw [readUnits?, if_neg hplain]
  · exact hquote
  · intro a b d e rest' h
    exact absurd h hslash
  · intro a b h
    exact absurd h hslash

/-- A digit below sixteen is read as the number it was written for. -/
theorem hexDigit?_digitChar : ∀ d < 16, hexDigit? (Nat.digitChar d) = some d := by decide

/-- A control is written with two hexadecimal digits. -/
theorem toList_hex_control : ∀ n < 0x20,
    ("\\u00" ++ (if n < 0x10 then "0" else "") ++ Text.hex n).toList
      = ['\\', 'u', '0', '0', Nat.digitChar (n / 16), Nat.digitChar (n % 16)] := by
  decide +kernel

/-- **A character reads back.** -/
theorem readUnits?_charText (c : Char) (units : List Nat) (rest : List Char) :
    readUnits? units ((charText c).toList ++ rest) = readUnits? (c.toNat :: units) rest := by
  unfold charText
  split
  -- the escapes of one letter
  iterate 7
    · exact readUnits?_escape rfl (by decide) units rest
  · next hquote hslash _ _ _ _ _ =>
    split
    · next hcontrol =>
      have hhigh := hexDigit?_digitChar (c.toNat / 16) (by omega)
      have hlow := hexDigit?_digitChar (c.toNat % 16) (by omega)
      have hvalue : c.toNat / 16 * 16 + c.toNat % 16 = c.toNat := by omega
      rw [toList_hex_control c.toNat hcontrol]
      show readUnits? units ('\\' :: 'u' :: '0' :: '0' :: _ :: _ :: rest) = _
      rw [readUnits?_hex hhigh hlow, hvalue]
    · next hplain =>
      rw [Char.toString, String.toList_singleton]
      exact readUnits?_plain hquote hslash (Nat.le_of_not_lt hplain) units rest

/-- The escaped characters of a string are read back up to the closing quote. -/
theorem readUnits?_chars (cs : List Char) (units : List Nat) (rest : List Char) :
    readUnits? units (cs.flatMap (fun c => (charText c).toList) ++ '"' :: rest)
      = some (units.reverse ++ cs.map Char.toNat, rest) := by
  induction cs generalizing units with
  | nil => simp [readUnits?]
  | cons c cs ih =>
    rw [List.flatMap_cons, List.append_assoc, readUnits?_charText, ih]
    simp

/-- A character is no half of a pair. -/
theorem not_half (c : Char) : isHighHalf c.toNat = false ∧ isLowHalf c.toNat = false := by
  have hvalid : c.toNat < 0xd800 ∨ 0xdfff < c.toNat ∧ c.toNat < 0x110000 := c.valid
  simp only [isHighHalf, isLowHalf, Bool.and_eq_false_iff, decide_eq_false_iff_not]
  omega

/-- Code points of characters hold no halves of surrogate pairs, so each is its character. -/
theorem joinUnits?_chars (cs : List Char) : joinUnits? (cs.map Char.toNat) = some cs := by
  induction cs with
  | nil => rfl
  | cons c cs ih =>
    cases cs with
    | nil => simp [joinUnits?, not_half, Char.ofNat_toNat]
    | cons d cs =>
      rw [List.map_cons] at ih
      simp [joinUnits?, not_half, ih, Char.ofNat_toNat]

/-- **A string reads back**, whatever follows its closing quote. -/
theorem exists_readString? (s : String) (rest : List Char) :
    ∃ cs, (stringText s).toList ++ rest = '"' :: cs ∧ readString? cs = some (some s, rest) := by
  refine ⟨s.toList.flatMap (fun c => (charText c).toList) ++ '"' :: rest, ?_, ?_⟩
  · simp [stringText, List.flatMap_map]
  · simp [readString?, readUnits?_chars, joinUnits?_chars]

/-! ## Numbers -/

/-- What may follow a number: no digit, no point and no mark of an exponent. -/
def Stops (rest : List Char) : Prop :=
  ∀ c ∈ rest.head?, c.isDigit = false ∧ c ≠ '.' ∧ c ≠ 'e' ∧ c ≠ 'E'

/-- The digits of a number are taken to the last, and no character more. -/
theorem takeDigits_toDigits (n : Nat) {rest : List Char} (h : Stops rest) :
    takeDigits (Nat.toDigits 10 n ++ rest) = ((Nat.toDigits 10 n).map digit, rest) := by
  have hdigits : ∀ c ∈ Nat.toDigits 10 n, c.isDigit = true :=
    fun c hc => Nat.isDigit_of_mem_toDigits (by decide) (by decide) hc
  have htake : rest.takeWhile Char.isDigit = [] := by
    cases rest with
    | nil => rfl
    | cons c rest => simp [(h c rfl).1]
  have hdrop : rest.dropWhile Char.isDigit = rest := by
    cases rest with
    | nil => rfl
    | cons c rest => simp [(h c rfl).1]
  rw [takeDigits, List.takeWhile_append_of_pos hdigits, List.dropWhile_append_of_pos hdigits, htake,
    hdrop, List.append_nil]

theorem exists_toDigits (n : Nat) : ∃ c cs, Nat.toDigits 10 n = c :: cs ∧ c.isDigit = true := by
  obtain ⟨c, cs, hcs⟩ := List.exists_cons_of_ne_nil (Nat.toDigits_ne_nil (n := n) (b := 10))
  have hc : c ∈ Nat.toDigits 10 n := hcs ▸ List.mem_cons_self
  exact ⟨c, cs, hcs, Nat.isDigit_of_mem_toDigits (by decide) (by decide) hc⟩

/-- Only zero starts with the digit zero. -/
theorem head_ne_zero {n : Nat} (hn : 0 < n) {c : Char} {cs : List Char}
    (h : Nat.toDigits 10 n = c :: cs) :
    c ≠ '0' := by
  induction n using Nat.strongRecOn generalizing cs with
  | ind n ih =>
    by_cases hlt : n < 10
    · rw [Nat.toDigits_of_lt_base hlt] at h
      obtain ⟨rfl, -⟩ := List.cons.inj h
      rw [ne_eq, Nat.digitChar_eq_zero]
      omega
    · obtain ⟨d, ds, hds, -⟩ := exists_toDigits (n / 10)
      rw [Nat.toDigits_of_base_le (by decide) (by omega), hds] at h
      obtain ⟨rfl, -⟩ := List.cons.inj h
      exact ih (n / 10) (by omega) (by omega) hds

theorem digit_ne_zero {c : Char} (hc : c.isDigit = true) (h : c ≠ '0') : digit c ≠ 0 := by
  intro hzero
  have hge : 48 ≤ c.toNat := by
    rw [Char.isDigit_iff_toNat] at hc
    exact hc.1
  have hval : c.toNat = '0'.toNat := by
    rw [digit] at hzero
    show c.toNat = 48
    omega
  exact h (Char.toNat_inj.mp hval)

/-- No leading zero is in the way: the whole part of a number's text is its digits. -/
theorem readWhole?_toDigits (n : Nat) {rest : List Char} (h : Stops rest) :
    readWhole? (Nat.toDigits 10 n ++ rest) = some ((Nat.toDigits 10 n).map digit, rest) := by
  rw [readWhole?, takeDigits_toDigits n h]
  rcases Nat.eq_zero_or_pos n with rfl | hn
  · rfl
  · obtain ⟨c, cs, hcs, hc⟩ := exists_toDigits n
    have hne := digit_ne_zero hc (head_ne_zero hn hcs)
    rw [hcs, List.map_cons]
    split
    · next heq => nomatch heq
    · next heq => exact absurd (List.cons.inj (Prod.mk.inj heq).1).1 hne
    · next heq => rw [← (Prod.mk.inj heq).1, ← (Prod.mk.inj heq).2]

/-- More digits make no number smaller. -/
theorem le_foldl_digits (ds : List Nat) (m : Nat) : m ≤ ds.foldl (fun n d => n * 10 + d) m := by
  induction ds generalizing m with
  | nil => exact Nat.le_refl m
  | cons d ds ih =>
    have := ih (m * 10 + d)
    rw [List.foldl_cons]
    omega

/-- Digits of a number that fits are all taken in. -/
theorem absorb_eq {ds : List Nat} {m : Nat} (h : ds.foldl (fun n d => n * 10 + d) m ≤ Number.maxWord) :
    Number.absorb m ds = (ds.foldl (fun n d => n * 10 + d) m, []) := by
  induction ds generalizing m with
  | nil => rfl
  | cons d ds ih =>
    rw [List.foldl_cons] at h ⊢
    have hfits := Nat.le_trans (le_foldl_digits ds (m * 10 + d)) h
    rw [Number.absorb, if_pos hfits, ih h]

/-- The value of the digits of `n` is `n`. -/
theorem foldl_digit_toDigits (n : Nat) :
    ((Nat.toDigits 10 n).map digit).foldl (fun n d => n * 10 + d) 0 = n := by
  have hsum : Nat.ofDigitChars 10 (Nat.toDigits 10 n) 0 = n := Nat.ofDigitChars_ten_toDigits
  rw [Nat.ofDigitChars_eq_foldl] at hsum
  rw [List.foldl_map]
  refine Eq.trans ?_ hsum
  congr
  funext m c
  rw [Nat.mul_comm]
  rfl

/-- **A number that fits reads back**, if nothing follows that would be part of it. -/
theorem readNumber?_toString {n : Nat} (hn : n ≤ Number.maxWord) {rest : List Char} (h : Stops rest) :
    readNumber? ((toString n).toList ++ rest) = some (.number (.natural n), rest) := by
  rw [Nat.toString_eq_ofList_toDigits, String.toList_ofList]
  obtain ⟨c, cs, hcs, hc⟩ := exists_toDigits n
  have hsign : c ≠ '-' := by
    rintro rfl
    nomatch hc
  have hwhole := readWhole?_toDigits n h
  have habsorb : Number.absorb 0 ((Nat.toDigits 10 n).map digit) = (n, []) := by
    rw [absorb_eq (by rw [foldl_digit_toDigits]; exact hn), foldl_digit_toDigits]
  have hfraction : readFraction? rest = some (none, rest) := by
    cases rest with
    | nil => rfl
    | cons c rest => simp [readFraction?, (h c rfl).2.1]
  have hexponent : readExponent? rest = some (none, rest) := by
    cases rest with
    | nil => rfl
    | cons c rest => simp [readExponent?, (h c rfl).2.2]
  have hparts : Number.ofParts? ⟨false, (Nat.toDigits 10 n).map digit, none, none⟩
      = some (.natural n) := by
    simp [Number.ofParts?, habsorb]
  rw [hcs, List.map_cons] at hparts
  rw [hcs, List.cons_append] at hwhole ⊢
  unfold readNumber?
  simp [hsign, hwhole, hfraction, hexponent, hparts]

/-! ## Values -/

/-- Nothing is skipped in front of what is no blank. -/
theorem skipBlanks_cons {c : Char} (h : isBlank c = false) (cs : List Char) :
    skipBlanks (c :: cs) = c :: cs := by
  rw [skipBlanks, List.dropWhile_cons, h]
  rfl

/-- The text of a value starts with something other than a blank or a closing bracket, and is read
as the value, whatever follows that is not part of a number. -/
structure Reads (j : Json) : Prop where
  head : ∃ c cs, j.text.toList = c :: cs ∧ isBlank c = false ∧ c ≠ ']'
  read : ∀ (fuel : Nat) (rest : List Char), j.text.toList.length ≤ fuel → Stops rest →
    readValue fuel (j.text.toList ++ rest) = (j.draft, some rest)

theorem reads_null : Reads .null where
  head := ⟨'n', ['u', 'l', 'l'], rfl, rfl, by decide⟩
  read := by
    intro fuel rest hfuel _
    obtain ⟨fuel, rfl⟩ := Nat.exists_eq_add_of_le' hfuel
    rfl

theorem reads_string (s : String) : Reads (.string s) where
  head := by
    obtain ⟨cs, hcs, -⟩ := exists_readString? s []
    rw [List.append_nil] at hcs
    exact ⟨'"', cs, hcs, rfl, by decide⟩
  read := by
    intro fuel rest hfuel _
    obtain ⟨cs, hcs, hread⟩ := exists_readString? s rest
    cases fuel with
    | zero => simp [text, stringText] at hfuel
    | succ fuel =>
      show readValue (fuel + 1) ((stringText s).toList ++ rest) = _
      rw [hcs, readValue, skipBlanks_cons rfl]
      simp only [hread]
      rfl

theorem reads_natural {n : Nat} (hn : n ≤ Number.maxWord) : Reads (.number (.natural n)) := by
  obtain ⟨c, cs, hcs, hc⟩ := exists_toDigits n
  have htext : (toString n).toList = c :: cs := by
    rw [Nat.toString_eq_ofList_toDigits, String.toList_ofList, hcs]
  have hother : ∀ d : Char, d.isDigit = false → c ≠ d := by
    rintro d hd rfl
    rw [hc] at hd
    nomatch hd
  have hblank : isBlank c = false := by simp [isBlank, hother]
  refine ⟨⟨c, cs, htext, hblank, hother _ rfl⟩, fun fuel rest hfuel hstops => ?_⟩
  have hread := readNumber?_toString hn hstops
  change (toString n).toList.length ≤ fuel at hfuel
  show readValue fuel ((toString n).toList ++ rest) = _
  rw [htext] at hfuel hread ⊢
  cases fuel with
  | zero => nomatch hfuel
  | succ fuel =>
    rw [List.cons_append] at hread ⊢
    rw [readValue, skipBlanks_cons hblank]
    simp [hother, hread, draft]

/-! ## Arrays and objects -/

/-- The text behind a part: the other parts, each after its comma, and what follows them. -/
def behind {α : Type} (shown : α → String) (xs : List α) (rest : List Char) : List Char :=
  xs.foldr (fun x rest => ',' :: ((shown x).toList ++ rest)) rest

/-- Texts with commas between them: the first one, and the others behind it. -/
theorem toList_intercalate_comma {α : Type} (shown : α → String) (x : α) (xs : List α)
    (rest : List Char) :
    (",".intercalate ((x :: xs).map shown)).toList ++ rest
      = (shown x).toList ++ behind shown xs rest := by
  induction xs generalizing x with
  | nil =>
    rw [List.map_cons, List.map_nil, String.intercalate_singleton]
    rfl
  | cons y xs ih =>
    rw [List.map_cons, List.map_cons, String.intercalate_cons_cons, String.toList_append,
      String.toList_append, List.append_assoc, ← List.map_cons, ih, List.append_assoc]
    rfl

/-- A reader of parts up to a last character: where the text of one of the `xs` is due, it reads
that part and goes on behind it. -/
structure ReadsParts {α β : Type} (read : Nat → Bool → List Char → List β × Option (List Char))
    (last : Char) (shown : α → String) (part : α → β) (xs : List α) : Prop where
  last_eq : last = ']' ∨ last = '\x7d'
  done : ∀ (fuel : Nat) (first : Bool) (rest : List Char),
    read (fuel + 1) first (last :: rest) = ([], some rest)
  head : ∀ x ∈ xs, ∃ c cs, (shown x).toList = c :: cs ∧ isBlank c = false ∧ c ≠ last
  next : ∀ x ∈ xs, ∀ {fuel : Nat} {first : Bool} {c : Char} {cs rest : List Char}, isBlank c = false →
    c ≠ last → afterComma? first (c :: cs) = some ((shown x).toList ++ rest) → Stops rest →
    (shown x).toList.length ≤ fuel →
    read (fuel + 1) first (c :: cs) = (part x :: (read fuel false rest).1, (read fuel false rest).2)

namespace ReadsParts

variable {α β : Type} {read : Nat → Bool → List Char → List β × Option (List Char)} {last : Char}
  {shown : α → String} {part : α → β} {x : α} {xs : List α}

theorem tail (h : ReadsParts read last shown part (x :: xs)) : ReadsParts read last shown part xs where
  last_eq := h.last_eq
  done := h.done
  head := fun y hy => h.head y (List.mem_cons_of_mem x hy)
  next := fun y hy => h.next y (List.mem_cons_of_mem x hy)

/-- What follows a part is no part of a number. -/
theorem stops (h : ReadsParts read last shown part xs) (rest : List Char) :
    Stops (behind shown xs (last :: rest)) := by
  intro d hd
  cases xs with
  | nil =>
    obtain rfl : last = d := Option.some.inj hd
    rcases h.last_eq with rfl | rfl <;> decide
  | cons x xs =>
    obtain rfl : ',' = d := Option.some.inj hd
    decide

/-- Parts after the first, each with its comma. -/
theorem rest (h : ReadsParts read last shown part xs) (fuel : Nat) (rest : List Char)
    (hfuel : (behind shown xs []).length < fuel) :
    read fuel false (behind shown xs (last :: rest)) = (xs.map part, some rest) := by
  induction xs generalizing fuel with
  | nil =>
    cases fuel with
    | zero => nomatch hfuel
    | succ fuel => exact h.done fuel false rest
  | cons x xs ih =>
    change (',' :: ((shown x).toList ++ behind shown xs [])).length < fuel at hfuel
    rw [List.length_cons, List.length_append] at hfuel
    cases fuel with
    | zero => nomatch hfuel
    | succ fuel =>
      have hcomma : ',' ≠ last := by rcases h.last_eq with rfl | rfl <;> decide
      have hdue : afterComma? false (behind shown (x :: xs) (last :: rest))
          = some ((shown x).toList ++ behind shown xs (last :: rest)) := rfl
      have hnext :=
        h.next x List.mem_cons_self rfl hcomma hdue (h.tail.stops rest) (show _ ≤ fuel by omega)
      exact hnext.trans (by rw [ih h.tail fuel (by omega), List.map_cons])

/-- All the parts. -/
theorem all (h : ReadsParts read last shown part xs) (fuel : Nat) (rest : List Char)
    (hfuel : (",".intercalate (xs.map shown)).toList.length < fuel) :
    read fuel true ((",".intercalate (xs.map shown)).toList ++ last :: rest)
      = (xs.map part, some rest) := by
  cases fuel with
  | zero => nomatch hfuel
  | succ fuel =>
    cases xs with
    | nil => exact h.done fuel true rest
    | cons x xs =>
      rw [← List.append_nil (String.toList _), toList_intercalate_comma, List.length_append] at hfuel
      rw [toList_intercalate_comma]
      obtain ⟨c, cs, hcs, hblank, hlast⟩ := h.head x List.mem_cons_self
      have hpos : 0 < (shown x).toList.length := by simp [hcs]
      have hdue : afterComma? true (c :: (cs ++ behind shown xs (last :: rest)))
          = some ((shown x).toList ++ behind shown xs (last :: rest)) := by
        rw [hcs]
        rfl
      have hnext :=
        h.next x List.mem_cons_self hblank hlast hdue (h.tail.stops rest) (show _ ≤ fuel by omega)
      rw [hcs, List.cons_append, hnext, h.tail.rest fuel rest (by omega), List.map_cons]

/-- A value whose text is its parts between two characters reads back. -/
theorem reads (h : ReadsParts read last shown part xs) (opening : Char) (build : List β → Draft)
    {j : Json} (htext : j.text.toList = opening :: ((",".intercalate (xs.map shown)).toList ++ [last]))
    (hdraft : j.draft = build (xs.map part)) (hblank : isBlank opening = false) (hend : opening ≠ ']')
    (hopen : ∀ (fuel : Nat) (cs : List Char), readValue (fuel + 1) (opening :: cs)
      = (build (read fuel true cs).1, (read fuel true cs).2)) : Reads j := by
  refine ⟨⟨opening, _, htext, hblank, hend⟩, fun fuel rest hfuel _ => ?_⟩
  rw [htext, List.length_cons, List.length_append, List.length_singleton] at hfuel
  cases fuel with
  | zero => nomatch hfuel
  | succ fuel =>
    rw [htext, List.cons_append, List.append_assoc, List.singleton_append, hopen,
      h.all fuel rest (by omega), hdraft]

end ReadsParts

/-- The reader of items reads the texts of values. -/
theorem readsParts_items {items : List Json} (h : ∀ j ∈ items, Reads j) :
    ReadsParts readItems ']' text draft items where
  last_eq := Or.inl rfl
  done := fun _ _ _ => rfl
  head := fun j hj => (h j hj).head
  next := by
    intro j hj fuel first c cs rest hblank hend hcomma hstops hfuel
    have hread := (h j hj).read fuel rest hfuel hstops
    rw [readItems, skipBlanks_cons hblank]
    simp [hend, hcomma, hread]

/-- **An array reads back** if its items do. -/
theorem reads_array {items : List Json} (h : ∀ j ∈ items, Reads j) : Reads (.array items) := by
  refine (readsParts_items h).reads '[' .array ?_ ?_ rfl (by decide) fun _ _ => rfl
  · rw [text, itemTexts_eq, String.toList_append, String.toList_append]
    rfl
  · rw [draft, itemDrafts_eq]

/-- The reader of members reads a name, a colon and the text of a value. -/
theorem readsParts_members {members : List (String × Json)} (h : ∀ m ∈ members, Reads m.2) :
    ReadsParts readMembers '\x7d' memberText (fun m => (some m.1, m.2.draft)) members where
  last_eq := Or.inr rfl
  done := fun _ _ _ => rfl
  head := by
    intro m _
    obtain ⟨cs, hcs, -⟩ := exists_readString? m.1 (':' :: m.2.text.toList)
    refine ⟨'"', cs, ?_, rfl, by decide⟩
    rw [← hcs]
    simp [memberText]
  next := by
    intro m hm fuel first c cs rest hblank hend hcomma hstops hfuel
    obtain ⟨quoted, hquoted, hname⟩ := exists_readString? m.1 (':' :: (m.2.text.toList ++ rest))
    have htext : (memberText m).toList ++ rest = '"' :: quoted := by
      rw [← hquoted]
      simp [memberText]
    have hvalue : m.2.text.toList.length ≤ fuel := by
      rw [memberText, String.toList_append, List.length_append] at hfuel
      omega
    have hread := (h m hm).read fuel rest hvalue hstops
    rw [readMembers, skipBlanks_cons hblank]
    simp [hend, hcomma, htext, skipBlanks_cons, hname, hread, isBlank]

/-- **An object reads back** if the values of its members do. -/
theorem reads_object {members : List (String × Json)} (h : ∀ m ∈ members, Reads m.2) :
    Reads (.object members) := by
  refine (readsParts_members h).reads '\x7b' .object ?_ ?_ rfl (by decide) fun _ _ => rfl
  · rw [text, memberTexts_eq, String.toList_append, String.toList_append]
    rfl
  · rw [draft, memberDrafts_eq]

/-- **The text of a value is read as that value** and as JSON to its end. -/
theorem ofText_text {j : Json} (h : Reads j) : Draft.ofText j.text = (j.draft, true) := by
  have hread := h.read (2 * j.text.toList.length + 4) [] (by omega) (fun _ hc => nomatch hc)
  rw [List.append_nil] at hread
  simp [Draft.ofText, hread, skipBlanks]

end Json

end Dataflow
