import Dataflow.Plan.Json
import Dataflow.Proofs.JsonTexts

/-!
# A plan survives being written

A plan is written by one rule and read by two readers, of values and of texts, which take more than
is ever written: members in any order, other spellings, and defaults for what is missing.

1. **A member gives a field** (`Plan.Gives`): what is written for a field of a plan is read as that
   field, in whichever spelling (`Plan.gives_members`).  Reading the draft of a value comes to the
   same as reading the value (`Plan.readPasses_draft` and the like).

2. **Members give fields** (`Plan.Fields.given`): of such members, one reader looks up the three it
   knows (`Plan.readFields_given`), and the other goes through all of them
   (`Plan.foldlM_readMember`).  They arrive at the same fields, if no name comes twice.

3. **Missing fields** (`Plan.WrittenAs.toPlan_eq`): a member may be left out if the default plan has
   it too.  It gives a field of either plan, so the field is as by default.

That the text of the members is read as their drafts is known from `Json.ofText_text`.
-/

namespace Dataflow

/-- **Every spelling is read**, the short one as well as the official one. -/
theorem Identity.ofText?_spelling {i : Identity} {spelling : String} (h : spelling ∈ i.spellings) :
    ofText? spelling = some i := by
  cases i with
  | value =>
    obtain rfl := List.mem_singleton.mp h
    decide
  | name =>
    obtain rfl | h := List.mem_cons.mp h
    · decide
    · obtain rfl := List.mem_singleton.mp h
      decide

/-- A cap is read back from its count. -/
theorem SweepCap.ofNat?_count (cap : SweepCap) : ofNat? cap.count = some cap :=
  dif_pos ⟨cap.pos, cap.le_max⟩

namespace Plan

/-! ## Both readers read a field alike -/

/-- The outside of a value, which there always is. -/
def viewJson (j : Json) : Except PlanError (Json.View Json) := .ok j.view

/-- A pass is read from a draft as from the value that the draft is of; so are the lists, identities
and caps below. -/
theorem readPass_draft (j : Json) : readPass viewDraft j.draft = readPass viewJson j := by
  rcases j with _ | _ | (_ | _ | _) | _ | _ | _ <;> rfl

theorem readPasses_draft (j : Json) : readPasses viewDraft j.draft = readPasses viewJson j := by
  cases j with
  | array items =>
    show (Json.itemDrafts items).mapM (readPass viewDraft) = items.mapM (readPass viewJson)
    rw [Json.itemDrafts_eq, List.mapM_map]
    exact congrArg (items.mapM ·) (funext readPass_draft)
  | number n => cases n <;> rfl
  | _ => rfl

theorem readIdentity_draft (j : Json) : readIdentity viewDraft j.draft = readIdentity viewJson j := by
  rcases j with _ | _ | (_ | _ | _) | _ | _ | _ <;> rfl

theorem readCap_draft (j : Json) : readCap viewDraft j.draft = readCap viewJson j := by
  rcases j with _ | _ | (_ | _ | _) | _ | _ | _ <;> rfl

/-! ## The members of a plan -/

/-- The value that the limit on sweeps is written as. -/
def capJson : Option SweepCap → Json
  | some cap => .number (.natural cap.count)
  | none => .null

/-- The members of a plan's object, with this spelling of its identity. -/
def members (p : Plan) (spelling : String) : List (String × Json) :=
  [("analyses", .array (p.passes.map fun k => .string k.text)),
    ("livenessDomain", .string spelling),
    ("maxSweeps", capJson p.cap)]

/-- A plan is written with all its members, under its official spelling. -/
theorem toJson_eq (p : Plan) : p.toJson = .object (p.members p.identity.text) := by
  cases p with
  | mk passes identity cap => cases cap <;> rfl

/-- A member gives a plan's field, if it has the name of one. -/
structure Gives (m : String × Json) (p : Plan) : Prop where
  passes : m.1 = "analyses" → readPasses viewJson m.2 = .ok p.passes
  identity : m.1 = "livenessDomain" → readIdentity viewJson m.2 = .ok p.identity
  cap : m.1 = "maxSweeps" → readCap viewJson m.2 = .ok p.cap

/-- **The passes are read back**, in order and as often as they are listed. -/
theorem readPasses_texts (passes : List PassKind) :
    readPasses viewJson (.array (passes.map fun k => .string k.text)) = .ok passes := by
  show (passes.map fun k => Json.string k.text).mapM (readPass viewJson) = .ok passes
  rw [List.mapM_map]
  induction passes with
  | nil => rfl
  | cons k passes ih =>
    have hk : readPass viewJson (.string k.text) = .ok k := by
      cases k <;> rfl
    rw [List.mapM_cons, Function.comp_apply, hk, ih]
    rfl

/-- **The identity is read back** from any of its spellings. -/
theorem readIdentity_spelling {i : Identity} {spelling : String} (h : spelling ∈ i.spellings) :
    readIdentity viewJson (.string spelling) = .ok i := by
  have hi := Identity.ofText?_spelling h
  simp [readIdentity, viewJson, Json.view, hi, bind, Except.bind, pure, Except.pure]

/-- **The cap is read back**, and so is its absence. -/
theorem readCap_capJson (cap : Option SweepCap) : readCap viewJson (capJson cap) = .ok cap := by
  cases cap with
  | none => rfl
  | some cap =>
    have hcap := cap.ofNat?_count
    simp [readCap, viewJson, capJson, Json.view, hcap, bind, Except.bind, pure, Except.pure]

/-- The members that a plan is written with give its fields. -/
theorem gives_members {p : Plan} {spelling : String} (h : spelling ∈ p.identity.spellings) :
    ∀ m ∈ p.members spelling, Gives m p := by
  simp only [members, List.forall_mem_cons, List.not_mem_nil, false_implies, implies_true, and_true]
  exact ⟨⟨fun _ => readPasses_texts p.passes, by simp, by simp⟩,
    ⟨by simp, fun _ => readIdentity_spelling h, by simp⟩,
    ⟨by simp, by simp, fun _ => readCap_capJson p.cap⟩⟩

/-! ## What the readers make of such members -/

/-- The fields that members of these names give. -/
def Fields.given (p : Plan) (names : List String) : Fields where
  passes := if "analyses" ∈ names then some p.passes else none
  identity := if "livenessDomain" ∈ names then some p.identity else none
  cap := if "maxSweeps" ∈ names then some p.cap else none

/-- What is looked up is some member of that name; it does not matter which, if all are read
alike. -/
theorem mapM_member? {β : Type} {read : Json → Except PlanError β} {value : β} {name : String}
    {ms : List (String × Json)} (h : ∀ m ∈ ms, m.1 = name → read m.2 = .ok value) :
    (Json.member? ms name).mapM read = .ok (if name ∈ ms.map Prod.fst then some value else none) := by
  cases hj : Json.member? ms name with
  | none =>
    have hname : name ∉ ms.map Prod.fst := by
      intro hmem
      obtain ⟨m, hm, rfl⟩ := List.mem_map.mp hmem
      have hne := List.lookup_eq_none_iff.mp hj m (List.mem_reverse.mpr hm)
      simp at hne
    rw [if_neg hname]
    rfl
  | some j =>
    obtain ⟨l, r, hl, -⟩ := List.lookup_eq_some_iff.mp hj
    have hm : (name, j) ∈ ms := by
      rw [← List.mem_reverse, hl]
      simp
    rw [if_pos (List.mem_map.mpr ⟨_, hm, rfl⟩)]
    show (some <$> read j : Except PlanError (Option β)) = _
    rw [h _ hm rfl]
    rfl

/-- **Looking fields up** finds what the members give. -/
theorem readFields_given {p : Plan} {ms : List (String × Json)} (h : ∀ m ∈ ms, Gives m p) :
    readFields viewJson (Json.member? ms "analyses") (Json.member? ms "livenessDomain")
      (Json.member? ms "maxSweeps") = .ok (.given p (ms.map Prod.fst)) := by
  rw [readFields, mapM_member? fun m hm => (h m hm).passes, mapM_member? fun m hm => (h m hm).identity,
    mapM_member? fun m hm => (h m hm).cap]
  rfl

/-- **One more member** of a new name adds the field that it gives. -/
theorem readMember_given {p : Plan} {m : String × Json} (h : Gives m p) {names : List String}
    (hm : m.1 ∉ names) :
    readMember (.given p names) (some m.1, m.2.draft) = .ok (.given p (names ++ [m.1])) := by
  obtain ⟨name, value⟩ := m
  by_cases hpasses : name = "analyses"
  · subst hpasses
    have hread := (readPasses_draft value).trans (h.passes rfl)
    simp [readMember, Fields.given, hm, hread, bind, Except.bind, pure, Except.pure]
  by_cases hidentity : name = "livenessDomain"
  · subst hidentity
    have hread := (readIdentity_draft value).trans (h.identity rfl)
    simp [readMember, Fields.given, hm, hread, bind, Except.bind, pure, Except.pure]
  by_cases hcap : name = "maxSweeps"
  · subst hcap
    have hread := (readCap_draft value).trans (h.cap rfl)
    simp [readMember, Fields.given, hm, hread, bind, Except.bind, pure, Except.pure]
  · simp [readMember, Fields.given, hpasses, hidentity, hcap, Ne.symm, pure, Except.pure]

/-- **Reading from front to back** finds what the members give, if no name comes twice. -/
theorem foldlM_readMember {p : Plan} {ms : List (String × Json)} (h : ∀ m ∈ ms, Gives m p)
    {names : List String} (hnodup : (names ++ ms.map Prod.fst).Nodup) :
    (ms.map fun m => (some m.1, m.2.draft)).foldlM readMember (.given p names)
      = .ok (.given p (names ++ ms.map Prod.fst)) := by
  induction ms generalizing names with
  | nil =>
    rw [List.map_nil, List.map_nil, List.append_nil]
    rfl
  | cons m ms ih =>
    rw [List.map_cons, List.append_cons] at hnodup
    have hm : m.1 ∉ names := fun hmem =>
      (List.nodup_append.mp (List.nodup_append.mp hnodup).1).2.2 _ hmem _ List.mem_cons_self rfl
    rw [List.map_cons, List.map_cons, List.append_cons, List.foldlM_cons,
      readMember_given (h m List.mem_cons_self) hm]
    exact ih (fun k hk => h k (List.mem_cons_of_mem m hk)) hnodup

/-- Fields that are not given make no difference if they are as by default. -/
theorem toPlan_given {p : Plan} {names : List String}
    (hpasses : "analyses" ∉ names → p.passes = ({} : Plan).passes)
    (hidentity : "livenessDomain" ∉ names → p.identity = ({} : Plan).identity)
    (hcap : "maxSweeps" ∉ names → p.cap = ({} : Plan).cap) : (Fields.given p names).toPlan = p := by
  have hgetD : ∀ {β : Type} {value default : β} {name : String}, (name ∉ names → value = default) →
      (if name ∈ names then some value else none).getD default = value := by
    intro β value default name h
    split
    · rfl
    · exact (h ‹_›).symm
  cases p with
  | mk passes identity cap =>
    rw [Fields.toPlan, Plan.mk.injEq]
    exact ⟨hgetD hpasses, hgetD hidentity, hgetD hcap⟩

/-! ## Other ways to write a plan -/

/-- Another way to write a plan: its identity in any spelling, its members in any order, and without
some of those that the default plan has as well. -/
def WrittenAs (p : Plan) (ms : List (String × Json)) : Prop :=
  ∃ spelling ∈ p.identity.spellings, ∃ left, (ms ++ left).Perm (p.members spelling) ∧
    ∀ m ∈ left, m ∈ ({} : Plan).members ({} : Plan).identity.text

theorem text_mem_spellings (i : Identity) : i.text ∈ i.spellings := by
  cases i <;> exact List.mem_cons_self

/-- Writing all members is one way to write a plan. -/
theorem writtenAs_members (p : Plan) : p.WrittenAs (p.members p.identity.text) :=
  ⟨_, text_mem_spellings p.identity, [], by rw [List.append_nil], fun _ hm => nomatch hm⟩

namespace WrittenAs

variable {p : Plan} {ms : List (String × Json)}

/-- However it is written, each member gives a field of the plan. -/
theorem gives (h : p.WrittenAs ms) : ∀ m ∈ ms, Gives m p := by
  obtain ⟨spelling, hspelling, left, hperm, -⟩ := h
  exact fun m hm => gives_members hspelling m (hperm.mem_iff.mp (List.mem_append_left left hm))

/-- No name comes twice. -/
theorem nodup (h : p.WrittenAs ms) : (ms.map Prod.fst).Nodup := by
  obtain ⟨spelling, -, left, hperm, -⟩ := h
  have hnames : ((p.members spelling).map Prod.fst).Nodup := by
    show ["analyses", "livenessDomain", "maxSweeps"].Nodup
    decide
  have hall := (hperm.map Prod.fst).nodup_iff.mpr hnames
  rw [List.map_append] at hall
  exact (List.nodup_append.mp hall).1

/-- **What is missing is as by default**, so the fields given make the plan. -/
theorem toPlan_eq (h : p.WrittenAs ms) : (Fields.given p (ms.map Prod.fst)).toPlan = p := by
  obtain ⟨spelling, hspelling, left, hperm, hdefault⟩ := h
  -- a missing member gives a field of the plan and the same field of the default plan
  have hboth : ∀ m ∈ p.members spelling, m.1 ∉ ms.map Prod.fst → Gives m p ∧ Gives m {} := by
    intro m hm hmissing
    obtain hms | hleft := List.mem_append.mp (hperm.mem_iff.mpr hm)
    · exact absurd (List.mem_map_of_mem hms) hmissing
    · exact ⟨gives_members hspelling m hm, gives_members (text_mem_spellings _) m (hdefault m hleft)⟩
  refine toPlan_given (fun hname => ?_) (fun hname => ?_) (fun hname => ?_)
  · obtain ⟨hp, hd⟩ := hboth _ List.mem_cons_self hname
    exact Except.ok.inj ((hp.passes rfl).symm.trans (hd.passes rfl))
  · obtain ⟨hp, hd⟩ := hboth _ (List.mem_cons_of_mem _ List.mem_cons_self) hname
    exact Except.ok.inj ((hp.identity rfl).symm.trans (hd.identity rfl))
  · obtain ⟨hp, hd⟩ :=
      hboth _ (List.mem_cons_of_mem _ (List.mem_cons_of_mem _ List.mem_cons_self)) hname
    exact Except.ok.inj ((hp.cap rfl).symm.trans (hd.cap rfl))

/-- The value is read as the plan. -/
theorem ofJson_eq (h : p.WrittenAs ms) : ofJson (.object ms) = .ok p := by
  show (readFields viewJson (Json.member? ms "analyses") (Json.member? ms "livenessDomain")
    (Json.member? ms "maxSweeps") >>= fun fields => .ok fields.toPlan) = .ok p
  rw [readFields_given h.gives]
  exact congrArg Except.ok h.toPlan_eq

/-- And the text of such an object is read back. -/
theorem reads (h : p.WrittenAs ms) : Json.Reads (.object ms) := by
  obtain ⟨spelling, -, left, hperm, -⟩ := h
  have hpasses : Json.Reads (.array (p.passes.map fun k => .string k.text)) := by
    refine Json.reads_array fun j hj => ?_
    obtain ⟨k, -, rfl⟩ := List.mem_map.mp hj
    exact Json.reads_string k.text
  have hcap : Json.Reads (capJson p.cap) := by
    cases p.cap with
    | none => exact Json.reads_null
    | some cap => exact Json.reads_natural cap.le_max
  have hall : ∀ m ∈ p.members spelling, Json.Reads m.2 := by
    simpa [members] using ⟨hpasses, Json.reads_string spelling, hcap⟩
  exact Json.reads_object fun m hm => hall m (hperm.mem_iff.mp (List.mem_append_left left hm))

/-- The text is read as the plan. -/
theorem ofText_eq (h : p.WrittenAs ms) : ofText (Json.object ms).text = .ok p := by
  have hfields := foldlM_readMember h.gives (show ([] ++ ms.map Prod.fst).Nodup from h.nodup)
  have hdraft : ofDraft (Json.object ms).draft = .ok p := by
    show ((Json.memberDrafts ms).foldlM readMember {} >>= fun fields => .ok fields.toPlan) = .ok p
    rw [Json.memberDrafts_eq]
    exact (congrArg (· >>= _) hfields).trans (congrArg Except.ok h.toPlan_eq)
  rw [ofText, Json.ofText_text h.reads]
  exact congrArg (· >>= _) hdraft

end WrittenAs

/-! ## The headline -/

/-- **A plan survives being written.**  For every plan, whatever analyses it lists, with either
identity and any limit on sweeps or none:

1. it is written as an object of its three members, with the main spelling of its identity;
2. the value and its text are both read as that plan;
3. so are a value and a text with its members in any order, its identity in any spelling, and
   without any of the members that the default plan is written with as well;
4. and what is read so is written again as in (1). -/
theorem json_keeps_plan (p : Plan) :
    p.toJson = .object (p.members p.identity.text) ∧
    (ofJson p.toJson = .ok p ∧ ofText p.toJson.text = .ok p) ∧
    ∀ ms, p.WrittenAs ms →
      (ofJson (.object ms) = .ok p ∧ ofText (Json.object ms).text = .ok p) ∧
      (ofJson (.object ms)).map toJson = .ok p.toJson ∧
      (ofText (Json.object ms).text).map toJson = .ok p.toJson := by
  have hfull := p.writtenAs_members
  refine ⟨p.toJson_eq, ?_, fun ms hms => ?_⟩
  · rw [toJson_eq]
    exact ⟨hfull.ofJson_eq, hfull.ofText_eq⟩
  · rw [hms.ofJson_eq, hms.ofText_eq]
    exact ⟨⟨rfl, rfl⟩, rfl, rfl⟩

/-- The default analyses, with locations told apart by name and the largest limit on sweeps. -/
def named : Plan := { identity := .name, cap := some ⟨Sweep.maxCount, by decide, Nat.le_refl _⟩ }

/-- The same without the analyses, in the other order and in the other spelling. -/
def namedShort : List (String × Json) :=
  [("maxSweeps", .number (.natural Sweep.maxCount)), ("livenessDomain", .string "named")]

theorem writtenAs_namedShort : named.WrittenAs namedShort := by
  refine ⟨"named", by decide, [("analyses", .array (named.passes.map fun k => .string k.text))], ?_, ?_⟩
  · exact List.reverse_perm (named.members "named")
  · intro m hm
    obtain rfl := List.mem_singleton.mp hm
    exact List.mem_cons_self

theorem text_namedShort :
    (Json.object namedShort).text
      = "\x7b\"maxSweeps\":18446744073709551615,\"livenessDomain\":\"named\"\x7d" := by
  decide +kernel

/-- A short way to write a plan is read as the plan, which is then written in full. -/
theorem json_keeps_named :
    named.WrittenAs namedShort ∧ ofJson (.object namedShort) = .ok named ∧
    ofText "\x7b\"maxSweeps\":18446744073709551615,\"livenessDomain\":\"named\"\x7d" = .ok named ∧
    (ofJson (.object namedShort)).map toJson = .ok named.toJson := by
  obtain ⟨⟨hjson, htext⟩, hagain, -⟩ := (json_keeps_plan named).2.2 namedShort writtenAs_namedShort
  rw [text_namedShort] at htext
  exact ⟨writtenAs_namedShort, hjson, htext, hagain⟩

end Plan

end Dataflow
