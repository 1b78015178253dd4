import LifeCourse.Draft.Loading
import LifeCourse.Proofs.Condition.Writing
import LifeCourse.Proofs.Draft.Reordering

/-!
# Short forms

Three parts of a rule document may be written in a short form.  A branch may be one text, the
condition and the target with a colon between them; an entry of a pool may be one text as well, an
event and its weight with an asterisk between them; and the event that follows another one may stand
in a text.

* `BranchDraft.build_text`, `FollowUpDraft.build_event`, `PoolEntryDraft.build_text`: each short form
  builds what its long form does.
* `Draft.Shortens` is a draft beside the same one in which some parts stand in their long forms, and
  `Draft.Shortens.build_eq` says that the two build the same.
* `Draft.HasBadShortForm` is what keeps a draft with such texts from loading
  (`Draft.HasBadShortForm.not_exists_build`).

A text of two parts is taken apart where the number is that has to be a whole one: a branch at its
last colon, whatever the condition says, and a pool entry at its first asterisk.  So it is enough that
a whole number has neither, and nothing must be known of the other part.  That it may have blanks
around it is a matter of what a number consists of.  This is why a decimal is looked through as far
as its exponent here, in each of the forms that it has (`Decimal.not_isBlank_of_readFloat`).
-/

namespace LifeCourse

/-! ## Blanks around a text -/

/-- The text is another one with blanks around it, or with none. -/
def Text.Padded (core s : List Char) : Prop :=
  ∃ before after, (∀ c ∈ before, isBlank c = true) ∧ (∀ c ∈ after, isBlank c = true) ∧
    s = before ++ core ++ after

namespace Text.Padded

variable {core s : List Char} (h : Padded core s)
include h

theorem trim_eq (hcore : ∀ c ∈ core, isBlank c = false) : trim s = core := by
  obtain ⟨before, after, hbefore, hafter, rfl⟩ := h
  exact trim_pad hbefore hcore hafter

theorem not_mem {c : Char} (hc : isBlank c = false) (hcore : c ∉ core) : c ∉ s := by
  obtain ⟨before, after, hbefore, hafter, rfl⟩ := h
  have hblank : ¬isBlank c = true := by simp [hc]
  simp only [List.mem_append, not_or]
  exact ⟨⟨mt (hbefore c) hblank, hcore⟩, mt (hafter c) hblank⟩

end Text.Padded

/-! ## Numbers have no blanks -/

namespace Decimal

theorem not_isBlank_of_isDigit {c : Char} (h : c.isDigit = true) : Text.isBlank c = false :=
  (isInk_of_isAlphanum (by rw [Char.isAlphanum, h, Bool.or_true])).2

theorem not_isBlank_of_readDigits {s : List Char} {n : Nat} (h : readDigits s = some n) :
    ∀ c ∈ s, Text.isBlank c = false := by
  unfold readDigits at h
  split at h
  · rename_i hdigits
    exact fun c hc => not_isBlank_of_isDigit (List.all_eq_true.mp hdigits.2 c hc)
  · cases h

/-- A sign is no blank, so a number has none if it has none behind its sign. -/
theorem not_isBlank_of_splitSign {s : List Char}
    (h : ∀ c ∈ (splitSign s).2, Text.isBlank c = false) : ∀ c ∈ s, Text.isBlank c = false := by
  unfold splitSign at h
  split at h
  · exact List.forall_mem_cons.mpr ⟨rfl, h⟩
  · exact List.forall_mem_cons.mpr ⟨rfl, h⟩
  · exact h

theorem not_isBlank_of_readInteger {s : List Char} {n : Int} (h : readInteger s = some n) :
    ∀ c ∈ s, Text.isBlank c = false := by
  obtain ⟨digits, hdigits, -⟩ := Option.map_eq_some_iff.mp h
  exact not_isBlank_of_splitSign (not_isBlank_of_readDigits hdigits)

theorem not_isBlank_writeWhole (n : Int) : ∀ c ∈ writeWhole n, Text.isBlank c = false :=
  not_isBlank_of_readInteger (readInteger_writeWhole n)

/-- Behind the digits of a decimal stands nothing, or a letter and an exponent. -/
theorem not_isBlank_of_exponent {α : Type} {s : List Char} {value : Int → Option α} {x : α}
    (h : (match s with
      | [] => (some 0).bind value
      | c :: rest =>
        if c = 'e' ∨ c = 'E' then (readExponent rest).bind value else none.bind value) = some x) :
    ∀ c ∈ s, Text.isBlank c = false := by
  split at h
  · exact fun _ hc => absurd hc List.not_mem_nil
  · split at h
    · rename_i hletter
      obtain ⟨exponent, hexponent, -⟩ := Option.bind_eq_some_iff.mp h
      refine List.forall_mem_cons.mpr ⟨?_, not_isBlank_of_readInteger hexponent⟩
      rcases hletter with rfl | rfl <;> rfl
    · cases h

theorem not_isBlank_of_readUnsigned {s : List Char} {x : Float} (h : readUnsigned s = some x) :
    ∀ c ∈ s, Text.isBlank c = false := by
  rw [← List.takeWhile_append_dropWhile (p := Char.isDigit) (l := s), List.forall_mem_append]
  unfold readUnsigned at h
  dsimp only at h
  split at h
  · rename_i rest hpoint
    obtain ⟨n, hdigits, h⟩ := Option.bind_eq_some_iff.mp h
    obtain ⟨hwhole, hfraction⟩ := List.forall_mem_append.mp (not_isBlank_of_readDigits hdigits)
    rw [hpoint, ← List.takeWhile_append_dropWhile (p := Char.isDigit) (l := rest)]
    exact ⟨hwhole, List.forall_mem_cons.mpr
      ⟨rfl, List.forall_mem_append.mpr ⟨hfraction, not_isBlank_of_exponent h⟩⟩⟩
  · obtain ⟨n, hdigits, h⟩ := Option.bind_eq_some_iff.mp h
    rw [List.append_nil] at hdigits
    exact ⟨not_isBlank_of_readDigits hdigits, not_isBlank_of_exponent h⟩

/-- Small letters and capitals are no blanks, so a word has none in either. -/
theorem not_isBlank_of_toLower {s word : List Char} (h : s.map Char.toLower = word)
    (hword : word.any Text.isBlank = false) : ∀ c ∈ s, Text.isBlank c = false := by
  intro c hc
  have hlower : Text.isBlank c.toLower = false :=
    Bool.eq_false_iff.mpr (List.any_eq_false.mp hword _ (h ▸ List.mem_map_of_mem hc))
  unfold Char.toLower at hlower
  split at hlower
  · rename_i hcapital
    have hupper : c.isUpper = true := decide_eq_true hcapital
    have halphanum : (c.isUpper || c.isLower || c.isDigit) = true := by rw [hupper]; rfl
    exact (isInk_of_isAlphanum halphanum).2
  · exact hlower

theorem not_isBlank_of_readMagnitude {s : List Char} {x : Float} (h : readMagnitude s = some x) :
    ∀ c ∈ s, Text.isBlank c = false := by
  have hlower : ∀ {word : String}, String.ofList (s.map Char.toLower) = word →
      s.map Char.toLower = word.toList := by
    rintro _ rfl
    exact String.toList_ofList.symm
  unfold readMagnitude at h
  split at h
  · rename_i heq
    exact not_isBlank_of_toLower (hlower heq) rfl
  · rename_i heq
    exact not_isBlank_of_toLower (hlower heq) rfl
  · rename_i heq
    exact not_isBlank_of_toLower (hlower heq) rfl
  · exact not_isBlank_of_readUnsigned h

theorem not_isBlank_of_readFloat {s : List Char} {x : Float} (h : readFloat s = some x) :
    ∀ c ∈ s, Text.isBlank c = false := by
  obtain ⟨magnitude, hmagnitude, -⟩ := Option.map_eq_some_iff.mp h
  exact not_isBlank_of_splitSign (not_isBlank_of_readMagnitude hmagnitude)

end Decimal

theorem spacedWhole?_of_padded {id : Int} {s : List Char} (hid : Range.InRange id)
    (hs : Text.Padded (Decimal.writeWhole id) s) : spacedWhole? s = some id := by
  rw [spacedWhole?, hs.trim_eq (Decimal.not_isBlank_writeWhole id),
    Decimal.readWhole_writeWhole hid]

theorem spacedFloat?_of_padded {x : Float} {w s : List Char} (hw : Decimal.readFloat w = some x)
    (hs : Text.Padded w s) : spacedFloat? s = some x := by
  rw [spacedFloat?, hs.trim_eq (Decimal.not_isBlank_of_readFloat hw), hw]

/-! ## Each part in its short form -/

/-- Whatever stands in the condition, the last colon is the one before the target. -/
theorem BranchDraft.splitLast_eq (condition : String) {rest : String} (h : ':' ∉ rest.toList) :
    Text.splitLast ':' (condition ++ ":" ++ rest).toList =
      some (condition.toList, rest.toList) := by
  rw [String.toList_append, String.toList_append, List.append_assoc]
  exact Text.splitLast_append h condition.toList

theorem BranchDraft.build_text (event : Int) (condition : String) {target : Int} {s : String}
    (htarget : Range.InRange target) (hs : Text.Padded (Decimal.writeWhole target) s.toList) :
    BranchDraft.build event (.text (condition ++ ":" ++ s)) = .ok ⟨.ofText condition, target⟩ := by
  -- A number has no colon, and neither have the blanks around it.
  have hcolon : ':' ∉ s.toList :=
    hs.not_mem rfl (Decimal.not_mem_writeWhole (by decide) (by decide) target)
  simp only [BranchDraft.build, splitLast_eq condition hcolon, spacedWhole?_of_padded htarget hs,
    String.ofList_toList]

/-- The text names no target: it has no colon, or behind its last one stands no whole number that
fits 32 bits. -/
def BranchDraft.NoTarget (s : String) : Prop :=
  ':' ∉ s.toList ∨ ∃ condition rest : String, s = condition ++ ":" ++ rest ∧ ':' ∉ rest.toList ∧
    Decimal.readWhole (Text.trim rest.toList) = none

theorem BranchDraft.NoTarget.build_eq {s : String} (h : NoTarget s) (event : Int) :
    BranchDraft.build event (.text s) = .error (.branchTarget event s) := by
  rcases h with hcolon | ⟨condition, rest, hs, hcolon, hrest⟩
  · simp only [BranchDraft.build, Text.splitLast_eq_none_iff.mpr hcolon]
  · obtain rfl := hs
    simp only [BranchDraft.build, splitLast_eq condition hcolon, spacedWhole?, hrest]

theorem FollowUpDraft.build_event {id : Int} {s : String} (hid : Range.InRange id)
    (hs : Text.Padded (Decimal.writeWhole id) s.toList) :
    FollowUpDraft.build (.text s) = some (.event id) := by
  simp only [FollowUpDraft.build, spacedWhole?_of_padded hid hs]

theorem FollowUpDraft.build_blank {s : String} (hs : ∀ c ∈ s.toList, Text.isBlank c = true) :
    FollowUpDraft.build (.text s) = none := by
  have htrim : Text.trim s.toList = [] := Text.trim_eq_nil_iff.mpr hs
  have hwhole : spacedWhole? s.toList = none := by rw [spacedWhole?, htrim]; rfl
  simp only [FollowUpDraft.build, hwhole, htrim, if_true]

theorem FollowUpDraft.build_text {s : String} (hs : ¬∀ c ∈ s.toList, Text.isBlank c = true)
    (hwhole : Decimal.readWhole (Text.trim s.toList) = none) :
    FollowUpDraft.build (.text s) = some (.text s) := by
  simp only [FollowUpDraft.build, spacedWhole?, hwhole, Text.trim_eq_nil_iff, if_neg hs]

/-- Whatever stands in the weight, the first asterisk is the one behind the event. -/
theorem PoolEntryDraft.build_text (age : Int) {id : Int} {x : Float} {w : List Char} {s t : String}
    (hid : Range.InRange id) (hs : Text.Padded (Decimal.writeWhole id) s.toList)
    (hw : Decimal.readFloat w = some x) (ht : Text.Padded w t.toList) :
    PoolEntryDraft.build age (.text (s ++ "*" ++ t)) = .ok ⟨id, x⟩ := by
  have hasterisk : '*' ∉ s.toList :=
    hs.not_mem rfl (Decimal.not_mem_writeWhole (by decide) (by decide) id)
  have hsplit : Text.splitFirst '*' (s ++ "*" ++ t).toList = some (s.toList, t.toList) := by
    rw [String.toList_append, String.toList_append, List.append_assoc]
    exact Text.splitFirst_append hasterisk t.toList
  simp only [PoolEntryDraft.build, hsplit, spacedWhole?_of_padded hid hs,
    spacedFloat?_of_padded hw ht]

theorem PoolEntryDraft.build_of_no_asterisk (age : Int) {s : String} (hs : '*' ∉ s.toList) :
    PoolEntryDraft.build age (.text s) = .error (.noWeight age s) := by
  simp only [PoolEntryDraft.build, Text.splitFirst_eq_none_iff.mpr hs]

/-! ## A draft in short forms -/

/-- A branch as one text, or by its parts. -/
inductive BranchDraft.Shortens : BranchDraft → BranchDraft → Prop
  | same (draft : BranchDraft) : Shortens draft draft
  | text (condition : String) {target : Int} {s : String} (htarget : Range.InRange target)
      (hs : Text.Padded (Decimal.writeWhole target) s.toList) :
      Shortens (.text (condition ++ ":" ++ s)) (.entry condition target)

/-- What follows an event as a text, or as an id or nothing. -/
inductive FollowUpDraft.Shortens : Option FollowUpDraft → Option FollowUpDraft → Prop
  | same (draft : Option FollowUpDraft) : Shortens draft draft
  | event {id : Int} {s : String} (hid : Range.InRange id)
      (hs : Text.Padded (Decimal.writeWhole id) s.toList) :
      Shortens (some (.text s)) (some (.event id))
  | blank {s : String} (hs : ∀ c ∈ s.toList, Text.isBlank c = true) : Shortens (some (.text s)) none

/-- An entry of a pool as one text, or as a pair. -/
inductive PoolEntryDraft.Shortens : PoolEntryDraft → PoolEntryDraft → Prop
  | same (draft : PoolEntryDraft) : Shortens draft draft
  | text {id : Int} {x : Float} {w : List Char} {s t : String} (hid : Range.InRange id)
      (hs : Text.Padded (Decimal.writeWhole id) s.toList) (hw : Decimal.readFloat w = some x)
      (ht : Text.Padded w t.toList) : Shortens (.text (s ++ "*" ++ t)) (.pair id x)

/-- The same event, some parts of which stand in their short forms. -/
structure EventDraft.Shortens (short long : EventDraft) : Prop where
  branches : List.Forall₂ BranchDraft.Shortens (short.branches.getD []) (long.branches.getD [])
  followUp : FollowUpDraft.Shortens short.followUp long.followUp
  rest : short = { long with branches := short.branches, followUp := short.followUp }

/-- The same age, some entries of whose pool stand in their short form. -/
structure AgeDraft.Shortens (short long : AgeDraft) : Prop where
  pool : List.Forall₂ PoolEntryDraft.Shortens (short.pool.getD []) (long.pool.getD [])
  rest : short = { long with pool := short.pool }

/-- The same draft, some parts of which stand in their short forms. -/
structure Draft.Shortens (short long : Draft) : Prop where
  events : List.Forall₂ (fun a b => a.1 = b.1 ∧ a.2.Shortens b.2) short.events long.events
  ages : List.Forall₂ (fun a b => a.1 = b.1 ∧ a.2.Shortens b.2) short.ages long.ages
  rest : short = { long with events := short.events, ages := short.ages }

theorem BranchDraft.Shortens.build_eq {short long : BranchDraft} (h : short.Shortens long)
    (event : Int) : short.build event = long.build event := by
  cases h with
  | same => rfl
  | text condition htarget hs => exact BranchDraft.build_text event condition htarget hs

theorem FollowUpDraft.Shortens.bind_build_eq {short long : Option FollowUpDraft}
    (h : FollowUpDraft.Shortens short long) :
    short.bind FollowUpDraft.build = long.bind FollowUpDraft.build := by
  cases h with
  | same => rfl
  | event hid hs => exact FollowUpDraft.build_event hid hs
  | blank hs => exact FollowUpDraft.build_blank hs

theorem PoolEntryDraft.Shortens.build_eq {short long : PoolEntryDraft} (h : short.Shortens long)
    (age : Int) : short.build age = long.build age := by
  cases h with
  | same => rfl
  | text hid hs hw ht => exact PoolEntryDraft.build_text age hid hs hw ht

theorem EventDraft.Shortens.build_eq {short long : EventDraft} (h : short.Shortens long)
    (key : String) : short.build key = long.build key := by
  have hbranches (id : Int) : (short.branches.getD []).mapM (BranchDraft.build id) =
      (long.branches.getD []).mapM (BranchDraft.build id) :=
    Outcome.mapM_eq_of_forall₂ (h.branches.imp fun _ _ hbranch => hbranch.build_eq id)
  have hfollowUp := h.followUp.bind_build_eq
  have hrest := h.rest
  generalize short.branches = branches at hrest hbranches
  generalize short.followUp = followUp at hrest hfollowUp
  subst hrest
  simp only [EventDraft.build, hbranches, hfollowUp]

theorem AgeDraft.Shortens.build_eq {short long : AgeDraft} (h : short.Shortens long)
    (key : String) : short.build key = long.build key := by
  have hpool (age : Int) : (short.pool.getD []).mapM (PoolEntryDraft.build age) =
      (long.pool.getD []).mapM (PoolEntryDraft.build age) :=
    Outcome.mapM_eq_of_forall₂ (h.pool.imp fun _ _ hentry => hentry.build_eq age)
  have hrest := h.rest
  generalize short.pool = pool at hrest hpool
  subst hrest
  simp only [AgeDraft.build, hpool]

theorem buildTable_eq_of_forall₂ {α β : Type} {build : String → α → Except Fault β} {id : β → Int}
    {short long : List (String × α)}
    (h : List.Forall₂ (fun a b => a.1 = b.1 ∧ ∀ key, build key a.2 = build key b.2) short long) :
    buildTable build id short = buildTable build id long := by
  have hentities : (short.mapM fun draft => build draft.1 draft.2) =
      long.mapM fun draft => build draft.1 draft.2 := by
    refine Outcome.mapM_eq_of_forall₂ (h.imp ?_)
    rintro ⟨key, a⟩ ⟨_, b⟩ ⟨rfl, hbuild⟩
    exact hbuild key
  rw [buildTable, hentities, buildTable]

/-- Short forms change nothing, also in what is wrong with a draft. -/
theorem Draft.Shortens.build_eq {short long : Draft} (h : short.Shortens long) :
    short.build = long.build := by
  have hevents : buildTable EventDraft.build Event.id short.events =
      buildTable EventDraft.build Event.id long.events :=
    buildTable_eq_of_forall₂ (h.events.imp fun _ _ hentry => ⟨hentry.1, hentry.2.build_eq⟩)
  have hages : buildTable AgeDraft.build AgeSlot.age short.ages =
      buildTable AgeDraft.build AgeSlot.age long.ages :=
    buildTable_eq_of_forall₂ (h.ages.imp fun _ _ hentry => ⟨hentry.1, hentry.2.build_eq⟩)
  have hrest := h.rest
  generalize short.events = events at hrest hevents
  generalize short.ages = ages at hrest hages
  subst hrest
  simp only [Draft.build, hevents, hages]

/-! ## Texts that are no short form -/

theorem EventDraft.not_exists_build {draft : EventDraft} {s : String}
    (hmem : .text s ∈ draft.branches.getD []) (hs : BranchDraft.NoTarget s) (key : String) :
    ¬∃ event, draft.build key = .ok event := by
  rintro ⟨event, h⟩
  obtain ⟨id, -, h⟩ := Outcome.bind_eq_ok_iff.mp h
  obtain ⟨branches, hbranches, -⟩ := Outcome.bind_eq_ok_iff.mp h
  obtain ⟨branch, hbranch⟩ := Outcome.exists_mapM_eq_ok_iff.mp ⟨branches, hbranches⟩ _ hmem
  rw [hs.build_eq id] at hbranch
  cases hbranch

theorem AgeDraft.not_exists_build {draft : AgeDraft} {s : String}
    (hmem : .text s ∈ draft.pool.getD []) (hs : '*' ∉ s.toList) (key : String) :
    ¬∃ slot, draft.build key = .ok slot := by
  rintro ⟨slot, h⟩
  obtain ⟨age, -, h⟩ := Outcome.bind_eq_ok_iff.mp h
  obtain ⟨pool, hpool, -⟩ := Outcome.bind_eq_ok_iff.mp h
  obtain ⟨entry, hentry⟩ := Outcome.exists_mapM_eq_ok_iff.mp ⟨pool, hpool⟩ _ hmem
  rw [PoolEntryDraft.build_of_no_asterisk age hs] at hentry
  cases hentry

/-- What does not build is malformed. -/
theorem Ruleset.exists_fault_of_not_build {draft : Draft} (h : ¬∃ rules, draft.build = .ok rules) :
    ∃ fault, Ruleset.ofDraft (.ok draft) = .error (.malformed (.fault fault)) := by
  cases hbuild : draft.build with
  | error fault => exact ⟨fault, by simp only [Ruleset.ofDraft, hbuild]⟩
  | ok rules => exact absurd ⟨rules, hbuild⟩ h

/-- A text of the draft that stands for a branch names no target, or one that stands for an entry of
a pool has no asterisk. -/
def Draft.HasBadShortForm (draft : Draft) : Prop :=
  (∃ entry ∈ draft.events, ∃ s, .text s ∈ entry.2.branches.getD [] ∧ BranchDraft.NoTarget s) ∨
    ∃ entry ∈ draft.ages, ∃ s, .text s ∈ entry.2.pool.getD [] ∧ '*' ∉ s.toList

theorem Draft.HasBadShortForm.not_exists_build {draft : Draft} (h : draft.HasBadShortForm) :
    ¬∃ rules, draft.build = .ok rules := by
  intro hbuild
  obtain ⟨-, -, hevents, hages, -⟩ := Draft.exists_build_iff.mp hbuild
  rcases h with ⟨entry, hentry, s, hmem, hs⟩ | ⟨entry, hentry, s, hmem, hs⟩
  · have hbuilds := exists_buildTable_iff.mp hevents entry hentry
    exact EventDraft.not_exists_build hmem hs entry.1 hbuilds
  · have hbuilds := exists_buildTable_iff.mp hages entry hentry
    exact AgeDraft.not_exists_build hmem hs entry.1 hbuilds

/-! ## The main theorem -/

/-- **Short forms build the same.**  A text of a condition, a colon and a target builds what the
entry of the two does, also if the condition has colons.  A text of an id builds what follows an
event as the id does, a blank one builds nothing, and any other one is kept.  A text of an id, an
asterisk and a weight builds what the pair of the two does.  In all of them the numbers may have
blanks around them.  So a draft loads to the same ruleset, or fails in the same way, whichever of
its parts stand in a short form.

A draft does not load if it has a text for a branch without a colon, or with anything but a whole
number behind the last one, or a text for an entry of a pool without an asterisk. -/
theorem shortForms_exact :
    (∀ (event : Int) (condition : String) (target : Int) (s : String), Range.InRange target →
      Text.Padded (Decimal.writeWhole target) s.toList →
      BranchDraft.build event (.text (condition ++ ":" ++ s)) = .ok ⟨.ofText condition, target⟩ ∧
        BranchDraft.build event (.entry condition target) = .ok ⟨.ofText condition, target⟩) ∧
    (∀ (id : Int) (s : String), Range.InRange id →
      Text.Padded (Decimal.writeWhole id) s.toList →
      FollowUpDraft.build (.text s) = FollowUpDraft.build (.event id)) ∧
    (∀ s : String, (∀ c ∈ s.toList, Text.isBlank c = true) → FollowUpDraft.build (.text s) = none) ∧
    (∀ s : String, ¬(∀ c ∈ s.toList, Text.isBlank c = true) →
      Decimal.readWhole (Text.trim s.toList) = none →
      FollowUpDraft.build (.text s) = some (.text s)) ∧
    (∀ (age id : Int) (x : Float) (w : List Char) (s t : String), Range.InRange id →
      Text.Padded (Decimal.writeWhole id) s.toList →
      Decimal.readFloat w = some x → Text.Padded w t.toList →
      PoolEntryDraft.build age (.text (s ++ "*" ++ t)) = .ok ⟨id, x⟩ ∧
        PoolEntryDraft.build age (.pair id x) = .ok ⟨id, x⟩) ∧
    (∀ short long : Draft, short.Shortens long →
      Ruleset.ofDraft (.ok short) = Ruleset.ofDraft (.ok long)) ∧
    ∀ draft : Draft, draft.HasBadShortForm →
      ∃ fault, Ruleset.ofDraft (.ok draft) = .error (.malformed (.fault fault)) := by
  refine ⟨fun event condition target s htarget hs => ?_, fun id s hid hs => ?_,
    fun s hs => FollowUpDraft.build_blank hs, fun s hs hwhole => FollowUpDraft.build_text hs hwhole,
    fun age id x w s t hid hs hw ht => ?_, fun short long h => ?_, fun draft h => ?_⟩
  · exact ⟨BranchDraft.build_text event condition htarget hs, rfl⟩
  · exact FollowUpDraft.build_event hid hs
  · exact ⟨PoolEntryDraft.build_text age hid hs hw ht, rfl⟩
  · simp only [Ruleset.ofDraft, h.build_eq]
  · exact Ruleset.exists_fault_of_not_build h.not_exists_build

/-! ## A draft in both forms -/

/-- A draft with parts in their short forms. -/
def shortDraft : Draft where
  events := [
    ("1", { branches := some [.text "CHR>1:2: -12\u00A0"], followUp := some (.text "\t11 ") }),
    ("11", { followUp := some (.text " \u3000") })]
  ages := [("0", { pool := some [.text " 11 *\n2.5 ", .pair 1 1] })]

/-- The same draft without short forms. -/
def longDraft : Draft where
  events := [
    ("1", { branches := some [.entry "CHR>1:2" (-12)], followUp := some (.event 11) }), ("11", {})]
  ages := [("0", { pool := some [.pair 11 (Decimal.scale 25 (-1)), .pair 1 1] })]

theorem padded_target : Text.Padded (Decimal.writeWhole (-12)) " -12\u00A0".toList :=
  ⟨[' '], ['\u00A0'], List.all_eq_true.mp rfl, List.all_eq_true.mp rfl, rfl⟩

theorem padded_followUp : Text.Padded (Decimal.writeWhole 11) "\t11 ".toList :=
  ⟨['\t'], [' '], List.all_eq_true.mp rfl, List.all_eq_true.mp rfl, rfl⟩

theorem padded_event : Text.Padded (Decimal.writeWhole 11) " 11 ".toList :=
  ⟨[' '], [' '], List.all_eq_true.mp rfl, List.all_eq_true.mp rfl, rfl⟩

theorem padded_weight : Text.Padded "2.5".toList "\n2.5 ".toList :=
  ⟨['\n'], [' '], List.all_eq_true.mp rfl, List.all_eq_true.mp rfl, rfl⟩

theorem shortens_shortDraft : shortDraft.Shortens longDraft where
  events := .cons ⟨rfl, .cons (.text "CHR>1:2" (by decide) padded_target) .nil,
      .event (by decide) padded_followUp, rfl⟩ <|
    .cons ⟨rfl, .nil, .blank (List.all_eq_true.mp rfl), rfl⟩ .nil
  ages := .cons ⟨rfl, .cons (.text (by decide) padded_event rfl padded_weight) <|
    .cons (.same _) .nil, rfl⟩ .nil
  rest := rfl

/-- The two drafts load to the same rules.  A draft whose branch has no target behind its last colon
does not load, although there is a number behind the first one. -/
theorem shortForms_exact_spaced :
    BranchDraft.build 1 (.text "CHR>1:2: -12\u00A0") = .ok ⟨.ofText "CHR>1:2", -12⟩ ∧
    FollowUpDraft.build (.text "\t11 ") = some (.event 11) ∧
    FollowUpDraft.build (.text " \u3000") = none ∧
    FollowUpDraft.build (.text " And cried. ") = some (.text " And cried. ") ∧
    PoolEntryDraft.build 0 (.text " 11 *\n2.5 ") = .ok ⟨11, Decimal.scale 25 (-1)⟩ ∧
    (Ruleset.ofDraft (.ok shortDraft) = Ruleset.ofDraft (.ok longDraft) ∧
      ∃ rules, Ruleset.ofDraft (.ok longDraft) = .ok rules) ∧
    ∃ fault, Ruleset.ofDraft (.ok { events := [("1", { branches := some [.text "CHR>1:2:x"] })] }) =
      .error (.malformed (.fault fault)) := by
  obtain ⟨hbranch, hevent, hblank, htext, hpool, hdraft, hbad⟩ := shortForms_exact
  refine ⟨(hbranch 1 "CHR>1:2" (-12) " -12\u00A0" (by decide) padded_target).1,
    hevent 11 "\t11 " (by decide) padded_followUp, hblank " \u3000" (List.all_eq_true.mp rfl),
    htext " And cried. " (mt List.all_eq_true.mpr (by decide)) rfl,
    (hpool 0 11 (Decimal.scale 25 (-1)) "2.5".toList " 11 " "\n2.5 " (by decide) padded_event rfl
      padded_weight).1,
    ⟨hdraft shortDraft longDraft shortens_shortDraft, _, rfl⟩, hbad _ (.inl ?_)⟩
  refine ⟨_, List.mem_cons_self, "CHR>1:2:x", List.mem_cons_self, .inr ?_⟩
  exact ⟨"CHR>1:2", "x", rfl, by decide, by decide⟩

end LifeCourse
