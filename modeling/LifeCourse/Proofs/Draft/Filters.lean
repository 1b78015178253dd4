import LifeCourse.Person
import LifeCourse.Proofs.Condition.Writing
import LifeCourse.Proofs.Draft.Building

/-!
# Filters that are lists of ids

An event may name the events of which one must have happened before it, and those of which none may
have.  There are no such filters once the event is built: a list of ids is written down as the text
of a condition, and the text is read like any other.  So what a list means is a matter of writing and
reading, and of what a life answers when it is asked for its events.

* `parse_happenedSource`: the text is read to the one comparison that was meant, whatever the ids.
* `holds_happenedSource_iff`: the comparison holds if one of the ids is among the events of the life.

The two filters treat a list without ids alike, as if there were none, and that is not what it would
mean as a condition: no life would meet it.  So it matters that it is not written down
(`bind_build_ids`).
-/

namespace LifeCourse

/-! ## The text of a list -/

/-- A list of ids is written down as a comparison is. -/
theorem toList_happenedSource (ids : List Int) :
    (happenedSource ids).toList =
      "EVT".toList ++ (Operator.includesAny.sign ++ (Operand.list ids).write) := by
  have htexts : (ids.map Decimal.written).map String.toList = ids.map Decimal.writeWhole := by
    rw [List.map_map]
    exact List.map_congr_left fun id _ => String.toList_ofList
  rw [happenedSource, String.toList_append, String.toList_append, String.toList_intercalate, htexts]
  rfl

/-- **A list of ids is read to the comparison that was meant.** -/
theorem parse_happenedSource {ids : List Int} (h : ∀ id ∈ ids, Range.InRange id) :
    Expr.parse (happenedSource ids) = .ok (.compare "EVT" .includesAny (.list ids)) := by
  have hderives : Derives .factor (Token.ofText (happenedSource ids).toList)
      (.compare "EVT" .includesAny (.list ids)) := by
    rw [toList_happenedSource]
    exact Expr.derives_compare (by decide) .includesAny h
  exact Expr.parse_eq_ok_iff.mpr (isWritten_iff.mpr (.single (.bare hderives)))

theorem reading_happenedSource {ids : List Int} (h : ∀ id ∈ ids, Range.InRange id) :
    (Condition.ofText (happenedSource ids)).reading =
      .expr (.compare "EVT" .includesAny (.list ids)) :=
  Condition.reading_of_parse (parse_happenedSource h)

theorem isWellFormed_happenedSource {ids : List Int} (h : ∀ id ∈ ids, Range.InRange id) :
    (Condition.ofText (happenedSource ids)).isWellFormed = true := by
  rw [Condition.isWellFormed, Condition.error?, reading_happenedSource h]
  rfl

/-- **The condition holds if one of the events has happened.** -/
theorem holds_happenedSource_iff {ids : List Int} (h : ∀ id ∈ ids, Range.InRange id)
    (person : Person) :
    (Condition.ofText (happenedSource ids)).holds person.lookup = true ↔
      ∃ id ∈ ids, id ∈ person.events := by
  have hlookup : person.lookup "EVT" = some (.list person.events) := rfl
  rw [Condition.holds, reading_happenedSource h]
  simp only [Expr.holds, hlookup, Operator.compare, List.any_eq_true, List.contains_iff_mem]
  exact exists_congr fun id => and_comm

/-! ## Filters of events -/

/-- A list of ids that is missing or has no ids sets no condition. -/
theorem bind_build_ids (ids : Option (List Int)) :
    (ids.map FilterDraft.ids).bind FilterDraft.build =
      if ids.getD [] = [] then none else some (.ofText (happenedSource (ids.getD []))) := by
  rcases ids with _ | _ | ⟨id, ids⟩
  · rfl
  · rfl
  · rw [Option.getD_some, if_neg (List.cons_ne_nil id ids)]
    rfl

/-- The filters of an event that is built are built from those of the draft. -/
theorem EventDraft.filters_of_build {key : String} {draft : EventDraft} {event : Event}
    (h : draft.build key = .ok event) :
    event.requires = draft.requires.bind FilterDraft.build ∧
      event.forbids = draft.forbids.bind FilterDraft.build := by
  obtain ⟨id, -, h⟩ := Outcome.bind_eq_ok_iff.mp h
  obtain ⟨branches, -, h⟩ := Outcome.bind_eq_ok_iff.mp h
  obtain rfl := Except.ok.inj h
  exact ⟨rfl, rfl⟩

section Listed

variable {ids : Option (List Int)} (hfits : ∀ id ∈ ids.getD [], Range.InRange id) (person : Person)
include hfits

theorem holdsIfAny_ids_iff :
    holdsIfAny ((ids.map FilterDraft.ids).bind FilterDraft.build) person.lookup = true ↔
      ids.getD [] = [] ∨ ∃ id ∈ ids.getD [], id ∈ person.events := by
  rw [bind_build_ids]
  by_cases hnone : ids.getD [] = []
  · rw [if_pos hnone]
    exact iff_of_true rfl (.inl hnone)
  · rw [if_neg hnone, or_iff_right hnone, ← holds_happenedSource_iff hfits]
    rfl

theorem any_holds_ids_iff :
    (((ids.map FilterDraft.ids).bind FilterDraft.build).any fun condition =>
        condition.holds person.lookup) = true ↔ ∃ id ∈ ids.getD [], id ∈ person.events := by
  rw [bind_build_ids]
  by_cases hnone : ids.getD [] = []
  · rw [if_pos hnone, hnone]
    exact iff_of_false Bool.false_ne_true (fun ⟨_, hid, _⟩ => absurd hid List.not_mem_nil)
  · rw [if_neg hnone, ← holds_happenedSource_iff hfits]
    rfl

end Listed

/-- **Lists of ids mean what they say.**  A list with ids that fit 32 bits sets a condition that can
be read, and it holds of the lives to which one of these events has happened.

So an event whose filters are such lists, where there are any, may happen in the lives to which one
of the events that it requires has happened, if it requires any, and none of those that forbid it. -/
theorem filters_exact :
    (∀ ids : List Int, ids ≠ [] → (∀ id ∈ ids, Range.InRange id) →
      ∃ condition, (FilterDraft.ids ids).build = some condition ∧
        condition.isWellFormed = true ∧
        ∀ person : Person, condition.holds person.lookup = true ↔
          ∃ id ∈ ids, id ∈ person.events) ∧
    ∀ (key : String) (draft : EventDraft) (event : Event) (required forbidden : Option (List Int)),
      draft.requires = required.map .ids → draft.forbids = forbidden.map .ids →
      (∀ id ∈ required.getD [], Range.InRange id) → (∀ id ∈ forbidden.getD [], Range.InRange id) →
      draft.build key = .ok event →
      ∀ person : Person, event.isEligible person.lookup = true ↔
        (required.getD [] = [] ∨ ∃ id ∈ required.getD [], id ∈ person.events) ∧
        ∀ id ∈ forbidden.getD [], id ∉ person.events := by
  refine ⟨fun ids hne hfits => ?_, fun key draft event required forbidden hrequires hforbids hrequired
    hforbidden hbuild person => ?_⟩
  · refine ⟨.ofText (happenedSource ids), ?_, isWellFormed_happenedSource hfits,
      holds_happenedSource_iff hfits⟩
    obtain ⟨id, ids, rfl⟩ := List.exists_cons_of_ne_nil hne
    rfl
  · obtain ⟨hrequires', hforbids'⟩ := EventDraft.filters_of_build hbuild
    rw [hrequires] at hrequires'
    rw [hforbids] at hforbids'
    rw [Event.isEligible, Bool.and_eq_true, hrequires', hforbids',
      holdsIfAny_ids_iff hrequired, Bool.not_eq_true', ← Bool.not_eq_true,
      any_holds_ids_iff hforbidden, and_comm]
    simp only [not_exists, not_and]

/-! ## An event with both lists -/

/-- The draft of an event that requires one of two events and is forbidden by another one. -/
def listedDraft : EventDraft where
  requires := some (.ids [-3, 2147483647, -3])
  forbids := some (.ids [20010])

/-- The ids are written down with their signs and repetitions.  Someone to whom one of the events
has happened may meet this one, unless the other event has happened too. -/
theorem filters_exact_repeated :
    happenedSource [-3, 2147483647, -3] = "EVT?[-3,2147483647,-3]" ∧
    ∃ event, listedDraft.build "7" = .ok event ∧
      event.isEligible { Person.unborn .standard with events := [5, -3] }.lookup = true ∧
      event.isEligible { Person.unborn .standard with events := [20010, -3] }.lookup = false ∧
      ∃ condition, (FilterDraft.ids [-3, 2147483647, -3]).build = some condition ∧
        condition.isWellFormed = true := by
  obtain ⟨hlist, hevent⟩ := filters_exact
  obtain ⟨condition, hcondition, hwellFormed, -⟩ :=
    hlist [-3, 2147483647, -3] (by decide) (by decide)
  have hbuild : ∃ event, listedDraft.build "7" = .ok event := ⟨_, rfl⟩
  obtain ⟨event, hbuild⟩ := hbuild
  have heligible := hevent "7" listedDraft event (some [-3, 2147483647, -3]) (some [20010]) rfl rfl
    (by decide) (by decide) hbuild
  refine ⟨by decide +kernel, event, hbuild, ?_, ?_, condition, hcondition, hwellFormed⟩
  · exact (heligible _).mpr (by decide)
  · rw [← Bool.not_eq_true, heligible]
    decide

end LifeCourse
