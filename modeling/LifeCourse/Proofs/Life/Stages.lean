import LifeCourse.Proofs.Life.Extremes

/-!
# The stages of a life

A chronicle says how a life stands after each incident.  Within an incident the person changes in
several operations: an event is written down before it has its effect, and an effect changes one
stat after another.  The stages of an incident are the persons after each of these operations
(`Incident.stages`), and the stages of a life are all persons that it leads through, from the one
to whom the values of the request have been given (`Life.stages`).

## Relations between stages

What can be said of an earlier and a later stage is a relation between two persons.  If it is an
order that changes of stats respect (`Lasting`), an effect respects it
(`Person.ascends_along`), and if every other operation does so too, it holds between any two stages
of a life (`Life.pairwise_stages`).
-/

namespace LifeCourse

variable {rules : Ruleset}

/-! ## Persons one after another -/

/-- Persons that lie, one after another, between a first and a last one. -/
structure Ascends (R : Person → Person → Prop) (first : Person) (stages : List Person)
    (last : Person) : Prop where
  pairwise : stages.Pairwise R
  between : ∀ p ∈ stages, R first p ∧ R p last
  ends : R first last

/-- A relation between earlier and later persons which the changes of stats respect. -/
structure Lasting (R : Person → Person → Prop) : Prop where
  refl : ∀ p, R p p
  trans : ∀ {p q r}, R p q → R q r → R p r
  change : ∀ (p : Person) stat amount, R p (p.change stat amount)

section Ascending

variable {R : Person → Person → Prop}

theorem Lasting.ascends_single (hR : Lasting R) {p q : Person} (h : R p q) :
    Ascends R p [q] q :=
  ⟨List.pairwise_singleton R q, List.forall_mem_singleton.mpr ⟨h, hR.refl q⟩, h⟩

theorem Lasting.ascends_nil (hR : Lasting R) (p : Person) : Ascends R p [] p :=
  ⟨.nil, fun _ hmem => absurd hmem List.not_mem_nil, hR.refl p⟩

theorem Ascends.append (hR : Lasting R) {p q r : Person} {stages stages' : List Person}
    (h : Ascends R p stages q) (h' : Ascends R q stages' r) : Ascends R p (stages ++ stages') r := by
  refine ⟨List.pairwise_append.mpr ⟨h.pairwise, h'.pairwise, ?_⟩, ?_, hR.trans h.ends h'.ends⟩
  · intro a ha b hb
    exact hR.trans (h.between a ha).2 (h'.between b hb).1
  · intro a ha
    rcases List.mem_append.mp ha with ha | ha
    · exact ⟨(h.between a ha).1, hR.trans (h.between a ha).2 h'.ends⟩
    · exact ⟨hR.trans h.ends (h'.between a ha).1, (h'.between a ha).2⟩

theorem Ascends.cons (hR : Lasting R) {p q r : Person} {stages : List Person} (h : R p q)
    (h' : Ascends R q stages r) : Ascends R p (q :: stages) r :=
  (hR.ascends_single h).append hR h'

/-- The first of several persons with those after it. -/
theorem Ascends.pairwise_cons {p r : Person} {stages : List Person} (h : Ascends R p stages r) :
    (p :: stages).Pairwise R :=
  List.pairwise_cons.mpr ⟨fun a ha => (h.between a ha).1, h.pairwise⟩

namespace Person

theorem ascends_changes (hR : Lasting R) (amounts : PerStat Int) (person : Person)
    (stats : List Stat) :
    Ascends R person (person.changes amounts stats)
      (stats.foldl (fun person stat => person.change stat (amounts.get stat)) person) := by
  induction stats generalizing person with
  | nil => exact hR.ascends_nil person
  | cons stat rest ih => exact .cons hR (hR.change person stat (amounts.get stat)) (ih _)

/-- **What the changes of stats respect, an effect respects at each of its stages.** -/
theorem ascends_along (hR : Lasting R) (person : Person) (effect : Option Effect)
    (source : Source) :
    Ascends R person (person.along effect (person.applyIfAny effect source).1)
      (person.applyIfAny effect source).1 := by
  cases effect with
  | none => exact hR.ascends_single (hR.refl person)
  | some effect =>
    refine (ascends_changes hR effect.amounts person Stat.all).append hR (hR.ascends_single ?_)
    show R (person.changeAll effect.amounts) (person.apply effect source).1
    unfold apply
    split
    · exact hR.refl _
    · exact hR.change _ _ _

end Person
end Ascending

/-! ## Stages -/

/-- The persons that an incident leads through, one operation after another. -/
def Incident.stages (before after : Person) : Incident → List Person
  | .fire talent => before.along talent.effect after
  | .happen id event => before.recordEvent id :: (before.recordEvent id).along event.effect after
  | _ => [after]

/-- The persons that episodes lead through. -/
def stagesOf : Person → List Episode → List Person
  | _, [] => []
  | before, episode :: rest =>
    episode.incident.stages before episode.standing.person ++ stagesOf episode.standing.person rest

/-- The persons that a life leads through: the one to whom the values of the request have been given,
the one who has its history, and those of the chronicle. -/
def Life.stages (life : Life) (rules : Ruleset) (request : Request) : List Person :=
  request.allocate (.unborn rules.settings) :: request.person rules.settings ::
    stagesOf (request.person rules.settings) (life.chronicle rules request)

theorem Person.getLast?_along (person : Person) (effect : Option Effect) (after : Person) :
    (person.along effect after).getLast? = some after := by
  cases effect with
  | none => rfl
  | some effect => exact List.getLast?_concat

/-- The last stage of an incident is the person after it. -/
theorem Incident.getLast?_stages (before after : Person) (incident : Incident) :
    (incident.stages before after).getLast? = some after := by
  cases incident with
  | fire talent => exact before.getLast?_along talent.effect after
  | happen id event =>
    rw [stages, List.getLast?_cons, (before.recordEvent id).getLast?_along event.effect after]
    rfl
  | turn | join | achieve => rfl

/-- The last stage of episodes is the person to whom they lead. -/
theorem Follows.getLast?_stagesOf {before last : Standing} {episodes : List Episode}
    (h : Follows rules before episodes last) :
    (stagesOf before.person episodes).getLast?.getD before.person = last.person := by
  induction h with
  | done => rfl
  | @cons before last episode episodes _ _ ih =>
    rw [stagesOf, List.getLast?_append, Incident.getLast?_stages, ← ih]
    cases (stagesOf episode.standing.person episodes).getLast? <;> rfl

/-- The last stage of a life is its closing. -/
theorem Life.getLast?_stages (hkeyed : rules.talents.Keyed Talent.id) {request : Request}
    {source source' : Source} {life : Life}
    (hlive : live rules request source = (.ok life, source')) :
    (life.stages rules request).getLast? = some life.closing.person := by
  have hlast := (follows_of_live hkeyed hlive).getLast?_stagesOf
  rw [stages, List.getLast?_cons, List.getLast?_cons]
  exact congrArg some hlast

/-! ## Relations that last for a life -/

/-- A relation between earlier and later persons which every operation of a life respects. -/
structure LastingForLife (R : Person → Person → Prop) : Prop extends Lasting R where
  nextYear : ∀ p : Person, R p p.nextYear
  addTalent : ∀ (p : Person) id, R p (p.addTalent id)
  recordEvent : ∀ (p : Person) id, R p (p.recordEvent id)
  addAchievement : ∀ (p : Person) id, R p (p.addAchievement id)
  setHistory : ∀ (p : Person) groups, R p (p.setHistory groups)

section Lasting

variable {R : Person → Person → Prop}

/-- Every incident respects the relation. -/
theorem Incident.Changes.ascends (hR : LastingForLife R) {before after : Standing}
    {incident : Incident} (h : incident.Changes rules before after) :
    Ascends R before.person (incident.stages before.person after.person) after.person := by
  cases incident with
  | turn =>
    subst h
    exact hR.ascends_single (hR.nextYear before.person)
  | join id =>
    subst h
    exact hR.ascends_single (hR.addTalent before.person id)
  | fire talent =>
    obtain ⟨-, -, -, source, rfl⟩ := h
    exact before.person.ascends_along hR.toLasting talent.effect source
  | happen id event =>
    obtain ⟨-, source, rfl⟩ := h
    exact .cons hR.toLasting (hR.recordEvent before.person id)
      ((before.person.recordEvent id).ascends_along hR.toLasting event.effect source)
  | achieve achievement =>
    subst h
    exact hR.ascends_single (hR.addAchievement before.person achievement.id)

/-- Episodes respect the relation. -/
theorem Follows.ascends (hR : LastingForLife R) {before last : Standing} {episodes : List Episode}
    (h : Follows rules before episodes last) :
    Ascends R before.person (stagesOf before.person episodes) last.person := by
  induction h with
  | done => exact hR.ascends_nil _
  | cons hchanges _ ih => exact (hchanges.ascends hR).append hR.toLasting ih

/-- **What every operation respects holds between any two stages of a life.** -/
theorem Life.pairwise_stages (hR : LastingForLife R) (hkeyed : rules.talents.Keyed Talent.id)
    {request : Request} {source source' : Source} {life : Life}
    (hlive : live rules request source = (.ok life, source')) :
    (life.stages rules request).Pairwise R := by
  have hhistory : R (request.allocate (.unborn rules.settings)) (request.person rules.settings) :=
    hR.setHistory _ request.achieved
  exact (Ascends.cons hR.toLasting hhistory
    ((follows_of_live hkeyed hlive).ascends hR)).pairwise_cons

end Lasting
end LifeCourse
