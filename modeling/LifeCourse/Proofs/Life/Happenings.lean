import LifeCourse.Proofs.Life.Moments
import LifeCourse.Proofs.Life.Settling

/-!
# What happens to a person

Between two turns of the clock three things can happen to the person of a life: a talent joins, a
talent has its effect, or an event happens.  `Person.Happens` lists them, each with the entity of
the ruleset that it comes from.  Settling the talents is a chain of such happenings
(`leads_of_resolve`), and so is a year from its turn to its evening (`leads_of_liveYear`).

The passage of a life's moments says the same of all its years at once and counts the turn of a
year among the steps.  It therefore does not tell what happens within one year, and that is what is
asked here: a law about a year, or about the time before birth, is one case analysis over
`Person.Happens` and the induction of `Relation.ReflTransGen`.
-/

namespace LifeCourse

variable {rules : Ruleset}

/-- What can happen to a person while no year turns. -/
inductive Person.Happens (rules : Ruleset) : Person → Person → Prop where
  /-- A talent joins. -/
  | join (person : Person) (id : Int) : Happens rules person (person.addTalent id)
  /-- A talent has its effect. -/
  | fire {id : Int} {talent : Talent} (hfind : rules.talents.find? id = some talent)
      (person : Person) (source : Source) :
      Happens rules person (person.applyIfAny talent.effect source).1
  /-- An event happens. -/
  | happen {id : Int} {event : Event} (hfind : rules.events.find? id = some event)
      (person : Person) (source : Source) :
      Happens rules person ((person.recordEvent id).applyIfAny event.effect source).1

/-- The second person is what some happenings make of the first one. -/
abbrev Person.Leads (rules : Ruleset) : Person → Person → Prop :=
  Relation.ReflTransGen (Person.Happens rules)

/-- No happening gives or takes an achievement. -/
theorem Person.Leads.achievements {p q : Person} (h : Person.Leads rules p q) :
    q.achievements = p.achievements := by
  induction h with
  | refl => rfl
  | @tail q r _ hstep ih =>
    refine Eq.trans ?_ ih
    cases hstep with
    | join => rfl
    | fire => exact (q.keeps_applyIfAny _ _).achievements
    | happen => exact ((q.recordEvent _).keeps_applyIfAny _ _).achievements

/-! ## Settling -/

theorem leads_of_settle {survivor : Talent} (hsurvivor : survivor ∈ rules.talents.values)
    {state state' : SettlingState} {settling : Settling}
    (h : settle rules survivor state = (settling, state')) :
    Person.Leads rules state.person state'.person := by
  have hjoin : Person.Leads rules state.person (state.person.addTalent settling.target.id) :=
    .single (.join _ _)
  rcases person_settle h with hperson | ⟨source, hperson⟩
  · rwa [hperson]
  · obtain ⟨id, hfind⟩ := Table.mem_values_iff.mp (target_mem_values hsurvivor h)
    rw [hperson]
    exact hjoin.tail (.fire hfind _ source)

theorem leads_of_settleEach {coming : List Talent}
    (hcoming : ∀ talent ∈ coming, talent ∈ rules.talents.values) (state : SettlingState) :
    Person.Leads rules state.person (settleEach rules coming state).2.person := by
  induction coming generalizing state with
  | nil => exact .refl
  | cons survivor rest ih =>
    obtain ⟨hsurvivor, hrest⟩ := List.forall_mem_cons.mp hcoming
    exact (leads_of_settle hsurvivor rfl).trans (ih hrest _)

/-- **Settling the talents is a chain of happenings.** -/
theorem leads_of_resolve {ids : List Int} {person : Person} {source source' : Source}
    {resolution : Resolution} (h : resolve rules ids person source = .ok (resolution, source')) :
    Person.Leads rules person resolution.person := by
  obtain ⟨selection, settlings, state, hselection, hsettle, rfl⟩ := resolve_eq_ok h
  have hleads := leads_of_settleEach (mem_values_of_mem_survivors hselection)
    ⟨(survivors selection).map Talent.id, .empty, person, source⟩
  rwa [hsettle] at hleads

/-! ## A year -/

variable (rules) in
theorem leads_of_unlocks (ids : List Int) (standing : Standing) :
    Person.Leads rules standing.person (ids.foldl (Standing.unlockOne rules) standing).person := by
  induction ids generalizing standing with
  | nil => exact .refl
  | cons id ids ih =>
    have hone : Person.Leads rules standing.person (standing.unlockOne rules id).person := by
      unfold Standing.unlockOne Tracker.unlockOne
      simp only
      split
      · exact .refl
      · split
        · exact .refl
        · split
          · exact .single (.join _ _)
          · exact .refl
    exact hone.trans (ih _)

variable (rules) in
theorem leads_of_activateEach (ids : List Int) (tracker : Tracker) (person : Person)
    (source : Source) :
    Person.Leads rules person (Tracker.activateEach rules ids tracker person source).2.2.1 := by
  induction ids generalizing tracker person source with
  | nil => exact .refl
  | cons id ids ih =>
    rw [Tracker.activateEach]
    split
    · exact ih tracker person source
    · rename_i talent hfind
      split
      · exact ih tracker person source
      · have hfire : Person.Leads rules person (tracker.fire talent person source).2.1 := by
          unfold Tracker.fire
          split
          · exact .refl
          · exact .single (.fire hfind person source)
        exact hfire.trans (ih _ _ _)

theorem leads_of_chainFrom (links : Nat) (id : Int) (person : Person) (source : Source) :
    Person.Leads rules person (chainFrom rules links id person source).2.1 := by
  induction links generalizing id person source with
  | zero => exact .refl
  | succ links ih =>
    rw [chainFrom]
    split
    · exact .refl
    · rename_i event hfind
      have hlink : Person.Leads rules person
          ((person.recordEvent id).applyIfAny event.effect source).1 :=
        .single (.happen hfind person source)
      simp only
      split
      · exact hlink
      · exact hlink.trans (ih _ _ _)

variable (rules) in
theorem leads_of_yearChain (age : Int) (person : Person) (source : Source) :
    Person.Leads rules person (yearChain rules age person source).2.1 := by
  unfold yearChain
  split
  · unfold ageChain
    split
    · exact leads_of_chainFrom _ _ person _
    · exact .refl
  · exact .refl

/-- **A year is a chain of happenings** from its turn to its evening, and the achievements of its
checkpoint come after it. -/
theorem leads_of_liveYear {isLast : Bool} {before : Standing} {source source' : Source}
    {year : Year} (h : liveYear rules isLast before source = (year, source')) :
    Person.Leads rules before.person.nextYear year.person ∧
      ∃ achievements, year.standing.person = { year.person with achievements := achievements } := by
  obtain ⟨tracker, person, source₁, hfire, hchain, hstanding⟩ := liveYear_parts h
  have hunlock := leads_of_unlocks rules (rules.unlocksAt year.age) (Year.turned before)
  have hfired := leads_of_activateEach rules (year.unlocked rules before).tracker.active
    (year.unlocked rules before).tracker (year.unlocked rules before).person source
  have hlinks := leads_of_yearChain rules year.age person source₁
  rw [Tracker.activate] at hfire
  rw [hfire] at hfired
  rw [hchain] at hlinks
  refine ⟨(hunlock.trans hfired).trans hlinks, ?_⟩
  rw [hstanding]
  exact Standing.person_check rules ⟨year.person, tracker, before.ledger⟩ .trajectory

end LifeCourse
