import LifeCourse.Life.Session
import LifeCourse.Proofs.Life.Moments
import LifeCourse.Proofs.Life.Settling

/-!
# How a life ends

Talents and events may turn the clock back, kill and revive, so nothing that a year changes goes
down for good.  What does is the number of years that are left.  A life under loaded rules
therefore ends, after at least one and at most twice as many years as there are ages, and exactly
its last year is marked (`ends_of_live`).

What marks a year is read off the year as a caller sees it.  Two facts connect that with the
simulation: the terminal age of the person is still that of the settings (`terminalAge_of_live`),
and the events of a chain are those of the ruleset (`find?_of_mem_yearChain`).
-/

namespace LifeCourse

variable {rules : Ruleset}

/-! ## The terminal age -/

theorem Standing.Step.terminalAge {standing standing' : Standing}
    (h : Standing.Step rules standing standing') :
    standing'.person.terminalAge = standing.person.terminalAge := by
  cases h with
  | turn => exact standing.person.keeps_nextYear.terminalAge
  | unlock => rfl
  | fire => exact (standing.person.keeps_applyIfAny _ _).terminalAge
  | happen => exact ((standing.person.recordEvent _).keeps_applyIfAny _ _).terminalAge
  | achieve => rfl

/-- Through a whole life the terminal age is that of the settings. -/
theorem terminalAge_of_live {request : Request} {source source' : Source} {life : Life}
    (h : live rules request source = (.ok life, source')) :
    ∀ moment ∈ life.moments rules request.achieved,
      moment.person.terminalAge = rules.settings.terminalAge := by
  obtain ⟨source₁, hresolve, -⟩ := live_eq_ok h
  refine (passage_of_live h).forall_of_step (fun hstep hage => hstep.terminalAge.trans hage) ?_
  have hsettled := terminalAge_of_resolve hresolve
  exact hsettled.trans (request.person_eq rules.settings).2

/-! ## The events of a chain -/

theorem find?_of_mem_chainFrom (links : Nat) (id : Int) (person : Person) (source : Source) :
    ∀ link ∈ (chainFrom rules links id person source).1,
      rules.events.find? link.id = some link.event := by
  induction links generalizing id person source with
  | zero => exact fun _ hmem => absurd hmem List.not_mem_nil
  | succ links ih =>
    rw [chainFrom]
    split
    · exact fun _ hmem => absurd hmem List.not_mem_nil
    · rename_i event hfind
      simp only
      split
      · exact List.forall_mem_singleton.mpr hfind
      · exact List.forall_mem_cons.mpr ⟨hfind, ih _ _ _⟩

variable (rules) in
theorem find?_of_mem_yearChain (age : Int) (person : Person) (source : Source) :
    ∀ link ∈ (yearChain rules age person source).1,
      rules.events.find? link.id = some link.event := by
  unfold yearChain
  split
  · unfold ageChain
    split
    · exact find?_of_mem_chainFrom _ _ _ _
    · exact fun _ hmem => absurd hmem List.not_mem_nil
  · exact fun _ hmem => absurd hmem List.not_mem_nil

/-- The events of a year are those that the ruleset has under their ids. -/
theorem find?_of_mem_chain {isLast : Bool} {standing : Standing} {source source' : Source}
    {year : Year} (h : liveYear rules isLast standing source = (year, source')) :
    ∀ link ∈ year.chain, rules.events.find? link.id = some link.event := by
  obtain ⟨tracker, person, source₁, -, hchain, -⟩ := liveYear_parts h
  have hall := find?_of_mem_yearChain rules year.age person source₁
  rwa [hchain] at hall

/-- A terminal event has happened in the year. -/
def Year.HasTerminalEvent (rules : Ruleset) (year : Year) : Prop :=
  ∃ id ∈ year.chain.map Link.id, ∃ event,
    rules.events.find? id = some event ∧ event.terminal = true

theorem endsLife_iff {year : Year}
    (h : ∀ link ∈ year.chain, rules.events.find? link.id = some link.event) :
    endsLife year.chain = true ↔ year.HasTerminalEvent rules := by
  rw [endsLife, List.any_eq_true]
  constructor
  · rintro ⟨link, hlink, hterminal⟩
    exact ⟨link.id, List.mem_map_of_mem hlink, link.event, h link hlink, hterminal⟩
  · rintro ⟨id, hid, event, hfind, hterminal⟩
    obtain ⟨link, hlink, rfl⟩ := List.mem_map.mp hid
    obtain rfl := Option.some.inj ((h link hlink).symm.trans hfind)
    exact ⟨link, hlink, hterminal⟩

/-! ## The end -/

/-- Why the year in some place ends the life. -/
theorem Goes.isEnd_iff {opening : Standing} {source source' : Source} {years : List Year}
    (h : Goes rules 0 opening source years source')
    (hage : ∀ year ∈ years, year.person.terminalAge = rules.settings.terminalAge)
    {k : Nat} {year : Year} (hk : years[k]? = some year) :
    year.isEnd = true ↔
      year.HasTerminalEvent rules ∨ year.person.current .life ≤ 0 ∨
        rules.settings.terminalAge ≤ year.person.current .age ∨
        rules.settings.maxYears ≤ k + 1 := by
  obtain ⟨hlt, rfl⟩ := List.getElem?_eq_some_iff.mp hk
  obtain ⟨standing, before, hyear⟩ := h.exists_liveYear k hlt
  rw [Nat.zero_add] at hyear
  have hchain := find?_of_mem_chain (Prod.ext hyear rfl)
  have hend := isEnd_liveYear rules (rules.settings.maxYears ≤ k + 1) standing before
  rw [hyear] at hend
  rw [hend, Bool.or_eq_true, Bool.or_eq_true, Bool.or_eq_true, endsLife_iff hchain, Person.isDead,
    Person.atTerminalAge, decide_eq_true_iff, decide_eq_true_iff, decide_eq_true_iff,
    hage _ (List.getElem_mem hlt), or_assoc, or_assoc]

/-- **A life ends, and its last year says so.**  The loop of the years comes to an end.  There is
at least one year, and there are at most twice as many as there are ages; the last one is marked
and no earlier one is.  What marks a year is a terminal event, a life that is used up, the last
age, or that no more years are left. -/
theorem ends_of_live {request : Request} {source source' : Source} {life : Life}
    (hloaded : rules.Loaded) (hlive : live rules request source = (.ok life, source')) :
    (∃ source₁, resolve rules request.talents (request.person rules.settings) source =
        .ok (life.resolution, source₁) ∧
      Goes rules 0 life.opening source₁ life.years source') ∧
    1 ≤ (Session.ofLife rules life).trajectory.length ∧
    ((Session.ofLife rules life).trajectory.length : Int) ≤
      2 * (rules.settings.terminalAge + 1) ∧
    (∃ earlier last, (Session.ofLife rules life).trajectory = earlier ++ [last] ∧
      last.isEnd = true ∧ ∀ entry ∈ earlier, entry.isEnd = false) ∧
    ∀ (k : Nat) (year : Year) (entry : Entry), life.years[k]? = some year →
      (Session.ofLife rules life).trajectory[k]? = some entry →
      (entry.isEnd = true ↔
        year.HasTerminalEvent rules ∨
        entry.properties.get .life ≤ 0 ∨
        rules.settings.terminalAge ≤ entry.properties.get .age ∨
        (k : Int) + 1 = 2 * (rules.settings.terminalAge + 1)) := by
  obtain ⟨source₁, hresolve, -, hyears, -⟩ := live_eq_ok hlive
  have hterminal := hloaded.coherent.settings.terminalAge
  have hmax : (rules.settings.maxYears : Int) = 2 * (rules.settings.terminalAge + 1) := by
    rw [Settings.maxYears]
    omega
  have hlength : (Session.ofLife rules life).trajectory.length = life.years.length :=
    List.length_map _
  obtain ⟨earlier, last, hsplit, hlast, hearlier⟩ := hyears.exists_last
  have hle := hyears.length_le (by omega)
  have hage : ∀ year ∈ life.years, year.person.terminalAge = rules.settings.terminalAge := by
    intro year hmem
    obtain ⟨moment, hmoment, hperson⟩ := hyears.exists_evening year hmem
    rw [← hperson]
    refine terminalAge_of_live hlive moment (List.mem_cons_of_mem _ ?_)
    exact List.mem_append_left _ (List.mem_append_right _ hmoment)
  refine ⟨⟨source₁, hresolve, hyears⟩, ?_, by omega, ?_, ?_⟩
  · rw [hlength, hsplit, List.length_append, List.length_singleton]
    omega
  · refine ⟨earlier.map Entry.ofYear, Entry.ofYear last, ?_, hlast, ?_⟩
    · show life.years.map Entry.ofYear = _
      rw [hsplit, List.map_append, List.map_singleton]
    · intro entry hmem
      obtain ⟨year, hyear, rfl⟩ := List.mem_map.mp hmem
      exact hearlier year hyear
  · intro k year entry hyear hentry
    have hentry : (life.years.map Entry.ofYear)[k]? = some entry := hentry
    rw [List.getElem?_map, hyear] at hentry
    obtain rfl := Option.some.inj hentry
    have hk := (List.getElem?_eq_some_iff.mp hyear).1
    have hiff := hyears.isEnd_iff hage hyear
    have hplace : rules.settings.maxYears ≤ k + 1 ↔
        (k : Int) + 1 = 2 * (rules.settings.terminalAge + 1) := by
      omega
    rw [hplace] at hiff
    have hstat : ∀ stat, (Entry.ofYear year).properties.get stat = year.person.current stat :=
      fun stat => PerStat.get_map _ _ stat
    rw [hstat, hstat]
    exact hiff

/-! ## A clock that is turned back -/

/-- A draft of rules under which the last age is never reached: an event of age 1 turns the clock
back. -/
def rewindingDraft : Draft where
  events := [("1", { noRandom := some true
                     effect := some ⟨.set (.tabulate fun _ => 0) .age (-1), 0⟩ })]
  ages := [("1", { pool := some [.pair 1 1] })]
  settings := some { Settings.standard with
    terminalAge := 1, terminalAge_le := Range.one_le_greatest }

/-- The rules of the draft. -/
def rewindingRules : Ruleset where
  talents := .empty
  events := .ofList [(1, { Event.ofText 1 "" with
    noRandom := true
    effect := some ⟨.set (.tabulate fun _ => 0) .age (-1), 0⟩ })]
  ages := .ofList [(1, ⟨1, [], [⟨1, 1⟩]⟩)]
  achievements := .empty
  rubrics := .empty
  settings := { Settings.standard with terminalAge := 1, terminalAge_le := Range.one_le_greatest }

/-- Under these rules a life has as many years as there may be. -/
theorem ends_of_live_rewinding : rewindingDraft.build = .ok rewindingRules ∧
    ∃ life source', live rewindingRules .empty (.seeded 0) = (.ok life, source') ∧
      (Session.ofLife rewindingRules life).trajectory.map Entry.isEnd =
        [false, false, false, true] ∧
      ∃ earlier last, (Session.ofLife rewindingRules life).trajectory = earlier ++ [last] ∧
        last.isEnd = true ∧ ∀ entry ∈ earlier, entry.isEnd = false := by
  have hbuild : rewindingDraft.build = .ok rewindingRules := rfl
  have hlive : ∃ life source', live rewindingRules .empty (.seeded 0) = (.ok life, source') ∧
      (Session.ofLife rewindingRules life).trajectory.map Entry.isEnd =
        [false, false, false, true] :=
    ⟨_, _, rfl, rfl⟩
  obtain ⟨life, source', hlive, hmarks⟩ := hlive
  obtain ⟨-, -, -, hlast, -⟩ := ends_of_live (.build hbuild) hlive
  exact ⟨hbuild, life, source', hlive, hmarks, hlast⟩

end LifeCourse
