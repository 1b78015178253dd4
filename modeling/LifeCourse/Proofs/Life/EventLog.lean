import LifeCourse.Proofs.Life.Ending
import LifeCourse.Proofs.Life.Stages

/-!
# The log of events

Three records tell which events have happened.  A session lists the ids of all of them, repetitions
included, and has a line for each in the entry of its year.  The person keeps every id once, for the
conditions that ask for it.  The records are written in different places: the person's by each event
of a chain, the entry's by the chain, the session's after the life.

## One history

The chronicle is the history that all of them record.  The events which happen in its episodes are
its log (`happenedIn`), and an incident adds to the person's list exactly what it adds to the log, if
that is new (`Incident.Changes.events_of_mem_stages`).  By induction over the chronicle the person's
list is the log without its repetitions (`Follows.events_eq`), and since the chronicle is put together
from what the years record, its log is the list of the session (`happenedIn_chronicle`).

Whether a chain ends by itself, at an id that names no event or at the greatest number of its links,
does not matter here, nor whether an age comes again.
-/

namespace LifeCourse

variable {rules : Ruleset}

/-! ## The log -/

/-- The id of the event that happens in an incident. -/
def Incident.happened? : Incident → Option Int
  | .happen id _ => some id
  | _ => none

/-- The log of some episodes: the ids of the events that happen in them, one after another. -/
def happenedIn (episodes : List Episode) : List Int :=
  episodes.filterMap fun episode => episode.incident.happened?

theorem happenedIn_cons (episode : Episode) (episodes : List Episode) :
    happenedIn (episode :: episodes) =
      episode.incident.happened?.toList ++ happenedIn episodes := by
  rw [happenedIn, List.filterMap_cons]
  cases episode.incident.happened? <;> rfl

theorem happenedIn_concat (episodes : List Episode) (episode : Episode) :
    happenedIn (episodes ++ [episode]) =
      happenedIn episodes ++ episode.incident.happened?.toList := by
  rw [happenedIn, List.filterMap_append, List.filterMap_cons]
  cases episode.incident.happened? <;> rfl

/-- An effect leaves the events alone. -/
theorem lasting_events : Lasting fun p q => q.events = p.events where
  refl _ := rfl
  trans h h' := h'.trans h
  change p stat amount := (p.keeps_change stat amount).events

/-- **An event is written down at once.**  At every stage of an incident the events of the person are
those before it, with the one that happens. -/
theorem Incident.Changes.events_of_mem_stages {before after : Standing} {incident : Incident}
    (h : incident.Changes rules before after) :
    ∀ person ∈ incident.stages before.person after.person,
      person.events =
        incident.happened?.toList.foldl (fun ids id => addNew id ids) before.person.events := by
  cases incident with
  | fire talent =>
    obtain ⟨-, -, -, source, rfl⟩ := h
    intro person hmem
    exact ((before.person.ascends_along lasting_events talent.effect source).between person hmem).1
  | happen id event =>
    obtain ⟨-, source, rfl⟩ := h
    refine List.forall_mem_cons.mpr ⟨rfl, fun person hmem => ?_⟩
    exact (((before.person.recordEvent id).ascends_along lasting_events event.effect
      source).between person hmem).1
  | turn | join | achieve =>
    subst h
    exact List.forall_mem_singleton.mpr rfl

theorem Incident.Changes.events_eq {before after : Standing} {incident : Incident}
    (h : incident.Changes rules before after) :
    after.person.events =
      incident.happened?.toList.foldl (fun ids id => addNew id ids) before.person.events :=
  h.events_of_mem_stages after.person
    (List.mem_of_getLast? (incident.getLast?_stages before.person after.person))

/-- **The events of a person are the log without repetitions.** -/
theorem Follows.events_eq {before last : Standing} {episodes : List Episode}
    (h : Follows rules before episodes last) :
    last.person.events =
      (happenedIn episodes).foldl (fun ids id => addNew id ids) before.person.events := by
  induction h with
  | done => rfl
  | cons hchanges _ ih => rw [ih, hchanges.events_eq, happenedIn_cons, List.foldl_append]

/-- Only events of the rules happen. -/
theorem Follows.mem_keys_of_mem_happenedIn {before last : Standing} {episodes : List Episode}
    (h : Follows rules before episodes last) :
    ∀ id ∈ happenedIn episodes, id ∈ rules.events.keys := by
  intro id hmem
  obtain ⟨episode, hepisode, hhappened⟩ := List.mem_filterMap.mp hmem
  refine h.forall_mem (P := fun episode => episode.incident.happened? = some id →
    id ∈ rules.events.keys) (fun {incident _ _} hchanges hhappened => ?_) episode hepisode hhappened
  cases incident with
  | happen other event =>
    obtain rfl := Option.some.inj hhappened
    exact Table.mem_keys_of_find? hchanges.1
  | turn | join | fire | achieve => cases hhappened

/-- Nothing has happened to the person of a request. -/
theorem Request.events_person (request : Request) (settings : Settings) :
    (request.person settings).events = [] := by
  rw [person, Person.setHistory_eq]
  exact (request.keeps_allocate (.unborn settings)).events

/-! ## What the years record -/

/-- The ids of the events that happen in a year. -/
def Year.happened (year : Year) : List Int :=
  year.chain.map Link.id

theorem happenedIn_unlockEpisodes (before : Standing) (id : Int) :
    happenedIn (before.unlockEpisodes rules id) = [] := by
  unfold Standing.unlockEpisodes
  split <;> rfl

theorem happenedIn_achievementEpisodes (opportunity : Opportunity) (before : Standing)
    (achievement : Achievement) :
    happenedIn (before.achievementEpisodes opportunity achievement) = [] := by
  unfold Standing.achievementEpisodes
  split <;> rfl

/-- In a year the events happen that the year records. -/
theorem happenedIn_year (before : Standing) (year : Year) :
    happenedIn (year.episodes rules before) = year.happened := by
  have hfire : ∀ (before : Standing) (firing : Firing),
      happenedIn (before.firingEpisodes firing) = [] := fun _ _ => rfl
  have hlink : ∀ (before : Standing) (link : Link),
      happenedIn (before.linkEpisodes link) = [link.id] := fun _ _ => rfl
  show List.filterMap _ (_ ++ _ ++ _ ++ _) = _
  rw [List.filterMap_append, List.filterMap_append, List.filterMap_append,
    filterMap_episodesOf_eq_nil happenedIn_unlockEpisodes, filterMap_episodesOf_eq_nil hfire,
    filterMap_episodesOf hlink,
    filterMap_episodesOf_eq_nil (happenedIn_achievementEpisodes .trajectory), List.nil_append,
    List.nil_append, List.append_nil, Year.happened, List.map_eq_flatMap]

/-- Nothing happens before the first year. -/
theorem happenedIn_beginning (life : Life) (rules : Ruleset) (request : Request) :
    happenedIn (life.beginning rules request) = [] := by
  have hsettle : ∀ (before : Standing) (settling : Settling),
      happenedIn (settling.episodes before) = [] := by
    intro before settling
    unfold Settling.episodes
    cases settling.fired <;> rfl
  rw [Life.beginning, happenedIn, List.filterMap_append, filterMap_episodesOf_eq_nil hsettle,
    filterMap_episodesOf_eq_nil (happenedIn_achievementEpisodes .start), List.append_nil]

/-- **Nothing happens in a life but in its years.** -/
theorem happenedIn_chronicle (life : Life) (rules : Ruleset) (request : Request) :
    happenedIn (life.chronicle rules request) = life.years.flatMap Year.happened := by
  show List.filterMap _ (life.beginning rules request ++ _ ++ _) = _
  rw [List.filterMap_append, List.filterMap_append, filterMap_episodesOf happenedIn_year,
    filterMap_episodesOf_eq_nil (happenedIn_achievementEpisodes .summary), List.append_nil]
  exact congrArg (· ++ _) (happenedIn_beginning life rules request)

/-- What has happened up to the end of a year. -/
theorem Goes.events_eq (hkeyed : rules.talents.Keyed Talent.id) {lived : Nat} {before : Standing}
    {source source' : Source} {years : List Year}
    (h : Goes rules lived before source years source') {k : Nat} {year : Year}
    (hk : years[k]? = some year) :
    year.standing.person.events =
      ((years.take (k + 1)).flatMap Year.happened).foldl (fun ids id => addNew id ids)
        before.person.events := by
  have hfirst : ∀ {isLast before source source'} {year : Year},
      liveYear rules isLast before source = (year, source') →
        year.standing.person.events =
          year.happened.foldl (fun ids id => addNew id ids) before.person.events := by
    intro isLast before source source' year hyear
    rw [(follows_liveYear hkeyed hyear).events_eq, happenedIn_year]
  induction h generalizing k with
  | @last _ _ _ only _ hyear _ =>
    cases k with
    | zero =>
      obtain rfl := Option.some.inj hk
      rw [hfirst hyear, List.take_succ_cons, List.take_zero, List.flatMap_singleton]
    | succ k => cases hk
  | @more _ _ _ first _ years _ hyear _ _ ih =>
    cases k with
    | zero =>
      obtain rfl := Option.some.inj hk
      rw [hfirst hyear, List.take_succ_cons, List.take_zero, List.flatMap_singleton]
    | succ k =>
      rw [ih hk, hfirst hyear, List.take_succ_cons, List.flatMap_cons, List.foldl_append]

/-! ## Chains and their lines -/

variable (rules) in
theorem length_yearChain_le (age : Int) (person : Person) (source : Source) :
    (yearChain rules age person source).1.length ≤ rules.settings.maxChainDepth := by
  unfold yearChain
  split
  · unfold ageChain
    split
    · exact length_chainFrom_le rules rules.settings.maxChainDepth _ _ _
    · exact Nat.zero_le _
  · exact Nat.zero_le _

/-- The chain of a year is the one that its age brings. -/
theorem exists_yearChain_of_liveYear {isLast : Bool} {before : Standing} {source source' : Source}
    {year : Year} (h : liveYear rules isLast before source = (year, source')) :
    ∃ person source, (yearChain rules year.age person source).1 = year.chain := by
  obtain ⟨tracker, person, source₁, -, hchain, -⟩ := liveYear_parts h
  exact ⟨person, source₁, by rw [hchain]⟩

namespace Entry

/-- The lines of talents come before those of events. -/
theorem pairwise_content (year : Year) :
    (ofYear year).content.Pairwise fun line next => next.kind = .talent → line.kind = .talent := by
  refine List.pairwise_append.mpr ⟨?_, ?_, ?_⟩
  · exact List.pairwise_map.mpr (List.pairwise_of_forall fun _ _ _ => rfl)
  · exact List.pairwise_map.mpr (List.pairwise_of_forall fun _ _ h => by cases h)
  · intro line hline _ _ _
    obtain ⟨firing, -, rfl⟩ := List.mem_map.mp hline
    rfl

/-- The lines of events are those of the chain. -/
theorem filter_event_content (year : Year) :
    (ofYear year).content.filter (fun line => line.kind = .event) = year.chain.map Line.ofLink := by
  have htalents : (year.firings.map fun firing => Line.ofTalent firing.talent.info).filter
      (fun line => line.kind = .event) = [] := by
    rw [List.filter_eq_nil_iff]
    intro line hline
    obtain ⟨firing, -, rfl⟩ := List.mem_map.mp hline
    exact Bool.false_ne_true
  have hevents : (year.chain.map Line.ofLink).filter (fun line => line.kind = .event) =
      year.chain.map Line.ofLink := by
    rw [List.filter_eq_self]
    intro line hline
    obtain ⟨link, -, rfl⟩ := List.mem_map.mp hline
    rfl
  show List.filter _ (_ ++ _) = _
  rw [List.filter_append, htalents, hevents, List.nil_append]

end Entry

/-! ## The law of the log -/

/-- **The records of the events agree.**  The log of a session is what happens in its chronicle, year
by year, and every id in it names an event of the rules.  The entry of a year shows the talents first
and then one line for each link of the chain that its age brings, which has no more links than the
settings allow.  At every moment of the life, also while an event has its effect, the events of the
person are the log so far without its repetitions. -/
theorem log_of_live (hkeyed : rules.talents.Keyed Talent.id) {request : Request}
    {source source' : Source} {life : Life}
    (hlive : live rules request source = (.ok life, source')) :
    Follows rules (request.standing rules.settings) (life.chronicle rules request) life.closing ∧
    happenedIn (life.chronicle rules request) = (Session.ofLife rules life).triggeredEvents ∧
    (Session.ofLife rules life).triggeredEvents = life.years.flatMap Year.happened ∧
    (∀ id ∈ (Session.ofLife rules life).triggeredEvents, id ∈ rules.events.keys) ∧
    (∀ (k : Nat) (year : Year) (entry : Entry), life.years[k]? = some year →
      (Session.ofLife rules life).trajectory[k]? = some entry →
      (∃ person source, (yearChain rules year.age person source).1 = year.chain) ∧
      (entry.content.Pairwise fun line next => next.kind = .talent → line.kind = .talent) ∧
      entry.content.filter (fun line => line.kind = .event) = year.chain.map Line.ofLink ∧
      entry.content.countP (fun line => line.kind = .event) = year.happened.length ∧
      year.happened.length ≤ rules.settings.maxChainDepth ∧
      year.standing.person.events =
        ((life.years.take (k + 1)).flatMap Year.happened).eraseDups) ∧
    (∀ past, past <+: life.chronicle rules request →
      happenedIn past <+: (Session.ofLife rules life).triggeredEvents ∧
      ((request.standing rules.settings).after past).person.events =
        (happenedIn past).eraseDups) ∧
    ∀ past episode, past ++ [episode] <+: life.chronicle rules request →
      ∀ person ∈ episode.incident.stages ((request.standing rules.settings).after past).person
          episode.standing.person,
        person.events = (happenedIn (past ++ [episode])).eraseDups := by
  have hfollows := follows_of_live hkeyed hlive
  obtain ⟨source₁, -, -, hyears, -⟩ := live_eq_ok hlive
  have hlog : happenedIn (life.chronicle rules request) =
      (Session.ofLife rules life).triggeredEvents := happenedIn_chronicle life rules request
  have hnone : (request.standing rules.settings).person.events = [] :=
    request.events_person rules.settings
  have hopening : life.opening.person.events = [] := by
    rw [(follows_beginning_of_live hkeyed hlive).events_eq, happenedIn_beginning, hnone]
    rfl
  refine ⟨hfollows, hlog, rfl, ?_, ?_, ?_, ?_⟩
  · intro id hid
    rw [← hlog] at hid
    exact hfollows.mem_keys_of_mem_happenedIn id hid
  · intro k year entry hk hentry
    obtain ⟨hlt, rfl⟩ := List.getElem?_eq_some_iff.mp hk
    obtain ⟨-, rfl⟩ := Session.exists_year_of_getElem? hentry
    obtain ⟨standing, before, hyear⟩ := hyears.exists_liveYear k hlt
    have hchain := exists_yearChain_of_liveYear (Prod.ext hyear rfl)
    have hlines := Entry.filter_event_content life.years[k]
    refine ⟨hchain, Entry.pairwise_content _, hlines, ?_, ?_, ?_⟩
    · rw [List.countP_eq_length_filter, hlines, Year.happened, List.length_map, List.length_map]
    · obtain ⟨person, source, hchain⟩ := hchain
      rw [Year.happened, List.length_map, ← hchain]
      exact length_yearChain_le rules _ person source
    · rw [hyears.events_eq hkeyed hk, hopening, foldl_addNew_nil]
  · intro past hpast
    rw [← hlog, (hfollows.of_prefix hpast).events_eq, hnone, foldl_addNew_nil]
    exact ⟨hpast.filterMap _, rfl⟩
  · intro past episode hpast person hmem
    have hsofar := hfollows.of_prefix ((List.prefix_append past [episode]).trans hpast)
    have hnext := (hfollows.of_prefix hpast).changes_of_append
    rw [hnext.events_of_mem_stages person hmem, hsofar.events_eq, hnone, ← List.foldl_append,
      ← happenedIn_concat, foldl_addNew_nil]

/-! ## Events that lead to each other -/

/-- A draft of rules for two years.  Birth brings a talent and an event, which leads to another one,
and that one leads back.  The next year brings an event that leads to none. -/
def circlingDraft : Draft where
  talents := [("1", {})]
  events := [("1", { noRandom := some true, followUp := some (.event 2) }),
    ("2", { followUp := some (.event 1) }),
    ("3", { noRandom := some true, followUp := some (.event 9) })]
  ages := [("0", { talents := some [1], pool := some [.pair 1 1] }),
    ("1", { pool := some [.pair 3 1] })]
  settings := some { Settings.standard with
    terminalAge := 1, terminalAge_le := by decide, maxChainDepth := 3 }

/-- The rules of the draft. -/
def circlingRules : Ruleset where
  talents := .ofList [(1, .ofName 1 "")]
  events := .ofList [
    (1, { Event.ofText 1 "" with noRandom := true, followUp := some (.event 2) }),
    (2, { Event.ofText 2 "" with followUp := some (.event 1) }),
    (3, { Event.ofText 3 "" with noRandom := true, followUp := some (.event 9) })]
  ages := .ofList [(0, ⟨0, [1], [⟨1, 1⟩]⟩), (1, ⟨1, [], [⟨3, 1⟩]⟩)]
  achievements := .empty
  rubrics := .empty
  settings := { Settings.standard with
    terminalAge := 1, terminalAge_le := by decide, maxChainDepth := 3 }

/-- The circle is cut off after three events, of which one is a repetition, and each has its line
after the talent. -/
theorem log_of_live_circling : circlingDraft.build = .ok circlingRules ∧
    ∃ life source', live circlingRules .empty (.seeded 0) = (.ok life, source') ∧
      life.years.map Year.happened = [[1, 2, 1], [3]] ∧
      (Session.ofLife circlingRules life).triggeredEvents = [1, 2, 1, 3] ∧
      (Session.ofLife circlingRules life).trajectory.map
          (fun entry => entry.content.map Line.kind) =
        [[.talent, .event, .event, .event], [.event]] ∧
      ∀ year, life.years[1]? = some year → year.standing.person.events = [1, 2, 3] := by
  have hbuild : circlingDraft.build = .ok circlingRules := rfl
  have hlive : ∃ life source', live circlingRules .empty (.seeded 0) = (.ok life, source') ∧
      life.years.map Year.happened = [[1, 2, 1], [3]] ∧
      (Session.ofLife circlingRules life).trajectory.map
          (fun entry => entry.content.map Line.kind) =
        [[.talent, .event, .event, .event], [.event]] := ⟨_, _, rfl, rfl, rfl⟩
  obtain ⟨life, source', hlive, hhappened, hkinds⟩ := hlive
  obtain ⟨-, -, hlog, -, hyears, -⟩ :=
    log_of_live (Ruleset.Loaded.coherent (.build hbuild)).talents hlive
  refine ⟨hbuild, life, source', hlive, hhappened, ?_, hkinds, fun year hyear => ?_⟩
  · rw [hlog, List.flatMap_def, hhappened]
    rfl
  · have hentry : (Session.ofLife circlingRules life).trajectory[1]? =
        some (Entry.ofYear year) := by
      show (life.years.map Entry.ofYear)[1]? = _
      rw [List.getElem?_map, hyear]
      rfl
    obtain ⟨-, -, -, -, -, hevents⟩ := hyears 1 year _ hyear hentry
    rw [hevents, List.flatMap_def, List.map_take, hhappened]
    decide

end LifeCourse
