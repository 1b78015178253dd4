import LifeCourse.Proofs.Life.Ending
import LifeCourse.Proofs.Life.Frame
import Mathlib.Data.List.Forall2

/-!
# Where a chain of events leads

The events of the rules are the places of a graph, and a chain is a path in it.  Which edge leaves a
place depends on the person at that time: `Event.LeadsTo` is the edge for the named values that the
person has right after the effect of the event.  There is never more than one
(`Event.LeadsTo.unique`), but the graph may have circles, and edges to places that it does not have.

`Trail` is a path with everything that is handed on along it: the number of links that may still
follow, the person and the source.  It has a constructor for each of the three ways to end and one
for going on, and what the chain of an event is, as a whole, is read off it by induction
(`path_of_fireEvent`).
-/

namespace LifeCourse

variable {rules : Ruleset}

namespace Event

variable {event : Event} {lookup : Lookup}

/-! ## The edges -/

/-- No branch of the event is taken. -/
def TakesNoBranch (event : Event) (lookup : Lookup) : Prop :=
  ∀ branch ∈ event.branches, branch.condition.holds lookup = false

/-- The event leads to the one with an id. -/
inductive LeadsTo (event : Event) (lookup : Lookup) : Int → Prop where
  /-- It is the target of the first branch whose condition holds. -/
  | branch {before after : List Branch} {branch : Branch}
      (hbranches : event.branches = before ++ branch :: after)
      (hbefore : ∀ earlier ∈ before, earlier.condition.holds lookup = false)
      (hholds : branch.condition.holds lookup = true) : LeadsTo event lookup branch.target
  /-- No condition holds, and it is what follows. -/
  | followUp {id : Int} (hstraight : event.TakesNoBranch lookup)
      (hfollow : event.followUp = some (.event id)) : LeadsTo event lookup id

/-- What the event tells. -/
inductive Tells (event : Event) (lookup : Lookup) : String → Prop where
  /-- A text follows, and no branch is taken. -/
  | more {s : String} (hstraight : event.TakesNoBranch lookup)
      (hfollow : event.followUp = some (.text s)) : Tells event lookup (event.text ++ s)
  /-- No text follows, or some branch is taken. -/
  | plain (h : ∀ s, event.followUp = some (.text s) → ¬event.TakesNoBranch lookup) :
      Tells event lookup event.text

theorem branch?_eq_none_iff : event.branch? lookup = none ↔ event.TakesNoBranch lookup := by
  simp only [branch?, Option.map_eq_none_iff, List.find?_eq_none, Bool.not_eq_true, TakesNoBranch]

theorem leadsTo_of_branch? {target : Int} (h : event.branch? lookup = some target) :
    event.LeadsTo lookup target := by
  obtain ⟨branch, hfind, rfl⟩ := Option.map_eq_some_iff.mp h
  obtain ⟨hholds, before, after, hbranches, hbefore⟩ := List.find?_eq_some_iff_append.mp hfind
  exact .branch hbranches (fun earlier hmem => by simpa using hbefore earlier hmem) hholds

theorem next?_eq_some_iff {next : Int} :
    event.next? lookup = some next ↔ event.LeadsTo lookup next := by
  constructor
  · intro h
    rw [next?] at h
    split at h
    · rename_i target hbranch
      cases h
      exact leadsTo_of_branch? hbranch
    · rename_i id hbranch hfollow
      cases h
      exact .followUp (branch?_eq_none_iff.mp hbranch) hfollow
    · cases h
  · rintro (⟨hbranches, hbefore, hholds⟩ | ⟨hstraight, hfollow⟩)
    · rename_i before after branch
      have hfind : event.branches.find? (fun branch => branch.condition.holds lookup) =
          some branch :=
        List.find?_eq_some_iff_append.mpr
          ⟨hholds, before, after, hbranches, fun earlier hmem => by simp [hbefore earlier hmem]⟩
      simp only [next?, branch?, hfind, Option.map_some]
    · simp only [next?, branch?_eq_none_iff.mpr hstraight, hfollow]

/-- What an event leads to is among its branches, or follows it. -/
theorem LeadsTo.branch_or_followUp {next : Int} (h : event.LeadsTo lookup next) :
    (∃ branch ∈ event.branches, branch.target = next) ∨
      event.followUp = some (.event next) := by
  rcases h with ⟨hbranches, -, -⟩ | ⟨-, hfollow⟩
  · refine .inl ⟨_, ?_, rfl⟩
    rw [hbranches]
    exact List.mem_append_cons_self
  · exact .inr hfollow

/-- There is at most one way on. -/
theorem LeadsTo.unique {next next' : Int} (h : event.LeadsTo lookup next)
    (h' : event.LeadsTo lookup next') : next = next' :=
  Option.some.inj ((next?_eq_some_iff.mpr h).symm.trans (next?_eq_some_iff.mpr h'))

variable (event lookup) in
theorem tells_telling : event.Tells lookup (event.telling lookup) := by
  rw [telling]
  split
  · rename_i s hbranch hfollow
    exact .more (branch?_eq_none_iff.mp hbranch) hfollow
  · rename_i hnot
    exact .plain fun s hfollow hstraight => hnot s (branch?_eq_none_iff.mpr hstraight) hfollow

end Event

/-! ## The paths -/

/-- A path from an id on, of no more than a number of links.  Each link has the person right after
the effect of its event, and the next one starts from there. -/
inductive Trail (rules : Ruleset) :
    Nat → Int → Person → Source → List Link → Person → Source → Prop where
  /-- There may be no more links. -/
  | spent (id : Int) (person : Person) (source : Source) :
      Trail rules 0 id person source [] person source
  /-- The id names no event. -/
  | unknown {links : Nat} {id : Int} (hfind : rules.events.find? id = none) (person : Person)
      (source : Source) : Trail rules (links + 1) id person source [] person source
  /-- The event leads nowhere. -/
  | ends {links : Nat} {id : Int} {event : Event} {person person' : Person}
      {source source' : Source} (hfind : rules.events.find? id = some event)
      (heffect : (person.recordEvent id).applyIfAny event.effect source = (person', source'))
      (hend : ∀ next, ¬event.LeadsTo person'.lookup next) :
      Trail rules (links + 1) id person source [⟨id, event, person'⟩] person' source'
  /-- The event leads to the rest of the path. -/
  | leads {links : Nat} {id next : Int} {event : Event} {person person' person'' : Person}
      {source source' source'' : Source} {chain : List Link}
      (hfind : rules.events.find? id = some event)
      (heffect : (person.recordEvent id).applyIfAny event.effect source = (person', source'))
      (hnext : event.LeadsTo person'.lookup next)
      (rest : Trail rules links next person' source' chain person'' source'') :
      Trail rules (links + 1) id person source (⟨id, event, person'⟩ :: chain) person'' source''

/-- **A chain is a path.** -/
theorem trail_of_chainFrom {links : Nat} {id : Int} {person person' : Person}
    {source source' : Source} {chain : List Link}
    (h : chainFrom rules links id person source = (chain, person', source')) :
    Trail rules links id person source chain person' source' := by
  induction links generalizing id person source chain with
  | zero =>
    cases h
    exact .spent id _ _
  | succ links ih =>
    rw [chainFrom] at h
    split at h
    · rename_i hfind
      cases h
      exact .unknown hfind _ _
    · rename_i event hfind
      rcases heffect : (person.recordEvent id).applyIfAny event.effect source with ⟨after, drawn⟩
      simp only [heffect] at h
      split at h
      · rename_i hnone
        cases h
        refine .ends hfind heffect fun next hnext => ?_
        rw [Event.next?_eq_some_iff.mpr hnext] at hnone
        cases hnone
      · rename_i next hnext
        rcases hrest : chainFrom rules links next after drawn with ⟨rest, last, spent⟩
        rw [hrest] at h
        cases h
        exact .leads hfind heffect (Event.next?_eq_some_iff.mp hnext) (ih hrest)

namespace Trail

variable {links : Nat} {id : Int} {person person' : Person} {source source' : Source}
  {chain : List Link}

/-- Where links may follow, there is none only after an unknown id. -/
theorem eq_nil_iff (h : Trail rules links id person source chain person' source')
    (hlinks : 1 ≤ links) : chain = [] ↔ rules.events.find? id = none := by
  cases h with
  | spent => omega
  | unknown hfind => exact iff_of_true rfl hfind
  | ends hfind => simp [hfind]
  | leads hfind => simp [hfind]

/-- It starts with the id. -/
theorem head_id (h : Trail rules links id person source chain person' source') {link : Link}
    (hlink : chain.head? = some link) : link.id = id := by
  cases h with
  | spent => cases hlink
  | unknown => cases hlink
  | ends =>
    rw [List.head?_cons, Option.some.injEq] at hlink
    rw [← hlink]
  | leads =>
    rw [List.head?_cons, Option.some.injEq] at hlink
    rw [← hlink]

/-- **Each link is where the one before it leads.** -/
theorem isChain (h : Trail rules links id person source chain person' source') :
    chain.IsChain fun link next => link.event.LeadsTo link.person.lookup next.id := by
  induction h with
  | spent => exact .nil
  | unknown => exact .nil
  | ends => exact .singleton _
  | leads _ _ hnext rest ih =>
    exact List.isChain_cons.mpr ⟨fun link hlink => rest.head_id hlink ▸ hnext, ih⟩

/-- **A path that could be longer leads to no event.** -/
theorem find?_of_length_lt (h : Trail rules links id person source chain person' source')
    (hlength : chain.length < links) {last : Link} (hlast : chain.getLast? = some last) {next : Int}
    (hnext : last.event.LeadsTo last.person.lookup next) : rules.events.find? next = none := by
  induction h with
  | spent => cases hlast
  | unknown => cases hlast
  | ends _ _ hend =>
    rw [List.getLast?_singleton, Option.some.injEq] at hlast
    subst hlast
    exact absurd hnext (hend next)
  | @leads links _ _ _ _ _ _ _ _ _ chain _ _ hnext' rest ih =>
    rw [List.length_cons, Nat.add_lt_add_iff_right] at hlength
    rw [List.getLast?_cons, Option.some.injEq] at hlast
    cases hrest : chain.getLast? with
    | none =>
      rw [hrest, Option.getD_none] at hlast
      subst hlast
      rw [← hnext'.unique hnext]
      exact (rest.eq_nil_iff (by omega)).mp (List.getLast?_eq_none_iff.mp hrest)
    | some final =>
      rw [hrest, Option.getD_some] at hlast
      subst hlast
      exact ih hlength hrest

/-- The events of the person are those from before and those of the path, each recorded once. -/
theorem events_eq (h : Trail rules links id person source chain person' source') :
    person'.events = (chain.map Link.id).foldl (fun held id => addNew id held) person.events := by
  induction h with
  | spent => rfl
  | unknown => rfl
  | @ends _ id event person _ source _ _ heffect =>
    have hkeeps := (person.recordEvent id).keeps_applyIfAny event.effect source
    rw [heffect] at hkeeps
    exact hkeeps.events
  | @leads _ id _ event person _ _ source _ _ _ _ heffect _ _ ih =>
    have hkeeps := (person.recordEvent id).keeps_applyIfAny event.effect source
    rw [heffect] at hkeeps
    rw [ih, hkeeps.events]
    rfl

end Trail

/-! ## The chain of an event -/

/-- **The chain of an event is a bounded path of the graph of the events.**  It is a path from the
id on, has no more links than the settings allow, and has none exactly if the id is unknown; else it
starts with it.  Each link leads to the next one, and if there could be more links the last one
leads to no event of the rules.  Each link has its line, in order, with the grade of the event and
what it tells.  The chain ends the life exactly if it has a terminal event.  The events of the
person are those from before and, in order, those of the chain that are new. -/
theorem path_of_fireEvent (hloaded : rules.Loaded) {first : Int} {person person' : Person}
    {source source' : Source} {chain : List Link}
    (hfire : fireEvent rules first person source = (chain, person', source')) :
    Trail rules rules.settings.maxChainDepth first person source chain person' source' ∧
    chain.length ≤ rules.settings.maxChainDepth ∧
    (chain = [] ↔ rules.events.find? first = none) ∧
    (∀ link, chain.head? = some link → link.id = first) ∧
    (∀ link ∈ chain, rules.events.find? link.id = some link.event) ∧
    chain.IsChain (fun link next => link.event.LeadsTo link.person.lookup next.id) ∧
    (chain.length < rules.settings.maxChainDepth → ∀ last, chain.getLast? = some last →
      ∀ next, last.event.LeadsTo last.person.lookup next → rules.events.find? next = none) ∧
    List.Forall₂ (fun link line => line.kind = .event ∧ line.grade = link.event.grade ∧
      link.event.Tells link.person.lookup line.description) chain (chain.map Line.ofLink) ∧
    (endsLife chain = true ↔ ∃ link ∈ chain, link.event.terminal = true) ∧
    person'.events = person.events ++
      ((chain.map Link.id).filter fun id => !person.events.contains id).eraseDups := by
  have htrail := trail_of_chainFrom hfire
  have hlength := length_chainFrom_le rules rules.settings.maxChainDepth first person source
  have hknown : ∀ link ∈ (fireEvent rules first person source).1,
      rules.events.find? link.id = some link.event := find?_of_mem_chainFrom _ first person source
  rw [← fireEvent] at hlength
  rw [hfire] at hlength hknown
  refine ⟨htrail, hlength, htrail.eq_nil_iff hloaded.coherent.settings.maxChainDepth,
    fun _ => htrail.head_id, hknown, htrail.isChain,
    fun hlt _ hlast _ => htrail.find?_of_length_lt hlt hlast, ?_, List.any_eq_true, ?_⟩
  · rw [List.forall₂_map_right_iff, List.forall₂_same]
    exact fun link _ => ⟨rfl, rfl, link.event.tells_telling link.person.lookup⟩
  · rw [htrail.events_eq, foldl_addNew]

/-! ## A way out and a circle -/

/-- A draft of rules with a chain that ends and one that does not.  The first event leads to the
second one, although a text is given as what follows it; the second one has a text that follows it,
and ends the life.  The third and the fourth event lead to each other.  A chain has three links. -/
def forkedDraft : Draft where
  events := [
    ("1", { text := some "a", branches := some [.entry "" 2, .entry "" 3],
            followUp := some (.text "?") }),
    ("2", { text := some "b", grade := some 1, followUp := some (.text "!"),
            terminal := some true }),
    ("3", { followUp := some (.event 4) }),
    ("4", { followUp := some (.event 3) })]
  settings := some { Settings.standard with maxChainDepth := 3 }

/-- The rules of the draft. -/
def forkedRules : Ruleset where
  talents := .empty
  events := .ofList [
    (1, { Event.ofText 1 "a" with
      branches := [⟨.ofText "", 2⟩, ⟨.ofText "", 3⟩], followUp := some (.text "?") }),
    (2, { Event.ofText 2 "b" with grade := 1, followUp := some (.text "!"), terminal := true }),
    (3, { Event.ofText 3 "" with followUp := some (.event 4) }),
    (4, { Event.ofText 4 "" with followUp := some (.event 3) })]
  ages := .empty
  achievements := .empty
  rubrics := .empty
  settings := { Settings.standard with maxChainDepth := 3 }

/-- From the first event the way out is taken, and its last line has the text that follows.  From the
third one the circle is cut off, and its events are recorded once. -/
theorem path_of_fireEvent_forked : forkedDraft.build = .ok forkedRules ∧
    (∃ chain person source, fireEvent forkedRules 1 (.unborn .standard) (.seeded 0) =
        (chain, person, source) ∧
      chain.map Link.id = [1, 2] ∧ chain.length < forkedRules.settings.maxChainDepth ∧
      (chain.map Line.ofLink).map Line.description = ["a", "b!"] ∧
      endsLife chain = true ∧ person.events = [1, 2]) ∧
    ∃ chain person source, fireEvent forkedRules 3 (.unborn .standard) (.seeded 0) =
        (chain, person, source) ∧
      chain.map Link.id = [3, 4, 3] ∧ chain.length = forkedRules.settings.maxChainDepth ∧
      endsLife chain = false ∧ person.events = [3, 4] := by
  have hbuild : forkedDraft.build = .ok forkedRules := rfl
  have hloaded : forkedRules.Loaded := .build hbuild
  have hout : ∃ chain person source, fireEvent forkedRules 1 (.unborn .standard) (.seeded 0) =
      (chain, person, source) ∧ chain.map Link.id = [1, 2] ∧
        (chain.map Line.ofLink).map Line.description = ["a", "b!"] ∧
        ∃ link ∈ chain, link.event.terminal = true :=
    ⟨_, _, _, rfl, rfl, rfl, _, .tail _ (.head _), rfl⟩
  have hcircle : ∃ chain person source, fireEvent forkedRules 3 (.unborn .standard) (.seeded 0) =
      (chain, person, source) ∧ chain.map Link.id = [3, 4, 3] ∧
        ∀ link ∈ chain, link.event.terminal = false :=
    ⟨_, _, _, rfl, rfl, by decide⟩
  refine ⟨hbuild, ?_, ?_⟩
  · obtain ⟨chain, person, source, hfire, hids, htexts, hterminal⟩ := hout
    obtain ⟨-, -, -, -, -, -, -, -, hends, hevents⟩ := path_of_fireEvent hloaded hfire
    refine ⟨chain, person, source, hfire, hids, ?_, htexts, hends.mpr hterminal, ?_⟩
    · rw [← List.length_map Link.id, hids]
      decide
    · rw [hevents, hids]
      decide
  · obtain ⟨chain, person, source, hfire, hids, hterminal⟩ := hcircle
    obtain ⟨-, -, -, -, -, -, -, -, hends, hevents⟩ := path_of_fireEvent hloaded hfire
    refine ⟨chain, person, source, hfire, hids, ?_, ?_, ?_⟩
    · rw [← List.length_map Link.id, hids]
      rfl
    · refine Bool.eq_false_iff.mpr fun htrue => ?_
      obtain ⟨link, hlink, htrue⟩ := hends.mp htrue
      rw [hterminal link hlink] at htrue
      cases htrue
    · rw [hevents, hids]
      decide

end LifeCourse
