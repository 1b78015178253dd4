import LifeCourse.Life.Request
import LifeCourse.Life.Tracker

/-!
# What a change of stats leaves alone

Effects and the turn of a year move gauges and nothing else: the terminal age, the count of
earlier lives and what a life has gathered stay as they are.  `Person.Keeps p q` says that `q` is
`p` with other gauges.  An effect is made of changes of one stat each, and what every such change
preserves, the effect preserves (`Person.applyIfAny_preserves`).  The values that a request gives out
are changes of this kind too (`Request.allocate_preserves`), so a life begins without talents and
with the terminal age of the settings (`Request.person_eq`).

Of the gauges, each stat is changed by its own amount alone.  The one that is drawn for the random
amount is a core stat, so life and age are changed as if no amount were random
(`Person.current_apply_of_not_mem`).
-/

namespace LifeCourse
namespace Person

/-- The second person is the first one with other gauges. -/
def Keeps (p q : Person) : Prop :=
  q = { p with gauges := q.gauges }

namespace Keeps

variable {p q r : Person}

theorem refl (p : Person) : p.Keeps p :=
  rfl

theorem trans (h : p.Keeps q) (h' : q.Keeps r) : p.Keeps r := by
  unfold Keeps at *
  rw [h', h]

theorem terminalAge (h : p.Keeps q) : q.terminalAge = p.terminalAge := by
  rw [h]

theorem talents (h : p.Keeps q) : q.talents = p.talents := by
  rw [h]

theorem events (h : p.Keeps q) : q.events = p.events := by
  rw [h]

theorem achievements (h : p.Keeps q) : q.achievements = p.achievements := by
  rw [h]

end Keeps

theorem keeps_set (person : Person) (stat : Stat) (value : Int) :
    person.Keeps (person.set stat value) :=
  rfl

theorem keeps_change (person : Person) (stat : Stat) (amount : Int) :
    person.Keeps (person.change stat amount) := by
  unfold change
  split
  · exact .refl person
  · exact keeps_set person stat _

/-- **What every change of a stat preserves, every effect preserves.** -/
theorem applyIfAny_preserves {P : Person → Prop}
    (hchange : ∀ (q : Person) (stat : Stat) (amount : Int), P q → P (q.change stat amount))
    {person : Person} (h : P person) (effect : Option Effect) (source : Source) :
    P (person.applyIfAny effect source).1 := by
  cases effect with
  | none => exact h
  | some effect =>
    have hall : ∀ stats : List Stat, P (stats.foldl
        (fun person stat => person.change stat (effect.amounts.get stat)) person) := by
      intro stats
      induction stats generalizing person with
      | nil => exact h
      | cons stat rest ih => exact ih (hchange person stat _ h)
    rw [applyIfAny, apply]
    split
    · exact hall Stat.all
    · exact hchange _ _ _ (hall Stat.all)

theorem keeps_applyIfAny (person : Person) (effect : Option Effect) (source : Source) :
    person.Keeps (person.applyIfAny effect source).1 :=
  applyIfAny_preserves (fun q stat amount hq => hq.trans (q.keeps_change stat amount))
    (.refl person) effect source

theorem keeps_nextYear (person : Person) : person.Keeps person.nextYear :=
  keeps_set person .age _

/-- A new talent is added at the end. -/
theorem talents_addTalent_of_not_mem {person : Person} {id : Int}
    (h : id ∉ person.talents) : (person.addTalent id).talents = person.talents ++ [id] :=
  addNew_of_not_mem h

/-- A new achievement is added at the end. -/
theorem achievements_addAchievement_of_not_mem {person : Person} {id : Int}
    (h : id ∉ person.achievements) :
    (person.addAchievement id).achievements = person.achievements ++ [id] :=
  addNew_of_not_mem h

end Person

/-! ## One stat at a time -/

namespace Person

theorem current_change (person : Person) (stat : Stat) (amount : Int) :
    (person.change stat amount).current stat =
      if amount = 0 then person.current stat else person.changed stat amount := by
  unfold change
  split
  · rfl
  · exact current_set_self person stat _

theorem gauge_change_of_ne (person : Person) {stat stat' : Stat} (amount : Int)
    (h : stat' ≠ stat) : (person.change stat amount).gauges.get stat' = person.gauges.get stat' := by
  unfold change
  split
  · rfl
  · exact gauge_set_of_ne person _ h

/-- What a change makes of a stat depends on that stat and on the terminal age. -/
theorem gauge_change_congr {p q : Person} {stat : Stat} (hage : p.terminalAge = q.terminalAge)
    (hgauge : p.gauges.get stat = q.gauges.get stat) (amount : Int) :
    (p.change stat amount).gauges.get stat = (q.change stat amount).gauges.get stat := by
  have hchanged : p.changed stat amount = q.changed stat amount := by
    rw [changed, changed, withinLife, withinLife, current, current, hgauge, hage]
  unfold change
  split
  · exact hgauge
  · rw [gauge_set_self, gauge_set_self, hgauge, hchanged]

theorem gauge_foldl_change_of_not_mem (amounts : PerStat Int) {stat : Stat} {stats : List Stat}
    (h : stat ∉ stats) (person : Person) :
    (stats.foldl (fun person stat => person.change stat (amounts.get stat)) person).gauges.get stat =
      person.gauges.get stat := by
  induction stats generalizing person with
  | nil => rfl
  | cons other rest ih =>
    obtain ⟨hne, hrest⟩ := List.ne_and_not_mem_of_not_mem_cons h
    rw [List.foldl_cons, ih hrest, gauge_change_of_ne person _ hne]

theorem gauge_foldl_change (amounts : PerStat Int) {stat : Stat} {stats : List Stat}
    (hmem : stat ∈ stats) (hnodup : stats.Nodup) (person : Person) :
    (stats.foldl (fun person stat => person.change stat (amounts.get stat)) person).gauges.get stat =
      (person.change stat (amounts.get stat)).gauges.get stat := by
  induction stats generalizing person with
  | nil => exact absurd hmem List.not_mem_nil
  | cons other rest ih =>
    obtain ⟨hother, hrest⟩ := List.nodup_cons.mp hnodup
    rw [List.foldl_cons]
    by_cases hself : stat = other
    · subst hself
      exact gauge_foldl_change_of_not_mem amounts hother _
    · have hmem : stat ∈ rest := (List.mem_cons.mp hmem).resolve_left hself
      rw [ih hmem hrest]
      exact gauge_change_congr (keeps_change person other _).terminalAge
        (gauge_change_of_ne person _ hself) _

/-- Of several changes, each stat has its own. -/
theorem gauge_changeAll (person : Person) (amounts : PerStat Int) (stat : Stat) :
    (person.changeAll amounts).gauges.get stat =
      (person.change stat (amounts.get stat)).gauges.get stat :=
  gauge_foldl_change amounts stat.mem_all (by decide) person

/-- The stat that is drawn is a core stat. -/
theorem drawCore_mem (source : Source) : (drawCore source).1 ∈ Stat.core := by
  have hplace : (source.below Stat.core.length).1 < Stat.core.length :=
    Source.below_lt (by decide) source
  show Stat.core.getD (source.below Stat.core.length).1 .charm ∈ Stat.core
  rw [List.getD_eq_getElem?_getD, List.getElem?_eq_getElem hplace]
  exact List.getElem_mem hplace

/-- A stat that is no core stat is changed by its own amount. -/
theorem current_apply_of_not_mem (person : Person) (effect : Effect) (source : Source)
    {stat : Stat} (h : stat ∉ Stat.core) :
    (person.apply effect source).1.current stat =
      (person.change stat (effect.amounts.get stat)).current stat := by
  refine congrArg Gauge.current ?_
  rw [← gauge_changeAll]
  unfold apply
  split
  · rfl
  · refine gauge_change_of_ne _ _ ?_
    rintro rfl
    exact h (drawCore_mem source)

end Person

/-- A talent that fires moves gauges only. -/
theorem Tracker.keeps_fire (tracker : Tracker) (talent : Talent) (person : Person)
    (source : Source) : person.Keeps (tracker.fire talent person source).2.1 := by
  unfold fire
  split
  · exact .refl person
  · exact person.keeps_applyIfAny talent.effect source

/-! ## The person of a request -/

/-- Members added one after another: those that are new, each once, in the order in which they
first came. -/
theorem foldl_addNew (ids held : List Int) :
    ids.foldl (fun held id => addNew id held) held =
      held ++ (ids.filter fun id => !held.contains id).eraseDups := by
  induction ids generalizing held with
  | nil => rw [List.foldl_nil, List.filter_nil, List.eraseDups_nil, List.append_nil]
  | cons id rest ih =>
    rw [List.foldl_cons, ih, addNew]
    cases hheld : held.contains id with
    | true =>
      rw [if_pos rfl, List.filter_cons_of_neg (by simpa using hheld)]
    | false =>
      have hnew : ∀ other, (!(held ++ [id]).contains other) =
          (!(other == id) && !held.contains other) := by
        intro other
        by_cases hsame : other = id
        · simp [hsame]
        · simp [hsame]
      rw [if_neg (by simp), List.filter_cons_of_pos (by simpa using hheld), List.eraseDups_cons,
        List.filter_filter, List.append_assoc, List.singleton_append]
      simp only [hnew]

/-- Members added one after another to none. -/
theorem foldl_addNew_nil (ids : List Int) :
    ids.foldl (fun held id => addNew id held) [] = ids.eraseDups := by
  rw [foldl_addNew, List.nil_append]
  exact congrArg List.eraseDups (List.filter_eq_self.mpr fun _ _ => rfl)

/-- **What every value that is given out preserves, giving them all out preserves.**  Age is not
given out. -/
theorem Request.allocate_preserves {P : Person → Prop} (request : Request)
    (hallocate : ∀ (q : Person) (stat : Stat), stat ≠ .age → ∀ entry ∈ request.properties.entries,
      P q → P (q.allocate stat entry.2))
    {person : Person} (h : P person) : P (request.allocate person) := by
  unfold allocate
  generalize request.properties.entries = entries at hallocate ⊢
  induction entries generalizing person with
  | nil => exact h
  | cons entry rest ih =>
    have hrest := fun q stat hne other hmem =>
      hallocate q stat hne other (List.mem_cons_of_mem entry hmem)
    refine ih ?_ hrest
    dsimp only
    split
    · exact h
    · exact h
    · rename_i stat hne _
      exact hallocate person stat (fun heq => hne heq) entry List.mem_cons_self h

theorem Request.keeps_allocate (request : Request) (person : Person) :
    person.Keeps (request.allocate person) :=
  request.allocate_preserves (fun _ _ _ _ _ hq => hq.trans rfl) (.refl person)

/-- Earlier lives give achievements, and nothing else. -/
theorem Person.setHistory_eq (person : Person) (groups : List (List Int)) :
    person.setHistory groups =
      { person with
        achievements := groups.flatten.foldl (fun ids id => addNew id ids) person.achievements
        lives := min groups.length Range.greatest } := by
  unfold setHistory
  simp only
  generalize groups.flatten = ids
  induction ids generalizing person with
  | nil => rfl
  | cons id rest ih => exact ih (person.addAchievement id)

/-- The person of a request has no talents, and the terminal age of the settings. -/
theorem Request.person_eq (request : Request) (settings : Settings) :
    (request.person settings).talents = [] ∧
      (request.person settings).terminalAge = settings.terminalAge := by
  have hkeeps := request.keeps_allocate (.unborn settings)
  rw [person, Person.setHistory_eq]
  exact ⟨hkeeps.talents, hkeeps.terminalAge⟩

/-- Its achievements are those of earlier lives, each once, in the order in which they first
came. -/
theorem Request.achievements_person (request : Request) (settings : Settings) :
    (request.person settings).achievements = request.achieved.flatten.eraseDups := by
  have hnone : (request.allocate (.unborn settings)).achievements = [] :=
    (request.keeps_allocate (.unborn settings)).achievements
  rw [person, Person.setHistory_eq]
  show request.achieved.flatten.foldl _ (request.allocate (.unborn settings)).achievements = _
  rw [hnone, foldl_addNew_nil]

end LifeCourse
