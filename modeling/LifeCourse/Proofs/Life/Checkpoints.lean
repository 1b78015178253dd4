import LifeCourse.Life.Session
import LifeCourse.Proofs.Life.Happenings

/-!
# The achievements of a life

What a life knows of achievements stands in two places: the ledger, which decides what is new, and
the person, whom conditions ask.  They are written by different functions, and what is unlocked at
a checkpoint is seen by the conditions considered after it.  Here the two are shown to agree at
every moment, and what a life reports is described by its checkpoints alone
(`achievements_of_live`).

## Turns

At a checkpoint every achievement of the ruleset has its turn, by ascending id.  A turn is the
achievement with the standing at that time, and it alone decides whether the achievement is
unlocked (`Turn.unlocks_iff`).  Between two checkpoints nothing touches the ledger.  So all turns of
a life, one checkpoint after another, take the ledger from one to the next
(`passes_of_live`), and the induction over them, `Ledger.Passes`, is the only one that is needed:
it tells the unlocked achievements as a list (`Ledger.Passes.unlocked_eq`) and by what they have met
(`Ledger.Passes.mem_unlocked_iff`).
-/

namespace LifeCourse

variable {rules : Ruleset}

/-! ## Turns -/

/-- An achievement that is considered at a checkpoint, and how the life stands then. -/
structure Turn where
  opportunity : Opportunity
  achievement : Achievement
  standing : Standing

namespace Turn

/-- The achievement is unlocked in its turn. -/
def unlocks (turn : Turn) : Bool :=
  turn.standing.ledger.unlocks turn.opportunity turn.achievement turn.standing.person

/-- The achievement asks for this kind of checkpoint, and its condition holds in its turn. -/
def IsMet (turn : Turn) : Prop :=
  turn.achievement.opportunity = some turn.opportunity ∧
    turn.achievement.condition.holds turn.standing.person.lookup = true

/-- How the life stands after the turn. -/
def after (turn : Turn) : Standing :=
  turn.standing.consider turn.opportunity turn.achievement

/-- The achievements that are unlocked in some turns. -/
def gained (turns : List Turn) : List Achievement :=
  (turns.filter unlocks).map achievement

theorem unlocks_iff (turn : Turn) :
    turn.unlocks = true ↔
      turn.achievement.id ∉ turn.standing.ledger.known ∧ turn.IsMet := by
  simp [unlocks, Ledger.unlocks, IsMet, and_assoc]

theorem ledger_after_of_unlocks {turn : Turn} (h : turn.unlocks = true) :
    turn.after.ledger = ⟨turn.standing.ledger.known ++ [turn.achievement.id],
      turn.standing.ledger.unlocked ++ [turn.achievement]⟩ := by
  unfold after Standing.consider Ledger.consider
  exact congrArg Prod.fst (if_pos h)

theorem ledger_after_of_not_unlocks {turn : Turn} (h : turn.unlocks = false) :
    turn.after.ledger = turn.standing.ledger := by
  unfold after Standing.consider Ledger.consider
  exact congrArg Prod.fst (if_neg (Bool.eq_false_iff.mp h))

theorem gained_append (turns turns' : List Turn) :
    gained (turns ++ turns') = gained turns ++ gained turns' := by
  rw [gained, List.filter_append, List.map_append]
  rfl

theorem gained_flatMap {α : Type} (turns : α → List Turn) (as : List α) :
    gained (as.flatMap turns) = (as.map fun a => gained (turns a)).flatten := by
  induction as with
  | nil => rfl
  | cons a as ih => rw [List.flatMap_cons, gained_append, ih, List.map_cons, List.flatten_cons]

end Turn

/-- The turns of some achievements at a checkpoint. -/
def Standing.turns (opportunity : Opportunity) : Standing → List Achievement → List Turn
  | _, [] => []
  | standing, achievement :: rest =>
    ⟨opportunity, achievement, standing⟩ ::
      turns opportunity (standing.consider opportunity achievement) rest

theorem Standing.map_achievement_turns (opportunity : Opportunity)
    (achievements : List Achievement) (standing : Standing) :
    (standing.turns opportunity achievements).map Turn.achievement = achievements := by
  induction achievements generalizing standing with
  | nil => rfl
  | cons achievement rest ih => exact congrArg _ (ih _)

theorem Standing.opportunity_of_mem_turns {opportunity : Opportunity}
    {achievements : List Achievement} {standing : Standing} :
    ∀ turn ∈ standing.turns opportunity achievements, turn.opportunity = opportunity := by
  induction achievements generalizing standing with
  | nil => exact fun turn hmem => absurd hmem List.not_mem_nil
  | cons achievement rest ih => exact List.forall_mem_cons.mpr ⟨rfl, ih⟩

/-! ## The ledger through turns -/

namespace Ledger

/-- Turns one after another, each with the ledger that the one before it has left. -/
inductive Passes : Ledger → List Turn → Ledger → Prop where
  | done (ledger : Ledger) : Passes ledger [] ledger
  | cons (turn : Turn) {turns : List Turn} {last : Ledger}
      (h : Passes turn.after.ledger turns last) :
      Passes turn.standing.ledger (turn :: turns) last

/-- What the ledger knows is some history and what was unlocked after it, all of it achievements of
a list. -/
structure Keeps (history : List Int) (achievements : List Achievement) (ledger : Ledger) :
    Prop where
  known : ledger.known = history ++ ledger.unlocked.map Achievement.id
  nodup : (ledger.unlocked.map Achievement.id).Nodup
  fresh : ∀ achievement ∈ ledger.unlocked, achievement.id ∉ history
  found : ledger.unlocked ⊆ achievements

theorem keeps_ofHistory (groups : List (List Int)) (achievements : List Achievement) :
    (ofHistory groups).Keeps groups.flatten achievements where
  known := (List.append_nil _).symm
  nodup := List.nodup_nil
  fresh := fun _ h => absurd h List.not_mem_nil
  found := List.nil_subset _

/-- One more achievement that the ledger does not know. -/
theorem Keeps.concat {history : List Int} {achievements : List Achievement} {ledger : Ledger}
    (h : ledger.Keeps history achievements) {achievement : Achievement}
    (hmem : achievement ∈ achievements) (hnew : achievement.id ∉ ledger.known) :
    Keeps history achievements
      ⟨ledger.known ++ [achievement.id], ledger.unlocked ++ [achievement]⟩ := by
  rw [h.known, List.mem_append, not_or] at hnew
  refine ⟨?_, ?_, ?_, ?_⟩
  · show ledger.known ++ [achievement.id] = _
    rw [h.known, List.map_append, List.append_assoc]
    rfl
  · show ((ledger.unlocked ++ [achievement]).map Achievement.id).Nodup
    rw [List.map_append, List.nodup_append]
    refine ⟨h.nodup, List.pairwise_singleton _ _, ?_⟩
    rintro id hid _ hlast rfl
    rw [List.map_singleton, List.mem_singleton] at hlast
    subst hlast
    exact hnew.2 hid
  · exact List.forall_mem_append.mpr ⟨h.fresh, List.forall_mem_singleton.mpr hnew.1⟩
  · exact List.append_subset.mpr ⟨h.found, List.cons_subset.mpr ⟨hmem, List.nil_subset _⟩⟩

namespace Passes

variable {ledger middle last : Ledger} {turns turns' : List Turn}

theorem append (h : Passes ledger turns middle) (h' : Passes middle turns' last) :
    Passes ledger (turns ++ turns') last := by
  induction h with
  | done => exact h'
  | cons turn _ ih => exact .cons turn (ih h')

/-- **What is unlocked in the turns comes after what was unlocked before.** -/
theorem unlocked_eq (h : Passes ledger turns last) :
    last.unlocked = ledger.unlocked ++ Turn.gained turns := by
  induction h with
  | done ledger => exact (List.append_nil _).symm
  | @cons turn turns last _ ih =>
    rw [ih, Turn.gained, Turn.gained]
    cases hunlocks : turn.unlocks with
    | true =>
      rw [Turn.ledger_after_of_unlocks hunlocks, List.filter_cons_of_pos hunlocks, List.map_cons,
        List.append_assoc]
      rfl
    | false =>
      rw [Turn.ledger_after_of_not_unlocks hunlocks,
        List.filter_cons_of_neg (Bool.eq_false_iff.mp hunlocks)]

/-- **An achievement is unlocked in the turns exactly if it is not in the history and is met in one
of them.**  When it is met and not unlocked, the ledger knows it, and then it was unlocked
before. -/
theorem mem_unlocked_iff {history : List Int} {achievements : List Achievement}
    (hinj : ∀ a ∈ achievements, ∀ b ∈ achievements, a.id = b.id → a = b)
    (h : Passes ledger turns last) (hkeeps : ledger.Keeps history achievements)
    (hturns : ∀ turn ∈ turns, turn.achievement ∈ achievements) (achievement : Achievement) :
    achievement ∈ last.unlocked ↔ achievement ∈ ledger.unlocked ∨
      (achievement.id ∉ history ∧
        ∃ turn ∈ turns, turn.achievement = achievement ∧ turn.IsMet) := by
  induction h with
  | done ledger => simp
  | @cons turn turns last _ ih =>
    obtain ⟨hturn, hrest⟩ := List.forall_mem_cons.mp hturns
    cases hunlocks : turn.unlocks with
    | true =>
      obtain ⟨hnew, hmet⟩ := turn.unlocks_iff.mp hunlocks
      have hfresh : turn.achievement.id ∉ history := by
        rw [hkeeps.known, List.mem_append, not_or] at hnew
        exact hnew.1
      have hafter := hkeeps.concat hturn hnew
      rw [← Turn.ledger_after_of_unlocks hunlocks] at hafter
      rw [ih hafter hrest, Turn.ledger_after_of_unlocks hunlocks, List.mem_append,
        List.mem_singleton, List.exists_mem_cons_iff, or_assoc]
      refine or_congr_right ?_
      constructor
      · rintro (rfl | ⟨hnot, hlater⟩)
        · exact ⟨hfresh, .inl ⟨rfl, hmet⟩⟩
        · exact ⟨hnot, .inr hlater⟩
      · rintro ⟨hnot, ⟨rfl, -⟩ | hlater⟩
        · exact .inl rfl
        · exact .inr ⟨hnot, hlater⟩
    | false =>
      have hsame := Turn.ledger_after_of_not_unlocks hunlocks
      rw [hsame] at ih
      rw [ih hkeeps hrest, List.exists_mem_cons_iff]
      refine ⟨fun h => h.imp_right fun ⟨hnot, hlater⟩ => ⟨hnot, .inr hlater⟩, ?_⟩
      rintro (hmem | ⟨hnot, ⟨rfl, hmet⟩ | hlater⟩)
      · exact .inl hmem
      · -- met but not unlocked: the ledger knows the id, and not from the history
        have hknown : turn.achievement.id ∈ turn.standing.ledger.known := by
          by_contra hnew
          rw [turn.unlocks_iff.mpr ⟨hnew, hmet⟩] at hunlocks
          cases hunlocks
        rw [hkeeps.known, List.mem_append] at hknown
        obtain ⟨other, hother, hid⟩ := List.mem_map.mp (hknown.resolve_left hnot)
        have heq := hinj other (hkeeps.found hother) turn.achievement hturn hid
        rw [← heq]
        exact .inl hother
      · exact .inr ⟨hnot, hlater⟩

end Passes
end Ledger

/-! ## The turns of a life -/

theorem passes_turns (opportunity : Opportunity) (achievements : List Achievement)
    (standing : Standing) :
    Ledger.Passes standing.ledger (standing.turns opportunity achievements)
      (achievements.foldl (Standing.consider opportunity) standing).ledger := by
  induction achievements generalizing standing with
  | nil => exact .done _
  | cons achievement rest ih =>
    exact .cons ⟨opportunity, achievement, standing⟩ (ih _)

variable (rules) in
theorem passes_check (opportunity : Opportunity) (standing : Standing) :
    Ledger.Passes standing.ledger (standing.turns opportunity rules.achievements.values)
      (standing.check rules opportunity).ledger := by
  rw [Standing.check_eq_foldl]
  exact passes_turns _ _ _

/-- How a life stands in the evenings of some years. -/
def eveningsOf (rules : Ruleset) : Standing → List Year → List Standing
  | _, [] => []
  | before, year :: years => year.evening rules before :: eveningsOf rules year.standing years

namespace Life

variable (life : Life)

/-- The checkpoints of a life: when its talents are settled, in the evening of each year, and after
the last one. -/
def checkpoints (rules : Ruleset) (achieved : List (List Int)) : List (Opportunity × Standing) :=
  (.start, life.settled achieved) ::
    ((eveningsOf rules life.opening life.years).map fun evening => (.trajectory, evening)) ++
      [(.summary, standingAfter life.opening life.years)]

/-- The turns of a life, one checkpoint after another. -/
def turns (rules : Ruleset) (achieved : List (List Int)) : List Turn :=
  (life.checkpoints rules achieved).flatMap fun checkpoint =>
    checkpoint.2.turns checkpoint.1 rules.achievements.values

theorem achievement_mem_of_mem_turns {achieved : List (List Int)} :
    ∀ turn ∈ life.turns rules achieved, turn.achievement ∈ rules.achievements.values := by
  intro turn hturn
  obtain ⟨checkpoint, -, hturn⟩ := List.mem_flatMap.mp hturn
  have hmem := List.mem_map_of_mem (f := Turn.achievement) hturn
  rwa [Standing.map_achievement_turns] at hmem

end Life

theorem passes_liveYear {isLast : Bool} {before : Standing} {source source' : Source}
    {year : Year} (h : liveYear rules isLast before source = (year, source')) :
    Ledger.Passes before.ledger
      ((year.evening rules before).turns .trajectory rules.achievements.values)
      year.standing.ledger := by
  obtain ⟨-, -, hledger, hcheck⟩ := evening_of_liveYear h
  have hpasses := passes_check rules .trajectory (year.evening rules before)
  rwa [← hcheck, hledger] at hpasses

/-- The turns of some years. -/
theorem Goes.passes {lived : Nat} {before : Standing} {source source' : Source}
    {years : List Year} (h : Goes rules lived before source years source') :
    Ledger.Passes before.ledger
      ((eveningsOf rules before years).flatMap fun evening =>
        evening.turns .trajectory rules.achievements.values)
      (standingAfter before years).ledger := by
  induction h with
  | last hyear _ => exact (passes_liveYear hyear).append (.done _)
  | more hyear _ _ ih =>
    rw [standingAfter_cons]
    exact (passes_liveYear hyear).append ih

/-- **All turns of a life take the ledger from its history to its closing.** -/
theorem passes_of_live {request : Request} {source source' : Source} {life : Life}
    (h : live rules request source = (.ok life, source')) :
    Ledger.Passes (.ofHistory request.achieved) (life.turns rules request.achieved)
      life.closing.ledger := by
  obtain ⟨source₁, -, hopening, hyears, hclosing⟩ := live_eq_ok h
  have hstart := passes_check rules .start (life.settled request.achieved)
  have hsummary := passes_check rules .summary (standingAfter life.opening life.years)
  rw [← hopening] at hstart
  rw [← hclosing] at hsummary
  have hall := (hstart.append hyears.passes).append hsummary
  simpa [Life.turns, Life.checkpoints, List.flatMap_map, Life.settled] using hall

/-! ## The order of the unlocked achievements -/

/-- Achievements that ask for a kind of checkpoint, by ascending id. -/
structure Opportunity.Gathers (opportunity : Opportunity) (achievements : List Achievement) :
    Prop where
  asked : ∀ achievement ∈ achievements, achievement.opportunity = some opportunity
  ascending : (achievements.map Achievement.id).Pairwise (· < ·)

/-- What is unlocked at one checkpoint. -/
theorem gathers_gained (hkeyed : rules.achievements.Keyed Achievement.id)
    (opportunity : Opportunity) (standing : Standing) :
    opportunity.Gathers
      (Turn.gained (standing.turns opportunity rules.achievements.values)) where
  asked := by
    intro achievement hmem
    obtain ⟨turn, hturn, rfl⟩ := List.mem_map.mp hmem
    obtain ⟨hturn, hunlocks⟩ := List.mem_filter.mp hturn
    obtain ⟨-, hasked, -⟩ := turn.unlocks_iff.mp hunlocks
    rw [hasked, Standing.opportunity_of_mem_turns turn hturn]
  ascending := by
    have hsub : (Turn.gained (standing.turns opportunity rules.achievements.values)).Sublist
        ((standing.turns opportunity rules.achievements.values).map Turn.achievement) :=
      List.filter_sublist.map _
    rw [Standing.map_achievement_turns] at hsub
    have hall := rules.achievements.keys_ascending
    rw [← hkeyed.map_values] at hall
    exact hall.sublist (hsub.map Achievement.id)

theorem length_eveningsOf (before : Standing) (years : List Year) :
    (eveningsOf rules before years).length = years.length := by
  induction years generalizing before with
  | nil => rfl
  | cons year years ih => exact congrArg Nat.succ (ih year.standing)

/-- After each year the ledger has what was unlocked before the first one, and what each year up to
that one unlocked. -/
theorem Goes.unlocked_eq {lived : Nat} {before : Standing} {source source' : Source}
    {years : List Year} (h : Goes rules lived before source years source') (k : Nat) (year : Year)
    (hk : years[k]? = some year) :
    year.standing.ledger.unlocked = before.ledger.unlocked ++
      (((eveningsOf rules before years).map fun evening =>
        Turn.gained (evening.turns .trajectory rules.achievements.values)).take
          (k + 1)).flatten := by
  induction h generalizing k with
  | last hyear _ =>
    obtain ⟨hlt, rfl⟩ := List.getElem?_eq_some_iff.mp hk
    obtain rfl : k = 0 := by simpa using hlt
    simpa [eveningsOf] using (passes_liveYear hyear).unlocked_eq
  | more hyear _ _ ih =>
    have hfirst := (passes_liveYear hyear).unlocked_eq
    cases k with
    | zero =>
      rw [List.getElem?_cons_zero] at hk
      obtain rfl := Option.some.inj hk
      simpa [eveningsOf] using hfirst
    | succ k =>
      rw [List.getElem?_cons_succ] at hk
      rw [ih k hk, hfirst, eveningsOf, List.map_cons, List.take_succ_cons, List.flatten_cons,
        List.append_assoc]

/-! ## The ledger and the person -/

/-- The ledger keeps to a history, and the person lists the history, each id once, and then what was
unlocked. -/
structure Standing.Recorded (rules : Ruleset) (history : List Int) (standing : Standing) :
    Prop where
  ledger : standing.ledger.Keeps history rules.achievements.values
  listed : standing.person.achievements =
    history.eraseDups ++ standing.ledger.unlocked.map Achievement.id

theorem Standing.Recorded.mem_known_iff {history : List Int} {standing : Standing}
    (h : standing.Recorded rules history) (id : Int) :
    id ∈ standing.ledger.known ↔ id ∈ standing.person.achievements := by
  rw [h.ledger.known, h.listed, List.mem_append, List.mem_append, List.mem_eraseDups]

/-- **What every step keeps.** -/
theorem Standing.Recorded.step {history : List Int} {standing standing' : Standing}
    (hstep : Standing.Step rules standing standing') (h : standing.Recorded rules history) :
    standing'.Recorded rules history := by
  cases hstep with
  | turn => exact ⟨h.ledger, standing.person.keeps_nextYear.achievements.trans h.listed⟩
  | unlock => exact ⟨h.ledger, h.listed⟩
  | @fire _ talent _ _ _ _ source =>
    have hkeeps := standing.person.keeps_applyIfAny talent.effect source
    exact ⟨h.ledger, hkeeps.achievements.trans h.listed⟩
  | @happen id event _ source =>
    have hkeeps := (standing.person.recordEvent id).keeps_applyIfAny event.effect source
    exact ⟨h.ledger, hkeeps.achievements.trans h.listed⟩
  | @achieve achievement opportunity hmem hunlocks =>
    obtain ⟨hnew, -⟩ := (Turn.unlocks_iff ⟨opportunity, achievement, standing⟩).mp hunlocks
    refine ⟨h.ledger.concat hmem hnew, ?_⟩
    have hnot : achievement.id ∉ standing.person.achievements :=
      fun hid => hnew ((h.mem_known_iff _).mpr hid)
    show (standing.person.addAchievement achievement.id).achievements = _
    rw [Person.achievements_addAchievement_of_not_mem hnot, h.listed, List.map_append,
      List.append_assoc]
    rfl

/-- The ledger and the person agree at every moment of a life. -/
theorem recorded_of_live {request : Request} {source source' : Source} {life : Life}
    (h : live rules request source = (.ok life, source')) :
    ∀ moment ∈ life.moments rules request.achieved,
      moment.Recorded rules request.achieved.flatten := by
  obtain ⟨source₁, hresolve, -⟩ := live_eq_ok h
  have hsettled : (life.settled request.achieved).Recorded rules request.achieved.flatten := by
    refine ⟨Ledger.keeps_ofHistory _ _, ?_⟩
    have hperson := (leads_of_resolve hresolve).achievements
    exact (hperson.trans (request.achievements_person rules.settings)).trans
      (List.append_nil _).symm
  exact (passage_of_live h).forall_of_step (fun hstep hrecorded => hrecorded.step hstep) hsettled

/-! ## What a life reports -/

/-- What a life unlocks, checkpoint by checkpoint. -/
theorem gathered_of_live (hkeyed : rules.achievements.Keyed Achievement.id) {request : Request}
    {source source' : Source} {life : Life}
    (hlive : live rules request source = (.ok life, source')) :
    ∃ (start : List Achievement) (yearly : List (List Achievement)) (summary : List Achievement),
      life.closing.ledger.unlocked = start ++ yearly.flatten ++ summary ∧
      Opportunity.start.Gathers start ∧
      (∀ group ∈ yearly, Opportunity.trajectory.Gathers group) ∧
      Opportunity.summary.Gathers summary ∧
      life.opening.ledger.unlocked = start ∧
      yearly.length = life.years.length ∧
      ∀ (k : Nat) (year : Year), life.years[k]? = some year →
        year.standing.ledger.unlocked = start ++ (yearly.take (k + 1)).flatten := by
  obtain ⟨source₁, -, hopening, hyears, hclose⟩ := live_eq_ok hlive
  have hstart := (passes_check rules .start (life.settled request.achieved)).unlocked_eq
  have hyearly := hyears.passes.unlocked_eq
  have hend :=
    (passes_check rules .summary (standingAfter life.opening life.years)).unlocked_eq
  rw [← hopening] at hstart
  rw [Turn.gained_flatMap] at hyearly
  rw [← hclose, hyearly, hstart] at hend
  refine ⟨Turn.gained ((life.settled request.achieved).turns .start rules.achievements.values),
    (eveningsOf rules life.opening life.years).map fun evening =>
      Turn.gained (evening.turns .trajectory rules.achievements.values),
    Turn.gained ((standingAfter life.opening life.years).turns .summary
      rules.achievements.values), ?_, gathers_gained hkeyed _ _, ?_,
    gathers_gained hkeyed _ _, hstart, ?_, fun k year hk => ?_⟩
  · exact hend
  · intro group hgroup
    obtain ⟨evening, -, rfl⟩ := List.mem_map.mp hgroup
    exact gathers_gained hkeyed _ _
  · rw [List.length_map, length_eveningsOf]
  · rw [hyears.unlocked_eq k year hk, hstart]
    rfl

/-- What a life unlocks, told by what is met. -/
theorem mem_unlocked_of_live_iff (hkeyed : rules.achievements.Keyed Achievement.id)
    {request : Request} {source source' : Source} {life : Life}
    (hlive : live rules request source = (.ok life, source')) {id : Int} {achievement : Achievement}
    (hfind : rules.achievements.find? id = some achievement) :
    id ∈ life.closing.ledger.unlocked.map Achievement.id ↔
      id ∉ request.achieved.flatten ∧
        ∃ turn ∈ life.turns rules request.achieved,
          turn.achievement = achievement ∧ turn.IsMet := by
  obtain rfl := hkeyed id achievement hfind
  have hinj : ∀ a ∈ rules.achievements.values, ∀ b ∈ rules.achievements.values,
      a.id = b.id → a = b := fun a ha b hb => hkeyed.eq_of_mem_values ha hb
  have hclosing := (recorded_of_live hlive _ (recorded_mem_moments hlive).2.2).ledger
  have hvalue := Table.mem_values_iff.mpr ⟨_, hfind⟩
  have hid : achievement.id ∈ life.closing.ledger.unlocked.map Achievement.id ↔
      achievement ∈ life.closing.ledger.unlocked := by
    refine ⟨fun hid => ?_, List.mem_map_of_mem⟩
    obtain ⟨other, hother, hsame⟩ := List.mem_map.mp hid
    rwa [← hinj other (hclosing.found hother) achievement hvalue hsame]
  have hiff := (passes_of_live hlive).mem_unlocked_iff hinj
    (Ledger.keeps_ofHistory request.achieved _) life.achievement_mem_of_mem_turns achievement
  rw [hid, hiff]
  exact or_iff_right List.not_mem_nil

/-- **The achievements of a life.**  Those that are reported are distinct and new.  They come in the
order of the checkpoints: first those of the start, then those of each year, then those of the end,
and by ascending id within each of them.  An achievement is reported exactly if earlier lives do not
have it and it is met in its turn at some checkpoint.  At every moment the ledger knows the ids that
the person lists: the earlier ones, each once, and then those unlocked so far. -/
theorem achievements_of_live {request : Request} {source source' : Source} {life : Life}
    (hloaded : rules.Loaded) (hlive : live rules request source = (.ok life, source')) :
    ((Session.ofLife rules life).newAchievements.map Info.id).Nodup ∧
    (∀ info ∈ (Session.ofLife rules life).newAchievements,
      (∀ group ∈ request.achieved, info.id ∉ group) ∧
      ∃ achievement, rules.achievements.find? info.id = some achievement ∧
        info = achievement.info) ∧
    (∃ (start : List Achievement) (yearly : List (List Achievement)) (summary : List Achievement),
      (Session.ofLife rules life).newAchievements =
        (start ++ yearly.flatten ++ summary).map Achievement.info ∧
      Opportunity.start.Gathers start ∧
      (∀ group ∈ yearly, Opportunity.trajectory.Gathers group) ∧
      Opportunity.summary.Gathers summary ∧
      life.opening.ledger.unlocked = start ∧
      yearly.length = life.years.length ∧
      ∀ (k : Nat) (year : Year), life.years[k]? = some year →
        year.standing.ledger.unlocked = start ++ (yearly.take (k + 1)).flatten) ∧
    (∀ (id : Int) (achievement : Achievement), rules.achievements.find? id = some achievement →
      (id ∈ (Session.ofLife rules life).newAchievements.map Info.id ↔
        (∀ group ∈ request.achieved, id ∉ group) ∧
        ∃ turn ∈ life.turns rules request.achieved,
          turn.achievement = achievement ∧ turn.IsMet)) ∧
    Standing.Passage rules (life.settled request.achieved)
      (life.moments rules request.achieved) life.closing ∧
    ∀ moment ∈ life.moments rules request.achieved,
      (∀ id, id ∈ moment.ledger.known ↔ id ∈ moment.person.achievements) ∧
      moment.person.achievements =
        request.achieved.flatten.eraseDups ++ moment.ledger.unlocked.map Achievement.id := by
  have hcoherent := hloaded.coherent
  have hrecorded := recorded_of_live hlive
  have hclosing := (hrecorded _ (recorded_mem_moments hlive).2.2).ledger
  have hids : (Session.ofLife rules life).newAchievements.map Info.id =
      life.closing.ledger.unlocked.map Achievement.id := List.map_map
  have hgroups : ∀ id : Int, id ∉ request.achieved.flatten ↔
      ∀ group ∈ request.achieved, id ∉ group := by
    simp
  refine ⟨?_, fun info hmem => ?_, ?_, fun id achievement hfind => ?_, passage_of_live hlive,
    fun moment hmem => ?_⟩
  · rw [hids]
    exact hclosing.nodup
  · obtain ⟨achievement, hunlocked, rfl⟩ := List.mem_map.mp hmem
    obtain ⟨k, hfind⟩ := Table.mem_values_iff.mp (hclosing.found hunlocked)
    obtain rfl := hcoherent.achievements k achievement hfind
    exact ⟨(hgroups _).mp (hclosing.fresh achievement hunlocked), achievement, hfind, rfl⟩
  · obtain ⟨start, yearly, summary, hunlocked, hgathered⟩ :=
      gathered_of_live hcoherent.achievements hlive
    exact ⟨start, yearly, summary, congrArg (List.map Achievement.info) hunlocked, hgathered⟩
  · rw [hids, ← hgroups]
    exact mem_unlocked_of_live_iff hcoherent.achievements hlive hfind
  · exact ⟨(hrecorded moment hmem).mem_known_iff, (hrecorded moment hmem).listed⟩

/-! ## One achievement for each checkpoint, and one that is not new -/

/-- A draft of rules in which every achievement is met wherever it is considered. -/
def rewardingDraft : Draft where
  achievements := [("1", { opportunity := some "TRAJECTORY", condition := some "" }),
    ("2", { opportunity := some "START", condition := some "" }),
    ("3", { opportunity := some "START", condition := some "" }),
    ("4", { opportunity := some "SUMMARY", condition := some "" })]
  settings := some { Settings.standard with
    terminalAge := 1, terminalAge_le := Range.one_le_greatest }

/-- An achievement that is met wherever it is considered. -/
def Achievement.given (id : Int) (opportunity : Opportunity) : Achievement where
  id := id
  name := ""
  description := ""
  grade := 0
  opportunity := some opportunity
  condition := .ofText ""

/-- The rules of the draft. -/
def rewardingRules : Ruleset where
  talents := .empty
  events := .empty
  ages := .empty
  achievements := .ofList [(1, .given 1 .trajectory), (2, .given 2 .start), (3, .given 3 .start),
    (4, .given 4 .summary)]
  rubrics := .empty
  settings := { Settings.standard with terminalAge := 1, terminalAge_le := Range.one_le_greatest }

/-- Who had the third achievement before is given the others, in the order of the checkpoints. -/
theorem achievements_of_live_rewarding : rewardingDraft.build = .ok rewardingRules ∧
    ∃ life source', live rewardingRules (Request.empty.withAchieved [[3], [5, 3]]) (.seeded 0) =
        (.ok life, source') ∧
      (Session.ofLife rewardingRules life).newAchievements.map Info.id = [2, 1, 4] ∧
      (∃ turn ∈ life.turns rewardingRules [[3], [5, 3]],
        turn.achievement = .given 1 .trajectory ∧ turn.IsMet) ∧
      life.closing.person.achievements =
        [3, 5] ++ life.closing.ledger.unlocked.map Achievement.id := by
  have hbuild : rewardingDraft.build = .ok rewardingRules := rfl
  have hlive : ∃ life source',
      live rewardingRules (Request.empty.withAchieved [[3], [5, 3]]) (.seeded 0) =
        (.ok life, source') ∧
      (Session.ofLife rewardingRules life).newAchievements.map Info.id = [2, 1, 4] :=
    ⟨_, _, rfl, rfl⟩
  obtain ⟨life, source', hlive, hnew⟩ := hlive
  obtain ⟨-, -, -, hreported, -, hmoments⟩ := achievements_of_live (.build hbuild) hlive
  have hfind : rewardingRules.achievements.find? 1 = some (.given 1 .trajectory) := rfl
  have hmet := (hreported 1 _ hfind).mp (by rw [hnew]; decide)
  exact ⟨hbuild, life, source', hlive, hnew, hmet.2,
    (hmoments _ (recorded_mem_moments hlive).2.2).2⟩

end LifeCourse
