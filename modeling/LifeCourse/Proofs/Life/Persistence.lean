import LifeCourse.Proofs.Condition.Grammar
import LifeCourse.Proofs.Life.Clock
import LifeCourse.Proofs.Life.Stages
import Mathlib.Data.List.TakeWhile

/-!
# Conditions that persist

Much of what a life has had it keeps: the highest value of a stat does not sink, the lowest does not
rise, and nothing that a life has gathered is lost.  A condition that asks for no more than this
stays true once it is true, whatever happens, and may be asked for at the end of a life in place of
every year.

## The order behind it

`Person.GrowsTo p q` says that the second person has had and gathered all that the first one has.
Every operation on a person goes up in this order (`Deed.growsTo_run`), the turn of a year and an
effect that turns the clock back included, since a write of a stat only widens its extremes.  The
score goes up with the highest values, also after the division that drops a half and the cut to 32
bits (`GrowsTo.score_le`).

## The conditions

`Expr.Positive` are the trees without a comparison that the order could turn around.  Each of their
comparisons is monotone along the order, each by the kind of its name: rising, falling or gathered.
Conjunction and disjunction hand that on (`Expr.Positive.holds_mono`).  No condition can deny, so
there is no other case.
-/

namespace LifeCourse

variable {rules : Ruleset}

/-! ## Growing -/

namespace Person

/-- The second person has had and gathered all that the first one has. -/
structure GrowsTo (p q : Person) : Prop where
  highest : ∀ stat, p.highest stat ≤ q.highest stat
  lowest : ∀ stat, q.lowest stat ≤ p.lowest stat
  talents : p.talents ⊆ q.talents
  events : p.events ⊆ q.events
  achievements : p.achievements ⊆ q.achievements

theorem subset_addNew (id : Int) (ids : List Int) : ids ⊆ addNew id ids :=
  fun _ hmem => mem_addNew.mpr (.inl hmem)

namespace GrowsTo

variable {p q r : Person}

theorem refl (p : Person) : p.GrowsTo p where
  highest _ := Int.le_refl _
  lowest _ := Int.le_refl _
  talents := List.Subset.refl _
  events := List.Subset.refl _
  achievements := List.Subset.refl _

theorem trans (h : p.GrowsTo q) (h' : q.GrowsTo r) : p.GrowsTo r where
  highest stat := Int.le_trans (h.highest stat) (h'.highest stat)
  lowest stat := Int.le_trans (h'.lowest stat) (h.lowest stat)
  talents := List.Subset.trans h.talents h'.talents
  events := List.Subset.trans h.events h'.events
  achievements := List.Subset.trans h.achievements h'.achievements

/-- A write of a stat widens its extremes. -/
theorem set (p : Person) (stat : Stat) (value : Int) : p.GrowsTo (p.set stat value) := by
  have hextremes : ∀ stat', p.highest stat' ≤ (p.set stat value).highest stat' ∧
      (p.set stat value).lowest stat' ≤ p.lowest stat' := by
    intro stat'
    unfold Person.highest Person.lowest
    by_cases hself : stat' = stat
    · subst hself
      rw [gauge_set_self]
      exact ⟨Int.le_max_left _ _, Int.min_le_left _ _⟩
    · rw [p.gauge_set_of_ne value hself]
      exact ⟨Int.le_refl _, Int.le_refl _⟩
  exact ⟨fun stat' => (hextremes stat').1, fun stat' => (hextremes stat').2,
    List.Subset.refl _, List.Subset.refl _, List.Subset.refl _⟩

theorem change (p : Person) (stat : Stat) (amount : Int) : p.GrowsTo (p.change stat amount) := by
  unfold Person.change
  split
  · exact refl p
  · exact set p stat _

theorem addTalent (p : Person) (id : Int) : p.GrowsTo (p.addTalent id) :=
  { refl p with talents := subset_addNew id p.talents }

theorem recordEvent (p : Person) (id : Int) : p.GrowsTo (p.recordEvent id) :=
  { refl p with events := subset_addNew id p.events }

theorem addAchievement (p : Person) (id : Int) : p.GrowsTo (p.addAchievement id) :=
  { refl p with achievements := subset_addNew id p.achievements }

theorem setHistory (p : Person) (groups : List (List Int)) : p.GrowsTo (p.setHistory groups) := by
  rw [setHistory_eq, foldl_addNew]
  exact { refl p with achievements := List.subset_append_left _ _ }

/-- Every operation of a life goes up. -/
theorem lastingForLife : LastingForLife GrowsTo where
  refl := refl
  trans := trans
  change := change
  nextYear p := set p .age _
  addTalent := addTalent
  recordEvent := recordEvent
  addAchievement := addAchievement
  setHistory := setHistory

theorem apply (p : Person) (effect : Effect) (source : Source) :
    p.GrowsTo (p.apply effect source).1 :=
  (p.ascends_along lastingForLife.toLasting (some effect) source).ends

/-- **The score goes up.** -/
theorem score_le (h : p.GrowsTo q) : p.score ≤ q.score := by
  -- the age counts by halves, and cutting a half off keeps the order
  have hage : (p.highest .age).tdiv 2 ≤ (q.highest .age).tdiv 2 :=
    Int.tdiv_le_tdiv (by decide) (h.highest .age)
  have hcore : ∀ stats : List Stat,
      (stats.map p.highest).foldr (· + ·) 0 ≤ (stats.map q.highest).foldr (· + ·) 0 := by
    intro stats
    induction stats with
    | nil => exact Int.le_refl 0
    | cons stat rest ih => exact Int.add_le_add (h.highest stat) ih
  have htwice := hcore Stat.core
  unfold score
  omega

end GrowsTo
end Person

/-! ## Operations -/

/-- An operation on a person once its life has begun. -/
inductive Deed where
  | set (stat : Stat) (value : Int)
  | change (stat : Stat) (amount : Int)
  | apply (effect : Effect) (source : Source)
  | nextYear
  | addTalent (id : Int)
  | recordEvent (id : Int)
  | addAchievement (id : Int)
  | setHistory (groups : List (List Int))

namespace Deed

/-- The person after an operation. -/
def run (person : Person) : Deed → Person
  | set stat value => person.set stat value
  | change stat amount => person.change stat amount
  | apply effect source => (person.apply effect source).1
  | nextYear => person.nextYear
  | addTalent id => person.addTalent id
  | recordEvent id => person.recordEvent id
  | addAchievement id => person.addAchievement id
  | setHistory groups => person.setHistory groups

/-- **Every operation goes up.** -/
theorem growsTo_run (person : Person) (deed : Deed) : person.GrowsTo (deed.run person) := by
  cases deed with
  | set stat value => exact .set person stat value
  | change stat amount => exact .change person stat amount
  | apply effect source => exact .apply person effect source
  | nextYear => exact .set person .age _
  | addTalent id => exact .addTalent person id
  | recordEvent id => exact .recordEvent person id
  | addAchievement id => exact .addAchievement person id
  | setHistory groups => exact .setHistory person groups

theorem growsTo_foldl_run (deeds : List Deed) (person : Person) :
    person.GrowsTo (deeds.foldl run person) := by
  induction deeds generalizing person with
  | nil => exact .refl person
  | cons deed rest ih => exact (growsTo_run person deed).trans (ih (deed.run person))

end Deed

/-! ## Names by how their values move -/

/-- A name whose value does not sink: the highest value of a stat, or the score. -/
def IsRising (name : String) : Prop :=
  name = "SUM" ∨ ∃ stat : Stat, name = "H" ++ stat.code

/-- A name whose value does not rise: the lowest value of a stat. -/
def IsFalling (name : String) : Prop :=
  ∃ stat : Stat, name = "L" ++ stat.code

/-- A name of what a life has gathered. -/
def IsGathered (name : String) : Prop :=
  name = "TLT" ∨ name = "EVT" ∨ name = "ACH"

namespace Person

theorem lookup_highest (person : Person) (stat : Stat) :
    person.lookup ("H" ++ stat.code) = some (.whole (person.highest stat)) := by
  cases stat <;> rfl

theorem lookup_lowest (person : Person) (stat : Stat) :
    person.lookup ("L" ++ stat.code) = some (.whole (person.lowest stat)) := by
  cases stat <;> rfl

namespace GrowsTo

variable {p q : Person} {name : String}

theorem lookup_rising (h : p.GrowsTo q) (hname : IsRising name) :
    ∃ m n, p.lookup name = some (.whole m) ∧ q.lookup name = some (.whole n) ∧ m ≤ n := by
  rcases hname with rfl | ⟨stat, rfl⟩
  · exact ⟨_, _, rfl, rfl, Range.saturate_mono h.score_le⟩
  · exact ⟨_, _, p.lookup_highest stat, q.lookup_highest stat, h.highest stat⟩

theorem lookup_falling (h : p.GrowsTo q) (hname : IsFalling name) :
    ∃ m n, p.lookup name = some (.whole m) ∧ q.lookup name = some (.whole n) ∧ n ≤ m := by
  obtain ⟨stat, rfl⟩ := hname
  exact ⟨_, _, p.lookup_lowest stat, q.lookup_lowest stat, h.lowest stat⟩

theorem lookup_gathered (h : p.GrowsTo q) (hname : IsGathered name) :
    ∃ ids ids', p.lookup name = some (.list ids) ∧ q.lookup name = some (.list ids') ∧
      ids ⊆ ids' := by
  rcases hname with rfl | rfl | rfl
  · exact ⟨_, _, rfl, rfl, h.talents⟩
  · exact ⟨_, _, rfl, rfl, h.events⟩
  · exact ⟨_, _, rfl, rfl, h.achievements⟩

end GrowsTo
end Person

/-! ## Positive conditions -/

namespace Expr

/-- A tree that asks only for what a life keeps. -/
inductive Positive : Expr → Prop where
  | rising {name op} (hname : IsRising name) (hop : op = .greater ∨ op = .greaterEqual) (n : Int) :
      Positive (.compare name op (.whole n))
  | falling {name op} (hname : IsFalling name) (hop : op = .less ∨ op = .lessEqual) (n : Int) :
      Positive (.compare name op (.whole n))
  | shares {name} (hname : IsGathered name) (ids : List Int) :
      Positive (.compare name .includesAny (.list ids))
  | contains {name} (hname : IsGathered name) (n : Int) :
      Positive (.compare name .equal (.whole n))
  | and {left right} (hleft : Positive left) (hright : Positive right) :
      Positive (.and left right)
  | or {left right} (hleft : Positive left) (hright : Positive right) :
      Positive (.or left right)

theorem holds_compare {lookup : Lookup} {name : String} {value : Value}
    (h : lookup name = some value) (op : Operator) (operand : Operand) :
    (Expr.compare name op operand).holds lookup = op.compare value operand := by
  rw [holds, h]

/-- **What a positive tree asks for is kept.** -/
theorem Positive.holds_mono {e : Expr} (h : e.Positive) {p q : Person} (hgrows : p.GrowsTo q)
    (hp : e.holds p.lookup = true) : e.holds q.lookup = true := by
  induction h with
  | rising hname hop c =>
    obtain ⟨m, n, hm, hn, hle⟩ := hgrows.lookup_rising hname
    rw [holds_compare hm] at hp
    rw [holds_compare hn]
    rcases hop with rfl | rfl
    · exact decide_eq_true (Int.lt_of_lt_of_le (of_decide_eq_true hp) hle)
    · exact decide_eq_true (Int.le_trans (of_decide_eq_true hp) hle)
  | falling hname hop c =>
    obtain ⟨m, n, hm, hn, hle⟩ := hgrows.lookup_falling hname
    rw [holds_compare hm] at hp
    rw [holds_compare hn]
    rcases hop with rfl | rfl
    · exact decide_eq_true (Int.lt_of_le_of_lt hle (of_decide_eq_true hp))
    · exact decide_eq_true (Int.le_trans hle (of_decide_eq_true hp))
  | shares hname ids =>
    obtain ⟨held, held', hm, hn, hsubset⟩ := hgrows.lookup_gathered hname
    rw [holds_compare hm] at hp
    rw [holds_compare hn]
    obtain ⟨id, hid, hshared⟩ := List.any_eq_true.mp hp
    exact List.any_eq_true.mpr ⟨id, hsubset hid, hshared⟩
  | contains hname c =>
    obtain ⟨held, held', hm, hn, hsubset⟩ := hgrows.lookup_gathered hname
    rw [holds_compare hm] at hp
    rw [holds_compare hn]
    exact List.contains_iff_mem.mpr (hsubset (List.contains_iff_mem.mp hp))
  | and _ _ ihleft ihright =>
    obtain ⟨hleft, hright⟩ := Bool.and_eq_true_iff.mp hp
    exact Bool.and_eq_true_iff.mpr ⟨ihleft hleft, ihright hright⟩
  | or _ _ ihleft ihright =>
    rcases Bool.or_eq_true_iff.mp hp with hleft | hright
    · exact Bool.or_eq_true_iff.mpr (.inl (ihleft hleft))
    · exact Bool.or_eq_true_iff.mpr (.inr (ihright hright))

end Expr

namespace Condition

/-- A condition that asks only for what a life keeps. -/
def Positive (c : Condition) : Prop :=
  ∃ e, Expr.parse c.source = .ok e ∧ e.Positive

theorem Positive.holds_mono {c : Condition} (h : c.Positive) {p q : Person}
    (hgrows : p.GrowsTo q) (hp : c.holds p.lookup = true) : c.holds q.lookup = true := by
  obtain ⟨e, hparse, he⟩ := h
  unfold holds at hp ⊢
  rw [reading_of_parse hparse] at hp ⊢
  exact he.holds_mono hgrows hp

end Condition

/-! ## Persistence -/

/-- **Positive conditions persist.**  If such a condition holds of a person, it holds after any
operations.  If it holds at some stage of a life, it holds at every later one up to the closing.  The
stages begin when the values of the request have been given out. -/
theorem positive_persists :
    (∀ condition : Condition, condition.Positive → ∀ (person : Person) (deeds : List Deed),
      condition.holds person.lookup = true →
        condition.holds (deeds.foldl Deed.run person).lookup = true) ∧
    ∀ {rules : Ruleset} {request : Request} {source source' : Source} {life : Life},
      rules.talents.Keyed Talent.id → live rules request source = (.ok life, source') →
      Follows rules (request.standing rules.settings) (life.chronicle rules request) life.closing ∧
      (life.stages rules request).head? = some (request.allocate (.unborn rules.settings)) ∧
      (life.stages rules request).getLast? = some life.closing.person ∧
      ∀ condition : Condition, condition.Positive →
        (life.stages rules request).Pairwise fun earlier later =>
          condition.holds earlier.lookup = true → condition.holds later.lookup = true := by
  refine ⟨fun condition hpositive person deeds hholds => ?_, fun hkeyed hlive => ?_⟩
  · exact hpositive.holds_mono (Deed.growsTo_foldl_run deeds person) hholds
  · refine ⟨follows_of_live hkeyed hlive, rfl, Life.getLast?_stages hkeyed hlive, ?_⟩
    intro condition hpositive
    refine (Life.pairwise_stages Person.GrowsTo.lastingForLife hkeyed hlive).imp ?_
    exact fun hgrows hholds => hpositive.holds_mono hgrows hholds

/-! ## A value that is gone -/

/-- The condition that charm has been above four. -/
def hasBeenCharming : Condition :=
  .ofText "HCHR>4"

theorem parse_hasBeenCharming :
    Expr.parse hasBeenCharming.source = .ok (.compare "HCHR" .greater (.whole 4)) := by
  have htokens : Token.ofText "HCHR>4".toList = [.atom ['H', 'C', 'H', 'R', '>', '4']] := by
    decide +kernel
  refine Expr.parse_eq_ok_iff.mpr (isWritten_iff.mpr ?_)
  show Derives .disjunction (Token.ofText "HCHR>4".toList) _
  rw [htokens]
  exact .single (.bare (.atom rfl))

/-- Birth brings a talent that adds five to a core stat and an event that takes them away again.  At
the closing nothing of them is left, and that they were there still holds. -/
theorem positive_persists_growing : hasBeenCharming.Positive ∧
    (∀ deeds, hasBeenCharming.holds
      (List.foldl Deed.run ((Person.unborn .standard).set .charm 5) deeds).lookup = true) ∧
    (growingDraft (.only .charm 5) (.only .charm (-5))).build =
      .ok (growingRules (.only .charm 5) (.only .charm (-5))) ∧
    ∃ life source', live (growingRules (.only .charm 5) (.only .charm (-5))) .empty (.seeded 0) =
        (.ok life, source') ∧
      life.closing.person.current .charm = 0 ∧
      hasBeenCharming.holds life.closing.person.lookup = true := by
  have hholds : ∀ person : Person, hasBeenCharming.holds person.lookup =
      (Expr.compare "HCHR" .greater (.whole 4)).holds person.lookup := by
    intro person
    rw [Condition.holds, Condition.reading_of_parse parse_hasBeenCharming]
  have hpositive : hasBeenCharming.Positive :=
    ⟨_, parse_hasBeenCharming, .rising (.inr ⟨.charm, rfl⟩) (.inl rfl) 4⟩
  have hbuild : (growingDraft (.only .charm 5) (.only .charm (-5))).build =
      .ok (growingRules (.only .charm 5) (.only .charm (-5))) := rfl
  have hlive : ∃ life source' person,
      live (growingRules (.only .charm 5) (.only .charm (-5))) .empty (.seeded 0) =
        (.ok life, source') ∧
      life.closing.person.current .charm = 0 ∧
      (life.stages (growingRules (.only .charm 5) (.only .charm (-5))) .empty)[4]? = some person ∧
      (Expr.compare "HCHR" .greater (.whole 4)).holds person.lookup = true ∧
      (life.stages (growingRules (.only .charm 5) (.only .charm (-5))) .empty)[23]? =
        some life.closing.person := ⟨_, _, _, rfl, rfl, rfl, rfl, rfl⟩
  obtain ⟨life, source', person, hlive, hgone, hearly, hwas, hlate⟩ := hlive
  obtain ⟨hlt, rfl⟩ := List.getElem?_eq_some_iff.mp hearly
  obtain ⟨hlt', hclosing⟩ := List.getElem?_eq_some_iff.mp hlate
  obtain ⟨-, -, -, hpersists⟩ :=
    positive_persists.2 (Ruleset.Loaded.coherent (.build hbuild)).talents hlive
  refine ⟨hpositive, fun deeds => ?_, hbuild, life, source', hlive, hgone, ?_⟩
  · exact positive_persists.1 _ hpositive _ deeds ((hholds _).trans rfl)
  · rw [← hclosing]
    refine List.pairwise_iff_getElem.mp (hpersists _ hpositive) 4 23 hlt hlt' (by decide) ?_
    exact (hholds _).trans hwas

end LifeCourse
