import LifeCourse.Life.Course
import Mathlib.Data.List.Chain

/-!
# The loop of the years

`liveYears` counts the years that are left.  The loop of a life counts nothing down: it goes on
until a year ends it, and one of the reasons for a year to be the end is that as many years have
been lived as there may be.  `Goes rules lived standing source years source'` is that loop, as a
relation without a bound: it holds exactly if, after `lived` years, the loop comes to an end with
`years`.

* `goes_liveYears`: the loop comes to an end, and counting down finds its years.
* `Goes.exists_last`, `Goes.exists_liveYear`, `Goes.length_le`: what every run of the loop is like.
* `Goes.forall_of_liveYear`, `Goes.forall_year`, `Goes.isChain`: what is true of one year, and of two
  years in a row, is true of a run of the loop.
-/

namespace LifeCourse

variable {rules : Ruleset}

/-- The loop of the years after `lived` of them. -/
inductive Goes (rules : Ruleset) :
    Nat → Standing → Source → List Year → Source → Prop where
  /-- A year that ends the life is its last one. -/
  | last {lived standing source year source'}
      (hyear : liveYear rules (rules.settings.maxYears ≤ lived + 1) standing source =
        (year, source'))
      (hend : year.isEnd = true) : Goes rules lived standing source [year] source'
  /-- After any other year comes another one. -/
  | more {lived standing source year source' years source''}
      (hyear : liveYear rules (rules.settings.maxYears ≤ lived + 1) standing source =
        (year, source'))
      (hend : year.isEnd = false)
      (hrest : Goes rules (lived + 1) year.standing source' years source'') :
      Goes rules lived standing source (year :: years) source''

/-- Why a year ends the life. -/
theorem isEnd_liveYear (rules : Ruleset) (isLast : Bool) (standing : Standing) (source : Source) :
    (liveYear rules isLast standing source).1.isEnd =
      (endsLife (liveYear rules isLast standing source).1.chain ||
        (liveYear rules isLast standing source).1.person.isDead ||
        (liveYear rules isLast standing source).1.person.atTerminalAge || isLast) :=
  rfl

theorem isEnd_liveYear_true (rules : Ruleset) (standing : Standing) (source : Source) :
    (liveYear rules true standing source).1.isEnd = true := by
  rw [isEnd_liveYear, Bool.or_true]

/-- Counting down the years that are left is the loop. -/
theorem goes_liveYears (left : Nat) {lived : Nat}
    (hleft : lived + left + 1 = rules.settings.maxYears) (standing : Standing) (source : Source) :
    Goes rules lived standing source (liveYears rules (left + 1) standing source).1
      (liveYears rules (left + 1) standing source).2 := by
  induction left generalizing lived standing source with
  | zero =>
    have hlast : rules.settings.maxYears ≤ lived + 1 := by omega
    have hend := isEnd_liveYear_true rules standing source
    have hyears : liveYears rules 1 standing source =
        ([(liveYear rules true standing source).1], (liveYear rules true standing source).2) := by
      rw [liveYears]
      exact if_pos hend
    rw [hyears]
    exact .last (by simp [hlast]) hend
  | succ left ih =>
    have hmore : ¬rules.settings.maxYears ≤ lived + 1 := by omega
    rcases hyear : liveYear rules false standing source with ⟨year, source'⟩
    have hyear' : liveYear rules (rules.settings.maxYears ≤ lived + 1) standing source =
        (year, source') := by
      simp [hmore, hyear]
    have hzero : (left + 1 == 0) = false := rfl
    rw [liveYears, hzero, hyear]
    cases hend : year.isEnd with
    | true =>
      simp only [hend, if_true]
      exact .last hyear' hend
    | false =>
      simp only [hend]
      exact .more hyear' hend (ih (by omega) year.standing source')

/-! ## Every run of the loop -/

namespace Goes

variable {lived : Nat} {standing : Standing} {source source' : Source} {years : List Year}

/-- **The last year ends the life, and no earlier one does.** -/
theorem exists_last (h : Goes rules lived standing source years source') :
    ∃ earlier last, years = earlier ++ [last] ∧ last.isEnd = true ∧
      ∀ year ∈ earlier, year.isEnd = false := by
  induction h with
  | @last _ _ _ year _ _ hend =>
    exact ⟨[], year, rfl, hend, fun _ hmem => absurd hmem List.not_mem_nil⟩
  | @more _ _ _ year _ _ _ _ hend _ ih =>
    obtain ⟨earlier, last, rfl, hlast, hearlier⟩ := ih
    exact ⟨year :: earlier, last, rfl, hlast, List.forall_mem_cons.mpr ⟨hend, hearlier⟩⟩

/-- Each year is lived in turn, and is told whether it must be the last one. -/
theorem exists_liveYear (h : Goes rules lived standing source years source') :
    ∀ k (hk : k < years.length), ∃ standing source,
      (liveYear rules (rules.settings.maxYears ≤ lived + k + 1) standing source).1 = years[k] := by
  induction h with
  | @last _ standing source _ _ hyear _ =>
    intro k hk
    have hk : k = 0 := by simpa using hk
    subst hk
    exact ⟨standing, source, by rw [Nat.add_zero, hyear]; rfl⟩
  | @more lived standing source _ _ _ _ hyear _ _ ih =>
    intro k hk
    cases k with
    | zero => exact ⟨standing, source, by rw [Nat.add_zero, hyear]; rfl⟩
    | succ k =>
      have hlived : lived + (k + 1) + 1 = lived + 1 + k + 1 := by omega
      rw [hlived]
      exact ih k (by simpa using hk)

/-- There are no more years than there may be. -/
theorem length_le (h : Goes rules lived standing source years source')
    (hlived : lived < rules.settings.maxYears) :
    lived + years.length ≤ rules.settings.maxYears := by
  induction h with
  | last =>
    rw [List.length_singleton]
    omega
  | @more lived standing source year _ years _ hyear hend _ ih =>
    have hnot : ¬rules.settings.maxYears ≤ lived + 1 := by
      intro hlast
      have htrue := isEnd_liveYear_true rules standing source
      rw [decide_eq_true hlast] at hyear
      rw [hyear, hend] at htrue
      cases htrue
    have hrest := ih (by omega)
    rw [List.length_cons]
    omega

/-- **What each year shows if the standing before it is sound, and hands on, every year shows.** -/
theorem forall_of_liveYear {Inv : Standing → Prop} {P : Year → Prop}
    (hyear : ∀ {isLast before source year source'},
      liveYear rules isLast before source = (year, source') → Inv before →
        P year ∧ Inv year.standing)
    (h : Goes rules lived standing source years source') (hstart : Inv standing) :
    ∀ year ∈ years, P year := by
  induction h with
  | last hlive _ => exact List.forall_mem_singleton.mpr (hyear hlive hstart).1
  | more hlive _ _ ih =>
    obtain ⟨hP, hnext⟩ := hyear hlive hstart
    exact List.forall_mem_cons.mpr ⟨hP, ih hnext⟩

/-- What each year shows, whatever the standing before it, every year shows. -/
theorem forall_year {P : Year → Prop}
    (hyear : ∀ {isLast before source year source'},
      liveYear rules isLast before source = (year, source') → P year)
    (h : Goes rules lived standing source years source') : ∀ year ∈ years, P year := by
  have hkeep : ∀ {isLast before source year source'},
      liveYear rules isLast before source = (year, source') → True → P year ∧ True :=
    fun hlive _ => ⟨hyear hlive, trivial⟩
  exact h.forall_of_liveYear hkeep trivial

/-- The first year begins where the clock of the standing turns to. -/
theorem exists_head (h : Goes rules lived standing source years source') :
    ∃ year rest, years = year :: rest ∧ year.age = standing.person.nextYear.current .age := by
  cases h with
  | @last _ _ _ year _ hyear _ =>
    obtain ⟨rfl, -⟩ := Prod.mk.inj hyear
    exact ⟨_, [], rfl, rfl⟩
  | @more _ _ _ year _ rest _ hyear _ _ =>
    obtain ⟨rfl, -⟩ := Prod.mk.inj hyear
    exact ⟨_, rest, rfl, rfl⟩

/-- **A year is followed by another one only if it is not the end**, and that one begins where the
clock turns to. -/
theorem isChain (h : Goes rules lived standing source years source') :
    years.IsChain fun year next =>
      year.isEnd = false ∧ next.age = year.standing.person.nextYear.current .age := by
  induction h with
  | last => exact List.isChain_singleton _
  | more _ hend hrest ih =>
    obtain ⟨next, rest, rfl, hage⟩ := hrest.exists_head
    exact List.isChain_cons_cons.mpr ⟨⟨hend, hage⟩, ih⟩

end Goes
end LifeCourse
