import LifeCourse.Proofs.Random.Shares

/-!
# Drawing with any lottery

The weighted pick draws with running totals.  That it never misses a pool with a drawable option, and
never draws another option, has little to do with them: it is so with every lottery that accepts the
shares it is given and draws a place among them (`Lottery.Lawful`).  `Source.pickBy` leaves the
drawing to a lottery and has the exits of a pick that does not trust it: nothing is picked when no
option is left, when the largest weight is not positive, when the lottery refuses the shares, and when
it draws a place that does not exist.  A lawful lottery takes only the first of them
(`Source.pick_total`).
-/

namespace LifeCourse

open Rounding Share

/-- A way to draw one of several places, each with a chance in proportion to its share, unless the
shares are refused. -/
structure Lottery where
  draw? : List Float → Option (Source → Nat × Source)

namespace Lottery

/-- A lottery refuses no acceptable shares, and draws a place among them. -/
def Lawful (lottery : Lottery) : Prop :=
  ∀ shares, Acceptable shares →
    ∃ draw, lottery.draw? shares = some draw ∧ ∀ source, (draw source).1 < shares.length

/-- The place of the first share whose running total exceeds `target`, or the last place; `total` is
the running total up to the share in front of the list. -/
def landingPlace (target total : Float) : List Float → Nat
  | [] => 0
  | share :: shares =>
    if target < total then 0 else landingPlace target (total + share) shares + 1

/-- The lottery of running totals.  It refuses negative shares and shares that come to nothing. -/
def runningTotals : Lottery where
  draw?
    | [] => none
    | share :: shares =>
      if (share :: shares).all (0 ≤ ·) && 0 < total (share :: shares) then
        some fun source =>
          (landingPlace (Source.fraction source.next.1 * total (share :: shares)) share shares,
            source.next.2)
      else none

theorem landingPlace_le (target total : Float) (shares : List Float) :
    landingPlace target total shares ≤ shares.length := by
  induction shares generalizing total with
  | nil => exact Nat.le_refl 0
  | cons share shares ih =>
    unfold landingPlace
    split
    · exact Nat.zero_le _
    · exact Nat.succ_le_succ (ih _)

theorem runningTotals_draw? {shares rest : List Float} {share : Float} (h : Acceptable shares)
    (heq : shares = share :: rest) : runningTotals.draw? shares = some fun source =>
      (landingPlace (Source.fraction source.next.1 * total (share :: rest)) share rest,
        source.next.2) := by
  subst heq
  have hnonneg := List.all_eq_true.mpr fun share hmem => decide_eq_true (h.nonneg share hmem)
  exact if_pos (Bool.and_eq_true_iff.mpr ⟨hnonneg, decide_eq_true h.totalPos⟩)

theorem lawful_runningTotals : runningTotals.Lawful := by
  intro shares hshares
  cases shares with
  | nil => exact absurd rfl hshares.nonempty
  | cons share shares =>
    exact ⟨_, runningTotals_draw? hshares rfl,
      fun source => Nat.lt_succ_of_le (landingPlace_le _ _ _)⟩

end Lottery

namespace Source

open Lottery

variable {α : Type}

/-- The options that can be drawn. -/
def live (options : List (α × Float)) : List (α × Float) :=
  options.filter fun option => drawable option.2

/-- One of the options that can be drawn, drawn by a lottery. -/
def pickBy (lottery : Lottery) (options : List (α × Float)) (source : Source) :
    Option α × Source :=
  let weights := (live options).map Prod.snd
  if (live options).isEmpty ∨ largest 0 weights ≤ 0 then (none, source)
  else
    match lottery.draw? (shares weights) with
    | none => (none, source)
    | some draw => ((live options)[(draw source).1]?.map Prod.fst, (draw source).2)

variable {lottery : Lottery} {options : List (α × Float)} {option : α × Float}

theorem mem_live : option ∈ live options ↔ option ∈ options ∧ drawable option.2 = true :=
  List.mem_filter

theorem live_eq_nil_iff : live options = [] ↔ ∀ option ∈ options, drawable option.2 = false := by
  rw [live, List.filter_eq_nil_iff]
  simp only [Bool.not_eq_true]

theorem weights_ne_nil (hne : live options ≠ []) : (live options).map Prod.snd ≠ [] :=
  mt List.map_eq_nil_iff.mp hne

theorem positive_of_live (options : List (α × Float)) :
    ∀ weight ∈ (live options).map Prod.snd, Positive (unpacked weight) := by
  intro weight hmem
  obtain ⟨option, hoption, rfl⟩ := List.mem_map.mp hmem
  exact drawable_iff.mp (mem_live.mp hoption).2

theorem pickBy_of_nil (h : live options = []) (source : Source) :
    source.pickBy lottery options = (none, source) := by
  unfold pickBy
  rw [h]
  rfl

theorem pickBy_of_draw {draw : Source → Nat × Source} (hne : live options ≠ [])
    (hdraw : lottery.draw? (shares ((live options).map Prod.snd)) = some draw) (source : Source) :
    source.pickBy lottery options =
      ((live options)[(draw source).1]?.map Prod.fst, (draw source).2) := by
  have hmem := (largest_zero_spec (weights_ne_nil hne) (positive_of_live options)).1
  have hno : ¬((live options).isEmpty = true ∨ largest 0 ((live options).map Prod.snd) ≤ 0) := by
    rintro (hempty | hnonpos)
    · exact hne (List.isEmpty_iff.mp hempty)
    · exact not_nonpos_of_positive (positive_of_live options _ hmem) hnonpos
  unfold pickBy
  rw [if_neg hno, hdraw]

/-- What a pick of one of the options comes to. -/
structure Picks (options : List (α × Float)) (source : Source) (outcome : Option α × Source) :
    Prop where
  eq_none_iff : outcome.1 = none ↔ ∀ option ∈ options, drawable option.2 = false
  unchanged : outcome.1 = none → outcome.2 = source
  drawable_of_eq_some : ∀ a, outcome.1 = some a →
    ∃ weight, (a, weight) ∈ options ∧ drawable weight = true

theorem picks_none (h : live options = []) (source : Source) :
    Picks options source (none, source) :=
  ⟨iff_of_true rfl (live_eq_nil_iff.mp h), fun _ => rfl, fun _ h => by cases h⟩

theorem picks_some (h : option ∈ live options) (source after : Source) :
    Picks options source (some option.1, after) := by
  have hdrawable := mem_live.mp h
  refine ⟨iff_of_false (Option.some_ne_none _) fun hnone => ?_,
    fun h => absurd h (Option.some_ne_none _), ?_⟩
  · exact List.ne_nil_of_mem h (live_eq_nil_iff.mpr hnone)
  · intro a ha
    cases ha
    exact ⟨option.2, hdrawable⟩

/-- **With a lawful lottery an option is picked if one can be, and only such an option.** -/
theorem picks_pickBy (hlawful : lottery.Lawful) (options : List (α × Float)) (source : Source) :
    Picks options source (source.pickBy lottery options) := by
  by_cases hnil : live options = []
  · rw [pickBy_of_nil hnil]
    exact picks_none hnil source
  · obtain ⟨draw, hdraw, hplace⟩ :=
      hlawful _ (acceptable_shares (weights_ne_nil hnil) (positive_of_live options))
    have hlt : (draw source).1 < (live options).length := by
      have := hplace source
      rwa [shares, List.length_map, List.length_map] at this
    rw [pickBy_of_draw hnil hdraw, List.getElem?_eq_getElem hlt]
    exact picks_some (List.getElem_mem hlt) source _

/-! ## Running totals -/

theorem getElem?_landingPlace (target total : Float) (option : α) (rest : List (α × Float)) :
    (option :: rest.map Prod.fst)[landingPlace target total (rest.map Prod.snd)]? =
      some (landing target total option rest) := by
  induction rest generalizing total option with
  | nil => rfl
  | cons head rest ih =>
    rw [List.map_cons, List.map_cons, landingPlace, landing]
    split
    · rfl
    · rw [List.getElem?_cons_succ]
      exact ih (total + head.2) head.1

theorem pick_of_live {first : α × Float} {rest : List (α × Float)}
    (h : live options = first :: rest) (source : Source) :
    source.pick options =
      let most := largest first.2 (rest.map Prod.snd)
      let shared := rest.map fun option => (option.1, option.2 / most)
      (some (landing (fraction source.next.1 * total (first.2 / most :: shared.map Prod.snd))
        (first.2 / most) first.1 shared), source.next.2) := by
  have hmost : rest.foldl (fun m option => if m < option.2 then option.2 else m) first.2 =
      largest first.2 (rest.map Prod.snd) := by
    rw [largest, List.foldl_map]
    rfl
  have htotal : ∀ (share : Float) (shared : List (α × Float)),
      shared.foldl (fun sum option => sum + option.2) share =
        total (share :: shared.map Prod.snd) := by
    intro share shared
    rw [total, List.foldl_map]
  unfold pick
  rw [← live, h]
  dsimp only
  rw [htotal, hmost]

/-- **The weighted pick is the pick with running totals.** -/
theorem pick_eq_pickBy (options : List (α × Float)) (source : Source) :
    source.pick options = source.pickBy runningTotals options := by
  cases hlive : live options with
  | nil =>
    rw [pickBy_of_nil hlive]
    unfold pick
    rw [← live, hlive]
  | cons first rest =>
    have hne : live options ≠ [] := by simp [hlive]
    have hfirst : 0 < first.2 :=
      pos_of_positive (positive_of_live options _ (by simp [hlive]))
    have hacceptable := acceptable_shares (weights_ne_nil hne) (positive_of_live options)
    have hdraw := runningTotals_draw? hacceptable
      (by rw [hlive, List.map_cons, shares_cons hfirst])
    rw [pickBy_of_draw hne hdraw, pick_of_live hlive, hlive, ← List.getElem?_map]
    dsimp only
    rw [← getElem?_landingPlace, List.map_map, List.map_map, List.map_map]
    rfl

/-- **The weighted pick is total.**  Nothing is picked exactly when no option has a finite positive
weight, and the source is untouched then; otherwise the option that is picked has one.  This holds of
running totals as of every lawful lottery. -/
theorem pick_total (options : List (α × Float)) (source : Source) :
    Picks options source (source.pick options) ∧
      source.pick options = source.pickBy runningTotals options ∧
      ∀ lottery : Lottery, lottery.Lawful →
        Picks options source (source.pickBy lottery options) := by
  refine ⟨?_, pick_eq_pickBy options source, fun _ hlawful => picks_pickBy hlawful options source⟩
  rw [pick_eq_pickBy]
  exact picks_pickBy lawful_runningTotals options source

/-- Options of which four cannot be drawn, the weights of two are so great that their sum is infinite,
and that of the last is so small that its share is zero. -/
def extremeOptions : List (Nat × Float) :=
  [(0, 0 / 0), (1, 1 / 0), (2, 0), (3, -1), (4, Float.ofBits 0x7FEFFFFFFFFFFFFF),
    (5, Float.ofBits 0x7FEFFFFFFFFFFFFF), (6, Float.ofBits 1)]

theorem pick_total_extremeOptions : runningTotals.Lawful ∧
    ∃ item ∈ [4, 5, 6], ((seeded 7).pickBy runningTotals extremeOptions).1 = some item := by
  have hpicks := (pick_total extremeOptions (seeded 7)).2.2 runningTotals lawful_runningTotals
  refine ⟨lawful_runningTotals, ?_⟩
  cases hitem : ((seeded 7).pickBy runningTotals extremeOptions).1 with
  | none =>
    have hnone := hpicks.eq_none_iff.mp hitem (6, Float.ofBits 1) (by simp [extremeOptions])
    exact absurd hnone (by decide)
  | some item =>
    obtain ⟨weight, hmem, hdrawable⟩ := hpicks.drawable_of_eq_some item hitem
    refine ⟨item, ?_, rfl⟩
    have hall : ∀ option ∈ extremeOptions, drawable option.2 = true → option.1 ∈ [4, 5, 6] := by
      decide
    exact hall (item, weight) hmem hdrawable

end Source
end LifeCourse
