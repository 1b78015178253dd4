import LifeCourse.Life.Session
import LifeCourse.Proofs.Life.Ending

/-!
# Pages

The pages of a size are the years of a life cut into pieces, each as long as the size says, except
that the last one may be shorter.  Nothing is lost at a border and nothing is there twice
(`pages_partition`).

## What arithmetic may do

Two things could go wrong with a page number, and both are looked at apart from the pages.  A
product or a sum may be beyond 64 bits; then it stops at the greatest number, and no life has that
many years (`page_eq_drop_take`).  And a slice may begin after its end or end after the list;
`slice?` gives nothing then, and no slice that is taken is of this kind (`yearsRange?_eq`).

What a page should hold is said by place: the entries whose place lies between two bounds, which are
whole numbers and as large as they like (`Session.entriesBetween`).
-/

namespace LifeCourse

/-! ## Places in a list -/

section Places

variable {α : Type}

/-- The items of a list from one place up to another one, if the places are in order and the list
has them. -/
def slice? (items : List α) (first last : Nat) : Option (List α) :=
  if first ≤ last ∧ last ≤ items.length then some ((items.take last).drop first) else none

/-- The items whose place lies between two bounds are those that are left when the others are
dropped at both ends. -/
theorem map_fst_filter_zipIdx (items : List α) (first last start : Nat) :
    ((items.zipIdx start).filter fun item => first ≤ item.2 && item.2 < last).map Prod.fst =
      (items.take (last - start)).drop (first - start) := by
  induction items generalizing start with
  | nil => simp
  | cons item items ih =>
    rw [List.zipIdx_cons, List.filter_cons]
    by_cases hlast : start < last
    · have htake : last - start = (last - (start + 1)) + 1 := by omega
      rw [htake, List.take_succ_cons]
      by_cases hfirst : first ≤ start
      · have hdrop : first - start = 0 := by omega
        have hdrop' : first - (start + 1) = 0 := by omega
        have ih := ih (start + 1)
        rw [hdrop', List.drop_zero] at ih
        simp [hfirst, hlast, hdrop, ih]
      · have hdrop : first - start = (first - (start + 1)) + 1 := by omega
        rw [hdrop, List.drop_succ_cons, ← ih (start + 1)]
        simp [hfirst]
    · have htake : last - start = 0 := by omega
      have htake' : last - (start + 1) = 0 := by omega
      have ih := ih (start + 1)
      rw [htake', List.take_zero, List.drop_nil] at ih
      simp [hlast, htake, ih]

end Places

namespace Session

variable (session : Session)

/-- The entries whose place lies between two bounds. -/
def entriesBetween (first last : Int) : List Entry :=
  (session.trajectory.zipIdx.filter fun entry => first ≤ entry.2 && entry.2 < last).map Prod.fst

theorem entriesBetween_natCast (first last : Nat) :
    session.entriesBetween first last = (session.trajectory.take last).drop first := by
  have h := map_fst_filter_zipIdx session.trajectory first last 0
  rw [Nat.sub_zero, Nat.sub_zero] at h
  rw [← h, entriesBetween]
  simp only [Int.ofNat_le, Int.ofNat_lt]

/-! ## Slices -/

/-- The years from one place up to another one, cut out by a slice that must be in range. -/
def yearsRange? (first last : Nat) : Option (List Entry) :=
  let last := min last session.totalYears
  slice? session.trajectory (min first last) last

/-- The years of a page, cut out by such a slice. -/
def page? (number size : Nat) : Option (List Entry) :=
  if number = 0 ∨ size = 0 then some []
  else
    let first := cappedCount ((number - 1) * size)
    session.yearsRange? first (cappedCount (first + size))

/-- **No slice of years is out of range.** -/
theorem yearsRange?_eq (first last : Nat) :
    session.yearsRange? first last = some (session.yearsRange first last) :=
  if_pos ⟨Nat.min_le_right _ _, Nat.min_le_right _ _⟩

theorem page?_eq (number size : Nat) :
    session.page? number size = some (session.page number size) := by
  unfold page? page
  split
  · rfl
  · exact session.yearsRange?_eq _ _

theorem yearsRange_eq_drop_take (first last : Nat) :
    session.yearsRange first last = (session.trajectory.take last).drop first := by
  have htake : session.trajectory.take (min last session.totalYears) =
      session.trajectory.take last := List.take_eq_take_min.symm
  have hlength : (session.trajectory.take last).length = min last session.totalYears :=
    List.length_take
  rw [yearsRange, htake]
  rcases Nat.le_total first (min last session.totalYears) with hle | hle
  · rw [Nat.min_eq_left hle]
  · rw [Nat.min_eq_right hle, List.drop_eq_nil_of_le (by omega), List.drop_eq_nil_of_le (by omega)]

/-! ## Pages -/

/-- **The years of a page.**  A number that is capped stands for one that no life reaches. -/
theorem page_eq_drop_take (hlength : session.trajectory.length < wordLimit) {size : Nat}
    (hsize : 1 ≤ size) (k : Nat) :
    session.page (k + 1) size = (session.trajectory.take ((k + 1) * size)).drop (k * size) := by
  have hlast : (k + 1) * size = k * size + size := Nat.succ_mul k size
  have hpage : session.page (k + 1) size =
      session.yearsRange (cappedCount (k * size))
        (cappedCount (cappedCount (k * size) + size)) := by
    rw [page, if_neg (by omega)]
    rfl
  rw [hpage, yearsRange_eq_drop_take, hlast]
  unfold cappedCount
  -- A bound beyond 64 bits is beyond the last year, and so is the number it is capped to.
  rcases Nat.lt_or_ge (k * size + size) wordLimit with hlt | hge
  · rw [Nat.min_eq_left (by omega), Nat.min_eq_left (by omega)]
  · rw [List.take_of_length_le (by omega), List.take_of_length_le (by omega)]
    rcases Nat.lt_or_ge (k * size) wordLimit with hfirst | hfirst
    · rw [Nat.min_eq_left (by omega)]
    · rw [List.drop_eq_nil_of_le (by omega), List.drop_eq_nil_of_le (by omega)]

theorem page_zero (size : Nat) : session.page 0 size = [] :=
  if_pos (.inl rfl)

theorem length_page (hlength : session.trajectory.length < wordLimit) {size : Nat}
    (hsize : 1 ≤ size) (k : Nat) :
    (session.page (k + 1) size).length = min size (session.trajectory.length - k * size) := by
  have hlast : (k + 1) * size = k * size + size := Nat.succ_mul k size
  rw [session.page_eq_drop_take hlength hsize, List.length_drop, List.length_take]
  omega

/-- There is one more page as long as there are years left. -/
theorem lt_totalPages_iff {size : Nat} (hsize : 1 ≤ size) (k : Nat) :
    k < session.totalPages size ↔ k * size < session.trajectory.length := by
  have hlast : (k + 1) * size = k * size + size := Nat.succ_mul k size
  rw [totalPages, if_neg (by omega), ← Nat.succ_le_iff, Nat.le_div_iff_mul_le hsize, totalYears,
    Nat.succ_eq_add_one, hlast]
  omega

/-- The first pages have the first years. -/
theorem flatMap_page (hlength : session.trajectory.length < wordLimit) {size : Nat}
    (hsize : 1 ≤ size) (k : Nat) :
    (List.range k).flatMap (fun i => session.page (i + 1) size) =
      session.trajectory.take (k * size) := by
  induction k with
  | zero => rw [Nat.zero_mul]; rfl
  | succ k ih =>
    have hshort : k * size ≤ (k + 1) * size := Nat.mul_le_mul_right size (Nat.le_succ k)
    have htake : session.trajectory.take (k * size) =
        (session.trajectory.take ((k + 1) * size)).take (k * size) := by
      rw [List.take_take, Nat.min_eq_left hshort]
    rw [List.range_succ, List.flatMap_append, List.flatMap_singleton, ih,
      session.page_eq_drop_take hlength hsize, htake, List.take_append_drop]

/-! ## Partitions -/

/-- The pages that are counted are the years cut into pieces of a size. -/
structure Partitioned (size count : Nat) (page : Nat → List Entry) : Prop where
  /-- One after the other they are the years. -/
  flatten : ((List.range' 1 count).map page).flatten = session.trajectory
  ne_nil : ∀ number, 1 ≤ number → number ≤ count → page number ≠ []
  /-- Each but the last one is full. -/
  length_eq : ∀ number, 1 ≤ number → number < count → (page number).length = size
  length_le : ∀ number, (page number).length ≤ size
  /-- Pages that are not counted have nothing. -/
  eq_nil : ∀ number, number = 0 ∨ count < number → page number = []

variable {session} in
theorem partitioned (hlength : session.trajectory.length < wordLimit) {size : Nat}
    (hsize : 1 ≤ size) :
    session.Partitioned size (session.totalPages size) (session.page · size) where
  flatten := by
    have hall : session.trajectory.length ≤ session.totalPages size * size := by
      have hlt := session.lt_totalPages_iff hsize (session.totalPages size)
      omega
    rw [List.range'_eq_map_range, List.map_map, ← List.flatMap_def]
    simp only [Function.comp_def, Nat.add_comm 1]
    rw [session.flatMap_page hlength hsize, List.take_of_length_le hall]
  ne_nil := by
    intro number hpos hle
    obtain ⟨k, rfl⟩ := Nat.exists_eq_add_of_le' hpos
    have hlt := (session.lt_totalPages_iff hsize k).mp hle
    have hpage := session.length_page hlength hsize k
    exact List.ne_nil_of_length_pos (by omega)
  length_eq := by
    intro number hpos hlt
    obtain ⟨k, rfl⟩ := Nat.exists_eq_add_of_le' hpos
    have hnext := (session.lt_totalPages_iff hsize (k + 1)).mp hlt
    have hlast : (k + 1) * size = k * size + size := Nat.succ_mul k size
    rw [session.length_page hlength hsize]
    omega
  length_le := by
    rintro (_ | k)
    · rw [session.page_zero]
      exact Nat.zero_le size
    · rw [session.length_page hlength hsize]
      exact Nat.min_le_left _ _
  eq_nil := by
    rintro (_ | k) hnumber
    · exact session.page_zero size
    · have hlt := session.lt_totalPages_iff hsize k
      have hpage := session.length_page hlength hsize k
      exact List.eq_nil_of_length_eq_zero (by omega)

/-- What a page has, by place.  The places of page zero would be below zero. -/
theorem page_eq_entriesBetween (hlength : session.trajectory.length < wordLimit)
    (number size : Nat) :
    session.page number size = session.entriesBetween ((number - 1) * size) (number * size) := by
  rcases number with _ | k
  · have hnone : ∀ place : Nat, ¬ (place : Int) < (0 : Nat) * size := by
      intro place
      omega
    rw [session.page_zero, entriesBetween]
    simp only [hnone, decide_false, Bool.and_false, List.filter_false, List.map_nil]
  · have hfirst : (((k + 1 : Nat) : Int) - 1) * size = (k * size : Nat) := by
      rw [Int.natCast_add, Int.natCast_one, Int.add_sub_cancel, Int.natCast_mul]
    rw [hfirst, ← Int.natCast_mul, entriesBetween_natCast]
    rcases Nat.eq_zero_or_pos size with rfl | hsize
    · rfl
    · exact session.page_eq_drop_take hlength hsize k

/-! ## Lives -/

variable {session}

/-- A session is that of a life. -/
theorem exists_life_of_simulateWith {rules : Ruleset} {request : Request} {source source' : Source}
    (h : simulateWith rules request source = (.ok session, source')) :
    ∃ life, live rules request source = (.ok life, source') ∧ session = ofLife rules life := by
  cases hlive : live rules request source with
  | mk result source₁ =>
    rw [simulateWith, hlive] at h
    obtain ⟨hlife, rfl⟩ := Prod.mk.inj h
    cases result with
    | error failure => cases hlife
    | ok life => exact ⟨life, rfl, (Except.ok.inj hlife).symm⟩

/-- No life has so many years that they could not be counted. -/
theorem length_trajectory_of_simulateWith {rules : Ruleset} {request : Request}
    {source source' : Source} (h : simulateWith rules request source = (.ok session, source')) :
    session.trajectory.length < wordLimit := by
  obtain ⟨life, hlive, rfl⟩ := exists_life_of_simulateWith h
  obtain ⟨source₁, -, -, hyears, -⟩ := live_eq_ok hlive
  have hage := rules.settings.terminalAge_le
  have hlength : (ofLife rules life).trajectory.length = life.years.length := List.length_map _
  have hle := hyears.length_le (by
    rw [Settings.maxYears]
    omega)
  rw [Settings.maxYears] at hle
  rw [Range.greatest] at hage
  rw [hlength, wordLimit]
  omega

theorem pageSize_of_simulateWith {rules : Ruleset} {request : Request}
    {source source' : Source} (hloaded : rules.Loaded)
    (h : simulateWith rules request source = (.ok session, source')) :
    1 ≤ session.pageSize := by
  obtain ⟨life, -, rfl⟩ := exists_life_of_simulateWith h
  exact hloaded.coherent.settings.pageSize

/-- **Pages partition a life.**  The pages of any size that are counted are the years of the life
cut into pieces, none of them empty and each but the last one full; there is nothing on a page that
is not counted.  What is on a page, and between any two places, is what plain arithmetic says, and
no slice is ever out of range.  A session that is simulated under loaded rules has fewer years than
can be counted, and its own pages are of a size that is not zero. -/
theorem pages_partition :
    (∀ session : Session, session.trajectory.length < wordLimit →
      (∀ size, 1 ≤ size →
        session.Partitioned size (session.totalPages size) (session.page · size)) ∧
      (1 ≤ session.pageSize →
        session.Partitioned session.pageSize session.pageCount session.pageAt) ∧
      (∀ first last, session.yearsRange? first last = some (session.yearsRange first last) ∧
        session.yearsRange first last = session.entriesBetween first last) ∧
      ∀ number size, session.page? number size = some (session.page number size) ∧
        session.page number size =
          session.entriesBetween ((number - 1) * size) (number * size)) ∧
    ∀ (rules : Ruleset) (request : Request) (source source' : Source) (session : Session),
      rules.Loaded → simulateWith rules request source = (.ok session, source') →
      session.trajectory.length < wordLimit ∧ 1 ≤ session.pageSize := by
  refine ⟨fun session hlength => ⟨fun size hsize => partitioned hlength hsize,
    fun hsize => partitioned hlength hsize, fun first last => ?_, fun number size => ?_⟩, ?_⟩
  · refine ⟨session.yearsRange?_eq first last, ?_⟩
    rw [yearsRange_eq_drop_take, entriesBetween_natCast]
  · exact ⟨session.page?_eq number size, session.page_eq_entriesBetween hlength number size⟩
  · intro rules request source source' session hloaded h
    exact ⟨length_trajectory_of_simulateWith h, pageSize_of_simulateWith hloaded h⟩

/-! ## Seven years on pages of three -/

/-- A draft of rules under which nothing happens until the age of six, with three years to a
page. -/
def briefDraft : Draft where
  settings := some { Settings.standard with
    terminalAge := 6, terminalAge_le := by decide, pageSize := 3 }

/-- The rules of the draft. -/
def briefRules : Ruleset :=
  { Ruleset.standard with
    settings := { Settings.standard with
      terminalAge := 6, terminalAge_le := by decide, pageSize := 3 } }

/-- The last of the three pages has one year. -/
theorem pages_partition_brief : briefDraft.build = .ok briefRules ∧
    ∃ session source', simulateWith briefRules .empty (.seeded 0) = (.ok session, source') ∧
      session.pageCount = 3 ∧
      ((List.range 5).map fun number => (session.pageAt number).map Entry.age) =
        [[], [0, 1, 2], [3, 4, 5], [6], []] ∧
      session.Partitioned 3 3 session.pageAt := by
  have hbuild : briefDraft.build = .ok briefRules := rfl
  have hsession : ∃ session source',
      simulateWith briefRules .empty (.seeded 0) = (.ok session, source') ∧
      session.pageSize = 3 ∧ session.pageCount = 3 ∧
      ((List.range 5).map fun number => (session.pageAt number).map Entry.age) =
        [[], [0, 1, 2], [3, 4, 5], [6], []] :=
    ⟨_, _, rfl, rfl, rfl, rfl⟩
  obtain ⟨session, source', hsimulate, hsize, hcount, hpages⟩ := hsession
  have hpartition := pages_partition
  obtain ⟨hlength, hpos⟩ := hpartition.2 _ _ _ _ session (.build hbuild) hsimulate
  have hpaged := (hpartition.1 session hlength).2.1 hpos
  rw [hsize, hcount] at hpaged
  exact ⟨hbuild, session, source', hsimulate, hcount, hpages, hpaged⟩

end Session
end LifeCourse
