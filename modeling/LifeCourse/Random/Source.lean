import LifeCourse.Number.Range
import LifeCourse.Random.Keystream

/-!
# Drawing at random

A random source is an endless stream of 64-bit words and a count of those already
drawn.  Nothing in the library asks where the words come from, so every law about a
life holds for every stream; `Source.seeded` is the one stream that makes lives
repeatable.

Two questions are put to a source: a place below a small bound (`Source.below`), and
one of several weighted options (`Source.pick`).

## The place below a bound

A word is read as a fraction of 2^64 and points at a place below the bound.  Some words
would make their places likelier than others; they are passed over, and the next word is
drawn.  A generator that draws on for as long as it takes has no answer on a stream that
goes on with such words forever.  `Source.below` passes over at most 1024 words and then
takes the place that the next one points at, so it has an answer on every stream.  The
two agree, in the place and in the words drawn, wherever one of the first 1024 words is
not passed over.

## The weighted pick

Options whose weight is not a finite positive number cannot be drawn.  Without a
drawable option the answer is `none` and no word is drawn.  Otherwise exactly one
word is drawn, even for a single option: it is read as a number in `[0, 1)`, scaled
to the total of the weights, and the answer is the first option whose running total
exceeds it.  Weights are first divided by the largest one, so that their total stays
finite.  The last option takes whatever the rounding of the running totals leaves
over, hence a drawable pool never comes back empty.
-/

namespace LifeCourse

/-- A stream of random words, with the number of words already drawn. -/
structure Source where
  stream : Nat → UInt64
  drawn : Nat

namespace Source

/-- The repeatable source of a seed. -/
def seeded (seed : UInt64) : Source :=
  ⟨Keystream.draw seed, 0⟩

/-- The next word. -/
def next (source : Source) : UInt64 × Source :=
  (source.stream source.drawn, { source with drawn := source.drawn + 1 })

/-! ## A place below a bound -/

/-- The place below `bound` that a word stands for: the word is a fraction of 2^64,
and words that would make some places likelier than others stand for none. -/
def place? (bound : Nat) (word : UInt64) : Option Nat :=
  let product := word.toNat * bound
  if product % wordLimit < bound <<< (63 - bound.log2) then some (product / wordLimit) else none

/-- Draws until a word stands for a place, but no more than `tries + 1` words: after
`tries` words that stand for none, the next one stands for the place it points at. -/
def belowWithin (bound : Nat) : Nat → Source → Nat × Source
  | 0, source =>
    let (word, source) := source.next
    (word.toNat * bound / wordLimit, source)
  | tries + 1, source =>
    let (word, source) := source.next
    match place? bound word with
    | some place => (place, source)
    | none => belowWithin bound tries source

/-- A place below `bound`, every one as likely as the others.  The redrawing is cut off
after 1024 words; where no more are passed over, it makes no difference. -/
def below (bound : Nat) (source : Source) : Nat × Source :=
  belowWithin bound 1024 source

theorem belowWithin_lt {bound : Nat} (h : 0 < bound) (tries : Nat) (source : Source) :
    (belowWithin bound tries source).1 < bound := by
  have hword : ∀ word : UInt64, word.toNat * bound / wordLimit < bound := fun word =>
    Nat.div_lt_of_lt_mul (Nat.mul_lt_mul_of_pos_right word.toNat_lt h)
  induction tries generalizing source with
  | zero => exact hword _
  | succ tries ih =>
    unfold belowWithin place?
    simp only
    split
    · rename_i heq
      split at heq
      · cases heq
        exact hword _
      · cases heq
    · exact ih _

theorem below_lt {bound : Nat} (h : 0 < bound) (source : Source) :
    (source.below bound).1 < bound :=
  belowWithin_lt h 1024 source

/-! ## One of several weighted options -/

variable {α : Type}

/-- A weight with which an option can be drawn. -/
def drawable (weight : Float) : Bool :=
  weight.isFinite && 0 < weight

/-- The first option whose running total exceeds `target`, or the last option;
`total` is the running total up to the option at the front. -/
def landing (target total : Float) (option : α) : List (α × Float) → α
  | [] => option
  | (next, share) :: rest =>
    if target < total then option else landing target (total + share) next rest

/-- The word as a number in `[0, 1)`. -/
def fraction (word : UInt64) : Float :=
  (word >>> 12).toFloat / 4503599627370496

/-- One of the drawable options, each with a chance in proportion to its weight. -/
def pick (options : List (α × Float)) (source : Source) : Option α × Source :=
  match options.filter fun option => drawable option.2 with
  | [] => (none, source)
  | (first, weight) :: rest =>
    let largest := rest.foldl (fun m option => if m < option.2 then option.2 else m) weight
    let share := weight / largest
    let shares := rest.map fun option => (option.1, option.2 / largest)
    let total := shares.foldl (fun sum option => sum + option.2) share
    let (word, source) := source.next
    (some (landing (fraction word * total) share first shares), source)

theorem landing_mem (target total : Float) (option : α) (rest : List (α × Float)) :
    landing target total option rest ∈ option :: rest.map Prod.fst := by
  induction rest generalizing total option with
  | nil => simp [landing]
  | cons head rest ih =>
    unfold landing
    split
    · simp
    · exact List.mem_cons_of_mem _ (by simpa using ih (total + head.2) head.1)

/-- What is picked is a drawable option. -/
theorem mem_of_pick_eq_some {options : List (α × Float)} {source : Source} {a : α}
    (h : (source.pick options).1 = some a) :
    ∃ weight, (a, weight) ∈ options ∧ drawable weight := by
  unfold pick at h
  split at h
  · cases h
  · rename_i first weight rest heq
    have hmem := landing_mem (fraction source.next.1 *
      (rest.map fun option => (option.1, option.2 / rest.foldl (fun m option =>
        if m < option.2 then option.2 else m) weight)).foldl (fun sum option => sum + option.2)
        (weight / rest.foldl (fun m option => if m < option.2 then option.2 else m) weight))
      (weight / rest.foldl (fun m option => if m < option.2 then option.2 else m) weight) first
      (rest.map fun option => (option.1, option.2 / rest.foldl (fun m option =>
        if m < option.2 then option.2 else m) weight))
    simp only [Option.some.injEq] at h
    rw [h] at hmem
    have hlive : ∃ w, (a, w) ∈ (first, weight) :: rest := by
      rcases List.mem_cons.mp hmem with rfl | hmem
      · exact ⟨weight, by simp⟩
      · simp only [List.map_map, List.mem_map, Function.comp] at hmem
        obtain ⟨option, hoption, rfl⟩ := hmem
        exact ⟨option.2, List.mem_cons_of_mem _ hoption⟩
    obtain ⟨w, hw⟩ := hlive
    rw [← heq, List.mem_filter] at hw
    exact ⟨w, hw.1, hw.2⟩

/-- Options that cannot be drawn do not matter. -/
theorem pick_congr {options options' : List (α × Float)}
    (h : (options.filter fun option => drawable option.2) =
      options'.filter fun option => drawable option.2) (source : Source) :
    source.pick options = source.pick options' := by
  unfold pick
  rw [h]

/-- Nothing is picked exactly when no option is drawable. -/
theorem pick_eq_none_iff {options : List (α × Float)} {source : Source} :
    (source.pick options).1 = none ↔ ∀ option ∈ options, drawable option.2 = false := by
  unfold pick
  split
  · rename_i heq
    simpa using List.filter_eq_nil_iff.mp heq
  · rename_i first weight rest heq
    simp only [reduceCtorEq, false_iff]
    intro hall
    have hmem : (first, weight) ∈ options.filter fun option => drawable option.2 := by
      rw [heq]
      simp
    obtain ⟨hin, hdraw⟩ := List.mem_filter.mp hmem
    rw [hall _ hin] at hdraw
    cases hdraw

/-- Nothing is picked exactly when nothing comes with a drawable weight. -/
theorem pick_eq_none_iff_forall {options : List (α × Float)} {source : Source} :
    (source.pick options).1 = none ↔
      ∀ a, ¬∃ weight, (a, weight) ∈ options ∧ drawable weight = true := by
  rw [pick_eq_none_iff]
  constructor
  · rintro hnone a ⟨weight, hmem, hdrawable⟩
    rw [hnone _ hmem] at hdrawable
    cases hdrawable
  · intro hnone option hmem
    exact Bool.eq_false_iff.mpr fun hdrawable => hnone option.1 ⟨option.2, hmem, hdrawable⟩

/-- A source of which nothing could be picked is left as it was. -/
theorem pick_snd_of_eq_none {options : List (α × Float)} {source : Source}
    (h : (source.pick options).1 = none) : (source.pick options).2 = source := by
  unfold pick at h ⊢
  split at h
  · simp_all
  · cases h

end Source
end LifeCourse
