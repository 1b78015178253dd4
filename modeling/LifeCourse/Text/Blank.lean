/-!
# Blank characters

The conditions and the integer texts of a rule document may be spaced freely.
What counts as a space is the Unicode property White_Space, which has 25
characters; core's `Char.isWhitespace` knows four of them.  `trim` removes blanks
at both ends and nothing else, so a no-break space is trimmed and a zero-width
space is not.
-/

namespace LifeCourse
namespace Text

/-- The characters with the property White_Space. -/
def isBlank (c : Char) : Bool :=
  let n := c.toNat
  (9 ≤ n && n ≤ 13) || n == 0x20 || n == 0x85 || n == 0xA0 || n == 0x1680 ||
    (0x2000 ≤ n && n ≤ 0x200A) || n == 0x2028 || n == 0x2029 || n == 0x202F ||
    n == 0x205F || n == 0x3000

/-- The text without the blanks at its two ends. -/
def trim (s : List Char) : List Char :=
  ((s.dropWhile isBlank).reverse.dropWhile isBlank).reverse

/-- The text without any blank. -/
def squeeze (s : List Char) : List Char :=
  s.filter fun c => !isBlank c

/-- The blanks between two texts are squeezed out on either side. -/
theorem squeeze_append (s t : List Char) : squeeze (s ++ t) = squeeze s ++ squeeze t := by
  simp [squeeze]

/-! ## What is trimmed -/

theorem dropWhile_isBlank_eq_nil_iff {s : List Char} :
    s.dropWhile isBlank = [] ↔ ∀ c ∈ s, isBlank c = true := by
  constructor
  · intro h
    rw [← List.takeWhile_append_dropWhile (p := isBlank) (l := s), h, List.append_nil]
    exact List.all_eq_true.mp List.all_takeWhile
  · intro h
    rw [← List.append_nil s, List.dropWhile_append_of_pos h, List.dropWhile_nil]

/-- A text of blanks is trimmed to nothing, and no other one is. -/
theorem trim_eq_nil_iff {s : List Char} : trim s = [] ↔ ∀ c ∈ s, isBlank c = true := by
  rw [trim, List.reverse_eq_nil_iff, dropWhile_isBlank_eq_nil_iff]
  constructor
  · intro h c hc
    rw [← List.takeWhile_append_dropWhile (p := isBlank) (l := s)] at hc
    rcases List.mem_append.mp hc with hc | hc
    · exact List.all_eq_true.mp List.all_takeWhile c hc
    · exact h c (List.mem_reverse.mpr hc)
  · intro h c hc
    rw [dropWhile_isBlank_eq_nil_iff.mpr h] at hc
    cases hc

/-- Without blanks a text is the same when trimmed, also with blanks around it. -/
theorem trim_pad {before s after : List Char} (hbefore : ∀ c ∈ before, isBlank c = true)
    (hs : ∀ c ∈ s, isBlank c = false) (hafter : ∀ c ∈ after, isBlank c = true) :
    trim (before ++ s ++ after) = s := by
  cases s with
  | nil =>
    rw [List.append_nil, trim_eq_nil_iff]
    exact List.forall_mem_append.mpr ⟨hbefore, hafter⟩
  | cons c s =>
    have hfirst : ¬isBlank c = true := by simp [hs c List.mem_cons_self]
    obtain ⟨d, rest, hrest⟩ := List.exists_cons_of_ne_nil (l := (c :: s).reverse) (by simp)
    have hlast : ¬isBlank d = true := by
      have hd : d ∈ c :: s := List.mem_reverse.mp (hrest ▸ List.mem_cons_self)
      simp [hs d hd]
    have hafter : ∀ e ∈ after.reverse, isBlank e = true := fun e he =>
      hafter e (List.mem_reverse.mp he)
    rw [trim, List.append_assoc, List.dropWhile_append_of_pos hbefore, List.cons_append,
      List.dropWhile_cons_of_neg hfirst, ← List.cons_append, List.reverse_append,
      List.dropWhile_append_of_pos hafter, hrest, List.dropWhile_cons_of_neg hlast, ← hrest,
      List.reverse_reverse]

/-- A text of blanks has no other characters. -/
theorem squeeze_eq_nil_of_trim {s : List Char} (h : trim s = []) : squeeze s = [] :=
  List.filter_eq_nil_iff.mpr fun c hc => by simp [trim_eq_nil_iff.mp h c hc]

end Text
end LifeCourse
