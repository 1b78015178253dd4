/-!
# Splitting at a character

Short forms of an entry join two parts by one character, as in `"AGE>3:12"` or
`"10*0.5"`.  A branch is split at its last colon, since a condition may contain one; a
pool entry is split at its first asterisk.

Each function is fixed by two facts: where the separator does occur in the right place
the text is split there (`splitFirst_append`, `splitLast_append`), and where it does not
occur at all nothing is split (`splitFirst_eq_none_iff`, `splitLast_eq_none_iff`).
-/

namespace LifeCourse
namespace Text

/-- The parts before and after the first occurrence of a character. -/
def splitFirst (separator : Char) : List Char → Option (List Char × List Char)
  | [] => none
  | c :: rest =>
    if c = separator then some ([], rest)
    else (splitFirst separator rest).map fun parts => (c :: parts.1, parts.2)

/-- The parts before and after the last occurrence of a character. -/
def splitLast (separator : Char) (s : List Char) : Option (List Char × List Char) :=
  (splitFirst separator s.reverse).map fun parts => (parts.2.reverse, parts.1.reverse)

theorem splitFirst_append {separator : Char} {s : List Char} (h : separator ∉ s)
    (t : List Char) : splitFirst separator (s ++ separator :: t) = some (s, t) := by
  induction s with
  | nil => simp [splitFirst]
  | cons c rest ih =>
    obtain ⟨hc, hrest⟩ := not_or.mp fun hmem => h (List.mem_cons.mpr hmem)
    have hc' : ¬c = separator := fun heq => hc heq.symm
    simp [splitFirst, hc', ih hrest]

theorem splitFirst_eq_none_iff {separator : Char} {s : List Char} :
    splitFirst separator s = none ↔ separator ∉ s := by
  induction s with
  | nil => simp [splitFirst]
  | cons c rest ih =>
    by_cases hc : c = separator
    · simp [splitFirst, hc]
    · have hc' : ¬separator = c := fun heq => hc heq.symm
      simp [splitFirst, hc, hc', ih]

theorem splitLast_append {separator : Char} {t : List Char} (h : separator ∉ t)
    (s : List Char) : splitLast separator (s ++ separator :: t) = some (s, t) := by
  have hrev : (s ++ separator :: t).reverse = t.reverse ++ separator :: s.reverse := by simp
  have ht : separator ∉ t.reverse := by simpa using h
  rw [splitLast, hrev, splitFirst_append ht]
  simp

theorem splitLast_eq_none_iff {separator : Char} {s : List Char} :
    splitLast separator s = none ↔ separator ∉ s := by
  simp [splitLast, splitFirst_eq_none_iff]

end Text
end LifeCourse
