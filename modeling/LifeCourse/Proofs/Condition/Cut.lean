import LifeCourse.Condition.Token
import Mathlib.Data.List.Chain

/-!
# The cut of a text into tokens

`Token.cut` goes through a text character by character.  Here the tokens of a text are described
without that walk: `Token.IsCut tokens s` says that the tokens read `s` one after another, that an
atom is a nonempty piece without any of the four separators, and that no atom stands directly
before another one.

* `isCut_iff`: the tokens of a text are exactly what the walk finds, so a text has one cut.
* `cut_append_separator`: a separator cuts a text in two, whatever stands around it.
-/

namespace LifeCourse
namespace Token

/-- The token is an atom. -/
def IsAtom : Token → Prop
  | atom _ => True
  | _ => False

/-- The tokens read the text, and are as long as they can be. -/
structure IsCut (tokens : List Token) (s : List Char) : Prop where
  text : tokens.flatMap text = s
  atoms : ∀ a, atom a ∈ tokens → a ≠ [] ∧ ∀ c ∈ a, separator? c = none
  apart : tokens.IsChain fun t u => IsAtom t → ¬IsAtom u

/-! ## The walk, one character at a time -/

theorem cut_cons_of_separator {c : Char} {t : Token} (h : separator? c = some t)
    (s : List Char) : cut (c :: s) = t :: cut s := by
  rw [cut, h]

theorem cut_cons_of_atom {c : Char} (h : separator? c = none) {s a : List Char}
    {more : List Token} (hs : cut s = atom a :: more) : cut (c :: s) = atom (c :: a) :: more := by
  rw [cut, h, hs]

theorem cut_cons_of_not_atom {c : Char} (h : separator? c = none) {s : List Char}
    (hs : ∀ t ∈ (cut s).head?, ¬IsAtom t) : cut (c :: s) = atom [c] :: cut s := by
  rw [cut, h]
  rcases hcut : cut s with _ | ⟨t, more⟩
  · rfl
  · have ht : ¬IsAtom t := hs t (by rw [hcut]; rfl)
    cases t with
    | atom a => exact absurd trivial ht
    | _ => rfl

theorem not_isAtom_of_separator? {c : Char} {t : Token} (h : separator? c = some t) :
    ¬IsAtom t := by
  unfold separator? at h
  split at h <;> cases h <;> exact id

/-- An atom is read back whole if no atom follows it. -/
theorem cut_append_of_atom {a s : List Char} (hne : a ≠ []) (ha : ∀ c ∈ a, separator? c = none)
    (hs : ∀ t ∈ (cut s).head?, ¬IsAtom t) : cut (a ++ s) = atom a :: cut s := by
  induction a with
  | nil => exact absurd rfl hne
  | cons c a ih =>
    have hc : separator? c = none := ha c List.mem_cons_self
    cases a with
    | nil => exact cut_cons_of_not_atom hc hs
    | cons d a =>
      have hrest := ih (List.cons_ne_nil d a) fun e he => ha e (List.mem_cons_of_mem c he)
      exact cut_cons_of_atom hc hrest

/-- The four tokens that are no atoms are read back from their sign. -/
theorem cut_text_append {t : Token} (ht : ¬IsAtom t) (s : List Char) :
    cut (t.text ++ s) = t :: cut s := by
  cases t with
  | atom a => exact absurd trivial ht
  | and => exact cut_cons_of_separator rfl s
  | or => exact cut_cons_of_separator rfl s
  | opening => exact cut_cons_of_separator rfl s
  | closing => exact cut_cons_of_separator rfl s

/-! ## One cut -/

theorem IsCut.nil : IsCut [] [] :=
  ⟨rfl, by simp, List.IsChain.nil⟩

/-- A token in front of tokens: an atom must be one, and no other may follow it. -/
theorem IsCut.cons {t : Token} {tokens : List Token} {s : List Char}
    (ht : ∀ a, t = atom a → a ≠ [] ∧ ∀ c ∈ a, separator? c = none)
    (hnext : ∀ u ∈ tokens.head?, IsAtom t → ¬IsAtom u) (h : IsCut tokens s) :
    IsCut (t :: tokens) (t.text ++ s) where
  text := by rw [List.flatMap_cons, h.text]
  atoms a ha := by
    rcases List.mem_cons.mp ha with ha | ha
    · exact ht a ha.symm
    · exact h.atoms a ha
  apart := h.apart.cons hnext

theorem IsCut.tail {t : Token} {tokens : List Token} {s : List Char}
    (h : IsCut (t :: tokens) s) : IsCut tokens (tokens.flatMap Token.text) where
  text := rfl
  atoms a ha := h.atoms a (List.mem_cons_of_mem t ha)
  apart := h.apart.tail

theorem cut_eq_of_isCut {tokens : List Token} {s : List Char} (h : IsCut tokens s) :
    cut s = tokens := by
  induction tokens generalizing s with
  | nil => rw [← h.text]; rfl
  | cons t tokens ih =>
    have htail : cut (tokens.flatMap Token.text) = tokens := ih h.tail
    rw [← h.text, List.flatMap_cons]
    by_cases ht : IsAtom t
    · cases t with
      | atom a =>
        have hnext : ∀ u ∈ (cut (tokens.flatMap Token.text)).head?, ¬IsAtom u := by
          rw [htail]
          exact fun u hu => h.apart.rel_head? hu trivial
        obtain ⟨hne, ha⟩ := h.atoms a List.mem_cons_self
        have hcut := cut_append_of_atom hne ha hnext
        rw [htail] at hcut
        exact hcut
      | _ => exact absurd ht id
    · rw [cut_text_append ht, htail]

/-- What the walk finds, at a character that separates nothing: it joins the atom that
follows, or is an atom of its own. -/
theorem isCut_cut_cons {c : Char} (hc : separator? c = none) {s : List Char}
    (h : IsCut (cut s) s) : IsCut (cut (c :: s)) (c :: s) := by
  by_cases hnext : ∀ t ∈ (cut s).head?, ¬IsAtom t
  · rw [cut_cons_of_not_atom hc hnext]
    refine IsCut.cons ?_ (fun u hu _ => hnext u hu) h
    rintro a ⟨⟩
    exact ⟨List.cons_ne_nil c [], by simpa using hc⟩
  · rcases hs : cut s with _ | ⟨t, more⟩
    · simp [hs] at hnext
    · cases t with
      | atom a =>
        rw [cut_cons_of_atom hc hs]
        rw [hs] at h
        obtain ⟨-, ha⟩ := h.atoms a List.mem_cons_self
        have hmore := IsCut.cons (t := atom (c :: a)) (by
          rintro b ⟨⟩
          exact ⟨List.cons_ne_nil c a, List.forall_mem_cons.mpr ⟨hc, ha⟩⟩)
          (fun u hu _ => h.apart.rel_head? hu trivial) h.tail
        have htext : a ++ more.flatMap Token.text = s := h.text
        rw [Token.text, List.cons_append, htext] at hmore
        exact hmore
      | _ => exact absurd (by simp [hs, IsAtom]) hnext

theorem isCut_cut (s : List Char) : IsCut (cut s) s := by
  induction s with
  | nil => exact IsCut.nil
  | cons c s ih =>
    cases hc : separator? c with
    | none => exact isCut_cut_cons hc ih
    | some t =>
      have hatom := not_isAtom_of_separator? hc
      have hcons := IsCut.cons (t := t) (fun a ha => absurd (ha ▸ trivial) hatom)
        (fun u _ ht => absurd ht hatom) ih
      rw [text_of_separator? hc] at hcons
      rw [cut_cons_of_separator hc]
      exact hcons

/-- **One cut.**  The tokens of a text are exactly those that the walk finds. -/
theorem isCut_iff {tokens : List Token} {s : List Char} : IsCut tokens s ↔ tokens = cut s := by
  constructor
  · exact fun h => (cut_eq_of_isCut h).symm
  · rintro rfl
    exact isCut_cut s

/-! ## Cutting at a separator -/

theorem cut_append_separator {c : Char} {t : Token} (hc : separator? c = some t)
    (s s' : List Char) : cut (s ++ c :: s') = cut s ++ t :: cut s' := by
  induction s with
  | nil => exact cut_cons_of_separator hc s'
  | cons d s ih =>
    rw [List.cons_append]
    cases hd : separator? d with
    | some u => rw [cut_cons_of_separator hd, cut_cons_of_separator hd, ih, List.cons_append]
    | none =>
      rcases hs : cut s with _ | ⟨u, more⟩
      · have hnext : ∀ v ∈ (cut (s ++ c :: s')).head?, ¬IsAtom v := by
          rw [ih, hs]
          simpa using not_isAtom_of_separator? hc
        rw [cut_cons_of_not_atom hd hnext, cut_cons_of_not_atom hd (by simp [hs]), ih, hs]
        rfl
      · cases u with
        | atom a =>
          rw [hs, List.cons_append] at ih
          rw [cut_cons_of_atom hd ih, cut_cons_of_atom hd hs, List.cons_append]
        | _ =>
          rw [cut_cons_of_not_atom hd (by simp [ih, hs, IsAtom]),
            cut_cons_of_not_atom hd (by simp [hs, IsAtom]), ih, List.cons_append]

/-- A separator cuts the tokens of a text in two. -/
theorem ofText_append_separator {c : Char} {t : Token} (hc : separator? c = some t)
    (hblank : Text.isBlank c = false) (s s' : List Char) :
    ofText (s ++ c :: s') = ofText s ++ t :: ofText s' := by
  have hsqueeze : Text.squeeze (c :: s') = c :: Text.squeeze s' := by
    simp [Text.squeeze, hblank]
  rw [ofText, Text.squeeze_append, hsqueeze, cut_append_separator hc]
  rfl

end Token
end LifeCourse
