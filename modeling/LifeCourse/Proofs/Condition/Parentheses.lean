import LifeCourse.Proofs.Condition.Grammar
import Mathlib.Data.List.Infix

/-!
# When a text is reported for its parentheses

A text whose parentheses do not match is reported for them before anything is read.  The reader
reports parentheses as well, namely where a group is not closed after the condition in it.  If the
parentheses match then no group stays open at the end of the text, so what the reader finds there
instead of the closing one is another atom or group: in `(AGE>1(AGE>2))` every parenthesis has its
partner, and what is missing is a sign.  Outside of a group the same text is reported for the token
that was not expected.

* `Text.Matched` is what it means that parentheses match; `balanced_ofText_iff` says that the count
  over tokens finds that out.
* `RunsOn` is what it means that a condition is followed by an atom or a group at a place where
  `depth` groups are open.
* `parse_eq_unbalanced_iff` says that these two are what is reported as parentheses.

## The place where the reader stops

That the front part of a text is a condition up to `depth` groups that are still open means that it
becomes a condition if they are closed.  So no notion of an unfinished condition is needed, and the
place is found by the derivation of the finished one: the closing parentheses at its end stand in
its last factor, in the last factor of that, and so on (`readAs_of_derives_closed`).  In the other
direction the derivation is put together from what had been read when the reader stopped, like that
of a text that is read to its end (`stopsUpTo`).
-/

namespace LifeCourse

open Token

/-! ## Parentheses that match -/

namespace Text

/-- The parentheses of a text match: no front part closes more of them than it opens, and the whole
closes as many as it opens. -/
structure Matched (s : List Char) : Prop where
  front : ∀ p, p <+: s → p.count ')' ≤ p.count '('
  whole : s.count ')' = s.count '('

/-- The parentheses of a text match behind a text that has left some of them open. -/
def MatchedFrom (depth : Nat) (s : List Char) : Prop :=
  (∀ p, p <+: s → p.count ')' ≤ depth + p.count '(') ∧ s.count ')' = depth + s.count '('

theorem matched_iff {s : List Char} : Matched s ↔ MatchedFrom 0 s := by
  simp only [MatchedFrom, Nat.zero_add]
  exact ⟨fun h => ⟨h.front, h.whole⟩, fun h => ⟨h.1, h.2⟩⟩

theorem forall_prefix_cons {P : List Char → Prop} {c : Char} {s : List Char} :
    (∀ p, p <+: c :: s → P p) ↔ P [] ∧ ∀ p, p <+: s → P (c :: p) := by
  constructor
  · exact fun h =>
      ⟨h [] List.nil_prefix, fun p hp => h (c :: p) (List.cons_prefix_cons.mpr ⟨rfl, hp⟩)⟩
  · rintro ⟨hnil, hcons⟩ p hp
    rcases List.prefix_cons_iff.mp hp with rfl | ⟨rest, rfl, hrest⟩
    · exact hnil
    · exact hcons rest hrest

theorem matchedFrom_nil {depth : Nat} : MatchedFrom depth [] ↔ depth = 0 := by
  simp [MatchedFrom, eq_comm]

theorem matchedFrom_opening {depth : Nat} {s : List Char} :
    MatchedFrom depth ('(' :: s) ↔ MatchedFrom (depth + 1) s := by
  have hclosing : ∀ p : List Char, ('(' :: p).count ')' = p.count ')' := fun p =>
    List.count_cons_of_ne (by decide)
  have hopening : ∀ p : List Char, depth + ('(' :: p).count '(' = depth + 1 + p.count '(' := by
    intro p
    rw [List.count_cons_self]
    omega
  rw [MatchedFrom, MatchedFrom, forall_prefix_cons]
  simp only [hclosing, hopening, List.count_nil, Nat.zero_le, true_and]

theorem not_matchedFrom_zero_closing {s : List Char} : ¬MatchedFrom 0 (')' :: s) := by
  rintro ⟨hfront, -⟩
  have hone := hfront [')'] (List.cons_prefix_cons.mpr ⟨rfl, List.nil_prefix⟩)
  exact absurd hone (by decide)

theorem matchedFrom_succ_closing {depth : Nat} {s : List Char} :
    MatchedFrom (depth + 1) (')' :: s) ↔ MatchedFrom depth s := by
  have hclosing : ∀ p : List Char, (')' :: p).count ')' = p.count ')' + 1 := fun p =>
    List.count_cons_self
  have hopening : ∀ p : List Char,
      depth + 1 + (')' :: p).count '(' = depth + p.count '(' + 1 := by
    intro p
    rw [List.count_cons_of_ne (by decide)]
    omega
  rw [MatchedFrom, MatchedFrom, forall_prefix_cons]
  simp only [hclosing, hopening, List.count_nil, Nat.zero_le, true_and, Nat.add_le_add_iff_right,
    Nat.add_right_cancel_iff]

theorem matchedFrom_cons {c : Char} (hopening : c ≠ '(') (hclosing : c ≠ ')') {depth : Nat}
    {s : List Char} : MatchedFrom depth (c :: s) ↔ MatchedFrom depth s := by
  have hcount : ∀ p : List Char,
      (c :: p).count '(' = p.count '(' ∧ (c :: p).count ')' = p.count ')' := fun p =>
    ⟨List.count_cons_of_ne hopening, List.count_cons_of_ne hclosing⟩
  rw [MatchedFrom, MatchedFrom, forall_prefix_cons]
  simp only [hcount, List.count_nil, Nat.zero_le, true_and]

end Text

namespace Token

/-- A character that is no parenthesis does not count. -/
theorem balanced_ofText_cons {c : Char} (hopening : c ≠ '(') (hclosing : c ≠ ')') (depth : Nat)
    (s : List Char) : balanced depth (ofText (c :: s)) = balanced depth (ofText s) := by
  by_cases hblank : Text.isBlank c = true
  · have hsqueeze : Text.squeeze (c :: s) = Text.squeeze s :=
      List.filter_cons_of_neg (by simp [hblank])
    rw [ofText, hsqueeze, ofText]
  · have hsqueeze : Text.squeeze (c :: s) = c :: Text.squeeze s :=
      List.filter_cons_of_pos (by simp [hblank])
    rw [ofText, hsqueeze, ofText]
    cases hc : separator? c with
    | some t =>
      have htext := text_of_separator? hc
      rw [cut_cons_of_separator hc]
      refine balanced_cons ?_ ?_ depth _
      · rintro rfl
        exact hopening (List.singleton_inj.mp htext).symm
      · rintro rfl
        exact hclosing (List.singleton_inj.mp htext).symm
    | none =>
      have hatom : ∀ a rest, balanced depth (atom a :: rest) = balanced depth rest := fun a rest =>
        balanced_cons (fun h => by cases h) (fun h => by cases h) depth rest
      by_cases hnext : ∀ t ∈ (cut (Text.squeeze s)).head?, ¬IsAtom t
      · rw [cut_cons_of_not_atom hc hnext, hatom]
      · rcases hs : cut (Text.squeeze s) with _ | ⟨t, more⟩
        · simp [hs] at hnext
        · cases t with
          | atom a => rw [cut_cons_of_atom hc hs, hatom, hatom]
          | _ => exact absurd (by simp [hs, IsAtom]) hnext

/-- **The count over the tokens of a text says whether its parentheses match.** -/
theorem balanced_ofText_iff_matchedFrom {depth : Nat} {s : List Char} :
    balanced depth (ofText s) = true ↔ Text.MatchedFrom depth s := by
  induction s generalizing depth with
  | nil =>
    rw [Text.matchedFrom_nil]
    exact beq_iff_eq
  | cons c s ih =>
    by_cases hopening : c = '('
    · obtain rfl := hopening
      have htokens : ofText ('(' :: s) = .opening :: ofText s :=
        ofText_append_separator (c := '(') rfl rfl [] s
      rw [htokens, balanced, ih, Text.matchedFrom_opening]
    by_cases hclosing : c = ')'
    · obtain rfl := hclosing
      have htokens : ofText (')' :: s) = .closing :: ofText s :=
        ofText_append_separator (c := ')') rfl rfl [] s
      cases depth with
      | zero =>
        rw [htokens, balanced]
        exact iff_of_false Bool.false_ne_true Text.not_matchedFrom_zero_closing
      | succ depth => rw [htokens, balanced, ih, Text.matchedFrom_succ_closing]
    rw [balanced_ofText_cons hopening hclosing, ih, Text.matchedFrom_cons hopening hclosing]

theorem balanced_ofText_iff {s : List Char} :
    balanced 0 (ofText s) = true ↔ Text.Matched s := by
  rw [balanced_ofText_iff_matchedFrom, Text.matched_iff]

end Token

instance : DecidablePred Text.Matched := fun _ => decidable_of_iff _ balanced_ofText_iff

/-! ## Where a condition runs on -/

/-- A token with which a factor begins. -/
def Token.Begins : Token → Prop
  | atom _ | opening => True
  | _ => False

/-- Behind a condition, and where `depth` groups are open, stands a token that begins a factor.
What stands in front of it becomes a condition if these groups are closed. -/
def RunsOn (tokens : List Token) (depth : Nat) (t : Token) : Prop :=
  t.Begins ∧ ∃ ts rest e, tokens = ts ++ t :: rest ∧
    Derives .disjunction (ts ++ List.replicate depth .closing) e

/-- The tokens neither go on with a condition nor close the group that it stands in. -/
def Stuck (tokens : List Token) : Prop :=
  ∀ t ∈ tokens.head?, t.Begins

theorem Stuck.head?_ne {tokens : List Token} (h : Stuck tokens) {t : Token} (ht : ¬t.Begins) :
    tokens.head? ≠ some t :=
  fun hhead => ht (h t hhead)

theorem stuck_of_head?_ne {tokens : List Token} (hand : tokens.head? ≠ some .and)
    (hor : tokens.head? ≠ some .or) (hclosing : tokens.head? ≠ some .closing) : Stuck tokens := by
  intro t ht
  cases t with
  | atom | opening => exact trivial
  | and => exact absurd ht hand
  | or => exact absurd ht hor
  | closing => exact absurd ht hclosing

/-- At their front the tokens are a phrase with groups that are still open, and there they are
stuck. -/
def StopsInside (phrase : Phrase) (tokens : List Token) : Prop :=
  ∃ ts rest depth e, tokens = ts ++ rest ∧ Stuck rest ∧
    Derives phrase (ts ++ List.replicate (depth + 1) .closing) e

namespace Expr

/-! ## The reader stops where a condition runs on -/

theorem readAs_factor_group (tokens : List Token) :
    readAs .factor (.opening :: tokens) = (readAs .disjunction tokens).bind fun found =>
      match found.2 with
      | .closing :: rest => .ok (found.1, rest)
      | _ => .error .unbalanced := by
  rw [readAs, readAs, factor]
  rcases disjunction tokens with e | ⟨expr, _ | ⟨t, rest⟩, h⟩
  · rfl
  · rfl
  · cases t <;> rfl

/-- Closing parentheses at the end of two parts that a sign joins are at the end of the second. -/
theorem exists_eq_append_of_sign {ls rs ts : List Token} {sign : Token} (hsign : sign ≠ .closing)
    {depth : Nat} (h : ls ++ sign :: rs = ts ++ List.replicate depth .closing) :
    ∃ rs', ts = ls ++ sign :: rs' ∧ rs = rs' ++ List.replicate depth .closing := by
  rcases List.append_eq_append_iff.mp h with ⟨more, hts, hmore⟩ | ⟨more, -, hmore⟩
  · cases more with
    | nil =>
      have hmem : sign ∈ List.replicate depth Token.closing := by
        rw [← List.nil_append (List.replicate depth Token.closing), ← hmore]
        exact List.mem_cons_self
      exact absurd (List.eq_of_mem_replicate hmem) hsign
    | cons t rs' =>
      obtain ⟨rfl, hrs⟩ := List.cons.inj hmore
      exact ⟨rs', hts, hrs⟩
  · have hmem : sign ∈ List.replicate depth Token.closing := by
      rw [hmore]
      exact List.mem_append_right _ List.mem_cons_self
    exact absurd (List.eq_of_mem_replicate hmem) hsign

/-- A phrase that needs its last groups closed is read up to where they would have to be, and there
nothing else will do. -/
theorem readAs_of_derives_closed {phrase : Phrase} {us : List Token} {e : Expr}
    (h : Derives phrase us e) {ts rest : List Token} {depth : Nat}
    (hus : us = ts ++ List.replicate (depth + 1) .closing) (hrest : Stuck rest) :
    readAs phrase (ts ++ rest) = .error .unbalanced := by
  induction h generalizing ts depth with
  | single _ ih =>
    rw [readAs_disjunction, ih hus]
    rfl
  | or hl _ _ ihr =>
    obtain ⟨rs', rfl, hrs⟩ := exists_eq_append_of_sign (by decide) hus
    have hread := isRead_of_derives hl (.or :: (rs' ++ rest)) (by simp)
    rw [List.append_assoc, List.cons_append, hread, disjuncts_or, ihr hrs]
    rfl
  | bare _ ih =>
    rw [readAs_conjunction, ih hus]
    rfl
  | and hl _ _ ihr =>
    obtain ⟨rs', rfl, hrs⟩ := exists_eq_append_of_sign (by decide) hus
    have hread := isRead_of_derives hl (.and :: (rs' ++ rest))
    rw [List.append_assoc, List.cons_append, hread, conjuncts_and, ihr hrs]
    rfl
  | @atom a _ _ =>
    have hlast := congrArg List.getLast? hus
    rw [List.replicate_succ', ← List.append_assoc, List.getLast?_concat] at hlast
    cases hlast
  | @group us e h ih =>
    rw [List.replicate_succ', ← List.append_assoc, ← List.cons_append] at hus
    obtain ⟨hopen, -⟩ := List.append_inj' hus rfl
    cases ts with
    | nil =>
      have hmem : Token.opening ∈ List.replicate depth Token.closing := by
        rw [← List.nil_append (List.replicate depth Token.closing), ← hopen]
        exact List.mem_cons_self
      cases List.eq_of_mem_replicate hmem
    | cons t ts =>
      obtain ⟨rfl, hinner⟩ := List.cons.inj hopen
      rw [List.cons_append, readAs_factor_group]
      cases depth with
      | zero =>
        have hts : us = ts := hinner.trans (List.append_nil ts)
        rw [← hts]
        have hread := isRead_of_derives h rest (hrest.head?_ne id)
        rw [hread, disjuncts_of_head?_ne (hrest.head?_ne id)]
        cases rest with
        | nil => rfl
        | cons t rest =>
          cases t with
          | closing => exact absurd rfl (hrest.head?_ne id)
          | _ => rfl
      | succ depth =>
        rw [ih hinner]
        rfl

/-! ## Nowhere else the reader reports parentheses -/

theorem length_lt_of_readAs {phrase : Phrase} {tokens rest : List Token} {e : Expr}
    (h : readAs phrase tokens = .ok (e, rest)) : rest.length < tokens.length := by
  have hshorter : ∀ parsed : Except ConditionError (Parsed tokens.length),
      parsed.map Parsed.plain = .ok (e, rest) → rest.length < tokens.length := by
    rintro (error | parsed) hparsed
    · cases hparsed
    · cases hparsed
      exact parsed.shorter
  cases phrase with
  | disjunction => exact hshorter _ h
  | conjunction => exact hshorter _ h
  | factor => exact hshorter _ h

/-- The loop over `&` leaves none. -/
theorem head?_ne_of_conjuncts {left e : Expr} {tokens rest : List Token}
    (h : (conjuncts left tokens).map Parsed.plain = .ok (e, rest)) : rest.head? ≠ some .and := by
  by_cases hhead : tokens.head? = some .and
  · obtain ⟨tokens, rfl⟩ := List.head?_eq_some_iff.mp hhead
    rw [conjuncts_and] at h
    obtain ⟨⟨right, more⟩, hright, hmore⟩ := Outcome.bind_eq_ok_iff.mp h
    have hlength : more.length < tokens.length := length_lt_of_readAs hright
    exact head?_ne_of_conjuncts hmore
  · rw [conjuncts_of_head?_ne hhead] at h
    cases h
    exact hhead
termination_by tokens.length
decreasing_by subst_vars; simp only [List.length_cons]; omega

theorem head?_ne_of_conjunction {e : Expr} {tokens rest : List Token}
    (h : readAs .conjunction tokens = .ok (e, rest)) : rest.head? ≠ some .and := by
  rw [readAs_conjunction] at h
  obtain ⟨_, -, h⟩ := Outcome.bind_eq_ok_iff.mp h
  exact head?_ne_of_conjuncts h

/-- The loop over `|` leaves none, and no `&` either. -/
theorem head?_ne_of_disjuncts {left e : Expr} {tokens rest : List Token}
    (hand : tokens.head? ≠ some .and)
    (h : (disjuncts left tokens).map Parsed.plain = .ok (e, rest)) :
    rest.head? ≠ some .and ∧ rest.head? ≠ some .or := by
  by_cases hhead : tokens.head? = some .or
  · obtain ⟨tokens, rfl⟩ := List.head?_eq_some_iff.mp hhead
    rw [disjuncts_or] at h
    obtain ⟨⟨right, more⟩, hright, hmore⟩ := Outcome.bind_eq_ok_iff.mp h
    have hlength : more.length < tokens.length := length_lt_of_readAs hright
    exact head?_ne_of_disjuncts (head?_ne_of_conjunction hright) hmore
  · rw [disjuncts_of_head?_ne hhead] at h
    cases h
    exact ⟨hand, hhead⟩
termination_by tokens.length
decreasing_by subst_vars; simp only [List.length_cons]; omega

/-- Behind a condition that is as long as it can be, and not closed, the reader is stuck. -/
theorem stuck_of_readAs {e : Expr} {tokens rest : List Token}
    (h : readAs .disjunction tokens = .ok (e, rest)) (hrest : rest.head? ≠ some .closing) :
    Stuck rest := by
  rw [readAs_disjunction] at h
  obtain ⟨_, hfound, h⟩ := Outcome.bind_eq_ok_iff.mp h
  obtain ⟨hand, hor⟩ := head?_ne_of_disjuncts (head?_ne_of_conjunction hfound) h
  exact stuck_of_head?_ne hand hor hrest

theorem ofAtom_ne_unbalanced (a : List Char) : ofAtom a ≠ .error .unbalanced := by
  intro h
  rw [ofAtom] at h
  split at h
  · cases h
  · split at h
    · cases h
    · split at h
      split at h <;> cases h

/-- Of up to `n` tokens, a phrase whose reading is reported for its parentheses stops inside a
group. -/
def StopsUpTo (n : Nat) (phrase : Phrase) : Prop :=
  ∀ tokens, tokens.length ≤ n → readAs phrase tokens = .error .unbalanced →
    StopsInside phrase tokens

theorem stopsUpTo_factor {n : Nat} (h : StopsUpTo n .disjunction) : StopsUpTo (n + 1) .factor := by
  intro tokens hn hread
  cases tokens with
  | nil =>
    rw [readAs, factor] at hread
    cases hread
  | cons t tokens =>
    cases t with
    | atom a =>
      rw [readAs, factor] at hread
      rcases ha : ofAtom a with error | e
      · simp only [ha] at hread
        cases hread
        exact absurd ha (ofAtom_ne_unbalanced a)
      · simp only [ha] at hread
        cases hread
    | opening =>
      rw [List.length_cons] at hn
      rw [readAs_factor_group] at hread
      rcases Outcome.bind_eq_error_iff.mp hread with hread | ⟨⟨e, rest⟩, hread, hclosing⟩
      · obtain ⟨ts, rest, depth, e, rfl, hstuck, he⟩ := h tokens (by omega) hread
        refine ⟨.opening :: ts, rest, depth + 1, e, rfl, hstuck, ?_⟩
        rw [List.replicate_succ', ← List.append_assoc, List.cons_append]
        exact .group he
      · obtain ⟨ts, rfl, he⟩ := derives_of_readAs hread
        have hhead : rest.head? ≠ some .closing := by
          intro hhead
          obtain ⟨rest, rfl⟩ := List.head?_eq_some_iff.mp hhead
          cases hclosing
        exact ⟨.opening :: ts, rest, 0, e, rfl, stuck_of_readAs hread hhead, .group he⟩
    | and | or | closing =>
      rw [readAs, factor.eq_def] at hread
      cases hread

/-- The loop over `&` stops inside a factor. -/
theorem stopsInside_of_conjuncts {n : Nat} (h : StopsUpTo n .factor) {ls : List Token}
    {left : Expr} {tokens : List Token} (hn : tokens.length ≤ n)
    (hleft : Derives .conjunction ls left)
    (hread : (conjuncts left tokens).map Parsed.plain = .error .unbalanced) :
    StopsInside .conjunction (ls ++ tokens) := by
  by_cases hhead : tokens.head? = some .and
  · obtain ⟨tokens, rfl⟩ := List.head?_eq_some_iff.mp hhead
    rw [List.length_cons] at hn
    rw [conjuncts_and] at hread
    rcases Outcome.bind_eq_error_iff.mp hread with hread | ⟨⟨right, more⟩, hright, hmore⟩
    · obtain ⟨ts, rest, depth, e, rfl, hstuck, he⟩ := h tokens (by omega) hread
      refine ⟨ls ++ .and :: ts, rest, depth, .and left e, by simp, hstuck, ?_⟩
      rw [List.append_assoc, List.cons_append]
      exact .and hleft he
    · obtain ⟨us, rfl, hus⟩ := derives_of_readAs hright
      have hn' : more.length ≤ n := by
        rw [List.length_append] at hn
        omega
      have hstops := stopsInside_of_conjuncts h hn' (.and hleft hus) hmore
      rw [List.append_assoc, List.cons_append] at hstops
      exact hstops
  · rw [conjuncts_of_head?_ne hhead] at hread
    cases hread
termination_by tokens.length
decreasing_by subst_vars; simp only [List.length_cons, List.length_append]; omega

theorem stopsUpTo_conjunction {n : Nat} (h : StopsUpTo n .factor) : StopsUpTo n .conjunction := by
  intro tokens hn hread
  rw [readAs_conjunction] at hread
  rcases Outcome.bind_eq_error_iff.mp hread with hread | ⟨⟨left, more⟩, hleft, hmore⟩
  · obtain ⟨ts, rest, depth, e, htokens, hstuck, he⟩ := h tokens hn hread
    exact ⟨ts, rest, depth, e, htokens, hstuck, .bare he⟩
  · obtain ⟨us, rfl, hus⟩ := derives_of_readAs hleft
    have hn' : more.length ≤ n := by
      rw [List.length_append] at hn
      omega
    exact stopsInside_of_conjuncts h hn' (.bare hus) hmore

/-- The loop over `|` stops inside a conjunction. -/
theorem stopsInside_of_disjuncts {n : Nat} (h : StopsUpTo n .conjunction) {ls : List Token}
    {left : Expr} {tokens : List Token} (hn : tokens.length ≤ n)
    (hleft : Derives .disjunction ls left)
    (hread : (disjuncts left tokens).map Parsed.plain = .error .unbalanced) :
    StopsInside .disjunction (ls ++ tokens) := by
  by_cases hhead : tokens.head? = some .or
  · obtain ⟨tokens, rfl⟩ := List.head?_eq_some_iff.mp hhead
    rw [List.length_cons] at hn
    rw [disjuncts_or] at hread
    rcases Outcome.bind_eq_error_iff.mp hread with hread | ⟨⟨right, more⟩, hright, hmore⟩
    · obtain ⟨ts, rest, depth, e, rfl, hstuck, he⟩ := h tokens (by omega) hread
      refine ⟨ls ++ .or :: ts, rest, depth, .or left e, by simp, hstuck, ?_⟩
      rw [List.append_assoc, List.cons_append]
      exact .or hleft he
    · obtain ⟨us, rfl, hus⟩ := derives_of_readAs hright
      have hn' : more.length ≤ n := by
        rw [List.length_append] at hn
        omega
      have hstops := stopsInside_of_disjuncts h hn' (.or hleft hus) hmore
      rw [List.append_assoc, List.cons_append] at hstops
      exact hstops
  · rw [disjuncts_of_head?_ne hhead] at hread
    cases hread
termination_by tokens.length
decreasing_by subst_vars; simp only [List.length_cons, List.length_append]; omega

theorem stopsUpTo_disjunction {n : Nat} (h : StopsUpTo n .conjunction) :
    StopsUpTo n .disjunction := by
  intro tokens hn hread
  rw [readAs_disjunction] at hread
  rcases Outcome.bind_eq_error_iff.mp hread with hread | ⟨⟨left, more⟩, hleft, hmore⟩
  · obtain ⟨ts, rest, depth, e, htokens, hstuck, he⟩ := h tokens hn hread
    exact ⟨ts, rest, depth, e, htokens, hstuck, .single he⟩
  · obtain ⟨us, rfl, hus⟩ := derives_of_readAs hleft
    have hn' : more.length ≤ n := by
      rw [List.length_append] at hn
      omega
    exact stopsInside_of_disjuncts h hn' (.single hus) hmore

theorem stopsUpTo (n : Nat) : StopsUpTo n .disjunction := by
  induction n with
  | zero =>
    refine stopsUpTo_disjunction (stopsUpTo_conjunction fun tokens hn hread => ?_)
    rw [List.length_eq_zero_iff.mp (Nat.le_zero.mp hn), readAs, factor] at hread
    cases hread
  | succ n ih => exact stopsUpTo_disjunction (stopsUpTo_conjunction (stopsUpTo_factor ih))

/-- **The reader reports parentheses where a group is not closed behind a condition.** -/
theorem readAs_eq_unbalanced_iff {tokens : List Token} :
    readAs .disjunction tokens = .error .unbalanced ↔ StopsInside .disjunction tokens := by
  constructor
  · exact stopsUpTo tokens.length tokens le_rfl
  · rintro ⟨ts, rest, depth, e, rfl, hstuck, he⟩
    exact readAs_of_derives_closed he rfl hstuck

/-! ## What is reported -/

theorem ofTokens_eq_unbalanced_iff {tokens : List Token} :
    ofTokens tokens = .error .unbalanced ↔ StopsInside .disjunction tokens := by
  rw [← readAs_eq_unbalanced_iff, ofTokens, readAs]
  rcases disjunction tokens with error | ⟨e, _ | ⟨t, rest⟩, h⟩
  · constructor
    · rintro ⟨⟩
      rfl
    · rintro ⟨⟩
      rfl
  · exact iff_of_false (fun h => by cases h) (fun h => by cases h)
  · exact iff_of_false (fun h => by cases h) (fun h => by cases h)

/-- Tokens that match count for nothing in front of others. -/
theorem balanced_append_of_balanced {depth : Nat} {ts : List Token}
    (h : balanced depth ts = true) (more : List Token) :
    balanced depth (ts ++ more) = balanced 0 more := by
  induction ts generalizing depth with
  | nil =>
    obtain rfl : depth = 0 := beq_iff_eq.mp h
    rfl
  | cons t ts ih =>
    cases t with
    | opening => exact ih h
    | closing =>
      cases depth with
      | zero => cases h
      | succ depth => exact ih h
    | atom a =>
      rw [balanced_cons (fun h => by cases h) (fun h => by cases h)] at h
      rw [List.cons_append, balanced_cons (fun h => by cases h) (fun h => by cases h), ih h]
    | and | or =>
      rw [balanced_cons (by decide) (by decide)] at h
      rw [List.cons_append, balanced_cons (by decide) (by decide), ih h]

/-- If all parentheses match then no group is open at the end of the tokens. -/
theorem stopsInside_iff_of_balanced {tokens : List Token} (h : balanced 0 tokens = true) :
    StopsInside .disjunction tokens ↔ ∃ depth t, RunsOn tokens (depth + 1) t := by
  constructor
  · rintro ⟨ts, rest, depth, e, rfl, hstuck, he⟩
    cases rest with
    | nil =>
      rw [List.append_nil] at h
      have hclosed := balanced_append he 0 []
      rw [List.append_nil, balanced_append_of_balanced h] at hclosed
      cases hclosed
    | cons t rest => exact ⟨depth, t, hstuck t rfl, ts, rest, e, rfl, he⟩
  · rintro ⟨depth, t, ht, ts, rest, e, rfl, he⟩
    refine ⟨ts, t :: rest, depth, e, rfl, ?_, he⟩
    rintro _ ⟨⟩
    exact ht

theorem parse_eq_unbalanced_iff {s : String} : parse s = .error .unbalanced ↔
    ¬Text.Matched s.toList ∨ ∃ depth t, RunsOn (ofText s.toList) (depth + 1) t := by
  rw [← balanced_ofText_iff]
  by_cases h : balanced 0 (ofText s.toList) = true
  · rw [← stopsInside_iff_of_balanced h, or_iff_right (not_not.mpr h), ← ofTokens_eq_unbalanced_iff,
      parse, read, if_pos h]
  · exact iff_of_true (parse_of_not_balanced h) (.inl h)

/-- Outside of all groups a condition that runs on is reported for the token that follows it. -/
theorem ofTokens_of_runsOn {tokens : List Token} {t : Token} (h : RunsOn tokens 0 t) :
    ofTokens tokens = .error (.unexpectedToken t) := by
  obtain ⟨ht, ts, rest, e, rfl, he⟩ := h
  have hstuck : Stuck (t :: rest) := by
    rintro _ ⟨⟩
    exact ht
  rw [List.replicate_zero, List.append_nil] at he
  have hread := isRead_of_derives he (t :: rest) (hstuck.head?_ne id)
  rw [disjuncts_of_head?_ne (hstuck.head?_ne id), readAs] at hread
  rw [ofTokens]
  rcases hd : disjunction (ts ++ t :: rest) with error | ⟨e', rest', hrest⟩
  · rw [hd] at hread
    cases hread
  · rw [hd] at hread
    obtain ⟨-, rfl⟩ := Prod.mk.inj (Except.ok.inj hread)
    rfl

/-- **What is reported for its parentheses.**  A text is reported for its parentheses exactly if
they do not match, or if in a group a condition is directly followed by an atom or by another group.
The same outside of all groups, in a text whose parentheses match, is reported for the token that
begins there. -/
theorem unbalanced_exact (s : String) :
    (parse s = .error .unbalanced ↔
      ¬Text.Matched s.toList ∨ ∃ depth t, RunsOn (ofText s.toList) (depth + 1) t) ∧
    ∀ t : Token, Text.Matched s.toList → RunsOn (ofText s.toList) 0 t →
      parse s = .error (.unexpectedToken t) := by
  refine ⟨parse_eq_unbalanced_iff, fun t hmatched hruns => ?_⟩
  rw [parse, read, if_pos (balanced_ofText_iff.mpr hmatched)]
  exact ofTokens_of_runsOn hruns

/-- A comparison of age, followed by a group with another one. -/
theorem runsOn_comparison : RunsOn (ofText "AGE>1(AGE>2)".toList) 0 .opening := by
  have htokens : ofText "AGE>1(AGE>2)".toList =
      [.atom "AGE>1".toList] ++ .opening :: [.atom "AGE>2".toList, .closing] := by decide +kernel
  have hatom : Derives .disjunction [.atom "AGE>1".toList] (.compare "AGE" .greater (.whole 1)) :=
    .single (.bare (.atom rfl))
  exact ⟨trivial, _, _, _, htokens, hatom⟩

/-- The same in a group. -/
theorem runsOn_comparison_inside : RunsOn (ofText "(AGE>1(AGE>2))".toList) 1 .opening := by
  have htokens : ofText "(AGE>1(AGE>2))".toList =
      [.opening, .atom "AGE>1".toList] ++
        .opening :: [.atom "AGE>2".toList, .closing, .closing] := by decide +kernel
  have hatom : Derives .disjunction [.atom "AGE>1".toList] (.compare "AGE" .greater (.whole 1)) :=
    .single (.bare (.atom rfl))
  exact ⟨trivial, _, _, _, htokens, .single (.bare (.group hatom))⟩

/-- Outside of a group it is reported for the parenthesis that the second comparison begins with. -/
theorem unbalanced_exact_outside :
    Text.Matched "AGE>1(AGE>2)".toList ∧ RunsOn (ofText "AGE>1(AGE>2)".toList) 0 .opening ∧
    parse "AGE>1(AGE>2)" = .error (.unexpectedToken .opening) := by
  have hmatched : Text.Matched "AGE>1(AGE>2)".toList := by decide +kernel
  exact ⟨hmatched, runsOn_comparison, (unbalanced_exact _).2 _ hmatched runsOn_comparison⟩

/-- In a group it is reported for parentheses that do not match, although they do. -/
theorem exists_unbalanced_of_matched :
    ¬∀ s : String, parse s = .error .unbalanced ↔ ¬Text.Matched s.toList := by
  intro hexact
  have hmatched : Text.Matched "(AGE>1(AGE>2))".toList := by decide +kernel
  have hreported : parse "(AGE>1(AGE>2))" = .error .unbalanced :=
    parse_eq_unbalanced_iff.mpr (.inr ⟨0, .opening, runsOn_comparison_inside⟩)
  exact (hexact _).mp hreported hmatched

end Expr
end LifeCourse
