import LifeCourse.Condition.Basic
import LifeCourse.Proofs.Condition.Cut
import LifeCourse.Proofs.Outcome

/-!
# The grammar of conditions

The grammar is stated for token lists, on its own and without the reader:

* a disjunction is a conjunction, or a disjunction, `|` and a conjunction;
* a conjunction is a factor, or a conjunction, `&` and a factor;
* a factor is an atom that writes a comparison, or a disjunction in parentheses.

The left side of a sign is the longer one, so the trees lean to the left.

`parse_exact` says that reading accepts exactly the texts of this grammar, and finds their tree.

## Why completeness is stated with what follows

The reader does not know where a phrase ends.  What it finds in front of further tokens depends on
them: a conjunction goes on over every `&`.  So the induction on a derivation says of a conjunction
not what it is read to, but that the reader comes to the loop over `&` with the tree so far, and
of a disjunction the same for `|` (`IsRead`).  Both loops end where no sign of theirs follows.

## Results without proofs in them

The functions of the reader return the fact that tokens were used up.  `Parsed.plain` forgets it,
and the equations of the reader are stated for what is left (`readAs_disjunction`, `disjuncts_or`,
`readAs_conjunction`, `conjuncts_and`).  Completeness is proved from these equations alone.
-/

namespace LifeCourse

open Token

/-! ## Derivations -/

/-- The three kinds of phrases. -/
inductive Phrase where
  | disjunction
  | conjunction
  | factor
  deriving DecidableEq, Repr

/-- The tokens are a phrase with a tree. -/
inductive Derives : Phrase → List Token → Expr → Prop where
  | single {ts e} (h : Derives .conjunction ts e) : Derives .disjunction ts e
  | or {ls rs l r} (hl : Derives .disjunction ls l) (hr : Derives .conjunction rs r) :
      Derives .disjunction (ls ++ .or :: rs) (.or l r)
  | bare {ts e} (h : Derives .factor ts e) : Derives .conjunction ts e
  | and {ls rs l r} (hl : Derives .conjunction ls l) (hr : Derives .factor rs r) :
      Derives .conjunction (ls ++ .and :: rs) (.and l r)
  | atom {a e} (h : Expr.ofAtom a = .ok e) : Derives .factor [.atom a] e
  | group {ts e} (h : Derives .disjunction ts e) :
      Derives .factor (.opening :: (ts ++ [.closing])) e

/-- The text without its blanks, cut into tokens, is a phrase with a tree. -/
def IsWritten (phrase : Phrase) (s : String) (e : Expr) : Prop :=
  ∃ tokens, IsCut tokens (Text.squeeze s.toList) ∧ Derives phrase tokens e

theorem isWritten_iff {phrase : Phrase} {s : String} {e : Expr} :
    IsWritten phrase s e ↔ Derives phrase (ofText s.toList) e := by
  constructor
  · rintro ⟨tokens, hcut, h⟩
    rw [isCut_iff.mp hcut] at h
    exact h
  · exact fun h => ⟨_, isCut_cut _, h⟩

/-- No phrase is without tokens. -/
theorem Derives.ne_nil {phrase : Phrase} {tokens : List Token} {e : Expr}
    (h : Derives phrase tokens e) : tokens ≠ [] := by
  induction h with
  | single _ ih => exact ih
  | or | and => exact List.append_ne_nil_of_right_ne_nil _ (List.cons_ne_nil _ _)
  | bare _ ih => exact ih
  | atom | group => exact List.cons_ne_nil _ _

/-! ## Parentheses -/

/-- A token that is no parenthesis does not count. -/
theorem balanced_cons {t : Token} (hopening : t ≠ .opening) (hclosing : t ≠ .closing)
    (depth : Nat) (rest : List Token) : balanced depth (t :: rest) = balanced depth rest := by
  cases t with
  | opening => exact absurd rfl hopening
  | closing => exact absurd rfl hclosing
  | _ => cases depth <;> rfl

/-- The parentheses of a phrase match, whatever stands around it. -/
theorem balanced_append {phrase : Phrase} {ts : List Token} {e : Expr} (h : Derives phrase ts e)
    (depth : Nat) (rest : List Token) : balanced depth (ts ++ rest) = balanced depth rest := by
  induction h generalizing depth rest with
  | single _ ih => exact ih depth rest
  | or _ _ ihl ihr =>
    rw [List.append_assoc, ihl, List.cons_append, balanced_cons (by decide) (by decide), ihr]
  | bare _ ih => exact ih depth rest
  | and _ _ ihl ihr =>
    rw [List.append_assoc, ihl, List.cons_append, balanced_cons (by decide) (by decide), ihr]
  | atom _ =>
    rw [List.singleton_append, balanced_cons (fun h => by cases h) (fun h => by cases h)]
  | group _ ih =>
    rw [List.cons_append, balanced, List.append_assoc, ih, List.singleton_append, balanced]

/-! ## The equations of the reader -/

namespace Expr

/-- What was read and what is left. -/
def Parsed.plain {bound : Nat} (parsed : Parsed bound) : Expr × List Token :=
  (parsed.expr, parsed.rest)

/-- What is read as a phrase at the front of the tokens. -/
def readAs : Phrase → List Token → Except ConditionError (Expr × List Token)
  | .disjunction, tokens => (disjunction tokens).map Parsed.plain
  | .conjunction, tokens => (conjunction tokens).map Parsed.plain
  | .factor, tokens => (factor tokens).map Parsed.plain

theorem readAs_disjunction (tokens : List Token) :
    readAs .disjunction tokens = (readAs .conjunction tokens).bind fun found =>
      (disjuncts found.1 found.2).map Parsed.plain := by
  rw [readAs, readAs, disjunction]
  rcases conjunction tokens with e | ⟨left, rest, h⟩
  · rfl
  · simp only [Except.map, Except.bind, Parsed.plain]
    rcases disjuncts left rest with e | ⟨expr, rest', h'⟩ <;> rfl

theorem disjuncts_or (left : Expr) (tokens : List Token) :
    (disjuncts left (.or :: tokens)).map Parsed.plain =
      (readAs .conjunction tokens).bind fun found =>
        (disjuncts (.or left found.1) found.2).map Parsed.plain := by
  rw [readAs, disjuncts]
  rcases conjunction tokens with e | ⟨right, rest, h⟩
  · rfl
  · simp only [Except.map, Except.bind, Parsed.plain]
    rcases disjuncts (.or left right) rest with e | ⟨expr, rest', h'⟩ <;> rfl

/-- The loop over `|` ends where none follows. -/
theorem disjuncts_of_head?_ne {left : Expr} {tokens : List Token}
    (h : tokens.head? ≠ some .or) :
    (disjuncts left tokens).map Parsed.plain = .ok (left, tokens) := by
  rw [disjuncts.eq_def]
  split
  · exact absurd rfl h
  · rfl

theorem readAs_conjunction (tokens : List Token) :
    readAs .conjunction tokens = (readAs .factor tokens).bind fun found =>
      (conjuncts found.1 found.2).map Parsed.plain := by
  rw [readAs, readAs, conjunction]
  rcases factor tokens with e | ⟨left, rest, h⟩
  · rfl
  · simp only [Except.map, Except.bind, Parsed.plain]
    rcases conjuncts left rest with e | ⟨expr, rest', h'⟩ <;> rfl

theorem conjuncts_and (left : Expr) (tokens : List Token) :
    (conjuncts left (.and :: tokens)).map Parsed.plain =
      (readAs .factor tokens).bind fun found =>
        (conjuncts (.and left found.1) found.2).map Parsed.plain := by
  rw [readAs, conjuncts]
  rcases factor tokens with e | ⟨right, rest, h⟩
  · rfl
  · simp only [Except.map, Except.bind, Parsed.plain]
    rcases conjuncts (.and left right) rest with e | ⟨expr, rest', h'⟩ <;> rfl

/-- The loop over `&` ends where none follows. -/
theorem conjuncts_of_head?_ne {left : Expr} {tokens : List Token}
    (h : tokens.head? ≠ some .and) :
    (conjuncts left tokens).map Parsed.plain = .ok (left, tokens) := by
  rw [conjuncts.eq_def]
  split
  · exact absurd rfl h
  · rfl

theorem readAs_factor_atom {a : List Char} {e : Expr} (h : ofAtom a = .ok e)
    (rest : List Token) : readAs .factor (.atom a :: rest) = .ok (e, rest) := by
  rw [readAs, factor, h]
  rfl

theorem readAs_factor_opening {tokens rest : List Token} {e : Expr}
    (h : readAs .disjunction tokens = .ok (e, .closing :: rest)) :
    readAs .factor (.opening :: tokens) = .ok (e, rest) := by
  rw [readAs] at h
  rw [readAs, factor]
  rcases hd : disjunction tokens with error | ⟨expr, rest', hr⟩
  · rw [hd] at h
    cases h
  · rw [hd] at h
    obtain ⟨rfl, rfl⟩ := Prod.mk.inj (Except.ok.inj h)
    rfl

/-! ## Soundness

The reader is sound on up to `n` tokens at once for factors, conjunctions and disjunctions: a group
has a token less than its factor, and all else follows from the factors of the same length. -/

/-- Of up to `n` tokens, what is read is a phrase at their front. -/
def SoundUpTo (n : Nat) (phrase : Phrase) : Prop :=
  ∀ tokens e rest, tokens.length ≤ n → readAs phrase tokens = .ok (e, rest) →
    ∃ ts, tokens = ts ++ rest ∧ Derives phrase ts e

theorem soundUpTo_factor {n : Nat} (h : SoundUpTo n .disjunction) :
    SoundUpTo (n + 1) .factor := by
  intro tokens e rest hn hread
  rw [readAs, factor.eq_def] at hread
  split at hread
  · rename_i a more
    rcases ha : ofAtom a with error | e'
    · simp only [ha] at hread
      cases hread
    · simp only [ha] at hread
      cases hread
      exact ⟨[.atom a], rfl, .atom ha⟩
  · rename_i more
    rcases hd : disjunction more with error | ⟨e', _ | ⟨t, rest'⟩, hrest⟩
    · simp only [hd] at hread
      cases hread
    · simp only [hd] at hread
      cases hread
    · have hmore : more.length ≤ n := by
        rw [List.length_cons] at hn
        omega
      obtain ⟨ts, hts, he⟩ := h more e' (t :: rest') hmore (by rw [readAs, hd]; rfl)
      cases t with
      | closing =>
        simp only [hd] at hread
        cases hread
        exact ⟨.opening :: (ts ++ [.closing]), by simp [hts], .group he⟩
      | _ =>
        simp only [hd] at hread
        cases hread
  · cases hread
  · cases hread

/-- The loop over `&` extends the conjunction so far. -/
theorem derives_of_conjuncts {n : Nat} (h : SoundUpTo n .factor) {ls : List Token}
    {left e : Expr} {tokens rest : List Token} (hn : tokens.length ≤ n)
    (hleft : Derives .conjunction ls left)
    (hread : (conjuncts left tokens).map Parsed.plain = .ok (e, rest)) :
    ∃ ts, tokens = ts ++ rest ∧ Derives .conjunction (ls ++ ts) e := by
  by_cases hhead : tokens.head? = some .and
  · obtain ⟨tokens, rfl⟩ := List.head?_eq_some_iff.mp hhead
    rw [conjuncts_and] at hread
    obtain ⟨⟨right, more⟩, hright, hmore⟩ := Outcome.bind_eq_ok_iff.mp hread
    rw [List.length_cons] at hn
    obtain ⟨us, rfl, hus⟩ := h tokens right more (by omega) hright
    have hmore' : more.length ≤ n := by
      rw [List.length_append] at hn
      omega
    obtain ⟨vs, rfl, hvs⟩ := derives_of_conjuncts h hmore' (.and hleft hus) hmore
    refine ⟨.and :: (us ++ vs), by simp, ?_⟩
    rw [List.append_assoc, List.cons_append] at hvs
    exact hvs
  · rw [conjuncts_of_head?_ne hhead] at hread
    cases hread
    exact ⟨[], rfl, by rwa [List.append_nil]⟩
termination_by tokens.length
decreasing_by subst_vars; simp only [List.length_cons, List.length_append]; omega

theorem soundUpTo_conjunction {n : Nat} (h : SoundUpTo n .factor) :
    SoundUpTo n .conjunction := by
  intro tokens e rest hn hread
  rw [readAs_conjunction] at hread
  obtain ⟨⟨left, more⟩, hleft, hmore⟩ := Outcome.bind_eq_ok_iff.mp hread
  obtain ⟨us, rfl, hus⟩ := h tokens left more hn hleft
  have hmore' : more.length ≤ n := by
    rw [List.length_append] at hn
    omega
  obtain ⟨vs, rfl, hvs⟩ := derives_of_conjuncts h hmore' (.bare hus) hmore
  exact ⟨us ++ vs, (List.append_assoc ..).symm, hvs⟩

/-- The loop over `|` extends the disjunction so far. -/
theorem derives_of_disjuncts {n : Nat} (h : SoundUpTo n .conjunction) {ls : List Token}
    {left e : Expr} {tokens rest : List Token} (hn : tokens.length ≤ n)
    (hleft : Derives .disjunction ls left)
    (hread : (disjuncts left tokens).map Parsed.plain = .ok (e, rest)) :
    ∃ ts, tokens = ts ++ rest ∧ Derives .disjunction (ls ++ ts) e := by
  by_cases hhead : tokens.head? = some .or
  · obtain ⟨tokens, rfl⟩ := List.head?_eq_some_iff.mp hhead
    rw [disjuncts_or] at hread
    obtain ⟨⟨right, more⟩, hright, hmore⟩ := Outcome.bind_eq_ok_iff.mp hread
    rw [List.length_cons] at hn
    obtain ⟨us, rfl, hus⟩ := h tokens right more (by omega) hright
    have hmore' : more.length ≤ n := by
      rw [List.length_append] at hn
      omega
    obtain ⟨vs, rfl, hvs⟩ := derives_of_disjuncts h hmore' (.or hleft hus) hmore
    refine ⟨.or :: (us ++ vs), by simp, ?_⟩
    rw [List.append_assoc, List.cons_append] at hvs
    exact hvs
  · rw [disjuncts_of_head?_ne hhead] at hread
    cases hread
    exact ⟨[], rfl, by rwa [List.append_nil]⟩
termination_by tokens.length
decreasing_by subst_vars; simp only [List.length_cons, List.length_append]; omega

theorem soundUpTo_disjunction {n : Nat} (h : SoundUpTo n .conjunction) :
    SoundUpTo n .disjunction := by
  intro tokens e rest hn hread
  rw [readAs_disjunction] at hread
  obtain ⟨⟨left, more⟩, hleft, hmore⟩ := Outcome.bind_eq_ok_iff.mp hread
  obtain ⟨us, rfl, hus⟩ := h tokens left more hn hleft
  have hmore' : more.length ≤ n := by
    rw [List.length_append] at hn
    omega
  obtain ⟨vs, rfl, hvs⟩ := derives_of_disjuncts h hmore' (.single hus) hmore
  exact ⟨us ++ vs, (List.append_assoc ..).symm, hvs⟩

theorem soundUpTo (n : Nat) (phrase : Phrase) : SoundUpTo n phrase := by
  have hfactor : SoundUpTo n .factor := by
    induction n with
    | zero =>
      intro tokens e rest hn hread
      rw [List.length_eq_zero_iff.mp (Nat.le_zero.mp hn), readAs, factor] at hread
      cases hread
    | succ n ih => exact soundUpTo_factor (soundUpTo_disjunction (soundUpTo_conjunction ih))
  cases phrase with
  | factor => exact hfactor
  | conjunction => exact soundUpTo_conjunction hfactor
  | disjunction => exact soundUpTo_disjunction (soundUpTo_conjunction hfactor)

/-- **Soundness.**  What is read as a phrase is one. -/
theorem derives_of_readAs {phrase : Phrase} {tokens rest : List Token} {e : Expr}
    (h : readAs phrase tokens = .ok (e, rest)) :
    ∃ ts, tokens = ts ++ rest ∧ Derives phrase ts e :=
  soundUpTo tokens.length phrase tokens e rest le_rfl h

/-! ## Completeness -/

/-- What the reader does with a phrase in front of further tokens. -/
def IsRead : Phrase → List Token → Expr → Prop
  | .factor, ts, e => ∀ rest, readAs .factor (ts ++ rest) = .ok (e, rest)
  | .conjunction, ts, e => ∀ rest,
    readAs .conjunction (ts ++ rest) = (conjuncts e rest).map Parsed.plain
  | .disjunction, ts, e => ∀ rest, rest.head? ≠ some .and →
    readAs .disjunction (ts ++ rest) = (disjuncts e rest).map Parsed.plain

theorem isRead_of_derives {phrase : Phrase} {ts : List Token} {e : Expr}
    (h : Derives phrase ts e) : IsRead phrase ts e := by
  induction h with
  | single _ ih =>
    intro rest hrest
    rw [readAs_disjunction, ih rest, conjuncts_of_head?_ne hrest]
    rfl
  | @or ls rs l r _ _ ihl ihr =>
    intro rest hrest
    have hor : (.or :: (rs ++ rest) : List Token).head? ≠ some .and := by simp
    rw [List.append_assoc, List.cons_append, ihl _ hor, disjuncts_or, ihr rest,
      conjuncts_of_head?_ne hrest]
    rfl
  | bare _ ih =>
    intro rest
    rw [readAs_conjunction, ih rest]
    rfl
  | @and ls rs l r _ _ ihl ihr =>
    intro rest
    rw [List.append_assoc, List.cons_append, ihl, conjuncts_and, ihr rest]
    rfl
  | atom h => exact fun rest => readAs_factor_atom h rest
  | @group ts e _ ih =>
    intro rest
    rw [List.cons_append, List.append_assoc, List.singleton_append]
    apply readAs_factor_opening
    rw [ih (.closing :: rest) (by simp), disjuncts_of_head?_ne (by simp)]

/-! ## Exactness -/

theorem ofTokens_eq_ok_iff {tokens : List Token} {e : Expr} :
    ofTokens tokens = .ok e ↔ Derives .disjunction tokens e := by
  constructor
  · intro h
    rw [ofTokens] at h
    rcases hd : disjunction tokens with error | ⟨e', _ | ⟨t, rest⟩, hrest⟩
    · simp only [hd] at h
      cases h
    · simp only [hd] at h
      cases h
      have hread : readAs .disjunction tokens = .ok (e, []) := by
        rw [readAs, hd]
        rfl
      obtain ⟨ts, hts, he⟩ := derives_of_readAs hread
      rw [hts, List.append_nil]
      exact he
    · simp only [hd] at h
      cases h
  · intro h
    have hread := isRead_of_derives h [] (by simp)
    rw [List.append_nil, disjuncts_of_head?_ne (by simp)] at hread
    rw [readAs] at hread
    rw [ofTokens]
    rcases hd : disjunction tokens with error | ⟨e', rest, hrest⟩
    · rw [hd] at hread
      cases hread
    · rw [hd] at hread
      obtain ⟨rfl, rfl⟩ := Prod.mk.inj (Except.ok.inj hread)
      rfl

theorem parse_eq_ok_iff {s : String} {e : Expr} :
    parse s = .ok e ↔ IsWritten .disjunction s e := by
  rw [isWritten_iff, parse, read]
  constructor
  · intro h
    split at h
    · exact ofTokens_eq_ok_iff.mp h
    · cases h
  · intro h
    have hbalanced : balanced 0 (ofText s.toList) = true := by
      have happend := balanced_append h 0 []
      rw [List.append_nil] at happend
      rw [happend]
      rfl
    simp only [hbalanced, if_true]
    exact ofTokens_eq_ok_iff.mpr h

/-- A text whose parentheses do not match is reported as that. -/
theorem parse_of_not_balanced {s : String} (h : ¬balanced 0 (ofText s.toList) = true) :
    parse s = .error .unbalanced := by
  rw [parse, read]
  exact if_neg h

end Expr

/-- A condition whose text is read to a tree means the tree. -/
theorem Condition.reading_of_parse {c : Condition} {e : Expr} (h : Expr.parse c.source = .ok e) :
    c.reading = .expr e := by
  rw [c.reading_eq, Reading.ofText, if_neg, h]
  intro htrim
  obtain hderives := isWritten_iff.mp (Expr.parse_eq_ok_iff.mp h)
  rw [Token.ofText, Text.squeeze_eq_nil_of_trim htrim] at hderives
  exact hderives.ne_nil rfl

/-! ## Signs between texts -/

theorem IsWritten.or {s t : String} {a b : Expr} (hs : IsWritten .disjunction s a)
    (ht : IsWritten .conjunction t b) : IsWritten .disjunction (s ++ "|" ++ t) (.or a b) := by
  rw [isWritten_iff] at hs ht ⊢
  have htext : (s ++ "|" ++ t).toList = s.toList ++ '|' :: t.toList := by simp
  rw [htext, ofText_append_separator (t := .or) rfl rfl]
  exact .or hs ht

theorem IsWritten.and {s t : String} {a b : Expr} (hs : IsWritten .conjunction s a)
    (ht : IsWritten .factor t b) : IsWritten .conjunction (s ++ "&" ++ t) (.and a b) := by
  rw [isWritten_iff] at hs ht ⊢
  have htext : (s ++ "&" ++ t).toList = s.toList ++ '&' :: t.toList := by simp
  rw [htext, ofText_append_separator (t := .and) rfl rfl]
  exact .and hs ht

theorem IsWritten.single {s : String} {e : Expr} (h : IsWritten .conjunction s e) :
    IsWritten .disjunction s e :=
  isWritten_iff.mpr (.single (isWritten_iff.mp h))

/-- **Reading is exact.**  A text is read to a tree exactly if the grammar derives the tree from
the text's tokens; the grammar derives no second tree; and wherever `|` and `&` stand side by side,
on either side, it is the `&` that takes its neighbours first. -/
theorem parse_exact :
    (∀ s e, Expr.parse s = .ok e ↔ IsWritten .disjunction s e) ∧
    (∀ s e e', IsWritten .disjunction s e → IsWritten .disjunction s e' → e = e') ∧
    (∀ s t u a b c, IsWritten .disjunction s a → IsWritten .conjunction t b →
      IsWritten .factor u c → Expr.parse (s ++ "|" ++ (t ++ "&" ++ u)) = .ok (.or a (.and b c))) ∧
    (∀ s t u a b c, IsWritten .conjunction s a → IsWritten .factor t b →
      IsWritten .conjunction u c →
      Expr.parse (s ++ "&" ++ t ++ "|" ++ u) = .ok (.or (.and a b) c)) := by
  refine ⟨fun s e => Expr.parse_eq_ok_iff, fun s e e' he he' => ?_, ?_, ?_⟩
  · rw [← Expr.parse_eq_ok_iff] at he he'
    exact Except.ok.inj (he.symm.trans he')
  · intro s t u a b c hs ht hu
    exact Expr.parse_eq_ok_iff.mpr (hs.or (ht.and hu))
  · intro s t u a b c hs ht hu
    exact Expr.parse_eq_ok_iff.mpr ((hs.and ht).single.or hu)

/-- A disjunction whose second part is a conjunction, with blanks and a group. -/
theorem parse_exact_mixed :
    Expr.parse "CHR>5 |(INT>=7)& TLT ? [1,2]" =
      .ok (.or (.compare "CHR" .greater (.whole 5))
        (.and (.compare "INT" .greaterEqual (.whole 7))
          (.compare "TLT" .includesAny (.list [1, 2])))) := by
  have hs : ofText "CHR>5 ".toList = [.atom ['C', 'H', 'R', '>', '5']] := by decide +kernel
  have ht : ofText "(INT>=7)".toList =
      [.opening, .atom ['I', 'N', 'T', '>', '=', '7'], .closing] := by decide +kernel
  have hu : ofText " TLT ? [1,2]".toList =
      [.atom ['T', 'L', 'T', '?', '[', '1', ',', '2', ']']] := by decide +kernel
  refine parse_exact.2.2.1 "CHR>5 " "(INT>=7)" " TLT ? [1,2]" _ _ _ ?_ ?_ ?_
  · rw [isWritten_iff, hs]
    exact .single (.bare (.atom rfl))
  · rw [isWritten_iff, ht]
    have hgroup : Derives .disjunction [.atom ['I', 'N', 'T', '>', '=', '7']]
        (.compare "INT" .greaterEqual (.whole 7)) := .single (.bare (.atom rfl))
    exact .bare (.group hgroup)
  · rw [isWritten_iff, hu]
    exact .atom rfl

end LifeCourse
