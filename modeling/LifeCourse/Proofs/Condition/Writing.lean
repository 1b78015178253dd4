import LifeCourse.Number.Shortest
import LifeCourse.Proofs.Condition.Grammar

/-!
# Writing a condition

An expression is written with the signs of its operators, its numbers in decimal, and parentheses
where the grammar needs them: around a disjunction that is joined by `&`, and around a right side
that is itself joined by the same sign, because phrases lean to the left.  More pairs of parentheses
may stand around any part, and blanks anywhere.  Reading such a text gives the expression back
(`parse_write`).

## Where the argument turns

The grammar has been shown to be what the reader accepts, so it is enough to derive the tree from
the tokens of the written text (`derives_write`), one case for each kind of expression.  A sign and
a parenthesis cut the tokens of a text in two whatever stands around them, so the cases of `&` and
`|` do not look into their parts.  What is left is the text of a single comparison, and there the
three things that could run into each other are looked at: a name ends where its operator begins
(`ofAtom_append`), an operator of one character is not taken for one of two because no constant
begins with `=` (`read_append`), and no number has a comma (`splitCommas_intercalate`).
-/

namespace LifeCourse

open Token

/-! ## Blanks -/

namespace Text

/-- The second text is the first one with blanks put in. -/
inductive Spaced : List Char → List Char → Prop where
  | nil : Spaced [] []
  | keep (c : Char) {s t : List Char} (h : Spaced s t) : Spaced (c :: s) (c :: t)
  | blank {c : Char} (hc : isBlank c = true) {s t : List Char} (h : Spaced s t) : Spaced s (c :: t)

theorem Spaced.squeeze_eq {s t : List Char} (h : Spaced s t) : squeeze s = squeeze t := by
  induction h with
  | nil => rfl
  | keep c _ ih =>
    rw [squeeze, squeeze, List.filter_cons, List.filter_cons]
    rw [squeeze, squeeze] at ih
    rw [ih]
  | @blank c hc s t _ ih =>
    have ht : squeeze (c :: t) = squeeze t := List.filter_cons_of_neg (by simp [hc])
    rw [ht, ih]

theorem spaced_squeeze (t : List Char) : Spaced (squeeze t) t := by
  induction t with
  | nil => exact .nil
  | cons c t ih =>
    by_cases hc : isBlank c = true
    · have ht : squeeze (c :: t) = squeeze t := List.filter_cons_of_neg (by simp [hc])
      rw [ht]
      exact .blank hc ih
    · have ht : squeeze (c :: t) = c :: squeeze t := List.filter_cons_of_pos (by simp [hc])
      rw [ht]
      exact .keep c ih

end Text

/-- Blanks do not count, wherever they are, and neither do they in an error. -/
theorem Expr.parse_eq_of_spaced {s t : String} (h : Text.Spaced s.toList t.toList) :
    Expr.parse s = Expr.parse t := by
  rw [parse, parse, read, read, ofText, ofText, h.squeeze_eq]

/-! ## Constants -/

namespace Operand

/-- The text of a constant. -/
def write : Operand → List Char
  | whole n => Decimal.writeWhole n
  | decimal x => (Shortest.plain x).toList
  | list ids => '[' :: ([','].intercalate (ids.map Decimal.writeWhole) ++ [']'])

/-- The constant is made of whole numbers that fit 32 bits. -/
def IsWhole : Operand → Prop
  | whole n => Range.InRange n
  | decimal _ => False
  | list ids => ∀ id ∈ ids, Range.InRange id

instance : DecidablePred IsWhole
  | whole n => inferInstanceAs (Decidable (Range.InRange n))
  | decimal _ => inferInstanceAs (Decidable False)
  | list ids => List.decidableBAll Range.InRange ids

end Operand

namespace Decimal

theorem writeWhole_ne_nil (n : Int) : writeWhole n ≠ [] := by
  unfold writeWhole
  split
  · exact List.cons_ne_nil _ _
  · exact Nat.toDigits_ne_nil

theorem mem_writeWhole {n : Int} {c : Char} (h : c ∈ writeWhole n) :
    c = '-' ∨ c.isDigit = true := by
  unfold writeWhole at h
  split at h
  · rcases List.mem_cons.mp h with rfl | h
    · exact .inl rfl
    · exact .inr (Nat.isDigit_of_mem_toDigits (by decide) (by decide) h)
  · exact .inr (Nat.isDigit_of_mem_toDigits (by decide) (by decide) h)

theorem not_mem_writeWhole {c : Char} (hminus : c ≠ '-') (hdigit : ¬c.isDigit = true) (n : Int) :
    c ∉ writeWhole n := by
  intro hc
  rcases mem_writeWhole hc with h | h
  · exact hminus h
  · exact hdigit h

end Decimal

namespace Operand

theorem splitCommas_of_not_mem {part : List Char} (h : ',' ∉ part) : splitCommas part = [part] := by
  induction part with
  | nil => rfl
  | cons c part ih =>
    obtain ⟨hc, hpart⟩ := not_or.mp (mt List.mem_cons.mpr h)
    rw [splitCommas, if_neg (Ne.symm hc), ih hpart]

theorem splitCommas_append {part : List Char} (h : ',' ∉ part) (rest : List Char) :
    splitCommas (part ++ ',' :: rest) = part :: splitCommas rest := by
  induction part with
  | nil => rw [List.nil_append, splitCommas, if_pos rfl]
  | cons c part ih =>
    obtain ⟨hc, hpart⟩ := not_or.mp (mt List.mem_cons.mpr h)
    rw [List.cons_append, splitCommas, if_neg (Ne.symm hc), ih hpart]

/-- Parts without commas are found again between the commas. -/
theorem splitCommas_intercalate {parts : List (List Char)} (hne : parts ≠ [])
    (h : ∀ part ∈ parts, ',' ∉ part) : splitCommas ([','].intercalate parts) = parts := by
  induction parts with
  | nil => exact absurd rfl hne
  | cons part parts ih =>
    obtain ⟨hpart, hparts⟩ := List.forall_mem_cons.mp h
    cases parts with
    | nil => rw [List.intercalate_singleton, splitCommas_of_not_mem hpart]
    | cons part' parts =>
      have hrest := ih (List.cons_ne_nil _ _) hparts
      rw [List.intercalate_cons_cons, List.append_assoc, List.singleton_append,
        splitCommas_append hpart, hrest]

theorem mapM_readWhole {ids : List Int} (h : ∀ id ∈ ids, Range.InRange id) :
    (ids.map Decimal.writeWhole).mapM Decimal.readWhole = some ids := by
  induction ids with
  | nil => rfl
  | cons id ids ih =>
    obtain ⟨hid, hids⟩ := List.forall_mem_cons.mp h
    rw [List.map_cons, List.mapM_cons, Decimal.readWhole_writeWhole hid, ih hids]
    rfl

/-- Brackets around a text are taken off. -/
theorem unbracket?_append (inner : List Char) :
    unbracket? ('[' :: (inner ++ [']'])) = some inner := by
  rw [unbracket?, List.getLast?_concat, if_pos rfl, List.dropLast_concat]

theorem unbracket?_writeWhole (n : Int) : unbracket? (Decimal.writeWhole n) = none := by
  unfold unbracket?
  split
  · rename_i rest heq
    have hmem : '[' ∈ Decimal.writeWhole n := heq ▸ List.mem_cons_self
    exact absurd hmem (Decimal.not_mem_writeWhole (by decide) (by decide) n)
  · rfl

theorem readList_intercalate {ids : List Int} (h : ∀ id ∈ ids, Range.InRange id) :
    readList ([','].intercalate (ids.map Decimal.writeWhole)) = some ids := by
  cases ids with
  | nil => rfl
  | cons id ids =>
    have hparts : (id :: ids).map Decimal.writeWhole ≠ [] := List.cons_ne_nil _ _
    have hsplit := splitCommas_intercalate hparts (List.forall_mem_map.mpr fun n _ =>
      Decimal.not_mem_writeWhole (by decide) (by decide) n)
    have hne : [','].intercalate ((id :: ids).map Decimal.writeWhole) ≠ [] := by
      intro hnil
      rw [hnil] at hsplit
      have hid : [] = Decimal.writeWhole id := (List.cons.inj hsplit).1
      exact Decimal.writeWhole_ne_nil id hid.symm
    rw [readList, if_neg hne, hsplit, mapM_readWhole h]

/-- **A constant is read back.** -/
theorem read?_write {operand : Operand} (h : operand.IsWhole) :
    read? operand.write = some operand := by
  cases operand with
  | whole n => rw [write, read?, unbracket?_writeWhole, Decimal.readWhole_writeWhole h]
  | decimal x => exact absurd h id
  | list ids =>
    rw [write, read?, unbracket?_append]
    exact congrArg (Option.map list) (readList_intercalate h)

end Operand

/-! ## Comparisons -/

/-- The character may stand in an atom: it neither separates nor is it blank. -/
def IsInk (c : Char) : Prop :=
  separator? c = none ∧ Text.isBlank c = false

instance : DecidablePred IsInk :=
  fun c => inferInstanceAs (Decidable (separator? c = none ∧ Text.isBlank c = false))

theorem isInk_of_isAlphanum {c : Char} (h : c.isAlphanum = true) : IsInk c := by
  constructor
  · unfold separator?
    split
    · exact absurd h (by decide)
    · exact absurd h (by decide)
    · exact absurd h (by decide)
    · exact absurd h (by decide)
    · rfl
  · have hrange : (65 ≤ c.toNat ∧ c.toNat ≤ 90 ∨ 97 ≤ c.toNat ∧ c.toNat ≤ 122) ∨
        48 ≤ c.toNat ∧ c.toNat ≤ 57 := by
      rcases Bool.or_eq_true_iff.mp h with halpha | hdigit
      · rcases Bool.or_eq_true_iff.mp halpha with hupper | hlower
        · exact .inl (.inl (of_decide_eq_true hupper))
        · exact .inl (.inr ((Bool.and_eq_true_iff.mp hlower).imp of_decide_eq_true
            of_decide_eq_true))
      · exact .inr ((Bool.and_eq_true_iff.mp hdigit).imp of_decide_eq_true of_decide_eq_true)
    rw [Text.isBlank]
    simp only [Bool.or_eq_false_iff, Bool.and_eq_false_iff, decide_eq_false_iff_not,
      beq_eq_false_iff_ne]
    omega

theorem isInk_of_mem_intercalate {parts : List (List Char)}
    (h : ∀ part ∈ parts, ∀ c ∈ part, IsInk c) : ∀ c ∈ [','].intercalate parts, IsInk c := by
  induction parts with
  | nil => exact fun _ hc => absurd hc List.not_mem_nil
  | cons part parts ih =>
    obtain ⟨hpart, hparts⟩ := List.forall_mem_cons.mp h
    cases parts with
    | nil => rwa [List.intercalate_singleton]
    | cons part' parts =>
      rw [List.intercalate_cons_cons]
      exact List.forall_mem_append.mpr
        ⟨List.forall_mem_append.mpr ⟨hpart, List.forall_mem_singleton.mpr (by decide)⟩, ih hparts⟩

namespace Operator

/-- An operator is read back if what follows does not make it a longer one. -/
theorem read_append (op : Operator) {raw : List Char} (h : raw.head? ≠ some '=') :
    read (op.sign ++ raw) = (op, raw) := by
  have hlonger : ∀ rest, raw ≠ '=' :: rest := by
    rintro rest rfl
    exact h rfl
  cases op with
  | greaterEqual => rfl
  | lessEqual => rfl
  | notEqual => rfl
  | equal => rfl
  | includesAny => rfl
  | greater => rw [sign, List.singleton_append, read]; exact hlonger
  | less => rw [sign, List.singleton_append, read]; exact hlonger
  | excludesAll => simp [sign, read, hlonger]

theorem isInk_of_mem_sign (op : Operator) : ∀ c ∈ op.sign, IsInk c := by
  have hall : op.sign.all (fun c => decide (IsInk c)) = true := by cases op <;> rfl
  exact fun c hc => of_decide_eq_true (List.all_eq_true.mp hall c hc)

end Operator

namespace Operand

theorem isInk_writeWhole (n : Int) : ∀ c ∈ Decimal.writeWhole n, IsInk c := by
  intro c hc
  rcases Decimal.mem_writeWhole hc with rfl | hdigit
  · decide
  · exact isInk_of_isAlphanum (by rw [Char.isAlphanum, hdigit, Bool.or_true])

theorem isInk_write {operand : Operand} (h : operand.IsWhole) :
    ∀ c ∈ operand.write, IsInk c := by
  cases operand with
  | whole n => exact isInk_writeWhole n
  | decimal x => exact absurd h id
  | list ids =>
    have hids : ∀ c ∈ [','].intercalate (ids.map Decimal.writeWhole), IsInk c :=
      isInk_of_mem_intercalate (List.forall_mem_map.mpr fun id _ => isInk_writeWhole id)
    exact List.forall_mem_cons.mpr ⟨by decide,
      List.forall_mem_append.mpr ⟨hids, List.forall_mem_singleton.mpr (by decide)⟩⟩

/-- No constant begins like the second half of an operator. -/
theorem head?_write_ne {operand : Operand} (h : operand.IsWhole) :
    operand.write.head? ≠ some '=' := by
  cases operand with
  | whole n =>
    have hmem : '=' ∉ Decimal.writeWhole n := Decimal.not_mem_writeWhole (by decide) (by decide) n
    exact fun hhead => hmem (List.mem_of_head? hhead)
  | decimal x => exact absurd h id
  | list ids => exact fun hhead => absurd (Option.some.inj hhead) (by decide)

end Operand

/-- A text without separators and blanks is one atom. -/
theorem Token.ofText_of_isInk {a : List Char} (hne : a ≠ []) (h : ∀ c ∈ a, IsInk c) :
    ofText a = [.atom a] := by
  have hsqueeze : Text.squeeze a = a :=
    List.filter_eq_self.mpr fun c hc => by rw [(h c hc).2, Bool.not_false]
  have hcut := cut_append_of_atom (s := []) hne (fun c hc => (h c hc).1)
    (fun _ ht => nomatch ht)
  rw [List.append_nil] at hcut
  rw [ofText, hsqueeze, hcut, cut]

namespace Expr

/-- The text is a name: letters and digits, of which there is at least one. -/
def IsName (name : String) : Prop :=
  name.toList ≠ [] ∧ ∀ c ∈ name.toList, isNameChar c = true

instance : DecidablePred IsName :=
  fun name => @instDecidableAnd _ _ inferInstance
    (List.decidableBAll (fun c => isNameChar c = true) name.toList)

theorem not_isStart_of_isNameChar {c : Char} (h : isNameChar c = true) :
    Operator.isStart c = false := by
  rw [Bool.eq_false_iff]
  intro hstart
  simp only [Operator.isStart, Bool.or_eq_true, beq_iff_eq] at hstart
  rcases hstart with (((rfl | rfl) | rfl) | rfl) | rfl <;> exact absurd h (by decide)

/-- **A comparison is read back.**  The name ends where the operator begins. -/
theorem ofAtom_append {name : String} (hname : IsName name) (op : Operator) {raw : List Char}
    {operand : Operand} (hraw : raw.head? ≠ some '=') (hread : Operand.read? raw = some operand) :
    ofAtom (name.toList ++ (op.sign ++ raw)) = .ok (.compare name op operand) := by
  have hchars : ∀ c ∈ name.toList, (!Operator.isStart c) = true := by
    intro c hc
    rw [not_isStart_of_isNameChar (hname.2 c hc), Bool.not_false]
  obtain ⟨c, more, hsign, hstart⟩ : ∃ c more, op.sign = c :: more ∧ Operator.isStart c = true := by
    cases op <;> exact ⟨_, _, rfl, rfl⟩
  have hstop : ¬(!Operator.isStart c) = true := by
    rw [hstart]
    decide
  have htake : (name.toList ++ (op.sign ++ raw)).takeWhile (fun c => !Operator.isStart c) =
      name.toList := by
    rw [List.takeWhile_append_of_pos hchars, hsign, List.cons_append,
      List.takeWhile_cons_of_neg (p := fun c => !Operator.isStart c) hstop, List.append_nil]
  have hdrop : (name.toList ++ (op.sign ++ raw)).dropWhile (fun c => !Operator.isStart c) =
      op.sign ++ raw := by
    rw [List.dropWhile_append_of_pos hchars, hsign, List.cons_append,
      List.dropWhile_cons_of_neg (p := fun c => !Operator.isStart c) hstop]
  have hrest : op.sign ++ raw ≠ [] := by
    rw [hsign]
    exact List.cons_ne_nil _ _
  have hall : name.toList.all isNameChar = true := List.all_eq_true.mpr hname.2
  have hmissing : ¬(name.toList = [] ∨ ¬name.toList.all isNameChar = true) := by
    rintro (hnil | hnot)
    · exact hname.1 hnil
    · exact hnot hall
  simp only [ofAtom, htake, hdrop, if_neg hrest, if_neg hmissing, Operator.read_append op hraw,
    hread, String.ofList_toList]

/-! ## Expressions -/

/-- An expression that can be written: it compares by names, with whole numbers of 32 bits. -/
def Writable : Expr → Prop
  | compare name _ operand => IsName name ∧ operand.IsWhole
  | and left right => left.Writable ∧ right.Writable
  | or left right => left.Writable ∧ right.Writable

instance decidableWritable : DecidablePred Writable
  | compare name _ operand => inferInstanceAs (Decidable (IsName name ∧ operand.IsWhole))
  | and left right => @instDecidableAnd _ _ (decidableWritable left) (decidableWritable right)
  | or left right => @instDecidableAnd _ _ (decidableWritable left) (decidableWritable right)

/-- One of the two parts that `&` and `|` join. -/
inductive Side where
  | left
  | right

/-- A text in some pairs of parentheses. -/
def enclose : Nat → List Char → List Char
  | 0, s => s
  | pairs + 1, s => '(' :: (enclose pairs s ++ [')'])

end Expr

/-- How much of a condition a phrase may be. -/
def Phrase.rank : Phrase → Nat
  | .factor => 0
  | .conjunction => 1
  | .disjunction => 2

/-- The pairs of parentheses without which a phrase cannot stand for another one. -/
def Phrase.required (own wanted : Phrase) : Nat :=
  if own.rank ≤ wanted.rank then 0 else 1

namespace Expr

/-- The text of an expression in the place of a phrase.  How many pairs of parentheses there are
around a part beyond those that it needs is said for each part, by the way that leads to it. -/
def write (extra : List Side → Nat) (wanted : Phrase) : Expr → List Char
  | compare name op operand =>
    enclose (Phrase.factor.required wanted + extra [])
      (name.toList ++ (op.sign ++ operand.write))
  | and left right =>
    enclose (Phrase.conjunction.required wanted + extra [])
      (left.write (fun way => extra (.left :: way)) .conjunction ++
        '&' :: right.write (fun way => extra (.right :: way)) .factor)
  | or left right =>
    enclose (Phrase.disjunction.required wanted + extra [])
      (left.write (fun way => extra (.left :: way)) .disjunction ++
        '|' :: right.write (fun way => extra (.right :: way)) .conjunction)

end Expr

theorem Derives.of_rank_le {own wanted : Phrase} {ts : List Token} {e : Expr}
    (h : Derives own ts e) (hle : own.rank ≤ wanted.rank) : Derives wanted ts e := by
  cases own with
  | factor =>
    cases wanted with
    | factor => exact h
    | conjunction => exact .bare h
    | disjunction => exact .single (.bare h)
  | conjunction =>
    cases wanted with
    | factor => exact absurd hle (by decide)
    | conjunction => exact h
    | disjunction => exact .single h
  | disjunction =>
    cases wanted with
    | factor => exact absurd hle (by decide)
    | conjunction => exact absurd hle (by decide)
    | disjunction => exact h

theorem Phrase.rank_le (phrase : Phrase) : phrase.rank ≤ Phrase.disjunction.rank := by
  cases phrase <;> decide

theorem Token.ofText_parenthesized (s : List Char) :
    ofText ('(' :: (s ++ [')'])) = .opening :: (ofText s ++ [.closing]) := by
  have hopening := ofText_append_separator (c := '(') (t := .opening) rfl rfl [] (s ++ [')'])
  have hclosing := ofText_append_separator (c := ')') (t := .closing) rfl rfl s []
  rw [List.nil_append] at hopening
  rw [hopening, hclosing]
  rfl

/-- Pairs of parentheses that are not needed change nothing. -/
theorem derives_enclose_of_rank_le {own wanted : Phrase} {s : List Char} {e : Expr}
    (h : Derives own (ofText s) e) (hle : own.rank ≤ wanted.rank) (pairs : Nat) :
    Derives wanted (ofText (Expr.enclose pairs s)) e := by
  induction pairs generalizing wanted with
  | zero => exact h.of_rank_le hle
  | succ pairs ih =>
    rw [Expr.enclose, ofText_parenthesized]
    exact (Derives.group (ih own.rank_le)).of_rank_le (Nat.zero_le _)

/-- A phrase in the pairs that it needs, and more, stands for any other one. -/
theorem derives_enclose {own wanted : Phrase} {s : List Char} {e : Expr}
    (h : Derives own (ofText s) e) (extra : Nat) :
    Derives wanted (ofText (Expr.enclose (own.required wanted + extra) s)) e := by
  by_cases hle : own.rank ≤ wanted.rank
  · exact derives_enclose_of_rank_le h hle _
  · -- One pair makes a factor of it, whatever it is inside.
    rw [Phrase.required, if_neg hle, Nat.add_comm, Expr.enclose, ofText_parenthesized]
    have hgroup := Derives.group (derives_enclose_of_rank_le h own.rank_le extra)
    exact hgroup.of_rank_le (Nat.zero_le _)

namespace Expr

theorem derives_compare {name : String} (hname : IsName name) (op : Operator) {operand : Operand}
    (hoperand : operand.IsWhole) :
    Derives .factor (ofText (name.toList ++ (op.sign ++ operand.write)))
      (.compare name op operand) := by
  have hink : ∀ c ∈ name.toList ++ (op.sign ++ operand.write), IsInk c :=
    List.forall_mem_append.mpr ⟨fun c hc => isInk_of_isAlphanum (hname.2 c hc),
      List.forall_mem_append.mpr ⟨op.isInk_of_mem_sign, Operand.isInk_write hoperand⟩⟩
  have hne : name.toList ++ (op.sign ++ operand.write) ≠ [] :=
    fun h => hname.1 (List.append_eq_nil_iff.mp h).1
  rw [ofText_of_isInk hne hink]
  exact .atom (ofAtom_append hname op (Operand.head?_write_ne hoperand)
    (Operand.read?_write hoperand))

/-- **The grammar derives an expression from its text**, wherever the text stands. -/
theorem derives_write {e : Expr} (h : e.Writable) (extra : List Side → Nat) (wanted : Phrase) :
    Derives wanted (ofText (e.write extra wanted)) e := by
  induction e generalizing extra wanted with
  | compare name op operand => exact derives_enclose (derives_compare h.1 op h.2) _
  | and left right ihl ihr =>
    have hparts := Derives.and (ihl h.1 (fun way => extra (.left :: way)) .conjunction)
      (ihr h.2 (fun way => extra (.right :: way)) .factor)
    rw [← ofText_append_separator (c := '&') rfl rfl] at hparts
    exact derives_enclose hparts _
  | or left right ihl ihr =>
    have hparts := Derives.or (ihl h.1 (fun way => extra (.left :: way)) .disjunction)
      (ihr h.2 (fun way => extra (.right :: way)) .conjunction)
    rw [← ofText_append_separator (c := '|') rfl rfl] at hparts
    exact derives_enclose hparts _

/-- **What is written is read back.**  An expression that compares names with whole numbers, or with
lists of them, is read from its text, with however many more pairs of parentheses than it needs and
with blanks anywhere.  And blanks that are put into a text, or taken out, do not change what it is
read as, or why it cannot be read. -/
theorem parse_write :
    (∀ e : Expr, e.Writable → ∀ (extra : List Side → Nat) (s : String),
      Text.Spaced (e.write extra .disjunction) s.toList → parse s = .ok e) ∧
    ∀ s t : String, Text.Spaced s.toList t.toList → parse s = parse t := by
  refine ⟨fun e he extra s hs => ?_, fun s t hst => parse_eq_of_spaced hst⟩
  have hderives := derives_write he extra .disjunction
  rw [ofText, hs.squeeze_eq] at hderives
  exact parse_eq_ok_iff.mpr (isWritten_iff.mpr hderives)

/-- A disjunction in which another one needs parentheses. -/
def crowdedExpr : Expr :=
  .or
    (.and (.compare "CHR" .greaterEqual (.whole (-5)))
      (.or (.compare "TLT" .excludesAll (.list []))
        (.compare "EVT" .notEqual (.list [-3, 20010]))))
    (.compare "AGE" .equal (.whole 0))

/-- One pair more around its first comparison, and two around its last one. -/
def crowdedPairs : List Side → Nat
  | [.left, .left] => 1
  | [.right] => 2
  | _ => 0

/-- It is read from its text with blanks in an operator, in a list and in a number; a text without
its last parenthesis is refused alike with blanks and without. -/
theorem parse_write_crowded :
    crowdedExpr.write crowdedPairs .disjunction =
      "(CHR>=-5)&(TLT![]|EVT!=[-3,20010])|((AGE=0))".toList ∧
    parse "(C HR> =- 5)& (TLT![ ]|EVT!=[-3,20\t010]) |((AGE=0))" = .ok crowdedExpr ∧
    parse "( CHR > 5" = .error .unbalanced := by
  have hwrite : crowdedExpr.write crowdedPairs .disjunction =
      "(CHR>=-5)&(TLT![]|EVT!=[-3,20010])|((AGE=0))".toList := by decide +kernel
  have hsqueeze : Text.squeeze "(C HR> =- 5)& (TLT![ ]|EVT!=[-3,20\t010]) |((AGE=0))".toList =
      "(CHR>=-5)&(TLT![]|EVT!=[-3,20010])|((AGE=0))".toList := by decide +kernel
  have hrefused : Text.squeeze "( CHR > 5".toList = "(CHR>5".toList := by decide +kernel
  refine ⟨hwrite, ?_, ?_⟩
  · refine parse_write.1 crowdedExpr (by decide +kernel) crowdedPairs _ ?_
    rw [hwrite, ← hsqueeze]
    exact Text.spaced_squeeze _
  · have hspaced := Text.spaced_squeeze "( CHR > 5".toList
    rw [hrefused] at hspaced
    rw [← parse_write.2 _ _ hspaced]
    exact parse_of_not_balanced (by decide +kernel)

end Expr
end LifeCourse
