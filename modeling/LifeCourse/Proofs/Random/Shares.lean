import LifeCourse.Proofs.Number.Rounding
import LifeCourse.Random.Source

/-!
# Shares of the largest weight

Before one of several weighted options is drawn the weights are divided by the largest of them.  Two
things could go wrong in 64 bits.  A weight that is tiny beside the largest one becomes zero, so it
must be seen that not all do: the largest weight divided by itself does not.  And the total of many
shares could leave the finite numbers.  It does not, however long the list: a share has an exponent of
at most 1, and a total with the exponent 55 or 56 is so much greater than a share that rounding
drops the share again (`upto_add`).

Weights are compared by their exponents only, which is enough to bound a quotient (`upto_div`).
-/

namespace LifeCourse
namespace Share

open Float.Model Float.Model.UnpackedFloat Rounding Source

/-! ## Numbers taken out of their bits -/

/-- A number taken out of its 64 bits. -/
def unpacked (x : Float) : UnpackedFloat :=
  x.toModel.unpack

variable {x y : Float} {u v : UnpackedFloat} {bound : Int}

theorem unpacked_zero : unpacked 0 = .zero .positive :=
  rfl

theorem unpacked_div (x y : Float) : unpacked (x / y) =
    (Float.Model.pack (UnpackedFloat.div Format.binary64 (unpacked x) (unpacked y))).unpack :=
  rfl

theorem unpacked_add (x y : Float) : unpacked (x + y) =
    (Float.Model.pack (UnpackedFloat.add Format.binary64 (unpacked x) (unpacked y))).unpack :=
  rfl

theorem isFinite_eq (x : Float) : x.isFinite = (unpacked x).isFinite :=
  rfl

theorem lt_iff : x < y ↔ UnpackedFloat.lt (unpacked x) (unpacked y) = true := by
  show decide (x.toModel < y.toModel) = true ↔ _
  rw [decide_eq_true_eq]
  rfl

theorem le_iff : x ≤ y ↔ UnpackedFloat.le (unpacked x) (unpacked y) = true := by
  show decide (x.toModel ≤ y.toModel) = true ↔ _
  rw [decide_eq_true_eq]
  rfl

theorem isFinite_of_upto (h : Upto bound (unpacked x)) : x.isFinite = true := by
  rw [isFinite_eq]
  generalize unpacked x = u at h
  cases h <;> rfl

theorem nonneg_of_upto (h : Upto bound (unpacked x)) : 0 ≤ x := by
  rw [le_iff, unpacked_zero]
  generalize unpacked x = u at h
  cases h <;> rfl

theorem pos_of_positive (h : Positive (unpacked x)) : 0 < x := by
  rw [lt_iff, unpacked_zero]
  generalize unpacked x = u at h
  cases h
  rfl

theorem not_nonpos_of_positive (h : Positive (unpacked x)) : ¬x ≤ 0 := by
  rw [le_iff, unpacked_zero]
  generalize unpacked x = u at h
  cases h
  exact Bool.false_ne_true

/-- An option can be drawn if its weight is a positive number. -/
theorem drawable_iff : drawable x = true ↔ Positive (unpacked x) := by
  rw [drawable, Bool.and_eq_true, decide_eq_true_eq, isFinite_eq, lt_iff, unpacked_zero]
  generalize unpacked x = u
  constructor
  · rintro ⟨hfinite, hlt⟩
    rcases u with sign | _ | sign | ⟨sign, m, e, hm⟩
    · cases hfinite
    · cases hfinite
    · cases hlt
    · cases sign with
      | negative => cases hlt
      | positive => exact .finite hm
  · rintro ⟨hm⟩
    exact ⟨rfl, rfl⟩

/-! ## Exponents -/

/-- The exponent of a number that has one. -/
def exponent : UnpackedFloat → Int
  | .finite _ _ e _ => e
  | _ => 0

/-- Of two positive numbers the greater one has no smaller exponent. -/
theorem exponent_le_of_lt (hu : Positive u) (hv : Positive v) (h : UnpackedFloat.lt u v = true) :
    exponent u ≤ exponent v := by
  obtain @⟨m, e, hm⟩ := hu
  obtain @⟨m', e', hm'⟩ := hv
  refine Int.not_lt.mp fun hlt => ?_
  have hgt : compare e e' = .gt := Int.compare_eq_gt.mpr hlt
  simp [UnpackedFloat.lt, UnpackedFloat.compare, hgt] at h

theorem exponent_le_of_not_lt (hu : Positive u) (hv : Positive v)
    (h : ¬UnpackedFloat.lt u v = true) : exponent v ≤ exponent u := by
  obtain @⟨m, e, hm⟩ := hu
  obtain @⟨m', e', hm'⟩ := hv
  refine Int.not_lt.mp fun hlt => h ?_
  have hless : compare e e' = .lt := Int.compare_eq_lt.mpr hlt
  simp [UnpackedFloat.lt, UnpackedFloat.compare, hless]

/-! ## Quotients -/

/-- A dividend is given zeros at its end until the quotient has 53 bits or 54, but no more than the
least exponent allows. -/
theorem div_finite {m m' : Nat} (hm : 0 < m) (hm' : 0 < m') (e e' : Int) :
    ∃ (n : Nat) (accuracy : Accuracy),
      (n : Int) = max 0 (e - e' - max (m.log2 + e - m'.log2 - e' - 53) (-1074)) ∧
      UnpackedFloat.div Format.binary64 (.finite .positive m e hm) (.finite .positive m' e' hm') =
        roundWithAccuracy Format.binary64 .positive (m <<< n / m') (e - e' - n) accuracy := by
  have htarget : Format.targetExponent Format.binary64 (totalExponent m e - totalExponent m' e') =
      max (m.log2 + e - m'.log2 - e' - 53) (-1074) := by
    have hbits : Format.binary64.mantissaBits = 53 := rfl
    have hleast : Format.binary64.minExponent = -1074 := rfl
    rw [Format.targetExponent, hbits, hleast, totalExponent, totalExponent]
    omega
  obtain ⟨n, hn⟩ : ∃ n : Nat,
      n = (e - e' - min (e - e') (max (m.log2 + e - m'.log2 - e' - 53) (-1074))).toNat := ⟨_, rfl⟩
  have hexponent : min (e - e') (max (m.log2 + e - m'.log2 - e' - 53) (-1074)) = e - e' - n := by
    omega
  refine ⟨n, accuracyOfFraction (m <<< n % m') m', by omega, ?_⟩
  rw [UnpackedFloat.div, divCore, htarget, ← hn, hexponent]
  rfl

theorem upto_div_finite {m m' : Nat} {e e' : Int} (hm : 0 < m) (hm' : 0 < m') (hlt : m < 2 ^ 53)
    (hle : e ≤ e') : Upto 1 (UnpackedFloat.div Format.binary64 (.finite .positive m e hm)
      (.finite .positive m' e' hm')) := by
  obtain ⟨n, accuracy, hn, hdiv⟩ := div_finite hm hm' e e'
  have hlog : (m <<< n / m').log2 ≤ 52 + n := by
    by_cases hzero : m <<< n / m' = 0
    · rw [hzero]
      exact Nat.zero_le _
    · refine Nat.le_of_lt_succ ((Nat.log2_lt hzero).mpr ?_)
      refine Nat.lt_of_le_of_lt (Nat.div_le_self _ _) ?_
      rw [Nat.shiftLeft_eq, Nat.succ_eq_add_one, Nat.add_right_comm, Nat.pow_add]
      exact Nat.mul_lt_mul_of_pos_right hlt (Nat.two_pow_pos n)
  rw [hdiv]
  exact upto_roundWithAccuracy accuracy (by omega)

theorem positive_div_finite {m : Nat} {e : Int} (hm : 0 < m) :
    Positive (UnpackedFloat.div Format.binary64 (.finite .positive m e hm)
      (.finite .positive m e hm)) := by
  obtain ⟨n, accuracy, hn, hdiv⟩ := div_finite hm hm e e
  rw [hdiv, Nat.shiftLeft_eq, Nat.mul_div_cancel_left _ hm]
  exact positive_roundWithAccuracy accuracy (Nat.two_pow_pos n) (by omega)

/-- The quotient of a number by one with no smaller exponent is finite and not negative. -/
theorem upto_div (hx : Positive (unpacked x)) (hy : Positive (unpacked y))
    (hle : exponent (unpacked x) ≤ exponent (unpacked y)) : Upto 1 (unpacked (x / y)) := by
  rw [unpacked_div]
  generalize hu : unpacked x = u at hx hle
  generalize unpacked y = v at hy hle
  obtain @⟨m, e, hm⟩ := hx
  obtain @⟨m', e', hm'⟩ := hy
  exact (unpack_pack (upto_div_finite hm hm' (unpack_finite hu).1 hle) (by decide)).1

/-- A positive number divided by itself is positive. -/
theorem positive_div_self (hx : Positive (unpacked x)) : Positive (unpacked (x / x)) := by
  rw [unpacked_div]
  generalize hu : unpacked x = u at hx
  obtain @⟨m, e, hm⟩ := hx
  have hupto := upto_div_finite hm hm (unpack_finite hu).1 (Int.le_refl e)
  exact (unpack_pack hupto (by decide)).2 (positive_div_finite hm)

/-! ## Sums -/

theorem add_finite {m m' : Nat} {e e' : Int} (hm : 0 < m) (hm' : 0 < m') :
    UnpackedFloat.add Format.binary64 (.finite .positive m e hm) (.finite .positive m' e' hm') =
      UnpackedFloat.round Format.binary64 .positive
        (m <<< (e - min e e').toNat + m' <<< (e' - min e e').toNat) (min e e') := by
  have hpos : 0 < m <<< (e - min e e').toNat + m' <<< (e' - min e e').toNat :=
    Nat.add_pos_left (Nat.shiftLeft_pos_iff.mpr hm) _
  have hcompare := Int.compare_eq_gt.mpr (Int.natCast_pos.mpr hpos)
  rw [Int.natCast_add] at hcompare
  simp only [UnpackedFloat.add, decreaseExponent, Sign.apply, UnpackedFloat.normalize, hcompare]
  rfl

/-- To a total that is not yet great a share is added as usual. -/
theorem upto_add_of_le {m m' : Nat} {e e' : Int} (hm : 0 < m) (hm' : 0 < m') (hlt : m < 2 ^ 53)
    (hlt' : m' < 2 ^ 53) (he : e ≤ 54) (he' : e' ≤ 1) :
    Upto 56 (UnpackedFloat.add Format.binary64 (.finite .positive m e hm)
      (.finite .positive m' e' hm')) := by
  have hshift : ∀ {m n k : Nat}, m < 2 ^ 53 → n ≤ k → m <<< n < 2 ^ (53 + k) := by
    intro m n k hlt hle
    rw [Nat.shiftLeft_eq, Nat.pow_add]
    exact Nat.mul_lt_mul_of_lt_of_le hlt (Nat.pow_le_pow_right (by decide) hle)
      (Nat.two_pow_pos k)
  have hpos : 0 < m <<< (e - min e e').toNat + m' <<< (e' - min e e').toNat :=
    Nat.add_pos_left (Nat.shiftLeft_pos_iff.mpr hm) _
  have hlog : (m <<< (e - min e e').toNat + m' <<< (e' - min e e').toNat).log2 <
      53 + (max e e' - min e e').toNat + 1 := by
    refine (Nat.log2_lt (Nat.ne_of_gt hpos)).mpr ?_
    have hleft := hshift (n := (e - min e e').toNat) (k := (max e e' - min e e').toNat) hlt
      (by omega)
    have hright := hshift (n := (e' - min e e').toNat) (k := (max e e' - min e e').toNat) hlt'
      (by omega)
    rw [Nat.pow_succ]
    omega
  rw [add_finite]
  exact upto_round hpos (by omega)

/-- A great total absorbs a share. -/
theorem upto_add_of_gt {m m' : Nat} {e e' : Int} (hm : 0 < m) (hm' : 0 < m') (hfull : 2 ^ 52 ≤ m)
    (hlt : m < 2 ^ 53) (hlt' : m' < 2 ^ 53) (hgt : 54 < e) (he : e ≤ 56) (hleast : -1074 ≤ e')
    (he' : e' ≤ 1) :
    Upto 56 (UnpackedFloat.add Format.binary64 (.finite .positive m e hm)
      (.finite .positive m' e' hm')) := by
  obtain ⟨n, hn⟩ : ∃ n : Nat, e - e' = n + 1 := ⟨(e - e' - 1).toNat, by omega⟩
  have hmin : min e e' = e' := by omega
  have hshift : m <<< (e - e').toNat = 2 ^ n * (2 * m) := by
    rw [hn, Nat.shiftLeft_eq]
    show m * 2 ^ (n + 1) = _
    rw [Nat.pow_succ, Nat.mul_comm m, Nat.mul_assoc]
  have hsmall : m' < 2 ^ n := Nat.lt_of_lt_of_le hlt' (Nat.pow_le_pow_right (by decide) (by omega))
  rw [add_finite, hmin, Int.sub_self, Int.toNat_zero, Nat.shiftLeft_zero, hshift]
  refine upto_round_of_even (n := n) ?_ ?_ hleast (by omega)
  · refine (Nat.log2_eq_iff (by omega)).mpr ⟨?_, ?_⟩
    · rw [Nat.add_comm, Nat.pow_add]
      exact Nat.le_trans (Nat.mul_le_mul_left _ (by omega)) (Nat.le_add_right _ m')
    · calc 2 ^ n * (2 * m) + m'
          < 2 ^ n * (2 * m + 1) := Nat.add_lt_add_left hsmall _
        _ ≤ 2 ^ n * 2 ^ 54 := Nat.mul_le_mul_left _ (by omega)
        _ = 2 ^ (53 + n + 1) := by rw [← Nat.pow_add, Nat.add_right_comm, Nat.add_comm]
  · rw [Nat.mul_add_div (Nat.two_pow_pos n), Nat.div_eq_of_lt hsmall, Nat.add_zero,
      Nat.mul_mod_right]

/-- **Adding a share keeps a total finite**, and positive if one of the two was. -/
theorem upto_add (hx : Upto 56 (unpacked x)) (hy : Upto 1 (unpacked y)) :
    Upto 56 (unpacked (x + y)) ∧
      (Positive (unpacked x) ∨ Positive (unpacked y) → Positive (unpacked (x + y))) := by
  have hsum : Upto 56 (UnpackedFloat.add Format.binary64 (unpacked x) (unpacked y)) ∧
      (Positive (unpacked x) ∨ Positive (unpacked y) →
        Positive (UnpackedFloat.add Format.binary64 (unpacked x) (unpacked y))) := by
    generalize hu : unpacked x = u at hx
    generalize unpacked y = v at hy
    cases hx with
    | zero sign =>
      cases hy with
      | zero sign' =>
        refine ⟨?_, fun h => by rcases h with h | h <;> cases h⟩
        cases sign <;> cases sign' <;> exact .zero _
      | finite hm hlt hleast hle =>
        exact ⟨.finite hm hlt hleast (Int.le_trans hle (by decide)), fun _ => .finite hm⟩
    | @finite m e hm hlt hleast hle =>
      cases hy with
      | zero sign' => exact ⟨.finite hm hlt hleast hle, fun _ => .finite hm⟩
      | @finite m' e' hm' hlt' hleast' hle' =>
        constructor
        · by_cases hgt : 54 < e
          · have hfull := (unpack_finite hu).2.2
            exact upto_add_of_gt hm hm' (by omega) hlt hlt' hgt hle hleast' hle'
          · exact upto_add_of_le hm hm' hlt hlt' (by omega) hle'
        · intro _
          rw [add_finite]
          exact positive_round (Nat.add_pos_left (Nat.shiftLeft_pos_iff.mpr hm) _) (by omega)
  have hpack := unpack_pack hsum.1 (by decide)
  rw [unpacked_add]
  exact ⟨hpack.1, fun h => hpack.2 (hsum.2 h)⟩

/-! ## Totals -/

/-- The total of shares, added up from the front. -/
def total : List Float → Float
  | [] => 0
  | share :: shares => shares.foldl (· + ·) share

theorem upto_foldl_add {shares : List Float} {sum : Float} (hsum : Upto 56 (unpacked sum))
    (hshares : ∀ share ∈ shares, Upto 1 (unpacked share)) :
    Upto 56 (unpacked (shares.foldl (· + ·) sum)) ∧
      ((∃ share ∈ sum :: shares, Positive (unpacked share)) →
        Positive (unpacked (shares.foldl (· + ·) sum))) := by
  induction shares generalizing sum with
  | nil => exact ⟨hsum, by simp⟩
  | cons share shares ih =>
    obtain ⟨hshare, hrest⟩ := List.forall_mem_cons.mp hshares
    obtain ⟨hupto, hpos⟩ := upto_add hsum hshare
    refine ⟨(ih hupto hrest).1, fun ⟨positive, hmem, hpositive⟩ => (ih hupto hrest).2 ?_⟩
    rcases List.mem_cons.mp hmem with rfl | hmem
    · exact ⟨_, List.mem_cons_self, hpos (.inl hpositive)⟩
    · rcases List.mem_cons.mp hmem with rfl | hmem
      · exact ⟨_, List.mem_cons_self, hpos (.inr hpositive)⟩
      · exact ⟨positive, List.mem_cons_of_mem _ hmem, hpositive⟩

/-- **The total of shares is finite**, and positive if one of them is. -/
theorem upto_total {shares : List Float} (hshares : ∀ share ∈ shares, Upto 1 (unpacked share)) :
    Upto 56 (unpacked (total shares)) ∧
      ((∃ share ∈ shares, Positive (unpacked share)) → Positive (unpacked (total shares))) := by
  cases shares with
  | nil => exact ⟨.zero .positive, by simp⟩
  | cons share shares =>
    obtain ⟨hshare, hrest⟩ := List.forall_mem_cons.mp hshares
    exact upto_foldl_add (hshare.mono (by decide)) hrest

/-! ## The largest weight -/

/-- The larger of two weights. -/
def larger (x y : Float) : Float :=
  if x < y then y else x

theorem larger_cases (x y : Float) : larger x y = x ∨ larger x y = y := by
  unfold larger
  split
  · exact .inr rfl
  · exact .inl rfl

theorem exponent_le_larger (hx : Positive (unpacked x)) (hy : Positive (unpacked y)) :
    exponent (unpacked x) ≤ exponent (unpacked (larger x y)) ∧
      exponent (unpacked y) ≤ exponent (unpacked (larger x y)) := by
  unfold larger
  split
  · rename_i hlt
    exact ⟨exponent_le_of_lt hx hy (lt_iff.mp hlt), Int.le_refl _⟩
  · rename_i hnot
    exact ⟨Int.le_refl _, exponent_le_of_not_lt hx hy fun h => hnot (lt_iff.mpr h)⟩

/-- The largest of the weights, or `m` if none is larger. -/
def largest (m : Float) (weights : List Float) : Float :=
  weights.foldl larger m

theorem largest_mem (m : Float) (weights : List Float) : largest m weights ∈ m :: weights := by
  induction weights generalizing m with
  | nil => exact List.mem_cons_self
  | cons weight weights ih =>
    rcases List.mem_cons.mp (ih (larger m weight)) with h | h
    · rw [largest, List.foldl_cons, ← largest, h]
      rcases larger_cases m weight with h | h <;> simp [h]
    · exact List.mem_cons_of_mem _ (List.mem_cons_of_mem _ h)

/-- The largest of positive weights has the largest exponent. -/
theorem exponent_le_largest {m : Float} {weights : List Float} (hm : Positive (unpacked m))
    (hweights : ∀ weight ∈ weights, Positive (unpacked weight)) :
    ∀ weight ∈ m :: weights,
      exponent (unpacked weight) ≤ exponent (unpacked (largest m weights)) := by
  induction weights generalizing m with
  | nil => simp [largest]
  | cons weight weights ih =>
    obtain ⟨hweight, hrest⟩ := List.forall_mem_cons.mp hweights
    have hlarger : Positive (unpacked (larger m weight)) := by
      rcases larger_cases m weight with h | h <;> rw [h] <;> assumption
    have hle := exponent_le_larger hm hweight
    obtain ⟨hfirst, hothers⟩ := List.forall_mem_cons.mp (ih hlarger hrest)
    intro other hmem
    rcases List.mem_cons.mp hmem with rfl | hmem
    · exact Int.le_trans hle.1 hfirst
    · rcases List.mem_cons.mp hmem with rfl | hmem
      · exact Int.le_trans hle.2 hfirst
      · exact hothers other hmem

/-- From zero on the largest of positive weights is one of them. -/
theorem largest_zero_cons {weight : Float} (h : 0 < weight) (weights : List Float) :
    largest 0 (weight :: weights) = largest weight weights := by
  rw [largest, List.foldl_cons, larger, if_pos h, largest]

theorem largest_zero_spec {weights : List Float} (hne : weights ≠ [])
    (hweights : ∀ weight ∈ weights, Positive (unpacked weight)) :
    largest 0 weights ∈ weights ∧
      ∀ weight ∈ weights, exponent (unpacked weight) ≤ exponent (unpacked (largest 0 weights)) := by
  cases weights with
  | nil => exact absurd rfl hne
  | cons weight weights =>
    obtain ⟨hfirst, hrest⟩ := List.forall_mem_cons.mp hweights
    rw [largest_zero_cons (pos_of_positive hfirst)]
    exact ⟨largest_mem weight weights, exponent_le_largest hfirst hrest⟩

/-! ## Shares -/

/-- The shares of weights in the largest of them. -/
def shares (weights : List Float) : List Float :=
  weights.map (· / largest 0 weights)

theorem shares_cons {weight : Float} (h : 0 < weight) (weights : List Float) :
    shares (weight :: weights) =
      weight / largest weight weights :: weights.map (· / largest weight weights) := by
  rw [shares, largest_zero_cons h, List.map_cons]

/-- Shares that a draw can be made with: there is one, they are finite and not negative, and their
total is finite and positive. -/
structure Acceptable (shares : List Float) : Prop where
  nonempty : shares ≠ []
  finite : ∀ share ∈ shares, share.isFinite = true
  nonneg : ∀ share ∈ shares, 0 ≤ share
  totalFinite : (total shares).isFinite = true
  totalPos : 0 < total shares

/-- **The shares of weights are such that a draw can be made with them**, however many the weights
are and however far they are apart. -/
theorem acceptable_shares {weights : List Float} (hne : weights ≠ [])
    (hweights : ∀ weight ∈ weights, Positive (unpacked weight)) : Acceptable (shares weights) := by
  obtain ⟨hmem, hle⟩ := largest_zero_spec hne hweights
  have hupto : ∀ share ∈ shares weights, Upto 1 (unpacked share) := by
    intro share hshare
    obtain ⟨weight, hweight, rfl⟩ := List.mem_map.mp hshare
    exact upto_div (hweights weight hweight) (hweights _ hmem) (hle weight hweight)
  have htotal := upto_total hupto
  refine ⟨fun h => hne (List.map_eq_nil_iff.mp h), fun share hshare =>
    isFinite_of_upto (hupto share hshare), fun share hshare => nonneg_of_upto (hupto share hshare),
    isFinite_of_upto htotal.1, pos_of_positive (htotal.2 ?_)⟩
  exact ⟨_, List.mem_map_of_mem hmem, positive_div_self (hweights _ hmem)⟩

end Share
end LifeCourse
