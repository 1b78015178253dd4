/-!
# Tables

The rules of a life are tables: talents by id, events by id, slots by age, rubrics
by stat code.  A table is read by key only, and where it is walked (the achievements
at a checkpoint, the candidates of a grade, the report of the checker) the walk goes
by ascending key.  So a table keeps its entries in strictly ascending key order.

## Why the order is in the type

Strictly ascending entries are a normal form: two tables that answer every key alike
are equal (`Table.ext_find?`).  Whatever order entries arrive in, and however overlays
are grouped, the table that results depends on its answers alone, and every later
function of it does too.  The laws of `find?` after `insert` and `merge` are therefore
all that has to be said about the two operations.
-/

namespace LifeCourse

/-- The entries of which no later one has the same key. -/
def lastOfEach {κ α : Type} [DecidableEq κ] : List (κ × α) → List (κ × α)
  | [] => []
  | entry :: rest =>
    if rest.any fun other => other.1 = entry.1 then lastOfEach rest
    else entry :: lastOfEach rest

/-- A finite map with its entries in strictly ascending key order. -/
structure Table (κ α : Type) [LT κ] where
  entries : List (κ × α)
  ascending : entries.Pairwise fun a b => a.1 < b.1

namespace Table

variable {κ α : Type} [LE κ] [LT κ] [DecidableLT κ] [Std.IsLinearOrder κ] [Std.LawfulOrderLT κ]

/-! ## Entry lists -/

/-- The value at a key of an ascending list. -/
def lookup (k : κ) : List (κ × α) → Option α
  | [] => none
  | (k', a) :: rest =>
    if k' < k then lookup k rest else if k < k' then none else some a

/-- The list with the value at one key set. -/
def put (k : κ) (a : α) : List (κ × α) → List (κ × α)
  | [] => [(k, a)]
  | (k', a') :: rest =>
    if k' < k then (k', a') :: put k a rest
    else if k < k' then (k, a) :: (k', a') :: rest
    else (k, a) :: rest

omit [LE κ] [Std.IsLinearOrder κ] [Std.LawfulOrderLT κ] in
theorem mem_put {k : κ} {a : α} {entries : List (κ × α)} {e : κ × α}
    (h : e ∈ put k a entries) : e = (k, a) ∨ e ∈ entries := by
  induction entries with
  | nil => simpa [put] using h
  | cons head rest ih =>
    unfold put at h
    split at h
    · rcases List.mem_cons.mp h with h | h
      · exact Or.inr (by simp [h])
      · exact (ih h).imp id fun h => by simp [h]
    · split at h
      · exact List.mem_cons.mp h
      · rcases List.mem_cons.mp h with h | h
        · exact Or.inl h
        · exact Or.inr (by simp [h])

theorem ascending_put {k : κ} {a : α} {entries : List (κ × α)}
    (h : entries.Pairwise fun a b => a.1 < b.1) :
    (put k a entries).Pairwise fun a b => a.1 < b.1 := by
  induction entries with
  | nil => simp [put]
  | cons head rest ih =>
    obtain ⟨hhead, hrest⟩ := List.pairwise_cons.mp h
    unfold put
    split
    · rename_i hlt
      refine List.pairwise_cons.mpr ⟨fun e he => ?_, ih hrest⟩
      rcases mem_put he with rfl | he
      · exact hlt
      · exact hhead e he
    · split
      · rename_i hlt
        refine List.pairwise_cons.mpr ⟨fun e he => ?_, h⟩
        rcases List.mem_cons.mp he with rfl | he
        · exact hlt
        · exact Std.lt_trans hlt (hhead e he)
      · rename_i hge hle
        have heq : head.1 = k := Std.Trichotomous.trichotomous _ _ hge hle
        exact List.pairwise_cons.mpr ⟨fun e he => heq ▸ hhead e he, hrest⟩

omit [Std.IsLinearOrder κ] in
theorem lookup_eq_none_of_lt {k : κ} {entries : List (κ × α)}
    (h : ∀ e ∈ entries, k < e.1) : lookup k entries = none := by
  match entries with
  | [] => rfl
  | head :: rest =>
    have hk : k < head.1 := h head (by simp)
    simp [lookup, hk, Std.Asymm.asymm _ _ hk]

theorem lookup_eq_some_iff {k : κ} {a : α} {entries : List (κ × α)}
    (h : entries.Pairwise fun a b => a.1 < b.1) :
    lookup k entries = some a ↔ (k, a) ∈ entries := by
  induction entries with
  | nil => simp [lookup]
  | cons head rest ih =>
    obtain ⟨hhead, hrest⟩ := List.pairwise_cons.mp h
    obtain ⟨k', a'⟩ := head
    simp only [lookup]
    split
    · rename_i hlt
      rw [ih hrest, List.mem_cons, Prod.mk.injEq]
      exact ⟨Or.inr, fun h => h.resolve_left fun he => Std.lt_irrefl (he.1 ▸ hlt)⟩
    · rename_i hge
      split
      · rename_i hlt
        have hnot : ¬(k, a) ∈ (k', a') :: rest := by
          intro hmem
          rcases List.mem_cons.mp hmem with he | he
          · exact Std.lt_irrefl ((Prod.mk.inj he).1 ▸ hlt)
          · exact Std.lt_irrefl (Std.lt_trans hlt (hhead _ he))
        simp [hnot]
      · rename_i hle
        have hk : k' = k := Std.Trichotomous.trichotomous _ _ hge hle
        subst hk
        constructor
        · rintro ⟨⟩
          simp
        · intro hmem
          rcases List.mem_cons.mp hmem with he | he
          · rw [(Prod.mk.inj he).2]
          · exact absurd (hhead _ he) Std.lt_irrefl

theorem lookup_put [DecidableEq κ] (k k' : κ) (a : α) {entries : List (κ × α)}
    (h : entries.Pairwise fun a b => a.1 < b.1) :
    lookup k' (put k a entries) = if k' = k then some a else lookup k' entries := by
  induction entries with
  | nil =>
    by_cases hk : k' = k
    · subst hk
      simp [put, lookup, Std.lt_irrefl]
    · by_cases h₁ : k < k'
      · simp [put, lookup, h₁, hk]
      · have h₂ : k' < k := by
          apply Decidable.byContradiction
          intro h₂
          exact hk (Std.Trichotomous.trichotomous _ _ h₂ h₁)
        simp [put, lookup, h₁, h₂, hk]
  | cons head rest ih =>
    obtain ⟨hhead, hrest⟩ := List.pairwise_cons.mp h
    obtain ⟨key, value⟩ := head
    simp only [put]
    split
    · rename_i hlt
      simp only [lookup, ih hrest]
      by_cases hk : k' = k
      · subst hk
        simp [hlt]
      · simp [hk]
    · rename_i hge
      split
      · rename_i hlt
        simp only [lookup]
        by_cases hk : k' = k
        · subst hk
          simp [Std.lt_irrefl]
        · by_cases h₁ : k < k'
          · simp [h₁, hk]
          · have h₂ : k' < k := by
              apply Decidable.byContradiction
              intro h₂
              exact hk (Std.Trichotomous.trichotomous _ _ h₂ h₁)
            have h₃ : k' < key := Std.lt_trans h₂ hlt
            simp [h₁, h₂, h₃, hk, Std.Asymm.asymm _ _ h₃]
      · rename_i hle
        have hkey : key = k := Std.Trichotomous.trichotomous _ _ hge hle
        subst hkey
        simp only [lookup]
        by_cases hk : k' = key
        · subst hk
          simp [Std.lt_irrefl]
        · by_cases h₁ : key < k'
          · simp [h₁, hk]
          · have h₂ : k' < key := by
              apply Decidable.byContradiction
              intro h₂
              exact hk (Std.Trichotomous.trichotomous _ _ h₂ h₁)
            simp [h₁, h₂, hk]

/-- Ascending lists with the same answers are equal. -/
theorem entries_ext {s t : List (κ × α)}
    (hs : s.Pairwise fun a b => a.1 < b.1) (ht : t.Pairwise fun a b => a.1 < b.1)
    (h : ∀ k, lookup k s = lookup k t) : s = t := by
  induction s generalizing t with
  | nil =>
    match t with
    | [] => rfl
    | e :: t =>
      have := h e.1
      simp [lookup, Std.lt_irrefl] at this
  | cons e s ih =>
    match t with
    | [] =>
      have := h e.1
      simp [lookup, Std.lt_irrefl] at this
    | f :: t =>
      have hemem : (e.1, e.2) ∈ f :: t :=
        (lookup_eq_some_iff ht).mp (by rw [← h]; simp [lookup, Std.lt_irrefl])
      have hfmem : (f.1, f.2) ∈ e :: s :=
        (lookup_eq_some_iff hs).mp (by rw [h]; simp [lookup, Std.lt_irrefl])
      obtain ⟨he, hs'⟩ := List.pairwise_cons.mp hs
      obtain ⟨hf, ht'⟩ := List.pairwise_cons.mp ht
      have hef : e = f := by
        rcases List.mem_cons.mp hemem with h₁ | h₁
        · exact h₁
        · rcases List.mem_cons.mp hfmem with h₂ | h₂
          · exact h₂.symm
          · exact absurd (Std.lt_trans (hf _ h₁) (he _ h₂)) Std.lt_irrefl
      subst hef
      refine congrArg _ (ih hs' ht' fun k => ?_)
      have hk := h k
      simp only [lookup] at hk
      by_cases h₁ : e.1 < k
      · simpa [h₁] using hk
      · have hsnone : ∀ {u : List (κ × α)}, (∀ a ∈ u, e.1 < a.1) → lookup k u = none := by
          intro u hu
          apply lookup_eq_none_of_lt
          intro a ha
          by_cases h₂ : k < e.1
          · exact Std.lt_trans h₂ (hu a ha)
          · have : e.1 = k := Std.Trichotomous.trichotomous _ _ h₁ h₂
            exact this ▸ hu a ha
        rw [hsnone he, hsnone hf]

/-! ## The operations -/

/-- The table without entries. -/
def empty : Table κ α := ⟨[], List.Pairwise.nil⟩

instance : Inhabited (Table κ α) := ⟨empty⟩

/-- The value at a key. -/
def find? (t : Table κ α) (k : κ) : Option α :=
  lookup k t.entries

/-- The table with the value at one key set. -/
def insert (t : Table κ α) (k : κ) (a : α) : Table κ α :=
  ⟨put k a t.entries, ascending_put t.ascending⟩

/-- The table of a list of entries; of two with one key the later one counts. -/
def ofList (entries : List (κ × α)) : Table κ α :=
  entries.foldl (fun t e => t.insert e.1 e.2) empty

/-- Both tables together; where both have a key, `overlay` counts. -/
def merge (base overlay : Table κ α) : Table κ α :=
  overlay.entries.foldl (fun t e => t.insert e.1 e.2) base

/-- The keys, ascending. -/
def keys (t : Table κ α) : List κ :=
  t.entries.map Prod.fst

/-- The values, by ascending key. -/
def values (t : Table κ α) : List α :=
  t.entries.map Prod.snd

/-- The number of entries. -/
def size (t : Table κ α) : Nat :=
  t.entries.length

/-! ## Their laws -/

theorem ext_find? {s t : Table κ α} (h : ∀ k, s.find? k = t.find? k) : s = t := by
  obtain ⟨s, hs⟩ := s
  obtain ⟨t, ht⟩ := t
  have : s = t := entries_ext hs ht h
  subst this
  rfl

theorem find?_eq_some_iff {t : Table κ α} {k : κ} {a : α} :
    t.find? k = some a ↔ (k, a) ∈ t.entries :=
  lookup_eq_some_iff t.ascending

omit [LE κ] [Std.IsLinearOrder κ] [Std.LawfulOrderLT κ] in
@[simp] theorem find?_empty (k : κ) : (empty : Table κ α).find? k = none := rfl

theorem find?_insert [DecidableEq κ] (t : Table κ α) (k k' : κ) (a : α) :
    (t.insert k a).find? k' = if k' = k then some a else t.find? k' :=
  lookup_put k k' a t.ascending

omit [LE κ] [DecidableLT κ] [Std.IsLinearOrder κ] [Std.LawfulOrderLT κ] in
theorem keys_ascending (t : Table κ α) : t.keys.Pairwise (· < ·) :=
  List.pairwise_map.mpr t.ascending

/-- A fold of insertions answers with the last entry of a key, or as before. -/
theorem find?_foldl_insert [DecidableEq κ] (entries : List (κ × α)) (t : Table κ α) (k : κ) :
    (entries.foldl (fun t e => t.insert e.1 e.2) t).find? k =
      ((entries.reverse.find? fun e => e.1 = k).map Prod.snd).or (t.find? k) := by
  induction entries generalizing t with
  | nil => simp
  | cons e rest ih =>
    rw [List.foldl_cons, ih, find?_insert, List.reverse_cons, List.find?_append]
    cases hrest : rest.reverse.find? fun e => e.1 = k with
    | some a => simp
    | none =>
      by_cases hk : k = e.1
      · subst hk
        simp
      · have hk' : ¬e.1 = k := fun h => hk h.symm
        simp [hk, hk']

theorem find?_ofList [DecidableEq κ] (entries : List (κ × α)) (k : κ) :
    (ofList entries).find? k = (entries.reverse.find? fun e => e.1 = k).map Prod.snd := by
  simp [ofList, find?_foldl_insert]

/-- In an ascending list the last entry of a key is its only one. -/
theorem find?_reverse_entries [DecidableEq κ] (t : Table κ α) (k : κ) :
    (t.entries.reverse.find? fun e => e.1 = k).map Prod.snd = t.find? k := by
  cases h : t.entries.reverse.find? fun e => e.1 = k with
  | some e =>
    have hk : e.1 = k := by simpa using List.find?_some h
    have hmem : e ∈ t.entries := by simpa using List.mem_of_find?_eq_some h
    subst hk
    exact (find?_eq_some_iff.mpr hmem).symm
  | none =>
    cases h' : t.find? k with
    | none => rfl
    | some a =>
      have hmem := find?_eq_some_iff.mp h'
      have := List.find?_eq_none.mp h (k, a) (by simpa using hmem)
      simp at this

theorem find?_merge [DecidableEq κ] (base overlay : Table κ α) (k : κ) :
    (base.merge overlay).find? k = (overlay.find? k).or (base.find? k) := by
  rw [merge, find?_foldl_insert, find?_reverse_entries]

end Table
end LifeCourse
