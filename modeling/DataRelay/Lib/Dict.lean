import Mathlib.Data.List.Nodup
import Mathlib.Tactic

/-! Dictionaries as member lists in insertion order: lookup, assignment and deletion with
the order a scripting language keeps. -/
namespace Dict

variable {κ α : Type*} [DecidableEq κ]

/-- Member lookup, `d.get(k)`. -/
def get? (k : κ) : List (κ × α) → Option α
  | [] => none
  | (l, v) :: ms => if l = k then some v else get? k ms

/-- Assignment `d[k] = v`: in place when the key is present, else at the end. -/
def set (k : κ) (v : α) : List (κ × α) → List (κ × α)
  | [] => [(k, v)]
  | (l, w) :: ms => if l = k then (l, v) :: ms else (l, w) :: set k v ms

/-- Deletion `del d[k]`. -/
def erase (k : κ) : List (κ × α) → List (κ × α)
  | [] => []
  | (l, w) :: ms => if l = k then ms else (l, w) :: erase k ms

/-- The members whose key is kept. -/
def restrict (keep : κ → Bool) (ms : List (κ × α)) : List (κ × α) := ms.filter fun m => keep m.1

def mapValues (f : κ → α → α) (ms : List (κ × α)) : List (κ × α) :=
  ms.map fun m => (m.1, f m.1 m.2)

def has (k : κ) (ms : List (κ × α)) : Bool := (get? k ms).isSome

attribute [local grind =] get? set erase restrict mapValues has

@[simp] theorem get?_nil (k : κ) : get? k ([] : List (κ × α)) = none := rfl

@[simp] theorem get?_cons (k l : κ) (v : α) (ms : List (κ × α)) :
    get? k ((l, v) :: ms) = if l = k then some v else get? k ms := rfl

@[simp] theorem get?_set (k l : κ) (v : α) (ms : List (κ × α)) :
    get? l (set k v ms) = if k = l then some v else get? l ms := by
  induction ms with
  | nil => simp [set]
  | cons m ms ih =>
    obtain ⟨n, w⟩ := m
    by_cases hn : n = k
    · subst hn
      by_cases hl : n = l <;> simp [set, hl]
    · by_cases hl : k = l
      · subst hl
        simp [set, hn, ih]
      · simp [set, hn, hl, ih]

theorem get?_of_mem {k : κ} {v : α} {ms : List (κ × α)}
    (hd : (ms.map Prod.fst).Nodup) (h : (k, v) ∈ ms) : get? k ms = some v := by
  induction ms with
  | nil => simp at h
  | cons m ms ih =>
    obtain ⟨l, w⟩ := m
    rw [List.map_cons, List.nodup_cons] at hd
    rcases List.mem_cons.mp h with he | hm
    · obtain ⟨rfl, rfl⟩ := Prod.mk.inj he
      simp
    · have hne : l ≠ k := by
        rintro rfl
        exact hd.1 (List.mem_map.mpr ⟨(l, v), hm, rfl⟩)
      simp [hne, ih hd.2 hm]

theorem mem_of_get? {k : κ} {v : α} {ms : List (κ × α)}
    (h : get? k ms = some v) : (k, v) ∈ ms := by
  induction ms with
  | nil => simp at h
  | cons m ms ih =>
    obtain ⟨l, w⟩ := m
    by_cases hl : l = k
    · simp only [get?_cons, hl, ↓reduceIte, Option.some.injEq] at h
      simp [hl, h]
    · simp only [get?_cons, hl, ↓reduceIte] at h
      exact List.mem_cons_of_mem _ (ih h)

theorem has_iff {k : κ} {ms : List (κ × α)} : has k ms = true ↔ k ∈ ms.map Prod.fst := by
  induction ms with
  | nil => simp [has]
  | cons m ms ih =>
    obtain ⟨l, w⟩ := m
    unfold has at ih ⊢
    by_cases hl : l = k
    · simp [hl]
    · rw [get?_cons, if_neg hl, ih, List.map_cons, List.mem_cons, or_iff_right (Ne.symm hl)]

theorem has_iff_mem {k : κ} {ms : List (κ × α)} : has k ms = true ↔ ∃ m ∈ ms, m.1 = k := by
  rw [has_iff, List.mem_map]

theorem set_self {k : κ} {v : α} {ms : List (κ × α)}
    (h : get? k ms = some v) : set k v ms = ms := by
  induction ms with
  | nil => simp at h
  | cons m ms ih =>
    obtain ⟨l, w⟩ := m
    by_cases hl : l = k
    · simp only [get?_cons, hl, ↓reduceIte, Option.some.injEq] at h
      simp [set, hl, h]
    · simp only [get?_cons, hl, ↓reduceIte] at h
      simp [set, hl, ih h]

@[simp] theorem set_set (k : κ) (v w : α) (ms : List (κ × α)) :
    set k w (set k v ms) = set k w ms := by
  induction ms with
  | nil => simp [set]
  | cons m ms ih =>
    obtain ⟨l, u⟩ := m
    by_cases hl : l = k
    · simp [set, hl]
    · simp [set, hl, ih]

/-- Neither assignment nor deletion touches another key. -/
theorem get?_erase_ne {k l : κ} (h : k ≠ l) (ms : List (κ × α)) :
    get? l (erase k ms) = get? l ms := by
  induction ms with
  | nil => rfl
  | cons m ms ih =>
    obtain ⟨n, w⟩ := m
    by_cases hn : n = k
    · subst hn
      simp [erase, h]
    · simp [erase, hn, ih]

@[simp] theorem get?_restrict (keep : κ → Bool) (k : κ) (ms : List (κ × α)) :
    get? k (restrict keep ms) = if keep k then get? k ms else none := by
  induction ms with
  | nil => simp [restrict]
  | cons m ms ih =>
    obtain ⟨n, w⟩ := m
    unfold restrict at ih ⊢
    by_cases hn : n = k
    · subst hn
      by_cases hk : keep n = true
      · simp [hk]
      · simp [hk, ih]
    · by_cases hk : keep n = true
      · simp [hk, hn, ih]
      · simp [hk, hn, ih]

@[simp] theorem get?_mapValues (f : κ → α → α) (k : κ) (ms : List (κ × α)) :
    get? k (mapValues f ms) = (get? k ms).map (f k) := by
  induction ms with
  | nil => rfl
  | cons m ms ih =>
    obtain ⟨n, w⟩ := m
    unfold mapValues at ih ⊢
    by_cases hn : n = k
    · simp [hn]
    · simp [hn, ih]

theorem keys_set (k : κ) (v : α) (ms : List (κ × α)) :
    (set k v ms).map Prod.fst =
      if k ∈ ms.map Prod.fst then ms.map Prod.fst else ms.map Prod.fst ++ [k] := by
  induction ms with
  | nil => simp [set]
  | cons m ms ih =>
    obtain ⟨n, w⟩ := m
    by_cases hn : n = k
    · simp [set, hn]
    · simp only [set, hn, ↓reduceIte, List.map_cons, ih, List.mem_cons, Ne.symm hn, false_or]
      split_ifs <;> rfl

theorem keys_erase_sublist (k : κ) (ms : List (κ × α)) :
    ((erase k ms).map Prod.fst).Sublist (ms.map Prod.fst) := by
  induction ms with
  | nil => exact List.Sublist.refl _
  | cons m ms ih =>
    obtain ⟨n, w⟩ := m
    by_cases hn : n = k
    · simp [erase, hn]
    · simpa [erase, hn] using ih

theorem nodup_set {ms : List (κ × α)} (h : (ms.map Prod.fst).Nodup) (k : κ) (v : α) :
    ((set k v ms).map Prod.fst).Nodup := by
  rw [keys_set]
  split_ifs with hk
  · exact h
  · exact List.nodup_append.mpr ⟨h, List.nodup_singleton k, by
      rintro a ha b hb rfl
      exact hk (List.mem_singleton.mp hb ▸ ha)⟩

theorem nodup_erase {ms : List (κ × α)} (h : (ms.map Prod.fst).Nodup) (k : κ) :
    ((erase k ms).map Prod.fst).Nodup :=
  h.sublist (keys_erase_sublist k ms)

theorem mem_iff_get? {ms : List (κ × α)} (h : (ms.map Prod.fst).Nodup) {k : κ} {v : α} :
    (k, v) ∈ ms ↔ get? k ms = some v :=
  ⟨get?_of_mem h, mem_of_get?⟩

theorem mem_set {k l : κ} {v w : α} {ms : List (κ × α)}
    (h : (l, w) ∈ set k v ms) : (l = k ∧ w = v) ∨ (l, w) ∈ ms := by
  induction ms with
  | nil => simpa [set] using h
  | cons m ms ih =>
    obtain ⟨n, u⟩ := m
    by_cases hn : n = k
    · simp only [set, hn, ↓reduceIte, List.mem_cons, Prod.mk.injEq] at h
      rcases h with h | h
      · exact .inl h
      · exact .inr (List.mem_cons_of_mem _ h)
    · simp only [set, hn, ↓reduceIte, List.mem_cons] at h
      rcases h with h | h
      · exact .inr (h ▸ List.mem_cons_self)
      · exact (ih h).imp id (List.mem_cons_of_mem _)

theorem mem_of_mem_erase {k : κ} {m : κ × α} {ms : List (κ × α)}
    (h : m ∈ erase k ms) : m ∈ ms := by
  induction ms with
  | nil => exact h
  | cons x ms ih =>
    obtain ⟨n, u⟩ := x
    by_cases hn : n = k
    · exact List.mem_cons_of_mem _ (by simpa [erase, hn] using h)
    · simp only [erase, hn, ↓reduceIte, List.mem_cons] at h
      rcases h with h | h
      · exact h ▸ List.mem_cons_self
      · exact List.mem_cons_of_mem _ (ih h)

end Dict
