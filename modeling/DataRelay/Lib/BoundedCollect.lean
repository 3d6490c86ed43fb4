import DataRelay.Lib.Dict
import Mathlib.Data.Finset.Card

/-! Entering items in a dictionary until it holds a given number of keys. The bound loses
nothing as long as the items have no more keys than that between them. -/
namespace BoundedCollect

variable {κ α β : Type*}

section Collect

variable (limit : ℕ) (enter : List (κ × α) → β → List (κ × α))

/-- The items are entered in order; the loop looks at the size before each. -/
def collect : List β → List (κ × α) → List (κ × α)
  | [], out => out
  | x :: xs, out => if limit ≤ out.length then out else collect xs (enter out x)

variable {limit enter}

theorem collect_of_full {out : List (κ × α)} (h : limit ≤ out.length) (xs : List β) :
    collect limit enter xs out = out := by
  cases xs with
  | nil => rfl
  | cons x xs => rw [collect, if_pos h]

theorem collect_append (xs ys : List β) (out : List (κ × α)) :
    collect limit enter (xs ++ ys) out =
      collect limit enter ys (collect limit enter xs out) := by
  induction xs generalizing out with
  | nil => rfl
  | cons x xs ih =>
    rw [List.cons_append, collect, collect]
    split_ifs with hfull
    · exact (collect_of_full hfull ys).symm
    · exact ih (enter out x)

/-- The loop may as well look at the size after each item. -/
theorem collect_cons_of_room {out : List (κ × α)} (h : out.length < limit) (x : β) (xs : List β) :
    collect limit enter (x :: xs) out = collect limit enter xs (enter out x) := by
  rw [collect, if_neg (Nat.not_le_of_lt h)]

theorem collect_flatMap {γ : Type*} (g : γ → List β) (ys : List γ) (out : List (κ × α)) :
    collect limit enter (ys.flatMap g) out =
      ys.foldl (fun out y => collect limit enter (g y) out) out := by
  induction ys generalizing out with
  | nil => rfl
  | cons y ys ih => rw [List.flatMap_cons, collect_append, List.foldl_cons, ih]

theorem collect_induction {P : List (κ × α) → Prop} {xs : List β}
    (hstep : ∀ x ∈ xs, ∀ out, P out → P (enter out x)) {out : List (κ × α)} (h : P out) :
    P (collect limit enter xs out) := by
  induction xs generalizing out with
  | nil => exact h
  | cons x xs ih =>
    rw [collect]
    split_ifs
    · exact h
    · apply ih
      · intro y hy
        exact hstep y (List.mem_cons_of_mem x hy)
      · exact hstep x List.mem_cons_self out h

end Collect

variable [DecidableEq κ]

/-- Entering an item adds its key unless it is there, and nothing else. -/
def EntersKey (key : β → κ) (enter : List (κ × α) → β → List (κ × α)) : Prop :=
  ∀ out x, (enter out x).map Prod.fst =
    if key x ∈ out.map Prod.fst then out.map Prod.fst else out.map Prod.fst ++ [key x]

section Keys

variable {limit : ℕ} {key : β → κ} {enter : List (κ × α) → β → List (κ × α)}

theorem EntersKey.mem_enter (henter : EntersKey key enter) (out : List (κ × α)) (x : β) (k : κ) :
    k ∈ (enter out x).map Prod.fst ↔ k ∈ out.map Prod.fst ∨ k = key x := by
  rw [henter]
  split_ifs with hk
  · constructor
    · exact .inl
    · intro h
      rcases h with h | rfl
      · exact h
      · exact hk
  · rw [List.mem_append, List.mem_singleton]

theorem EntersKey.nodup_enter (henter : EntersKey key enter) {out : List (κ × α)}
    (h : (out.map Prod.fst).Nodup) (x : β) : ((enter out x).map Prod.fst).Nodup := by
  rw [henter]
  split_ifs with hk
  · exact h
  · rw [← List.concat_eq_append]
    exact h.concat hk

theorem EntersKey.mem_collect_of_mem (henter : EntersKey key enter) {k : κ} (xs : List β)
    {out : List (κ × α)} (h : k ∈ out.map Prod.fst) :
    k ∈ (collect limit enter xs out).map Prod.fst :=
  collect_induction (P := fun out => k ∈ out.map Prod.fst)
    (fun x _ out hk => (henter.mem_enter out x k).mpr (.inl hk)) h

/-- Every item is entered, or the dictionary is full. -/
theorem EntersKey.entered_or_full (henter : EntersKey key enter) (xs : List β)
    (out : List (κ × α)) :
    (∀ x ∈ xs, key x ∈ (collect limit enter xs out).map Prod.fst) ∨
      limit ≤ (collect limit enter xs out).length := by
  induction xs generalizing out with
  | nil => exact .inl (by simp)
  | cons x xs ih =>
    rw [collect]
    split_ifs with hfull
    · exact .inr hfull
    · have hx : key x ∈ (enter out x).map Prod.fst := (henter.mem_enter out x _).mpr (.inr rfl)
      refine (ih (enter out x)).imp_left fun hall y hy => ?_
      rcases List.mem_cons.mp hy with rfl | hy
      · exact henter.mem_collect_of_mem xs hx
      · exact hall y hy

theorem EntersKey.mem_of_room (henter : EntersKey key enter) {xs : List β} {out : List (κ × α)}
    (hroom : (collect limit enter xs out).length < limit) {x : β} (hx : x ∈ xs) :
    key x ∈ (collect limit enter xs out).map Prod.fst := by
  rcases henter.entered_or_full xs out with hentered | hfull
  · exact hentered x hx
  · omega

theorem EntersKey.nodup_collect (henter : EntersKey key enter) (xs : List β) :
    ((collect limit enter xs []).map Prod.fst).Nodup :=
  collect_induction (P := fun out => (out.map Prod.fst).Nodup)
    (fun x _ _ h => henter.nodup_enter h x) List.nodup_nil

/-- Only the keys of the items are entered. -/
theorem EntersKey.collected (henter : EntersKey key enter) {xs : List β} (k : κ) :
    k ∈ (collect limit enter xs []).map Prod.fst → k ∈ xs.map key :=
  collect_induction (P := fun out => k ∈ out.map Prod.fst → k ∈ xs.map key)
    (fun x hx out h hk => by
      rcases (henter.mem_enter out x k).mp hk with hold | rfl
      · exact h hold
      · exact List.mem_map_of_mem hx) (by simp)

/-- A bound that the keys together do not exceed loses none of them. -/
theorem EntersKey.mem_collect (henter : EntersKey key enter) {all : Finset κ}
    (hall : all.card ≤ limit) {xs : List β} (hxs : ∀ x ∈ xs, key x ∈ all) {x : β} (hx : x ∈ xs) :
    key x ∈ (collect limit enter xs []).map Prod.fst := by
  rcases henter.entered_or_full xs [] with hentered | hfull
  · exact hentered x hx
  · set keys := (collect limit enter xs []).map Prod.fst with hkeys
    have hnodup : keys.Nodup := henter.nodup_collect xs
    have hsub : keys.toFinset ⊆ all := by
      intro k hk
      obtain ⟨y, hy, rfl⟩ := List.mem_map.mp (henter.collected k (List.mem_toFinset.mp hk))
      exact hxs y hy
    have hcard : all.card ≤ keys.toFinset.card := by
      rw [List.toFinset_card_of_nodup hnodup, hkeys, List.length_map]
      exact hall.trans hfull
    have hsame : keys.toFinset = all := Finset.eq_of_subset_of_card_le hsub hcard
    rw [← List.mem_toFinset, hsame]
    exact hxs x hx

end Keys

/-- Assignment under the key of the item. -/
theorem entersKey_set (key : β → κ) (value : List (κ × α) → β → α) :
    EntersKey key fun out x => Dict.set (key x) (value out x) out :=
  fun out x => Dict.keys_set (key x) (value out x) out

/-- Assignment unless the key is there. -/
theorem entersKey_setDefault (key : β → κ) (value : β → α) :
    EntersKey key fun out x => if Dict.has (key x) out then out else Dict.set (key x) (value x) out := by
  intro out x
  by_cases hk : key x ∈ out.map Prod.fst
  · simp only [Dict.has_iff.mpr hk, ↓reduceIte, hk]
  · have hhas : ¬ Dict.has (key x) out = true := fun h => hk (Dict.has_iff.mp h)
    simp only [hhas, Bool.false_eq_true, ↓reduceIte, Dict.keys_set]

end BoundedCollect
