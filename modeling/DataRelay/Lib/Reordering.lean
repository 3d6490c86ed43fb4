import Mathlib.Data.List.Sort
import Mathlib.Tactic

/-! Keyed lists up to order: what a stable sort by key forgets, and when running the entries
in another order makes no difference. -/
namespace Reordering

variable {α κ : Type*} [DecidableEq κ] (key : α → κ)

/-- Both lists hold the same entries of each key in the same order. -/
def SameFibers (l l' : List α) : Prop :=
  ∀ k, l.filter (fun a => key a = k) = l'.filter fun a => key a = k

namespace SameFibers

variable {key} {l l' m m' : List α}

theorem mem_iff (h : SameFibers key l l') (a : α) : a ∈ l ↔ a ∈ l' := by
  have := congrArg (a ∈ ·) (h (key a))
  simpa using this

theorem filter (h : SameFibers key l l') (p : α → Bool) :
    SameFibers key (l.filter p) (l'.filter p) := by
  intro k
  rw [List.filter_filter, List.filter_filter]
  simpa [List.filter_filter, Bool.and_comm] using congrArg (List.filter p) (h k)

theorem append (h : SameFibers key l l') (hm : SameFibers key m m') :
    SameFibers key (l ++ m) (l' ++ m') := by
  intro k
  rw [List.filter_append, List.filter_append, h k, hm k]

/-- A map that keeps the keys keeps the fibers together. -/
theorem map {β : Type*} {key' : β → κ} (h : SameFibers key l l') (g : α → β)
    (hg : ∀ a, key' (g a) = key a) : SameFibers key' (l.map g) (l'.map g) := by
  intro k
  simp only [List.filter_map, Function.comp_def, hg]
  rw [h k]

/-- The order of the keys and the entries of each key determine a list. -/
theorem eq_of_keys (h : SameFibers key l l') (hkeys : l.map key = l'.map key) : l = l' := by
  induction l generalizing l' with
  | nil => simpa using hkeys.symm
  | cons a l ih =>
    cases l' with
    | nil => simp at hkeys
    | cons b l' =>
      rw [List.map_cons, List.map_cons, List.cons.injEq] at hkeys
      have hab : a = b := by
        have := h (key a)
        simp only [hkeys.1, List.filter_cons_of_pos, decide_true] at this
        exact (List.cons.inj this).1
      subst hab
      congr 1
      refine ih (fun k => ?_) hkeys.2
      have := h k
      by_cases hk : key a = k
      · simpa [hk] using this
      · simpa [hk] using this

end SameFibers

section StableSort

variable {α κ : Type*} [LinearOrder κ] (key : α → κ)

/-- `sorted(l, key=…)`. -/
def sortBy (l : List α) : List α := l.insertionSort fun a b => key a ≤ key b

/-- The sort is stable: it keeps the order of the entries of one key. -/
theorem sortBy_sameFibers (l : List α) : SameFibers key (sortBy key l) l := by
  intro k
  set c := l.filter fun a => key a = k with hc
  have hsorted : c.Pairwise fun a b => key a ≤ key b := by
    refine List.pairwise_of_forall_mem_list fun a ha b hb => ?_
    have hka : key a = k := by simpa using (List.mem_filter.mp ha).2
    have hkb : key b = k := by simpa using (List.mem_filter.mp hb).2
    rw [hka, hkb]
  have hsub : c.Sublist (sortBy key l) :=
    List.sublist_insertionSort hsorted List.filter_sublist
  have hfilter : c.Sublist ((sortBy key l).filter fun a => key a = k) := by
    have := hsub.filter fun a => decide (key a = k)
    simpa [hc, List.filter_filter] using this
  have hperm : ((sortBy key l).filter fun a => key a = k).Perm c :=
    (List.perm_insertionSort _ l).filter _
  exact (hfilter.eq_of_length hperm.length_eq.symm).symm

/-- All a stable sort forgets is how the keys were interleaved. -/
theorem sameFibers_of_sortBy_eq {l l' : List α} (h : sortBy key l = sortBy key l') :
    SameFibers key l l' := fun k => by
  rw [← sortBy_sameFibers key l, ← sortBy_sameFibers key l', h]

end StableSort

section Run

variable {σ : Type*} (step : α → σ → Option σ)

/-- Run every entry in turn; the first failure ends the run. -/
def runAll : List α → σ → Option σ
  | [], s => some s
  | a :: l, s => (step a s).bind (runAll l)

theorem runAll_map {β : Type*} (step : β → σ → Option σ) (g : α → β) (l : List α) (s : σ) :
    runAll step (l.map g) s = runAll (fun a => step (g a)) l s := by
  induction l generalizing s with
  | nil => rfl
  | cons a l ih => simp [runAll, ih]

/-- `a` and `b` may be run in either order. -/
def Commute (a b : α) : Prop := ∀ s, (step a s).bind (step b) = (step b s).bind (step a)

variable {step}

/-- An entry that commutes with everything before it may go first. -/
theorem runAll_move {a : α} {l : List α} (h : ∀ x ∈ l, Commute step x a) (l' : List α) (s : σ) :
    runAll step (l ++ a :: l') s = runAll step (a :: (l ++ l')) s := by
  induction l generalizing s with
  | nil => rfl
  | cons x l ih =>
    have hxa := h x (by simp) s
    have ih' (t : σ) : runAll step (l ++ a :: l') t = (step a t).bind (runAll step (l ++ l')) :=
      ih (fun y hy => h y (by simp [hy])) t
    calc runAll step (x :: l ++ a :: l') s
        = (step x s).bind fun t => (step a t).bind (runAll step (l ++ l')) := by
          simp [runAll, ih']
      _ = ((step x s).bind (step a)).bind (runAll step (l ++ l')) := (Option.bind_assoc _ _ _).symm
      _ = ((step a s).bind (step x)).bind (runAll step (l ++ l')) := by rw [hxa]
      _ = runAll step (a :: (x :: l ++ l')) s := by simp [runAll, Option.bind_assoc]

/-- Two lists that agree on every pair of dependent keys run alike, when entries of
independent keys commute. -/
theorem runAll_eq_of_projections (dep : κ → κ → Prop) (hrefl : ∀ k, dep k k)
    (hsymm : ∀ j k, dep j k → dep k j)
    (hcomm : ∀ a b, ¬ dep (key a) (key b) → Commute step a b) {l l' : List α}
    (hproj : ∀ j k, dep j k → l.filter (fun a => key a = j ∨ key a = k) =
      l'.filter fun a => key a = j ∨ key a = k) (s : σ) :
    runAll step l s = runAll step l' s := by
  induction l generalizing l' s with
  | nil =>
    cases l' with
    | nil => rfl
    | cons b l' => simpa using hproj (key b) (key b) (hrefl _)
  | cons a l ih =>
    have hself := hproj (key a) (key a) (hrefl _)
    rw [List.filter_cons_of_pos (by simp), eq_comm, List.filter_eq_cons_iff] at hself
    obtain ⟨before, after, rfl, hbefore, -, -⟩ := hself
    have hne (x : α) (hx : x ∈ before) : key x ≠ key a := by simpa using hbefore x hx
    have hfree (x : α) (hx : x ∈ before) : ¬ dep (key x) (key a) := by
      intro hdep
      have hpair := hproj _ _ hdep
      rw [List.filter_cons_of_pos (by simp), List.filter_append] at hpair
      cases hf : before.filter fun y => key y = key x ∨ key y = key a with
      | nil => exact absurd (List.filter_eq_nil_iff.mp hf x hx) (by simp)
      | cons y ys =>
        rw [hf, List.cons_append, List.cons.injEq] at hpair
        have hy : y ∈ before := (List.mem_filter.mp (hf ▸ List.mem_cons_self)).1
        exact hne y hy (hpair.1 ▸ rfl)
    rw [runAll_move fun x hx => hcomm x a (hfree x hx)]
    refine congrArg (Option.bind (step a s)) (funext fun t => ih (fun j k hdep => ?_) t)
    have hpair := hproj j k hdep
    rw [List.filter_append] at hpair ⊢
    by_cases hp : key a = j ∨ key a = k
    · have hnil : before.filter (fun y => key y = j ∨ key y = k) = [] := by
        refine List.filter_eq_nil_iff.mpr fun y hy => ?_
        have hfy := hfree y hy
        simp only [decide_eq_true_eq]
        rintro (rfl | rfl)
        · exact hp.elim (fun h => hne y hy h.symm) fun h => hfy (h ▸ hdep)
        · exact hp.elim (fun h => hfy (h ▸ hsymm _ _ hdep)) fun h => hne y hy h.symm
      rw [hnil, List.filter_cons_of_pos (by simpa using hp),
        List.filter_cons_of_pos (by simpa using hp), List.nil_append, List.cons.injEq] at hpair
      rw [hnil, List.nil_append]
      exact hpair.2
    · rwa [List.filter_cons_of_neg (by simpa using hp),
        List.filter_cons_of_neg (by simpa using hp)] at hpair

end Run

end Reordering
