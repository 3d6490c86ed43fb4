import Mathlib.Data.Set.Card
import Mathlib.Logic.Relation
import Mathlib.Order.Bounds.Basic

/-! Removing unsupported members of a set one at a time. Whatever the order, a removal that
comes to rest leaves the greatest set that supports itself. -/
namespace Pruning

variable {α : Type*}

/-- Every member is supported by the set. -/
def SelfSupported (supported : Set α → α → Prop) (T : Set α) : Prop := ∀ a ∈ T, supported T a

/-- One member goes that the set does not support. -/
inductive Prune (supported : Set α → α → Prop) : Set α → Set α → Prop where
  | remove {S : Set α} {a : α} (mem : a ∈ S) (unsupported : ¬ supported S a) :
    Prune supported S (S \ {a})

/-- More members support more. -/
def Monotone (supported : Set α → α → Prop) : Prop :=
  ∀ S T a, S ⊆ T → supported S a → supported T a

variable {supported : Set α → α → Prop} {S₀ S T : Set α}

/-- A removal takes nothing from a set that supports itself. -/
theorem Prune.keeps (mono : Monotone supported) (hT : SelfSupported supported T) (hsub : T ⊆ S₀)
    (h : Prune supported S₀ S) : T ⊆ S := by
  cases h with
  | remove mem unsupported =>
    intro b hb
    refine ⟨hsub hb, ?_⟩
    rintro rfl
    exact unsupported (mono _ _ _ hsub (hT b hb))

theorem Prune.subset (h : Prune supported S₀ S) : S ⊆ S₀ := by
  cases h with
  | remove mem unsupported => exact Set.sdiff_subset

/-- Each removal makes a finite set smaller. -/
theorem Prune.ncard_lt (hfin : S₀.Finite) (h : Prune supported S₀ S) : S.ncard < S₀.ncard := by
  cases h with
  | remove mem unsupported => exact Set.ncard_sdiff_singleton_lt_of_mem mem hfin

theorem run_subset (h : Relation.ReflTransGen (Prune supported) S₀ S) : S ⊆ S₀ := by
  induction h with
  | refl => exact subset_rfl
  | tail _ hstep ih => exact hstep.subset.trans ih

theorem run_keeps (mono : Monotone supported) (hT : SelfSupported supported T) (hsub : T ⊆ S₀)
    (h : Relation.ReflTransGen (Prune supported) S₀ S) : T ⊆ S := by
  induction h with
  | refl => exact hsub
  | tail _ hstep ih => exact hstep.keeps mono hT ih

/-- A run of removals that ends in a set supporting itself has found the greatest one. -/
theorem isGreatest_of_run (mono : Monotone supported)
    (hrun : Relation.ReflTransGen (Prune supported) S₀ S) (hrest : SelfSupported supported S) :
    IsGreatest {T | T ⊆ S₀ ∧ SelfSupported supported T} S := by
  constructor
  · exact ⟨run_subset hrun, hrest⟩
  · rintro T ⟨hsub, hT⟩
    exact run_keeps mono hT hsub hrun

end Pruning
