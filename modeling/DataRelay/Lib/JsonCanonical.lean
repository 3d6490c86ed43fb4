import DataRelay.Lib.Json
import DataRelay.Lib.Reordering
import Mathlib.Data.String.Basic

/-! JSON values with their members sorted by name, as a dump with sorted keys prints them.
What such a dump forgets is the order of the members. -/
namespace Json
open Reordering

mutual
/-- The value a dump with sorted keys prints. -/
def sortKeys : Json → Json
  | .arr xs => .arr (sortKeysItems xs)
  | .obj ms => .obj (sortBy Prod.fst (sortKeysMembers ms))
  | v => v

def sortKeysItems : List Json → List Json
  | [] => []
  | x :: xs => sortKeys x :: sortKeysItems xs

def sortKeysMembers : Members → Members
  | [] => []
  | (k, v) :: ms => (k, sortKeys v) :: sortKeysMembers ms
end

mutual
/-- The member names of a value in their order, with everything else blanked out. -/
def memberOrder : Json → Json
  | .arr xs => .arr (memberOrderItems xs)
  | .obj ms => .obj (memberOrderMembers ms)
  | _ => .null

def memberOrderItems : List Json → List Json
  | [] => []
  | x :: xs => memberOrder x :: memberOrderItems xs

def memberOrderMembers : Members → Members
  | [] => []
  | (k, v) :: ms => (k, memberOrder v) :: memberOrderMembers ms
end

theorem keys_sortKeysMembers (ms : Members) :
    (sortKeysMembers ms).map Prod.fst = ms.map Prod.fst := by
  induction ms with
  | nil => rfl
  | cons m ms ih => simp [sortKeysMembers, ih]

theorem keys_memberOrderMembers (ms : Members) :
    (memberOrderMembers ms).map Prod.fst = ms.map Prod.fst := by
  induction ms with
  | nil => rfl
  | cons m ms ih => simp [memberOrderMembers, ih]

mutual
/-- A value is determined by its sorted dump and the order of its members. -/
theorem eq_of_sortKeys_eq : ∀ a b : Json, a.sortKeys = b.sortKeys →
    a.memberOrder = b.memberOrder → a = b
  | .arr xs, b, hs, ho => by
    cases b <;> simp only [sortKeys, reduceCtorEq, arr.injEq] at hs
    rw [eq_of_sortKeysItems_eq xs _ hs (by simpa [memberOrder] using ho)]
  | .obj ms, b, hs, ho => by
    cases b <;> simp only [sortKeys, reduceCtorEq, obj.injEq] at hs
    rename_i ns
    simp only [memberOrder, obj.injEq] at ho
    have hkeys : (sortKeysMembers ms).map Prod.fst = (sortKeysMembers ns).map Prod.fst := by
      rw [keys_sortKeysMembers, keys_sortKeysMembers, ← keys_memberOrderMembers ms, ho,
        keys_memberOrderMembers]
    rw [eq_of_sortKeysMembers_eq ms ns
      ((sameFibers_of_sortBy_eq Prod.fst hs).eq_of_keys hkeys) ho]
  | .null, b, hs, _ => by cases b <;> simp_all [sortKeys]
  | .bool _, b, hs, _ => by cases b <;> simp_all [sortKeys]
  | .int _, b, hs, _ => by cases b <;> simp_all [sortKeys]
  | .float _, b, hs, _ => by cases b <;> simp_all [sortKeys]
  | .str _, b, hs, _ => by cases b <;> simp_all [sortKeys]

theorem eq_of_sortKeysItems_eq : ∀ xs ys : List Json, sortKeysItems xs = sortKeysItems ys →
    memberOrderItems xs = memberOrderItems ys → xs = ys
  | [], ys, hs, _ => by cases ys <;> simp_all [sortKeysItems]
  | x :: xs, ys, hs, ho => by
    cases ys with
    | nil => simp [sortKeysItems] at hs
    | cons y ys =>
      simp only [sortKeysItems, memberOrderItems, List.cons.injEq] at hs ho
      rw [eq_of_sortKeys_eq x y hs.1 ho.1, eq_of_sortKeysItems_eq xs ys hs.2 ho.2]

theorem eq_of_sortKeysMembers_eq : ∀ ms ns : Members, sortKeysMembers ms = sortKeysMembers ns →
    memberOrderMembers ms = memberOrderMembers ns → ms = ns
  | [], ns, hs, _ => by cases ns <;> simp_all [sortKeysMembers]
  | (k, v) :: ms, ns, hs, ho => by
    cases ns with
    | nil => simp [sortKeysMembers] at hs
    | cons n ns =>
      simp only [sortKeysMembers, memberOrderMembers, List.cons.injEq, Prod.mk.injEq] at hs ho
      rw [eq_of_sortKeysMembers_eq ms ns hs.2 ho.2,
        show (k, v) = n from Prod.ext hs.1.1 (eq_of_sortKeys_eq v n.2 hs.1.2 ho.1.2)]
end

end Json
