import DataRelay.Lib.Dict
import Mathlib.Tactic

/-! JSON values with insertion-ordered members, as a dictionary language keeps
them. A float is carried as its printed form and is never computed with. -/

inductive Json where
  | null
  | bool (b : Bool)
  | int (i : ℤ)
  | float (repr : String)
  | str (s : String)
  | arr (items : List Json)
  | obj (members : List (String × Json))
  deriving Repr, Inhabited

namespace Json

/-- The members of one object. -/
abbrev Members := List (String × Json)

mutual
def beq : Json → Json → Bool
  | .null, .null => true
  | .bool a, .bool b => a == b
  | .int a, .int b => a == b
  | .float a, .float b => a == b
  | .str a, .str b => a == b
  | .arr a, .arr b => beqItems a b
  | .obj a, .obj b => beqMembers a b
  | _, _ => false

def beqItems : List Json → List Json → Bool
  | [], [] => true
  | a :: as, b :: bs => beq a b && beqItems as bs
  | _, _ => false

def beqMembers : Members → Members → Bool
  | [], [] => true
  | (k, a) :: as, (l, b) :: bs => k == l && beq a b && beqMembers as bs
  | _, _ => false
end

mutual
theorem beq_iff : ∀ a b : Json, beq a b = true ↔ a = b
  | .null, b => by cases b <;> simp [beq]
  | .bool _, b => by cases b <;> simp [beq]
  | .int _, b => by cases b <;> simp [beq]
  | .float _, b => by cases b <;> simp [beq]
  | .str _, b => by cases b <;> simp [beq]
  | .arr a, b => by cases b <;> simp [beq, beqItems_iff a]
  | .obj a, b => by cases b <;> simp [beq, beqMembers_iff a]

theorem beqItems_iff : ∀ a b : List Json, beqItems a b = true ↔ a = b
  | [], b => by cases b <;> simp [beqItems]
  | x :: xs, b => by cases b <;> simp [beqItems, beq_iff x, beqItems_iff xs]

theorem beqMembers_iff : ∀ a b : Members, beqMembers a b = true ↔ a = b
  | [], b => by cases b <;> simp [beqMembers]
  | (k, x) :: xs, [] => by simp [beqMembers]
  | (k, x) :: xs, (l, y) :: ys => by
    simp [beqMembers, beq_iff x y, beqMembers_iff xs ys, and_assoc]
end

instance : DecidableEq Json := fun a b => decidable_of_iff _ (beq_iff a b)

mutual
/-- No object in the tree repeats a member name. -/
def WellFormed : Json → Prop
  | .arr xs => WellFormedItems xs
  | .obj ms => (ms.map Prod.fst).Nodup ∧ WellFormedMembers ms
  | _ => True

def WellFormedItems : List Json → Prop
  | [] => True
  | x :: xs => WellFormed x ∧ WellFormedItems xs

def WellFormedMembers : Members → Prop
  | [] => True
  | (_, v) :: ms => WellFormed v ∧ WellFormedMembers ms
end

theorem wellFormedItems_iff (xs : List Json) :
    WellFormedItems xs ↔ ∀ x ∈ xs, WellFormed x := by
  induction xs with
  | nil => simp [WellFormedItems]
  | cons x xs ih => simp [WellFormedItems, ih]

theorem wellFormedMembers_iff (ms : Members) :
    WellFormedMembers ms ↔ ∀ m ∈ ms, WellFormed m.2 := by
  induction ms with
  | nil => simp [WellFormedMembers]
  | cons m ms ih => simp [WellFormedMembers, ih]

theorem WellFormed.item {xs : List Json} (h : WellFormed (.arr xs)) {x : Json}
    (hx : x ∈ xs) : WellFormed x :=
  (wellFormedItems_iff xs).mp h x hx

theorem WellFormed.keys {ms : Members} (h : WellFormed (.obj ms)) :
    (ms.map Prod.fst).Nodup := h.1

theorem WellFormed.member {ms : Members} (h : WellFormed (.obj ms)) {k : String} {v : Json}
    (hm : (k, v) ∈ ms) : WellFormed v :=
  (wellFormedMembers_iff ms).mp h.2 (k, v) hm

/-- The list position a signed subscript denotes: negative subscripts count from the end. -/
def resolveIndex (n : ℕ) (i : ℤ) : Option ℕ :=
  if 0 ≤ i ∧ i < n then some i.toNat
  else if -(n : ℤ) ≤ i ∧ i < 0 then some (n + i).toNat
  else none

theorem resolveIndex_lt {n m : ℕ} {i : ℤ} (h : resolveIndex n i = some m) : m < n := by
  unfold resolveIndex at h
  split_ifs at h <;> simp only [Option.some.injEq] at h <;> omega

end Json
