import DataRelay.Mapping.ConcretePaths
import Mathlib

/-! What is left of an event when the mapped paths are taken out of it. The program removes one
path after the other from a copy, whose lists shift, and then prunes the containers it marked by
their identity; the result is the event without all selected places at once. -/
namespace Mapping
open JsonPath

/-! ### The copy -/

/-- A value whose containers have an identity. -/
inductive Node where
  | scalar (v : Json)
  | list (id : Pos) (items : List Node)
  | dict (id : Pos) (members : List (String × Node))
  deriving Inhabited

mutual
/-- `copy_json_value`. The containers it makes are new; the place a container is copied from stands
for the identity of the copy. -/
def copyJsonValue (place : Pos) : Json → Node
  | .arr xs => .list place (copyItems place 0 xs)
  | .obj ms => .dict place (copyMembers place ms)
  | v => .scalar v

def copyItems (place : Pos) (n : ℕ) : List Json → List Node
  | [] => []
  | x :: xs => copyJsonValue (place ++ [.item n]) x :: copyItems place (n + 1) xs

def copyMembers (place : Pos) : Json.Members → List (String × Node)
  | [] => []
  | (k, v) :: ms => (k, copyJsonValue (place ++ [.member k]) v) :: copyMembers place ms
end

mutual
def Node.toJson : Node → Json
  | .scalar v => v
  | .list _ items => .arr (Node.toItems items)
  | .dict _ members => .obj (Node.toMembers members)

def Node.toItems : List Node → List Json
  | [] => []
  | c :: cs => c.toJson :: Node.toItems cs

def Node.toMembers : List (String × Node) → Json.Members
  | [] => []
  | (k, c) :: cs => (k, c.toJson) :: Node.toMembers cs
end

/-- `id(node)`; a scalar has none that matters. -/
def Node.id? : Node → Option Pos
  | .scalar _ => none
  | .list id _ => some id
  | .dict id _ => some id

/-- `isinstance(node, (dict, list)) and not node`. -/
def Node.isEmptyContainer : Node → Bool
  | .list _ [] => true
  | .dict _ [] => true
  | _ => false

/-! ### Removal -/

/-- `_remove_concrete_path`. The tokens are those of a first match, whose indices are not negative. -/
def removeConcretePath : Pos → Node → Node
  | [], .dict id _ => .dict id []
  | [.item n], .list id items => .list id (items.eraseIdx n)
  | [.member k], .dict id members => .dict id (Dict.erase k members)
  | .item n :: part :: rest, .list id items =>
    match items[n]? with
    | some c => .list id (items.set n (removeConcretePath (part :: rest) c))
    | none => .list id items
  | .member k :: part :: rest, .dict id members =>
    match Dict.get? k members with
    | some c => .dict id (Dict.set k (removeConcretePath (part :: rest) c) members)
    | none => .dict id members
  | _, node => node

/-- The containers met on the way to the parent of the target, the root left out. -/
def affectedOn : Pos → Node → List Pos
  | .item n :: part :: rest, .list _ items =>
    match items[n]? with
    | some c => c.id?.toList ++ affectedOn (part :: rest) c
    | none => []
  | .member k :: part :: rest, .dict _ members =>
    match Dict.get? k members with
    | some c => c.id?.toList ++ affectedOn (part :: rest) c
    | none => []
  | _, _ => []

/-- A token of the sort key: names before indices. -/
def tokenKey : Step → Lex (String ⊕ ℕ)
  | .member k => toLex (.inl k)
  | .item n => toLex (.inr n)

/-- `ordering`. -/
def ordering (tokens : Pos) : ℕ ×ₗ List (Lex (String ⊕ ℕ)) := toLex (tokens.length, tokens.map tokenKey)

mutual
/-- `prune_only_affected`. -/
def pruneOnlyAffected (affected : List Pos) : Node → Node
  | .scalar v => .scalar v
  | .list id items => .list id (pruneItems affected items)
  | .dict id members => .dict id (pruneMembers affected members)

def pruneItems (affected : List Pos) : List Node → List Node
  | [] => []
  | c :: cs =>
    let c := pruneOnlyAffected affected c
    if c.id?.any (· ∈ affected) ∧ c.isEmptyContainer then pruneItems affected cs
    else c :: pruneItems affected cs

def pruneMembers (affected : List Pos) : List (String × Node) → List (String × Node)
  | [] => []
  | (k, c) :: cs =>
    let c := pruneOnlyAffected affected c
    if c.id?.any (· ∈ affected) ∧ c.isEmptyContainer then pruneMembers affected cs
    else (k, c) :: pruneMembers affected cs
end

/-- `_apply_selected_removals`. -/
def applySelectedRemovals (root : Node) (selected : List Pos) : Node :=
  if selected = [] then root
  else if [] ∈ selected then removeConcretePath [] root
  else
    let affected := selected.flatMap fun path => affectedOn path root
    let sorted := selected.insertionSort fun p q => ordering q ≤ ordering p
    pruneOnlyAffected affected (sorted.foldl (fun root tokens => removeConcretePath tokens root) root)

/-- `build_residual_after_mapping`. -/
def buildResidualAfterMapping (lib : PathLibrary) (event : Json) (sourceJsonPaths : List String) :
    Except MapError Json :=
  (selectedConcretePaths lib event sourceJsonPaths).map fun selected =>
    (applySelectedRemovals (copyJsonValue [] event) selected).toJson

/-! ### The event without the selected places -/

/-- What is selected below a step. -/
def below (t : Step) (selected : List Pos) : List Pos :=
  selected.filterMap fun p =>
    match p with
    | s :: q => if s = t then some q else none
    | [] => none

/-- `_is_empty_container`. -/
def isEmptyContainer : Json → Bool
  | .arr [] => true
  | .obj [] => true
  | _ => false

mutual
/-- The value without the selected places. A container that something was selected in goes with the
last of its contents; any other empty container stays. -/
def without (selected : List Pos) : Json → Json
  | .arr xs => .arr (withoutItems selected 0 xs)
  | .obj ms => .obj (withoutMembers selected ms)
  | v => v

def withoutItems (selected : List Pos) (n : ℕ) : List Json → List Json
  | [] => []
  | x :: xs =>
    let inside := below (.item n) selected
    let left := without inside x
    if [] ∈ inside ∨ inside ≠ [] ∧ isEmptyContainer left then withoutItems selected (n + 1) xs
    else left :: withoutItems selected (n + 1) xs

def withoutMembers (selected : List Pos) : Json.Members → Json.Members
  | [] => []
  | (k, x) :: ms =>
    let inside := below (.member k) selected
    let left := without inside x
    if [] ∈ inside ∨ inside ≠ [] ∧ isEmptyContainer left then withoutMembers selected ms
    else (k, left) :: withoutMembers selected ms
end

/-! ### Paths below a step -/

theorem mem_below {t : Step} {q : Pos} {selected : List Pos} :
    q ∈ below t selected ↔ t :: q ∈ selected := by
  simp only [below, List.mem_filterMap]
  constructor
  · rintro ⟨p, hp, h⟩
    cases p with
    | nil => cases h
    | cons s p =>
      simp only at h
      split_ifs at h with hs
      rw [hs, Option.some.inj h] at hp
      exact hp
  · intro h
    exact ⟨t :: q, h, by simp⟩

theorem below_cons_self (t : Step) (q : Pos) (L : List Pos) :
    below t ((t :: q) :: L) = q :: below t L := by
  simp [below]

theorem below_cons_ne {s t : Step} (h : s ≠ t) (q : Pos) (L : List Pos) :
    below t ((s :: q) :: L) = below t L := by
  simp [below, h]

/-- Deep places first, and of one list the last items first. -/
def RemovalOrder (L : List Pos) : Prop := L.Pairwise fun p q => ordering q < ordering p

theorem ordering_cons_lt {t : Step} {p q : Pos} :
    ordering (t :: p) < ordering (t :: q) ↔ ordering p < ordering q := by
  simp [ordering, Prod.Lex.toLex_lt_toLex]

theorem RemovalOrder.below {L : List Pos} (h : RemovalOrder L) (t : Step) :
    RemovalOrder (below t L) := by
  unfold RemovalOrder Mapping.below
  rw [List.pairwise_filterMap]
  refine h.imp fun {p q} hpq p' hp q' hq => ?_
  cases p with
  | nil => cases hp
  | cons s p =>
    cases q with
    | nil => cases hq
    | cons r q =>
      simp only at hp hq
      split_ifs at hp hq with hs hr
      obtain rfl := Option.some.inj hp
      obtain rfl := Option.some.inj hq
      rw [hs, hr] at hpq
      exact ordering_cons_lt.mp hpq

/-- After an item of a list only items before it are removed from the list. -/
theorem item_lt_of_ordering {n m : ℕ} {r : Pos} (h : ordering (.item m :: r) < ordering [.item n]) :
    r = [] ∧ m < n := by
  rw [ordering, ordering, Prod.Lex.toLex_lt_toLex] at h
  rcases h with hlen | ⟨hlen, hlt⟩
  · simp at hlen
  · obtain rfl : r = [] := by simpa using hlen
    simp only [List.map_cons, List.map_nil, tokenKey] at hlt
    rw [List.cons_lt_cons_iff, Sum.Lex.inr_lt_inr_iff] at hlt
    exact ⟨rfl, by simpa using hlt⟩

end Mapping
