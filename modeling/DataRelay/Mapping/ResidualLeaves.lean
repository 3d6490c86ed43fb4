import DataRelay.Mapping.Residual

/-! The leaves of an event without the selected places are its leaves outside of them, in their
order and under their names. -/
namespace Mapping
open JsonPath

theorem below_congr {L M : List Pos} (h : ∀ p, p ∈ L ↔ p ∈ M) (t : Step) (q : Pos) :
    q ∈ below t L ↔ q ∈ below t M := by
  rw [mem_below, mem_below, h]

theorem eq_nil_congr {L M : List Pos} (h : ∀ p, p ∈ L ↔ p ∈ M) : L ≠ [] ↔ M ≠ [] := by
  simp only [ne_eq, List.eq_nil_iff_forall_not_mem, h]

mutual
/-- Only which places are selected counts. -/
theorem without_congr : ∀ (v : Json) (L M : List Pos), (∀ p, p ∈ L ↔ p ∈ M) →
    without L v = without M v
  | .arr xs, L, M, h => by rw [without, without, withoutItems_congr xs L M 0 h]
  | .obj ms, L, M, h => by rw [without, without, withoutMembers_congr ms L M h]
  | .null, _, _, _ => by simp [without]
  | .bool _, _, _, _ => by simp [without]
  | .int _, _, _, _ => by simp [without]
  | .float _, _, _, _ => by simp [without]
  | .str _, _, _, _ => by simp [without]

theorem withoutItems_congr : ∀ (xs : List Json) (L M : List Pos) (n : ℕ), (∀ p, p ∈ L ↔ p ∈ M) →
    withoutItems L n xs = withoutItems M n xs
  | [], _, _, _, _ => rfl
  | x :: xs, L, M, n, h => by
    have hbelow := below_congr h (.item n)
    simp only [withoutItems, hbelow, eq_nil_congr hbelow, without_congr x _ _ hbelow,
      withoutItems_congr xs L M (n + 1) h]

theorem withoutMembers_congr : ∀ (ms : Json.Members) (L M : List Pos), (∀ p, p ∈ L ↔ p ∈ M) →
    withoutMembers L ms = withoutMembers M ms
  | [], _, _, _ => rfl
  | (k, x) :: ms, L, M, h => by
    have hbelow := below_congr h (.member k)
    simp only [withoutMembers, hbelow, eq_nil_congr hbelow, without_congr x _ _ hbelow,
      withoutMembers_congr ms L M h]
end

@[simp] theorem below_nil (t : Step) : below t [] = [] := rfl

mutual
@[simp] theorem without_nil : ∀ v : Json, without [] v = v
  | .arr xs => by rw [without, withoutItems_nil]
  | .obj ms => by rw [without, withoutMembers_nil]
  | .null => by simp [without]
  | .bool _ => by simp [without]
  | .int _ => by simp [without]
  | .float _ => by simp [without]
  | .str _ => by simp [without]

@[simp] theorem withoutItems_nil : ∀ (n : ℕ) (xs : List Json), withoutItems [] n xs = xs
  | _, [] => rfl
  | n, x :: xs => by simp [withoutItems, without_nil x, withoutItems_nil (n + 1) xs]

@[simp] theorem withoutMembers_nil : ∀ ms : Json.Members, withoutMembers [] ms = ms
  | [] => rfl
  | (k, x) :: ms => by simp [withoutMembers, without_nil x, withoutMembers_nil ms]
end

/-! ### Leaves -/

mutual
/-- The scalars and empty containers in a value with their places, in document order. -/
def leaves : Json → List (Pos × Json)
  | .arr xs => leavesItems 0 xs
  | .obj ms => leavesMembers ms
  | v => [([], v)]

def leavesItems (n : ℕ) : List Json → List (Pos × Json)
  | [] => []
  | x :: xs =>
    (if isEmptyContainer x then [([.item n], x)]
      else (leaves x).map fun l => (.item n :: l.1, l.2)) ++ leavesItems (n + 1) xs

def leavesMembers : Json.Members → List (Pos × Json)
  | [] => []
  | (k, x) :: ms =>
    (if isEmptyContainer x then [([.member k], x)]
      else (leaves x).map fun l => (.member k :: l.1, l.2)) ++ leavesMembers ms
end

/-- The names along a place, without the indices of lists. -/
def namesOf (p : Pos) : List String :=
  p.filterMap fun t =>
    match t with
    | .member k => some k
    | .item _ => none

def named (ls : List (Pos × Json)) : List (List String × Json) := ls.map fun l => (namesOf l.1, l.2)

/-- The place is in none of the selected ones. -/
def Outside (selected : List Pos) (p : Pos) : Prop := ∀ q ∈ selected, ¬ q <+: p

instance (selected : List Pos) (p : Pos) : Decidable (Outside selected p) :=
  inferInstanceAs (Decidable (∀ q ∈ selected, ¬ q <+: p))

def leavesOutside (selected : List Pos) (v : Json) : List (Pos × Json) :=
  (leaves v).filter fun l => Outside selected l.1

theorem outside_cons {L : List Pos} (hnil : [] ∉ L) {t : Step} {p : Pos} :
    Outside L (t :: p) ↔ Outside (below t L) p := by
  constructor
  · intro h q hq hpre
    exact h _ (mem_below.mp hq) (List.cons_prefix_cons.mpr ⟨rfl, hpre⟩)
  · intro h q hq hpre
    cases q with
    | nil => exact hnil hq
    | cons s q =>
      obtain ⟨rfl, hrest⟩ := List.cons_prefix_cons.mp hpre
      exact h q (mem_below.mpr hq) hrest

/-- The leaves of a child, whose step is `t`. -/
def childLeaves (t : Step) (x : Json) : List (Pos × Json) :=
  if isEmptyContainer x then [([t], x)] else (leaves x).map fun l => (t :: l.1, l.2)

theorem namesOf_cons (t : Step) (p : Pos) : namesOf (t :: p) = namesOf [t] ++ namesOf p := by
  rw [namesOf, namesOf, namesOf, ← List.filterMap_append]
  rfl

theorem named_map_cons (t : Step) (ls : List (Pos × Json)) :
    named (ls.map fun l => (t :: l.1, l.2)) =
      (named ls).map fun l => (namesOf [t] ++ l.1, l.2) := by
  unfold named
  rw [List.map_map, List.map_map]
  apply List.map_congr_left
  intro l _
  simp only [Function.comp_apply, namesOf_cons t l.1]

theorem exists_cons_of_mem_childLeaves {t : Step} {x : Json} {l : Pos × Json}
    (h : l ∈ childLeaves t x) : ∃ q, l.1 = t :: q := by
  unfold childLeaves at h
  split_ifs at h
  · rw [List.mem_singleton] at h
    exact ⟨[], by rw [h]⟩
  · obtain ⟨m, -, rfl⟩ := List.mem_map.mp h
    exact ⟨m.1, rfl⟩

/-- The leaves of a child that is no empty container, outside of what is selected. -/
theorem filter_childLeaves {L : List Pos} {t : Step} {x : Json} (hnil : [] ∉ L)
    (hx : isEmptyContainer x = false) :
    (childLeaves t x).filter (fun l => Outside L l.1) =
      (leavesOutside (below t L) x).map fun l => (t :: l.1, l.2) := by
  rw [childLeaves, hx, if_neg (by simp), List.filter_map, leavesOutside]
  congr 1
  apply List.filter_congr
  intro l _
  simp only [Function.comp_apply, outside_cons hnil]

theorem leaves_eq_nil_of_isEmptyContainer {x : Json} (h : isEmptyContainer x) : leaves x = [] := by
  unfold isEmptyContainer at h
  split at h
  · rfl
  · rfl
  · cases h

/-- A selected place in an empty container is the container itself. -/
theorem eq_nil_of_getAt {x v : Json} {p : Pos} (hx : isEmptyContainer x) (h : getAt p x = some v) :
    p = [] := by
  cases p with
  | nil => rfl
  | cons t p =>
    unfold isEmptyContainer at hx
    split at hx
    · cases t <;> simp [getAt] at h
    · cases t <;> simp [getAt] at h
    · cases hx

/-- What is left of a child has the leaves of the child outside the selected places. -/
theorem childLeaves_left {L : List Pos} {t : Step} {x : Json} (hnil : [] ∉ L)
    (hvalid : ∀ q ∈ below t L, ∃ y, getAt q x = some y)
    (hleaves : [] ∉ below t L →
      named (leaves (without (below t L) x)) = named (leavesOutside (below t L) x)) :
    named (if [] ∈ below t L ∨ below t L ≠ [] ∧ isEmptyContainer (without (below t L) x) then []
      else childLeaves t (without (below t L) x)) =
      named ((childLeaves t x).filter fun l => Outside L l.1) := by
  by_cases hself : [] ∈ below t L
  · rw [if_pos (.inl hself)]
    have hnone : (childLeaves t x).filter (fun l => Outside L l.1) = [] := by
      rw [List.filter_eq_nil_iff]
      intro l hl
      obtain ⟨q, hq⟩ := exists_cons_of_mem_childLeaves hl
      rw [decide_eq_true_eq, hq]
      intro houtside
      exact houtside [t] (mem_below.mp hself) ⟨q, rfl⟩
    rw [hnone]
  · by_cases hbelow : below t L = []
    · have hall : (childLeaves t x).filter (fun l => Outside L l.1) = childLeaves t x := by
        rw [List.filter_eq_self]
        intro l hl
        obtain ⟨q, hq⟩ := exists_cons_of_mem_childLeaves hl
        rw [decide_eq_true_eq, hq, outside_cons hnil, hbelow]
        intro p hp
        cases hp
      simp [hbelow, hall]
    · have hx : isEmptyContainer x = false := by
        by_contra hempty
        obtain ⟨q, hq⟩ := List.exists_mem_of_ne_nil _ hbelow
        obtain ⟨y, hy⟩ := hvalid q hq
        obtain rfl := eq_nil_of_getAt (by simpa using hempty) hy
        exact hself hq
      rw [filter_childLeaves hnil hx, named_map_cons, ← hleaves hself]
      simp only [hself, hbelow, false_or, ne_eq, not_false_eq_true, true_and]
      cases hleft : isEmptyContainer (without (below t L) x) with
      | true => simp [leaves_eq_nil_of_isEmptyContainer hleft, named]
      | false => simp [childLeaves, hleft, named_map_cons]

theorem named_append (ls ms : List (Pos × Json)) : named (ls ++ ms) = named ls ++ named ms := by
  simp [named]

theorem named_childLeaves_item (n m : ℕ) (x : Json) :
    named (childLeaves (.item n) x) = named (childLeaves (.item m) x) := by
  unfold childLeaves
  split_ifs
  · rfl
  · rw [named_map_cons, named_map_cons]
    rfl

/-- The leaves of the items do not depend on where the list begins but for their places. -/
theorem named_leavesItems (n m : ℕ) (xs : List Json) :
    named (leavesItems n xs) = named (leavesItems m xs) := by
  induction xs generalizing n m with
  | nil => rfl
  | cons x xs ih =>
    have hx := named_childLeaves_item n m x
    unfold childLeaves at hx
    rw [leavesItems, leavesItems, named_append, named_append, hx, ih]

theorem leaves_without_scalar {v : Json} {L : List Pos} (hscalar : leaves v = [([], v)])
    (hwithout : without L v = v) (hnil : [] ∉ L) :
    named (leaves (without L v)) = named (leavesOutside L v) := by
  have houtside : Outside L [] := by
    intro q hq hpre
    rw [List.prefix_nil] at hpre
    exact hnil (hpre ▸ hq)
  rw [hwithout, leavesOutside, hscalar, List.filter_cons_of_pos (by simpa using houtside)]
  rfl

mutual
/-- Nothing else is lost and nothing changes its value, its names or its order. -/
theorem leaves_without : ∀ (v : Json) (L : List Pos), v.WellFormed → [] ∉ L →
    (∀ p ∈ L, ∃ x, getAt p v = some x) →
      named (leaves (without L v)) = named (leavesOutside L v)
  | .arr xs, L, hwf, hnil, hvalid => by
    rw [without, leaves, leavesOutside, leaves]
    exact leavesItems_without xs 0 L hwf hnil fun i x hx q hq => by
      obtain ⟨y, hy⟩ := hvalid _ hq
      rw [Nat.zero_add] at hy
      exact ⟨y, by simpa [getAt, hx] using hy⟩
  | .obj ms, L, hwf, hnil, hvalid => by
    rw [without, leaves, leavesOutside, leaves]
    exact leavesMembers_without ms L hwf.2 hnil fun k x hx q hq => by
      obtain ⟨y, hy⟩ := hvalid _ hq
      exact ⟨y, by simpa [getAt, Dict.get?_of_mem hwf.keys hx] using hy⟩
  | .null, _, _, hnil, _ => leaves_without_scalar rfl rfl hnil
  | .bool _, _, _, hnil, _ => leaves_without_scalar rfl rfl hnil
  | .int _, _, _, hnil, _ => leaves_without_scalar rfl rfl hnil
  | .float _, _, _, hnil, _ => leaves_without_scalar rfl rfl hnil
  | .str _, _, _, hnil, _ => leaves_without_scalar rfl rfl hnil

theorem leavesItems_without : ∀ (xs : List Json) (n : ℕ) (L : List Pos),
    Json.WellFormedItems xs → [] ∉ L →
    (∀ i x, xs[i]? = some x → ∀ q, .item (n + i) :: q ∈ L → ∃ y, getAt q x = some y) →
      named (leavesItems n (withoutItems L n xs)) =
        named ((leavesItems n xs).filter fun l => Outside L l.1)
  | [], _, _, _, _, _ => rfl
  | x :: xs, n, L, hwf, hnil, hvalid => by
    have hrest := leavesItems_without xs (n + 1) L hwf.2 hnil fun i y hy q hq => by
      have hnext : n + 1 + i = n + (i + 1) := by omega
      rw [hnext] at hq
      exact hvalid (i + 1) y hy q hq
    have hbelow : ∀ q ∈ below (.item n) L, ∃ y, getAt q x = some y :=
      fun q hq => hvalid 0 x rfl q (mem_below.mp hq)
    have hleft := childLeaves_left hnil hbelow fun hself =>
      leaves_without x (below (.item n) L) hwf.1 hself hbelow
    rw [leavesItems, List.filter_append, named_append, ← hrest]
    change _ = named ((childLeaves (.item n) x).filter _) ++ _
    rw [← hleft, withoutItems]
    split_ifs with hdrop
    · rw [named_leavesItems n (n + 1)]
      rfl
    · rw [leavesItems, named_append]
      rfl

theorem leavesMembers_without : ∀ (ms : Json.Members) (L : List Pos),
    Json.WellFormedMembers ms → [] ∉ L →
    (∀ k x, (k, x) ∈ ms → ∀ q, .member k :: q ∈ L → ∃ y, getAt q x = some y) →
      named (leavesMembers (withoutMembers L ms)) =
        named ((leavesMembers ms).filter fun l => Outside L l.1)
  | [], _, _, _, _ => rfl
  | (k, x) :: ms, L, hwf, hnil, hvalid => by
    have hrest := leavesMembers_without ms L hwf.2 hnil fun l y hy =>
      hvalid l y (List.mem_cons_of_mem _ hy)
    have hbelow : ∀ q ∈ below (.member k) L, ∃ y, getAt q x = some y :=
      fun q hq => hvalid k x List.mem_cons_self q (mem_below.mp hq)
    have hleft := childLeaves_left hnil hbelow fun hself =>
      leaves_without x (below (.member k) L) hwf.1 hself hbelow
    rw [leavesMembers, List.filter_append, named_append, ← hrest]
    change _ = named ((childLeaves (.member k) x).filter _) ++ _
    rw [← hleft, withoutMembers]
    split_ifs with hdrop
    · rfl
    · rw [leavesMembers, named_append]
      rfl
end

end Mapping
