import DataRelay.Mapping.ResidualLeaves

/-! Removing the selected paths one by one, deep places first, and pruning what was marked comes to
the event without all of them. -/
namespace Mapping
open JsonPath

/-- The paths one after the other. -/
def removeAll (L : List Pos) (c : Node) : Node := L.foldl (fun root tokens => removeConcretePath tokens root) c

@[simp] theorem removeAll_nil (c : Node) : removeAll [] c = c := rfl

@[simp] theorem removeAll_cons (p : Pos) (L : List Pos) (c : Node) :
    removeAll (p :: L) c = removeAll L (removeConcretePath p c) := rfl

theorem removeAll_scalar (L : List Pos) (v : Json) : removeAll L (.scalar v) = .scalar v := by
  induction L with
  | nil => rfl
  | cons p L ih =>
    have hstep : removeConcretePath p (.scalar v) = .scalar v := by
      unfold removeConcretePath
      split <;> first | rfl | (next h => cases h)
    rw [removeAll_cons, hstep, ih]

/-! ### Members -/

/-- What the paths leave of a child at a step. -/
def leftAt (L : List Pos) (t : Step) (c : Node) : Option Node :=
  if [] ∈ below t L then none else some (removeAll (below t L) c)

def leftMembers (L : List Pos) (ms : List (String × Node)) : List (String × Node) :=
  ms.filterMap fun m => (leftAt L (.member m.1) m.2).map (m.1, ·)

theorem leftAt_cons_ne {s t : Step} (h : s ≠ t) (q : Pos) (L : List Pos) (c : Node) :
    leftAt ((s :: q) :: L) t c = leftAt L t c := by
  rw [leftAt, leftAt, below_cons_ne h]

theorem leftAt_cons_target (t : Step) (L : List Pos) (c : Node) : leftAt ([t] :: L) t c = none := by
  rw [leftAt, below_cons_self, if_pos List.mem_cons_self]

theorem leftAt_cons_deeper (t s : Step) (q : Pos) (L : List Pos) (c : Node) :
    leftAt ((t :: s :: q) :: L) t c = leftAt L t (removeConcretePath (s :: q) c) := by
  rw [leftAt, leftAt, below_cons_self]
  simp

theorem leftMembers_cons (L : List Pos) (k : String) (c : Node) (ms : List (String × Node)) :
    leftMembers L ((k, c) :: ms) =
      ((leftAt L (.member k) c).map (k, ·)).toList ++ leftMembers L ms := by
  rw [leftMembers, List.filterMap_cons]
  cases hleft : leftAt L (.member k) c with
  | none => simp [leftMembers]
  | some d => simp [leftMembers]

/-- Members of other names are left as they are. -/
theorem leftMembers_of_not_mem {k : String} {q : Pos} {L : List Pos} {ms : List (String × Node)}
    (h : k ∉ ms.map Prod.fst) : leftMembers ((.member k :: q) :: L) ms = leftMembers L ms := by
  induction ms with
  | nil => rfl
  | cons m ms ih =>
    obtain ⟨l, c⟩ := m
    simp only [List.map_cons, List.mem_cons, not_or] at h
    have hne : Step.member k ≠ Step.member l := fun heq => h.1 (Step.member.inj heq)
    rw [leftMembers_cons, leftMembers_cons, leftAt_cons_ne hne, ih h.2]

theorem leftMembers_erase {k : String} {L : List Pos} {ms : List (String × Node)}
    (hnodup : (ms.map Prod.fst).Nodup) :
    leftMembers ([.member k] :: L) ms = leftMembers L (Dict.erase k ms) := by
  induction ms with
  | nil => rfl
  | cons m ms ih =>
    obtain ⟨l, c⟩ := m
    obtain ⟨hl, hnodup⟩ := List.nodup_cons.mp hnodup
    rw [leftMembers_cons]
    by_cases hk : l = k
    · subst hk
      rw [leftAt_cons_target, leftMembers_of_not_mem hl, Dict.erase, if_pos rfl]
      rfl
    · have hne : Step.member k ≠ Step.member l := fun heq => hk (Step.member.inj heq).symm
      rw [leftAt_cons_ne hne, ih hnodup, Dict.erase, if_neg hk, leftMembers_cons]

theorem leftMembers_set {k : String} {s : Step} {q : Pos} {L : List Pos} {ms : List (String × Node)}
    {c : Node} (hnodup : (ms.map Prod.fst).Nodup) (hc : Dict.get? k ms = some c) :
    leftMembers ((.member k :: s :: q) :: L) ms =
      leftMembers L (Dict.set k (removeConcretePath (s :: q) c) ms) := by
  induction ms with
  | nil => cases hc
  | cons m ms ih =>
    obtain ⟨l, d⟩ := m
    obtain ⟨hl, hnodup⟩ := List.nodup_cons.mp hnodup
    rw [leftMembers_cons]
    by_cases hk : l = k
    · subst hk
      obtain rfl : d = c := by simpa using hc
      rw [leftAt_cons_deeper, leftMembers_of_not_mem hl, Dict.set, if_pos rfl, leftMembers_cons]
    · have hne : Step.member k ≠ Step.member l := fun heq => hk (Step.member.inj heq).symm
      rw [Dict.get?_cons, if_neg hk] at hc
      rw [leftAt_cons_ne hne, ih hnodup hc, Dict.set, if_neg hk, leftMembers_cons]

theorem leftMembers_item (n : ℕ) (q : Pos) (L : List Pos) (ms : List (String × Node)) :
    leftMembers ((.item n :: q) :: L) ms = leftMembers L ms := by
  unfold leftMembers
  congr 1

theorem leftMembers_nil (ms : List (String × Node)) : leftMembers [] ms = ms := by
  simp [leftMembers, leftAt, below]

/-- The members of an object go or stay by themselves, in whatever order the paths are removed. -/
theorem removeAll_dict {L : List Pos} (hroot : [] ∉ L) (id : Pos) {ms : List (String × Node)}
    (hnodup : (ms.map Prod.fst).Nodup) :
    removeAll L (.dict id ms) = .dict id (leftMembers L ms) := by
  induction L generalizing ms with
  | nil => rw [leftMembers_nil, removeAll_nil]
  | cons p L ih =>
    rw [List.mem_cons, not_or] at hroot
    cases p with
    | nil => exact absurd rfl hroot.1
    | cons t rest =>
      rw [removeAll_cons]
      cases t with
      | item n =>
        have hstep : removeConcretePath (.item n :: rest) (.dict id ms) = .dict id ms := by
          cases rest <;> rfl
        rw [hstep, ih hroot.2 hnodup, leftMembers_item]
      | member k =>
        cases rest with
        | nil => rw [removeConcretePath, ih hroot.2 (Dict.nodup_erase hnodup k), leftMembers_erase hnodup]
        | cons s q =>
          rw [removeConcretePath]
          cases hc : Dict.get? k ms with
          | none =>
            have hk : k ∉ ms.map Prod.fst := by
              intro hmem
              have hhas := Dict.has_iff.mpr hmem
              simp [Dict.has, hc] at hhas
            rw [leftMembers_of_not_mem hk]
            exact ih hroot.2 hnodup
          | some c =>
            rw [leftMembers_set hnodup hc]
            exact ih hroot.2 (Dict.nodup_set hnodup k _)

/-! ### Items -/

def leftItems (L : List Pos) (n : ℕ) : List Node → List Node
  | [] => []
  | c :: cs => (leftAt L (.item n) c).toList ++ leftItems L (n + 1) cs

theorem leftItems_append (L : List Pos) (n : ℕ) (xs ys : List Node) :
    leftItems L n (xs ++ ys) = leftItems L n xs ++ leftItems L (n + xs.length) ys := by
  induction xs generalizing n with
  | nil => rfl
  | cons x xs ih =>
    have hlength : n + 1 + xs.length = n + (x :: xs).length := by
      simp only [List.length_cons]
      omega
    rw [List.cons_append, leftItems, leftItems, ih, hlength, List.append_assoc]

theorem leftItems_congr {L M : List Pos} {n : ℕ} {xs : List Node}
    (h : ∀ m, n ≤ m → m < n + xs.length → below (.item m) L = below (.item m) M) :
    leftItems L n xs = leftItems M n xs := by
  induction xs generalizing n with
  | nil => rfl
  | cons x xs ih =>
    have hhead : leftAt L (.item n) x = leftAt M (.item n) x := by
      rw [leftAt, leftAt, h n le_rfl (by simp)]
    rw [leftItems, leftItems, hhead, ih]
    intro m hn hm
    apply h m
    · omega
    · simp only [List.length_cons]
      omega

/-- Items that nothing is selected in stay. -/
theorem leftItems_untouched {L : List Pos} {n : ℕ} (xs : List Node)
    (h : ∀ m, n ≤ m → below (.item m) L = []) : leftItems L n xs = xs := by
  induction xs generalizing n with
  | nil => rfl
  | cons x xs ih =>
    rw [leftItems, ih fun m hm => h m (by omega), leftAt, h n le_rfl]
    rfl

theorem leftItems_cons_path {n k : ℕ} {q : Pos} {L : List Pos} {xs : List Node}
    (h : n < k ∨ k + xs.length ≤ n) :
    leftItems ((.item n :: q) :: L) k xs = leftItems L k xs := by
  apply leftItems_congr
  intro m hk hm
  apply below_cons_ne
  intro heq
  obtain rfl := Step.item.inj heq
  omega

theorem leftItems_member (k : String) (q : Pos) (L : List Pos) (n : ℕ) (xs : List Node) :
    leftItems ((.member k :: q) :: L) n xs = leftItems L n xs :=
  leftItems_congr fun _ _ _ => below_cons_ne (by simp) q L

theorem split_at_item {n : ℕ} {c : Node} {xs : List Node} (h : xs[n]? = some c) :
    xs = xs.take n ++ c :: xs.drop (n + 1) ∧ (xs.take n).length = n := by
  obtain ⟨hlt, rfl⟩ := List.getElem?_eq_some_iff.mp h
  refine ⟨?_, ?_⟩
  · rw [List.cons_getElem_drop_succ, List.take_append_drop]
  · rw [List.length_take]
    omega

theorem leftItems_set {n : ℕ} {s : Step} {q : Pos} {L : List Pos} {xs : List Node} {c : Node}
    (hc : xs[n]? = some c) : leftItems ((.item n :: s :: q) :: L) 0 xs =
      leftItems L 0 (xs.set n (removeConcretePath (s :: q) c)) := by
  obtain ⟨hsplit, hlength⟩ := split_at_item hc
  have hset (d : Node) : xs.set n d = xs.take n ++ d :: xs.drop (n + 1) := by
    rw [List.set_eq_take_append_cons_drop, if_pos (List.getElem?_eq_some_iff.mp hc).1]
  rw [hset]
  nth_rewrite 1 [hsplit]
  rw [leftItems_append, leftItems_append, hlength, Nat.zero_add, leftItems, leftItems,
    leftAt_cons_deeper, leftItems_cons_path (.inr (by omega)), leftItems_cons_path (.inl (by omega))]

/-- An item is removed while everything behind it is still in place. -/
theorem leftItems_eraseIdx {n : ℕ} {L : List Pos} {xs : List Node} {c : Node} (hc : xs[n]? = some c)
    (hlater : ∀ m r, .item m :: r ∈ L → m < n) :
    leftItems ([.item n] :: L) 0 xs = leftItems L 0 (xs.eraseIdx n) := by
  obtain ⟨hsplit, hlength⟩ := split_at_item hc
  have hbelow (m : ℕ) (hm : n ≤ m) : below (.item m) L = [] := by
    apply List.eq_nil_iff_forall_not_mem.mpr
    intro q hq
    have hlt := hlater m q (mem_below.mp hq)
    omega
  have hbehind := leftItems_untouched (xs.drop (n + 1)) fun m (hm : n + 1 ≤ m) => hbelow m (by omega)
  rw [List.eraseIdx_eq_take_drop_succ, leftItems_append, hlength, Nat.zero_add,
    leftItems_untouched _ hbelow]
  nth_rewrite 1 [hsplit]
  rw [leftItems_append, hlength, Nat.zero_add, leftItems, leftAt_cons_target,
    leftItems_cons_path (.inr (by omega)), leftItems_cons_path (.inl (by omega)), hbehind]
  rfl

theorem removeAll_list {L : List Pos} (hroot : [] ∉ L) (horder : RemovalOrder L) (id : Pos)
    (xs : List Node) : removeAll L (.list id xs) = .list id (leftItems L 0 xs) := by
  induction L generalizing xs with
  | nil => rw [removeAll_nil, leftItems_untouched xs fun _ _ => rfl]
  | cons p L ih =>
    rw [List.mem_cons, not_or] at hroot
    obtain ⟨hlater, htail⟩ := List.pairwise_cons.mp horder
    cases p with
    | nil => exact absurd rfl hroot.1
    | cons t rest =>
      rw [removeAll_cons]
      cases t with
      | member k =>
        have hstep : removeConcretePath (.member k :: rest) (.list id xs) = .list id xs := by
          cases rest <;> rfl
        rw [hstep, ih hroot.2 htail, leftItems_member]
      | item n =>
        cases rest with
        | nil =>
          rw [removeConcretePath, ih hroot.2 htail]
          cases hc : xs[n]? with
          | none =>
            have hle := List.getElem?_eq_none_iff.mp hc
            rw [List.eraseIdx_of_length_le hle, leftItems_cons_path (.inr (by omega))]
          | some c =>
            rw [leftItems_eraseIdx hc]
            intro m r hmem
            exact (item_lt_of_ordering (hlater _ hmem)).2
        | cons s q =>
          rw [removeConcretePath]
          cases hc : xs[n]? with
          | none =>
            have hle := List.getElem?_eq_none_iff.mp hc
            rw [leftItems_cons_path (.inr (by omega))]
            exact ih hroot.2 htail xs
          | some c =>
            rw [leftItems_set hc]
            exact ih hroot.2 htail _

/-! ### Pruning -/

def isContainer : Json → Bool
  | .arr _ => true
  | .obj _ => true
  | _ => false

/-- The marks of the containers in a child are those of the paths through them. -/
def Marks (affected : List Pos) (place : Pos) (t : Step) (L : List Pos) (x : Json) : Prop :=
  ∀ q y, getAt q x = some y → isContainer y →
    (place ++ t :: q ∈ affected ↔ ∃ r, r ≠ [] ∧ t :: q ++ r ∈ L)

section Prune

variable {affected : List Pos} {place : Pos} {L : List Pos}

theorem keys_copyMembers (ms : Json.Members) :
    (copyMembers place ms).map Prod.fst = ms.map Prod.fst := by
  induction ms with
  | nil => rfl
  | cons m ms ih =>
    obtain ⟨k, v⟩ := m
    simp [copyMembers, ih]

theorem Marks.self {t : Step} {x : Json} (h : Marks affected place t L x) (hx : isContainer x)
    (hnil : [] ∉ below t L) : place ++ [t] ∈ affected ↔ below t L ≠ [] := by
  rw [h [] x rfl hx]
  constructor
  · rintro ⟨r, -, hr⟩ hempty
    have hmem : r ∈ below t L := mem_below.mpr hr
    rw [hempty] at hmem
    cases hmem
  · intro hne
    obtain ⟨r, hr⟩ := List.exists_mem_of_ne_nil _ hne
    refine ⟨r, ?_, mem_below.mp hr⟩
    rintro rfl
    exact hnil hr

theorem Marks.child {t : Step} {x : Json} (h : Marks affected place t L x) (s : Step) (y : Json)
    (hy : getAt [s] x = some y) : Marks affected (place ++ [t]) s (below t L) y := by
  intro q z hz hcontainer
  have hstep : getAt (s :: q) x = some z := by
    have happend := getAt_append [s] q x
    rwa [hy, Option.bind_some, hz] at happend
  have hiff := h (s :: q) z hstep hcontainer
  simpa [mem_below] using hiff

/-- A child is pruned where something was selected in it and nothing is left. -/
theorem pruned_iff {t : Step} {x : Json} (hwf : x.WellFormed) (horder : RemovalOrder L)
    (hnil : [] ∉ below t L) (hmarks : Marks affected place t L x)
    (heq : (pruneOnlyAffected affected
      (removeAll (below t L) (copyJsonValue (place ++ [t]) x))).toJson = without (below t L) x) :
    (((pruneOnlyAffected affected (removeAll (below t L) (copyJsonValue (place ++ [t]) x))).id?.any
        (· ∈ affected)) = true ∧
      (pruneOnlyAffected affected
        (removeAll (below t L) (copyJsonValue (place ++ [t]) x))).isEmptyContainer = true) ↔
      below t L ≠ [] ∧ isEmptyContainer (without (below t L) x) := by
  rw [← heq]
  cases x with
  | arr xs =>
    rw [copyJsonValue, removeAll_list hnil (horder.below t), pruneOnlyAffected, Node.toJson,
      ← hmarks.self rfl hnil]
    cases pruneItems affected (leftItems (below t L) 0 (copyItems (place ++ [t]) 0 xs)) <;>
      simp [Node.id?, Node.isEmptyContainer, Node.toItems, isEmptyContainer]
  | obj ms =>
    have hkeys : ((copyMembers (place ++ [t]) ms).map Prod.fst).Nodup := by
      rw [keys_copyMembers]
      exact hwf.keys
    rw [copyJsonValue, removeAll_dict hnil _ hkeys, pruneOnlyAffected, Node.toJson,
      ← hmarks.self rfl hnil]
    cases pruneMembers affected (leftMembers (below t L) (copyMembers (place ++ [t]) ms)) with
    | nil => simp [Node.id?, Node.isEmptyContainer, Node.toMembers, isEmptyContainer]
    | cons m ms => simp [Node.id?, Node.isEmptyContainer, Node.toMembers, isEmptyContainer]
  | _ =>
    simp only [copyJsonValue, removeAll_scalar, pruneOnlyAffected, Node.id?, Node.toJson,
      isEmptyContainer, Option.any_none, Bool.false_eq_true, false_and, and_false]

mutual
theorem toJson_prune : ∀ (v : Json) (place : Pos) (L : List Pos), v.WellFormed → [] ∉ L →
    RemovalOrder L → (∀ t x, getAt [t] v = some x → Marks affected place t L x) →
      (pruneOnlyAffected affected (removeAll L (copyJsonValue place v))).toJson = without L v
  | .arr xs, place, L, hwf, hnil, horder, hmarks => by
    rw [copyJsonValue, removeAll_list hnil horder, pruneOnlyAffected, Node.toJson, without,
      toItems_prune xs 0 place L hwf horder]
    intro i x hx
    apply hmarks
    simp [getAt, hx]
  | .obj ms, place, L, hwf, hnil, horder, hmarks => by
    have hkeys : ((copyMembers place ms).map Prod.fst).Nodup := by
      rw [keys_copyMembers]
      exact hwf.keys
    rw [copyJsonValue, removeAll_dict hnil _ hkeys, pruneOnlyAffected, Node.toJson, without,
      toMembers_prune ms place L hwf.2 horder]
    intro k x hx
    apply hmarks
    simp [getAt, Dict.get?_of_mem hwf.keys hx]
  | .null, place, L, _, _, _, _ => by
    rw [copyJsonValue, removeAll_scalar, pruneOnlyAffected, Node.toJson, without]
    all_goals simp
  | .bool b, place, L, _, _, _, _ => by
    rw [copyJsonValue, removeAll_scalar, pruneOnlyAffected, Node.toJson, without]
    all_goals simp
  | .int i, place, L, _, _, _, _ => by
    rw [copyJsonValue, removeAll_scalar, pruneOnlyAffected, Node.toJson, without]
    all_goals simp
  | .float r, place, L, _, _, _, _ => by
    rw [copyJsonValue, removeAll_scalar, pruneOnlyAffected, Node.toJson, without]
    all_goals simp
  | .str s, place, L, _, _, _, _ => by
    rw [copyJsonValue, removeAll_scalar, pruneOnlyAffected, Node.toJson, without]
    all_goals simp

theorem toItems_prune : ∀ (xs : List Json) (n : ℕ) (place : Pos) (L : List Pos),
    Json.WellFormedItems xs → RemovalOrder L →
    (∀ i x, xs[i]? = some x → Marks affected place (.item (n + i)) L x) →
      Node.toItems (pruneItems affected (leftItems L n (copyItems place n xs))) =
        withoutItems L n xs
  | [], _, _, _, _, _, _ => rfl
  | x :: xs, n, place, L, hwf, horder, hmarks => by
    have hrest := toItems_prune xs (n + 1) place L hwf.2 horder fun i y hy => by
      have hnext : n + 1 + i = n + (i + 1) := by omega
      rw [hnext]
      exact hmarks (i + 1) y hy
    have hx : Marks affected place (.item n) L x := hmarks 0 x rfl
    rw [copyItems, leftItems, withoutItems, leftAt]
    by_cases hnil : [] ∈ below (.item n) L
    · simp [hnil, hrest]
    · have hchild := toJson_prune x (place ++ [.item n]) (below (.item n) L) hwf.1 hnil
        (horder.below _) (hx.child)
      have hpruned := pruned_iff hwf.1 horder hnil hx hchild
      simp only [hnil, ↓reduceIte, Option.toList_some, List.singleton_append, pruneItems, hpruned,
        false_or]
      split_ifs with hdrop
      · exact hrest
      · rw [Node.toItems, hchild, hrest]

theorem toMembers_prune : ∀ (ms : Json.Members) (place : Pos) (L : List Pos),
    Json.WellFormedMembers ms → RemovalOrder L →
    (∀ k x, (k, x) ∈ ms → Marks affected place (.member k) L x) →
      Node.toMembers (pruneMembers affected (leftMembers L (copyMembers place ms))) =
        withoutMembers L ms
  | [], _, _, _, _, _ => rfl
  | (k, x) :: ms, place, L, hwf, horder, hmarks => by
    have hrest := toMembers_prune ms place L hwf.2 horder fun l y hy =>
      hmarks l y (List.mem_cons_of_mem _ hy)
    have hx : Marks affected place (.member k) L x := hmarks k x List.mem_cons_self
    rw [copyMembers, leftMembers_cons, withoutMembers, leftAt]
    by_cases hnil : [] ∈ below (.member k) L
    · simp [hnil, hrest]
    · have hchild := toJson_prune x (place ++ [.member k]) (below (.member k) L) hwf.1 hnil
        (horder.below _) (hx.child)
      have hpruned := pruned_iff hwf.1 horder hnil hx hchild
      simp only [hnil, ↓reduceIte, Option.map_some, Option.toList_some, List.singleton_append,
        pruneMembers, hpruned, false_or]
      split_ifs with hdrop
      · exact hrest
      · rw [Node.toMembers, hchild, hrest]
end

end Prune

/-! ### The marked containers -/

theorem getElem?_copyItems (place : Pos) (k n : ℕ) (xs : List Json) :
    (copyItems place k xs)[n]? = xs[n]?.map (copyJsonValue (place ++ [.item (k + n)])) := by
  induction xs generalizing k n with
  | nil => rfl
  | cons x xs ih =>
    cases n with
    | zero => rfl
    | succ n =>
      have hnext : k + 1 + n = k + (n + 1) := by omega
      rw [copyItems, List.getElem?_cons_succ, List.getElem?_cons_succ, ih, hnext]

theorem get?_copyMembers (place : Pos) (k : String) (ms : Json.Members) :
    Dict.get? k (copyMembers place ms) =
      (Dict.get? k ms).map (copyJsonValue (place ++ [.member k])) := by
  induction ms with
  | nil => rfl
  | cons m ms ih =>
    obtain ⟨l, v⟩ := m
    by_cases hl : l = k
    · simp [copyMembers, hl]
    · simp [copyMembers, hl, ih]

theorem id?_copy_of_isContainer {place : Pos} {x : Json} (h : isContainer x) :
    (copyJsonValue place x).id? = some place := by
  cases x <;> first | rfl | cases h

theorem id?_copy {place id : Pos} {x : Json} (h : (copyJsonValue place x).id? = some id) :
    id = place := by
  cases x <;> simp_all [copyJsonValue, Node.id?]

/-- What is marked on the way along a path stands before the end of the path. -/
theorem of_mem_affectedOn {p place id : Pos} {v : Json}
    (h : id ∈ affectedOn p (copyJsonValue place v)) :
    ∃ q r, r ≠ [] ∧ p = q ++ r ∧ id = place ++ q := by
  induction p generalizing place v with
  | nil =>
    cases v <;> cases h
  | cons t p ih =>
    cases p with
    | nil => cases t <;> cases v <;> cases h
    | cons part rest =>
      have hchild {c : Json} (h : id ∈ (copyJsonValue (place ++ [t]) c).id?.toList ++
          affectedOn (part :: rest) (copyJsonValue (place ++ [t]) c)) :
          ∃ q r, r ≠ [] ∧ t :: part :: rest = q ++ r ∧ id = place ++ q := by
        rcases List.mem_append.mp h with hself | hdeeper
        · rw [Option.mem_toList] at hself
          exact ⟨[t], part :: rest, by simp, rfl, id?_copy hself⟩
        · obtain ⟨q, r, hr, heq, rfl⟩ := ih hdeeper
          exact ⟨t :: q, r, hr, by rw [heq]; rfl, by simp⟩
      cases t with
      | member k =>
        cases v with
        | obj ms =>
          simp only [copyJsonValue, affectedOn, get?_copyMembers] at h
          cases hc : Dict.get? k ms with
          | none => simp [hc] at h
          | some c =>
            simp only [hc, Option.map_some] at h
            exact hchild h
        | _ => cases h
      | item n =>
        cases v with
        | arr xs =>
          simp only [copyJsonValue, affectedOn, getElem?_copyItems, Nat.zero_add] at h
          cases hc : xs[n]? with
          | none => simp [hc] at h
          | some c =>
            simp only [hc, Option.map_some] at h
            exact hchild h
        | _ => cases h

/-- Every container a path goes through is marked. -/
theorem mem_affectedOn {t : Step} {q r place : Pos} {v y : Json} (hy : getAt (t :: q) v = some y)
    (hcontainer : isContainer y) (hr : r ≠ []) :
    place ++ t :: q ∈ affectedOn (t :: q ++ r) (copyJsonValue place v) := by
  induction q generalizing t place v with
  | nil =>
    obtain ⟨part, rest, rfl⟩ := List.exists_cons_of_ne_nil hr
    cases t with
    | member k =>
      cases v <;> simp only [getAt, reduceCtorEq] at hy
      obtain ⟨c, hc, hy⟩ := Option.bind_eq_some_iff.mp hy
      obtain rfl := Option.some.inj hy
      simp [copyJsonValue, affectedOn, get?_copyMembers, hc, id?_copy_of_isContainer hcontainer]
    | item n =>
      cases v <;> simp only [getAt, reduceCtorEq] at hy
      obtain ⟨c, hc, hy⟩ := Option.bind_eq_some_iff.mp hy
      obtain rfl := Option.some.inj hy
      simp [copyJsonValue, affectedOn, getElem?_copyItems, hc, id?_copy_of_isContainer hcontainer]
  | cons s q ih =>
    have happend : place ++ t :: s :: q = (place ++ [t]) ++ s :: q := by simp
    rw [happend]
    cases t with
    | member k =>
      cases v <;> simp only [getAt, reduceCtorEq] at hy
      obtain ⟨c, hc, hy⟩ := Option.bind_eq_some_iff.mp hy
      simp only [List.cons_append, copyJsonValue, affectedOn, get?_copyMembers, hc,
        Option.map_some]
      exact List.mem_append_right _ (ih hy)
    | item n =>
      cases v <;> simp only [getAt, reduceCtorEq] at hy
      obtain ⟨c, hc, hy⟩ := Option.bind_eq_some_iff.mp hy
      simp only [List.cons_append, copyJsonValue, affectedOn, getElem?_copyItems, hc,
        Option.map_some, Nat.zero_add]
      exact List.mem_append_right _ (ih hy)

/-- The marks of the whole event are those of the selected paths. -/
theorem marks_affected {selected : List Pos} {event : Json} {t : Step} {x : Json}
    (hx : getAt [t] event = some x) :
    Marks (selected.flatMap fun path => affectedOn path (copyJsonValue [] event)) [] t selected x := by
  intro q y hy hcontainer
  have hget : getAt (t :: q) event = some y := by
    have happend := getAt_append [t] q event
    rwa [hx, Option.bind_some, hy] at happend
  rw [List.nil_append, List.mem_flatMap]
  constructor
  · rintro ⟨p, hp, hmem⟩
    obtain ⟨q', r, hr, rfl, heq⟩ := of_mem_affectedOn hmem
    rw [List.nil_append] at heq
    exact ⟨r, hr, heq ▸ hp⟩
  · rintro ⟨r, hr, hmem⟩
    exact ⟨_, hmem, mem_affectedOn hget hcontainer hr⟩

/-! ### The order of removal -/

theorem tokenKey_injective : Function.Injective tokenKey := by
  intro s t h
  cases s <;> cases t <;> simp_all [tokenKey]

theorem ordering_injective : Function.Injective ordering := by
  intro p q h
  have hmap : p.map tokenKey = q.map tokenKey := congrArg (fun x => (ofLex x).2) h
  exact List.map_injective_iff.mpr tokenKey_injective hmap

theorem removalOrder_insertionSort {selected : List Pos} (hnodup : selected.Nodup) :
    RemovalOrder (selected.insertionSort fun p q => ordering q ≤ ordering p) := by
  have hsorted : (selected.insertionSort fun p q => ordering q ≤ ordering p).Pairwise
      fun p q => ordering q ≤ ordering p := by
    have htotal : Std.Total fun p q => ordering q ≤ ordering p :=
      ⟨fun p q => le_total (ordering q) (ordering p)⟩
    have htrans : IsTrans Pos fun p q => ordering q ≤ ordering p :=
      ⟨fun _ _ _ h1 h2 => h2.trans h1⟩
    exact List.pairwise_insertionSort _ _
  have hdistinct : (selected.insertionSort fun p q => ordering q ≤ ordering p).Pairwise (· ≠ ·) :=
    (List.perm_insertionSort _ selected).nodup_iff.mpr hnodup
  refine (hsorted.and hdistinct).imp fun {p q} ⟨hle, hne⟩ => ?_
  exact lt_of_le_of_ne hle fun heq => hne (ordering_injective heq).symm

/-! ### The residual -/

mutual
theorem toJson_copy : ∀ (v : Json) (place : Pos), (copyJsonValue place v).toJson = v
  | .arr xs, place => by rw [copyJsonValue, Node.toJson, toItems_copy xs place 0]
  | .obj ms, place => by rw [copyJsonValue, Node.toJson, toMembers_copy ms place]
  | .null, _ => by simp [copyJsonValue, Node.toJson]
  | .bool _, _ => by simp [copyJsonValue, Node.toJson]
  | .int _, _ => by simp [copyJsonValue, Node.toJson]
  | .float _, _ => by simp [copyJsonValue, Node.toJson]
  | .str _, _ => by simp [copyJsonValue, Node.toJson]

theorem toItems_copy : ∀ (xs : List Json) (place : Pos) (n : ℕ),
    Node.toItems (copyItems place n xs) = xs
  | [], _, _ => rfl
  | x :: xs, place, n => by rw [copyItems, Node.toItems, toJson_copy x, toItems_copy xs]

theorem toMembers_copy : ∀ (ms : Json.Members) (place : Pos),
    Node.toMembers (copyMembers place ms) = ms
  | [], _ => rfl
  | (k, x) :: ms, place => by rw [copyMembers, Node.toMembers, toJson_copy x, toMembers_copy ms]
end

/-- The removals, in the order they are made in, come to the event without the selected places. -/
theorem applySelectedRemovals_eq {event : Json} {selected : List Pos} (hwf : event.WellFormed)
    (hnodup : selected.Nodup) (hnil : [] ∉ selected) :
    (applySelectedRemovals (copyJsonValue [] event) selected).toJson = without selected event := by
  unfold applySelectedRemovals
  by_cases hempty : selected = []
  · rw [if_pos hempty, hempty, toJson_copy, without_nil]
  · rw [if_neg hempty, if_neg hnil]
    have hperm := List.perm_insertionSort (fun p q => ordering q ≤ ordering p) selected
    calc (pruneOnlyAffected (selected.flatMap fun path => affectedOn path (copyJsonValue [] event))
          (removeAll (selected.insertionSort fun p q => ordering q ≤ ordering p)
            (copyJsonValue [] event))).toJson
        = without (selected.insertionSort fun p q => ordering q ≤ ordering p) event := by
          refine toJson_prune event [] _ hwf (fun h => hnil (hperm.mem_iff.mp h))
            (removalOrder_insertionSort hnodup) fun t x hx q y hy hcontainer => ?_
          simp only [hperm.mem_iff]
          exact marks_affected hx q y hy hcontainer
      _ = without selected event := without_congr event _ _ fun p => hperm.mem_iff

/-- For paths with concrete first matches the residual is the event without the places of these
matches; its leaves are those of the event outside of them, in their order and under their names;
and the order of the paths does not matter. -/
theorem residual_exact (lib : PathLibrary) (ms : Json.Members) (hwf : (Json.obj ms).WellFormed)
    (sourceJsonPaths : List String)
    (hpaths : ∀ path ∈ sourceJsonPaths, ∃ place, firstMatchAt lib (.obj ms) path = .ok place) :
    ∃ selected : List Pos,
      (∀ p, p ∈ selected ↔
        ∃ path ∈ sourceJsonPaths, firstMatchAt lib (.obj ms) path = .ok (some p)) ∧
      buildResidualAfterMapping lib (.obj ms) sourceJsonPaths =
        .ok (if [] ∈ selected then .obj [] else without selected (.obj ms)) ∧
      ([] ∉ selected →
        named (leaves (without selected (.obj ms))) = named (leavesOutside selected (.obj ms))) ∧
      ∀ otherPaths : List String, (∀ path, path ∈ otherPaths ↔ path ∈ sourceJsonPaths) →
        buildResidualAfterMapping lib (.obj ms) otherPaths =
          buildResidualAfterMapping lib (.obj ms) sourceJsonPaths := by
  have hresult {paths : List String}
      (h : ∀ path ∈ paths, ∃ place, firstMatchAt lib (.obj ms) path = .ok place) :
      ∃ selected : List Pos,
        (∀ p, p ∈ selected ↔ ∃ path ∈ paths, firstMatchAt lib (.obj ms) path = .ok (some p)) ∧
        buildResidualAfterMapping lib (.obj ms) paths =
          .ok (if [] ∈ selected then .obj [] else without selected (.obj ms)) := by
    obtain ⟨selected, hok, hnodup, hmem⟩ := selectPaths_ok [] List.nodup_nil h
    refine ⟨selected, by simpa using hmem, ?_⟩
    rw [buildResidualAfterMapping, selectedConcretePaths, hok]
    by_cases hnil : [] ∈ selected
    · have hne : selected ≠ [] := List.ne_nil_of_mem hnil
      simp [Except.map, applySelectedRemovals, hnil, hne, copyJsonValue, removeConcretePath,
        Node.toJson, Node.toMembers]
    · simp only [Except.map, applySelectedRemovals_eq hwf hnodup hnil, hnil, ↓reduceIte]
  obtain ⟨selected, hmem, hok⟩ := hresult hpaths
  refine ⟨selected, hmem, hok, fun hnil => ?_, fun otherPaths hother => ?_⟩
  · apply leaves_without (.obj ms) selected hwf hnil
    intro p hp
    obtain ⟨path, -, hplace⟩ := (hmem p).mp hp
    obtain ⟨query, -, hplace⟩ := Raising.bind_eq_ok hplace
    split at hplace
    · cases hplace
    · obtain ⟨tokens, htokens, heq⟩ := Raising.map_eq_ok hplace
      obtain rfl := Option.some.inj heq
      exact getAt_of_concreteAtoms htokens
  · obtain ⟨selected', hmem', hok'⟩ := hresult fun path hpath => hpaths path ((hother path).mp hpath)
    have hsame (p : Pos) : p ∈ selected' ↔ p ∈ selected := by
      rw [hmem, hmem']
      simp only [hother]
    rw [hok, hok']
    simp only [hsame, without_congr (.obj ms) selected' selected hsame]

/-- Two paths into the items of an event. -/
def itemPaths : PathLibrary where
  Query := String
  parse := some
  find query _ :=
    if query = "$.items[0].tag" then
      some [⟨.str "a", .child (.child (.child .root (.fields ["items"])) (.index [some 0]))
        (.fields ["tag"])⟩]
    else if query = "$.items[-1]" then
      some [⟨.int 2, .child (.child .root (.fields ["items"])) (.index [some (-1)])⟩]
    else some []

def itemEvent : Json.Members := [("items", .arr [.obj [("id", .int 1), ("tag", .str "a")], .int 2])]

theorem itemPaths_residual :
    buildResidualAfterMapping itemPaths (.obj itemEvent) ["$.items[-1]", "$.items[0].tag"] =
      buildResidualAfterMapping itemPaths (.obj itemEvent) ["$.items[0].tag", "$.items[-1]"] := by
  have hwf : (Json.obj itemEvent).WellFormed := by
    simp [itemEvent, Json.WellFormed, Json.WellFormedMembers, Json.WellFormedItems]
  have htag : firstMatchAt itemPaths (.obj itemEvent) "$.items[0].tag" =
      .ok (some [.member "items", .item 0, .member "tag"]) := by rfl
  have hlast : firstMatchAt itemPaths (.obj itemEvent) "$.items[-1]" =
      .ok (some [.member "items", .item 1]) := by rfl
  obtain ⟨_, -, -, -, horder⟩ := residual_exact itemPaths itemEvent hwf
    ["$.items[0].tag", "$.items[-1]"] (by simp [htag, hlast])
  exact horder _ fun path => by simp [or_comm]

end Mapping
