import DataRelay.Security.MaskedRoundTrip

/-! A masked configuration is edited before it is written back. In a list the stored elements are
found by position: an element that moved gets the secrets of the one that stood there. -/
namespace Secrets
open PyText (CaseTable)
open JsonPath

variable {T : CaseTable} {printable : Char → Bool} {maskAll : Bool}

/-! ### Edits -/

/-- Which elements each list of a configuration keeps, and in which order; the lists are named by
their places before the edit. -/
abbrev Edit := Pos → List ℕ

/-- The edit of what stands behind a step. -/
def Edit.below (e : Edit) (s : Step) : Edit := fun p => e (s :: p)

/-- Some elements of a list, in some order. -/
def select (σ : List ℕ) (items : List Json) : List Json := σ.filterMap (items[·]?)

mutual
def edited (e : Edit) : Json → Json
  | .arr items => .arr (select (e []) (editedItems e 0 items))
  | .obj ms => .obj (editedMembers e ms)
  | v => v

def editedItems (e : Edit) (n : ℕ) : List Json → List Json
  | [] => []
  | v :: vs => edited (e.below (.item n)) v :: editedItems e (n + 1) vs

def editedMembers (e : Edit) : Json.Members → Json.Members
  | [] => []
  | (k, v) :: ms => (k, edited (e.below (.member k)) v) :: editedMembers e ms
end

/-- Elements are deleted and reordered, in any of the lists. -/
def Edit.Rearranges (e : Edit) (x : Json) : Prop :=
  ∀ p items, getAt p x = some (.arr items) → (e p).Nodup ∧ ∀ i ∈ e p, i < items.length

/-- The edit brings what stands at the first place to the second. -/
def Edit.Moves : Edit → Pos → Pos → Prop
  | _, [], [] => True
  | e, .member k :: p, .member l :: q => k = l ∧ (e.below (.member k)).Moves p q
  | e, .item i :: p, .item j :: q => (e [])[j]? = some i ∧ (e.below (.item i)).Moves p q
  | _, _, _ => False

/-- The value stands at the place, and masking hides it. -/
def HiddenAt (T : CaseTable) (printable : Char → Bool) (maskAll : Bool) (x : Json) (p : Pos)
    (v : Json) : Prop :=
  getAt p x = some v ∧ getAt p (maskConfigPayload T printable maskAll x) = some (.str maskText)

/-- Reading a configuration masked and writing it back keeps it as it was; and where elements of its
lists were deleted or moved in between, a secret is not stored in another place, unless the same
secret was there. -/
structure RoundTrips (T : CaseTable) (printable : Char → Bool) (maskAll : Bool) (x : Json) :
    Prop where
  same : preserveMaskedSecrets T (maskConfigPayload T printable maskAll x) x = x
  apart : ∀ e : Edit, e.Rearranges x → ∀ (p q : Pos) (v w : Json), e.Moves p q → p ≠ q →
    HiddenAt T printable maskAll x p v → HiddenAt T printable maskAll x q w → w ≠ .str maskText →
      getAt q (preserveMaskedSecrets T (edited e (maskConfigPayload T printable maskAll x)) x) =
        some w → v = w

/-! ### The condition -/

/-- A header value that is masked. -/
def MaskedHeader (T : CaseTable) (printable : Char → Bool) (maskAll : Bool) (k : String)
    (v : Json) : Prop :=
  isSensitiveFieldName T k = true ∧ isUnset v = false ∨
    isSensitiveFieldName T k = false ∧
      (maskHeader T maskAll k (headerText printable (maskSecrets T v)) = maskText ∨
        hasPem (headerText printable (maskSecrets T v)) = true)

instance (T : CaseTable) (printable : Char → Bool) (maskAll : Bool) (k : String) (v : Json) :
    Decidable (MaskedHeader T printable maskAll k v) :=
  inferInstanceAs (Decidable (_ ∧ _ ∨ _ ∧ (_ ∨ _)))

instance (T : CaseTable) (k : String) (prior : Json) : Decidable (Taken T k prior) :=
  inferInstanceAs (Decidable (_ ∧ _ ∨ _))

section places

variable (T : CaseTable) (printable : Char → Bool) (maskAll : Bool)

mutual
/-- The places that masking hides, each with what stands there. -/
def hidden : Json → List (Pos × Json)
  | .str s => if hasPem s ∨ s = maskText then [([], .str s)] else []
  | .arr items => hiddenItems 0 items
  | .obj ms => hiddenMembers ms
  | _ => []

def hiddenItems (n : ℕ) : List Json → List (Pos × Json)
  | [] => []
  | v :: vs => (hidden v).map (fun h => (.item n :: h.1, h.2)) ++ hiddenItems (n + 1) vs

def hiddenMembers : Json.Members → List (Pos × Json)
  | [] => []
  | (k, v) :: ms =>
    (if isSensitiveFieldName T k then if isUnset v then [] else [([.member k], v)]
      else if isHeadersKey T k ∧ isObject v then
        ((membersOf v).filter fun m => MaskedHeader T printable maskAll m.1 m.2).map
          fun m => ([.member k, .member m.1], m.2)
      else (hidden v).map fun h => (.member k :: h.1, h.2)) ++ hiddenMembers ms
end

/-- A mask at the place is replaced by what was stored there. -/
def takenAt (p : Pos) (prior : Json) : Bool :=
  match p.getLast? with
  | some (.member k) => decide (Taken T k prior)
  | _ => false

end places

/-- The places differ in positions within lists only, so that a rearrangement brings what stands
at the first to the second. -/
def movable : Json → Pos → Pos → Bool
  | _, [], [] => true
  | .obj ms, .member k :: p, .member l :: q => k = l && (Dict.get? k ms).any fun v => movable v p q
  | .arr items, .item i :: p, .item j :: q =>
    j < items.length && items[i]?.any fun v => movable v p q
  | _, _, _ => false

/-- Hidden values that a rearrangement brings to each other's places are the same. -/
def Interchangeable (T : CaseTable) (printable : Char → Bool) (maskAll : Bool) (x : Json) : Prop :=
  ∀ a ∈ hidden T printable maskAll x, ∀ b ∈ hidden T printable maskAll x, a.1 ≠ b.1 →
    movable x a.1 b.1 = true → b.2 ≠ .str maskText → takenAt T b.1 b.2 = true → a.2 = b.2

instance (T : CaseTable) (printable : Char → Bool) (maskAll : Bool) (x : Json) :
    Decidable (Interchangeable T printable maskAll x) :=
  inferInstanceAs (Decidable (∀ a ∈ hidden T printable maskAll x,
    ∀ b ∈ hidden T printable maskAll x, _ → _ → _ → _ → _))

/-! ### What is hidden -/

theorem redactText_eq_maskText_iff {s : String} :
    redactText s = maskText ↔ hasPem s = true ∨ s = maskText := by
  unfold redactText
  split_ifs with hpem
  · simp [hpem]
  · simp [hpem]

theorem maskHeaderMember_eq_mask_iff {k : String} {v : Json} :
    maskHeaderMember T printable maskAll k v = .str maskText ↔
      MaskedHeader T printable maskAll k v := by
  unfold MaskedHeader
  cases hk : isSensitiveFieldName T k with
  | true =>
    rw [maskHeaderMember_sensitive hk]
    simp only [true_and, Bool.true_eq_false, false_and, or_false]
    cases isUnset v with
    | true => simpa using (by decide : "" ≠ maskText)
    | false => simp
  | false =>
    rw [maskHeaderMember_other hk, Json.str.injEq, redactText_eq_maskText_iff]
    simp only [Bool.false_eq_true, false_and, false_or, true_and]
    rcases maskHeader_cases (T := T) k (headerText printable (maskSecrets T v)) with
      hself | ⟨hmask, -⟩
    · rw [hself]
      exact or_comm
    · simp [hmask]

theorem get?_map_members (f : String → Json → Json) (k : String) (ms : Json.Members) :
    Dict.get? k (ms.map fun m => (m.1, f m.1 m.2)) = (Dict.get? k ms).map (f k) :=
  Dict.get?_mapValues f k ms

theorem getAt_str_eq_some_iff {p : Pos} {s : String} {v : Json} :
    getAt p (.str s) = some v ↔ p = [] ∧ v = .str s := by
  cases p with
  | nil => simp [getAt, eq_comm]
  | cons step p => cases step <;> simp [getAt]

theorem mem_hiddenItems_iff {n : ℕ} {items : List Json} {p : Pos} {v : Json} :
    (p, v) ∈ hiddenItems T printable maskAll n items ↔
      ∃ i u q, items[i]? = some u ∧ p = .item (n + i) :: q ∧ (q, v) ∈ hidden T printable maskAll u := by
  induction items generalizing n with
  | nil => simp [hiddenItems]
  | cons head rest ih =>
    rw [hiddenItems, List.mem_append, ih, List.mem_map]
    constructor
    · rintro (⟨⟨q, u⟩, hq, heq⟩ | ⟨i, u, q, hi, rfl, hq⟩)
      · obtain ⟨rfl, rfl⟩ := Prod.mk.inj heq
        exact ⟨0, head, q, rfl, rfl, hq⟩
      · exact ⟨i + 1, u, q, hi, by rw [Nat.add_right_comm, Nat.add_assoc], hq⟩
    · rintro ⟨i, u, q, hi, rfl, hq⟩
      cases i with
      | zero =>
        obtain rfl := Option.some.inj hi
        exact .inl ⟨(q, v), hq, rfl⟩
      | succ i => exact .inr ⟨i, u, q, hi, by rw [Nat.add_right_comm, Nat.add_assoc], hq⟩

/-- The places hidden behind a name. -/
def hiddenMember (T : CaseTable) (printable : Char → Bool) (maskAll : Bool) (k : String)
    (v : Json) : List (Pos × Json) :=
  if isSensitiveFieldName T k then if isUnset v then [] else [([.member k], v)]
  else if isHeadersKey T k ∧ isObject v then
    ((membersOf v).filter fun m => MaskedHeader T printable maskAll m.1 m.2).map
      fun m => ([.member k, .member m.1], m.2)
  else (hidden T printable maskAll v).map fun h => (.member k :: h.1, h.2)

theorem mem_hiddenMembers_iff {ms : Json.Members} {h : Pos × Json} :
    h ∈ hiddenMembers T printable maskAll ms ↔
      ∃ m ∈ ms, h ∈ hiddenMember T printable maskAll m.1 m.2 := by
  induction ms with
  | nil => simp [hiddenMembers]
  | cons m ms ih =>
    obtain ⟨k, v⟩ := m
    rw [hiddenMembers, List.mem_append, ih, List.exists_mem_cons_iff]
    rfl

theorem hiddenAt_headers_iff {hs : Json.Members} (hkeys : (hs.map Prod.fst).Nodup) {q : Pos}
    {v : Json} :
    getAt q (.obj hs) = some v ∧
        getAt q (.obj (hs.map fun m => (m.1, maskHeaderMember T printable maskAll m.1 m.2))) =
          some (.str maskText) ↔
      ∃ l, q = [.member l] ∧ (l, v) ∈ hs ∧ MaskedHeader T printable maskAll l v := by
  constructor
  · rintro ⟨hv, hmask⟩
    cases q with
    | nil => simp [getAt] at hmask
    | cons step q =>
      cases step with
      | item n => simp [getAt] at hv
      | member l =>
        obtain ⟨u, hu, hv⟩ := Option.bind_eq_some_iff.mp hv
        rw [getAt, get?_map_members, hu, Option.map_some, Option.bind_some] at hmask
        obtain ⟨rfl, heq⟩ := getAt_str_eq_some_iff.mp hmask
        obtain rfl : u = v := by simpa [getAt] using hv
        exact ⟨l, rfl, Dict.mem_of_get? hu, maskHeaderMember_eq_mask_iff.mp heq.symm⟩
  · rintro ⟨l, rfl, hmem, hmasked⟩
    have hget := Dict.get?_of_mem hkeys hmem
    simp [getAt, hget, get?_map_members, maskHeaderMember_eq_mask_iff.mpr hmasked]

/-- A hidden member: masked itself, a masked header, or hidden further in. -/
theorem mem_hiddenMember_iff {k : String} {v : Json} (hwf : v.WellFormed)
    (ih : ∀ q u, (q, u) ∈ hidden T printable maskAll v ↔ HiddenAt T printable maskAll v q u)
    {p : Pos} {u : Json} :
    (p, u) ∈ hiddenMember T printable maskAll k v ↔
      ∃ q, p = .member k :: q ∧ getAt q v = some u ∧
        getAt q (maskMember T printable maskAll k v) = some (.str maskText) := by
  unfold hiddenMember
  cases hk : isSensitiveFieldName T k with
  | true =>
    rw [if_pos rfl, maskMember_sensitive hk]
    by_cases hunset : isUnset v = true
    · rw [if_pos hunset, if_pos hunset]
      refine iff_of_false List.not_mem_nil ?_
      rintro ⟨q, -, -, hmask⟩
      rcases isUnset_iff.mp hunset with rfl | rfl
      · cases q with
        | nil => simp [getAt] at hmask
        | cons step q => cases step <;> simp [getAt] at hmask
      · exact absurd (getAt_str_eq_some_iff.mp hmask).2 (by decide)
    · rw [if_neg hunset, if_neg hunset, List.mem_singleton, Prod.mk.injEq]
      constructor
      · rintro ⟨rfl, rfl⟩
        exact ⟨[], rfl, rfl, rfl⟩
      · rintro ⟨q, rfl, hv, hmask⟩
        obtain ⟨rfl, -⟩ := getAt_str_eq_some_iff.mp hmask
        exact ⟨rfl, (Option.some.inj hv).symm⟩
  | false =>
    rw [if_neg Bool.false_ne_true]
    by_cases hheaders : isHeadersKey T k = true ∧ isObject v = true
    · rw [if_pos hheaders]
      obtain ⟨hkey, hobj⟩ := hheaders
      cases v with
      | obj hs =>
        simp only [maskMember_headers hk hkey, hiddenAt_headers_iff hwf.keys, membersOf,
          List.mem_map, List.mem_filter, decide_eq_true_eq, Prod.mk.injEq]
        constructor
        · rintro ⟨⟨l, w⟩, ⟨hmem, hmasked⟩, rfl, rfl⟩
          exact ⟨_, rfl, l, rfl, hmem, hmasked⟩
        · rintro ⟨q, rfl, l, rfl, hmem, hmasked⟩
          exact ⟨(l, u), ⟨hmem, hmasked⟩, rfl, rfl⟩
      | _ => cases hobj
    · rw [if_neg hheaders, maskMember_other hk fun hkey hs heq => hheaders ⟨hkey, by rw [heq]; rfl⟩,
        List.mem_map]
      constructor
      · rintro ⟨⟨q, w⟩, hmem, heq⟩
        obtain ⟨rfl, rfl⟩ := Prod.mk.inj heq
        exact ⟨q, rfl, (ih q w).mp hmem⟩
      · rintro ⟨q, rfl, hq⟩
        exact ⟨(q, u), (ih q u).mpr hq, rfl⟩

theorem not_hidden_scalar {v : Json}
    (hscalar : v = .null ∨ (∃ b, v = .bool b) ∨ (∃ i, v = .int i) ∨ ∃ f, v = .float f) (p : Pos)
    (u : Json) : (p, u) ∈ hidden T printable maskAll v ↔ HiddenAt T printable maskAll v p u := by
  have hnone : hidden T printable maskAll v = [] := by
    rcases hscalar with rfl | ⟨b, rfl⟩ | ⟨i, rfl⟩ | ⟨f, rfl⟩ <;> rfl
  have hself : maskConfigPayload T printable maskAll v = v := by
    rcases hscalar with rfl | ⟨b, rfl⟩ | ⟨i, rfl⟩ | ⟨f, rfl⟩ <;> rfl
  rw [hnone]
  refine iff_of_false List.not_mem_nil fun h => ?_
  have hmask := h.2
  rw [hself] at hmask
  rcases hscalar with rfl | ⟨b, rfl⟩ | ⟨i, rfl⟩ | ⟨f, rfl⟩ <;>
    rcases p with - | ⟨step | step, p⟩ <;> simp [getAt] at hmask

mutual
/-- The list of hidden places has those that masking hides. -/
theorem mem_hidden_iff : ∀ (v : Json), v.WellFormed → ∀ (p : Pos) (u : Json),
    (p, u) ∈ hidden T printable maskAll v ↔ HiddenAt T printable maskAll v p u
  | .null, _, p, u => not_hidden_scalar (.inl rfl) p u
  | .bool _, _, p, u => not_hidden_scalar (.inr (.inl ⟨_, rfl⟩)) p u
  | .int _, _, p, u => not_hidden_scalar (.inr (.inr (.inl ⟨_, rfl⟩))) p u
  | .float _, _, p, u => not_hidden_scalar (.inr (.inr (.inr ⟨_, rfl⟩))) p u
  | .str s, _, p, u => by
    unfold hidden HiddenAt
    rw [maskConfigPayload_str, getAt_str_eq_some_iff, getAt_str_eq_some_iff, Json.str.injEq,
      eq_comm (a := maskText), redactText_eq_maskText_iff]
    split_ifs with hmask
    · simp +contextual [hmask]
    · simp [hmask]
  | .arr items, hwf, p, u => by
    unfold hidden HiddenAt
    rw [maskConfigPayload_arr, mem_hiddenItems_iff]
    constructor
    · rintro ⟨i, v, q, hi, rfl, hq⟩
      have hv := List.mem_of_getElem? hi
      obtain ⟨hu, hmask⟩ := (mem_hidden_item_iff items v hv (hwf.item hv) q u).mp hq
      rw [Nat.zero_add]
      exact ⟨by simp [getAt, hi, hu], by simp [getAt, hi, hmask]⟩
    · rintro ⟨hu, hmask⟩
      cases p with
      | nil => simp [getAt] at hmask
      | cons step q =>
        cases step with
        | member k => simp [getAt] at hu
        | item i =>
          obtain ⟨v, hi, hu⟩ := Option.bind_eq_some_iff.mp hu
          have hv := List.mem_of_getElem? hi
          simp only [getAt, List.getElem?_map, hi, Option.map_some, Option.bind_some] at hmask
          refine ⟨i, v, q, hi, by rw [Nat.zero_add], ?_⟩
          exact (mem_hidden_item_iff items v hv (hwf.item hv) q u).mpr ⟨hu, hmask⟩
  | .obj ms, hwf, p, u => by
    unfold hidden HiddenAt
    rw [maskConfigPayload_obj, mem_hiddenMembers_iff]
    constructor
    · rintro ⟨⟨k, v⟩, hm, hp⟩
      obtain ⟨q, rfl, hu, hmask⟩ := (mem_hiddenMember_iff (hwf.member hm)
        (mem_hidden_member_iff ms (k, v) hm (hwf.member hm))).mp hp
      have hget := Dict.get?_of_mem hwf.keys hm
      exact ⟨by simp [getAt, hget, hu], by simp [getAt, get?_map_members, hget, hmask]⟩
    · rintro ⟨hu, hmask⟩
      cases p with
      | nil => simp [getAt] at hmask
      | cons step q =>
        cases step with
        | item i => simp [getAt] at hu
        | member k =>
          obtain ⟨v, hget, hu⟩ := Option.bind_eq_some_iff.mp hu
          have hm := Dict.mem_of_get? hget
          rw [getAt, get?_map_members, hget, Option.map_some, Option.bind_some] at hmask
          exact ⟨(k, v), hm, (mem_hiddenMember_iff (hwf.member hm)
            (mem_hidden_member_iff ms (k, v) hm (hwf.member hm))).mpr ⟨q, rfl, hu, hmask⟩⟩

theorem mem_hidden_item_iff : ∀ items : List Json, ∀ v ∈ items, v.WellFormed →
    ∀ (p : Pos) (u : Json),
      (p, u) ∈ hidden T printable maskAll v ↔ HiddenAt T printable maskAll v p u
  | [], _, hv, _, _, _ => absurd hv List.not_mem_nil
  | w :: ws, v, hv, hwf, p, u => by
    rcases List.mem_cons.mp hv with heq | hv
    · rw [heq] at hwf ⊢
      exact mem_hidden_iff w hwf p u
    · exact mem_hidden_item_iff ws v hv hwf p u

theorem mem_hidden_member_iff : ∀ ms : Json.Members, ∀ m ∈ ms, m.2.WellFormed →
    ∀ (p : Pos) (u : Json),
      (p, u) ∈ hidden T printable maskAll m.2 ↔ HiddenAt T printable maskAll m.2 p u
  | [], _, hm, _, _, _ => absurd hm List.not_mem_nil
  | (k, w) :: ms, m, hm, hwf, p, u => by
    rcases List.mem_cons.mp hm with heq | hm
    · rw [heq] at hwf ⊢
      exact mem_hidden_iff w hwf p u
    · exact mem_hidden_member_iff ms m hm hwf p u
end

/-! ### What is stored -/

theorem preserveMember_mask_eq (k : String) (prior : Json) :
    preserveMember T k (.str maskText) prior =
      if Taken T k prior then prior else .str maskText := by
  split_ifs with h
  · exact preserveMember_mask h
  · exact preserveMember_mask_of_not_taken h

theorem getAt_null (p : Pos) (h : p ≠ []) : getAt p .null = none := by
  cases p with
  | nil => exact absurd rfl h
  | cons step p => cases step <;> rfl

theorem takenAt_cons {step : Step} {p : Pos} (h : p ≠ []) (prior : Json) :
    takenAt T (step :: p) prior = takenAt T p prior := by
  cases p with
  | nil => exact absurd rfl h
  | cons next p => simp [takenAt]

/-- In place of a submitted mask is stored what was there, if restoration takes it. -/
theorem getAt_preserve_mask {q : Pos} {x y : Json} (h : getAt q y = some (.str maskText)) :
    getAt q (preserveMaskedSecrets T y x) =
      some (if takenAt T q ((getAt q x).getD .null) then (getAt q x).getD .null
        else .str maskText) := by
  induction q generalizing x y with
  | nil =>
    obtain rfl : y = .str maskText := by simpa [getAt] using h
    rfl
  | cons step q ih =>
    cases step with
    | member k =>
      cases y with
      | obj ms =>
        obtain ⟨v, hv, hmask⟩ := Option.bind_eq_some_iff.mp h
        have hprior : getAt (.member k :: q) x = (Dict.get? k (membersOf x)).bind (getAt q) := by
          cases x <;> rfl
        have hmember : Dict.get? k (preserveMembers T ms (membersOf x)) =
            some (preserveMember T k v ((Dict.get? k (membersOf x)).getD .null)) := by
          rw [preserveMembers_eq, get?_map_members fun l u =>
            preserveMember T l u ((Dict.get? l (membersOf x)).getD .null), hv, Option.map_some]
        rw [preserveMaskedSecrets, getAt, hmember, Option.bind_some, hprior]
        by_cases hq : q = []
        · obtain rfl := hq
          obtain rfl : v = .str maskText := by simpa [getAt] using hmask
          have hnil : (Dict.get? k (membersOf x)).bind (getAt []) = Dict.get? k (membersOf x) := by
            cases Dict.get? k (membersOf x) <;> rfl
          rw [preserveMember_mask_eq, hnil]
          simp [getAt, takenAt]
        · have hstr : v ≠ .str maskText := by
            rintro rfl
            exact hq (getAt_str_eq_some_iff.mp hmask).1
          rw [preserveMember_other hstr, ih hmask, takenAt_cons hq]
          cases Dict.get? k (membersOf x) with
          | none => simp [getAt_null q hq]
          | some u => rfl
      | _ => cases h
    | item n =>
      cases y with
      | arr items =>
        obtain ⟨v, hv, hmask⟩ := Option.bind_eq_some_iff.mp h
        have hprior : getAt (.item n :: q) x = (listOf x)[n]?.bind (getAt q) := by
          cases x <;> simp [getAt, listOf]
        rw [preserveMaskedSecrets, getAt, preserveItems_eq, List.getElem?_mapIdx, hv,
          Option.map_some, Option.bind_some, hprior, ih hmask]
        by_cases hq : q = []
        · obtain rfl := hq
          simp [takenAt]
        · rw [takenAt_cons hq]
          cases (listOf x)[n]? with
          | none => simp [getAt_null q hq]
          | some u => rfl
      | _ => cases h

/-! ### What an edit brings where -/

theorem getElem?_select {σ : List ℕ} {l : List Json} (h : ∀ i ∈ σ, i < l.length) (j : ℕ) :
    (select σ l)[j]? = σ[j]?.bind (l[·]?) := by
  induction σ generalizing j with
  | nil => rfl
  | cons i σ ih =>
    have hi := h i List.mem_cons_self
    have hcons : select (i :: σ) l = l[i] :: select σ l := by
      rw [select, List.filterMap_cons, List.getElem?_eq_getElem hi]
      rfl
    rw [hcons]
    cases j with
    | zero => simp [hi]
    | succ j => simpa using ih (fun m hm => h m (List.mem_cons_of_mem i hm)) j

theorem length_le_of_nodup {σ : List ℕ} {n : ℕ} (hσ : σ.Nodup) (h : ∀ i ∈ σ, i < n) :
    σ.length ≤ n := by
  have hsub : σ ⊆ List.range n := fun i hi => List.mem_range.mpr (h i hi)
  have hle := (hσ.subperm hsub).length_le
  rwa [List.length_range] at hle

theorem editedItems_eq (e : Edit) (n : ℕ) (items : List Json) :
    editedItems e n items = items.mapIdx fun i v => edited (e.below (.item (n + i))) v := by
  induction items generalizing n with
  | nil => rfl
  | cons v vs ih =>
    rw [editedItems, ih, List.mapIdx_cons]
    simp [Nat.add_right_comm, Nat.add_assoc]

theorem editedMembers_eq (e : Edit) (ms : Json.Members) :
    editedMembers e ms = ms.map fun m => (m.1, edited (e.below (.member m.1)) m.2) := by
  induction ms with
  | nil => rfl
  | cons m ms ih =>
    obtain ⟨k, v⟩ := m
    rw [editedMembers, ih]
    rfl

theorem Edit.Rearranges.member {e : Edit} {ms : Json.Members} {k : String} {v : Json}
    (h : e.Rearranges (.obj ms)) (hv : Dict.get? k ms = some v) :
    (e.below (.member k)).Rearranges v :=
  fun p items hp => h (.member k :: p) items (by simp [getAt, hv, hp])

theorem Edit.Rearranges.item {e : Edit} {xs : List Json} {i : ℕ} {v : Json}
    (h : e.Rearranges (.arr xs)) (hv : xs[i]? = some v) : (e.below (.item i)).Rearranges v :=
  fun p items hp => h (.item i :: p) items (by simp [getAt, hv, hp])

/-- A text is found again where the edit brings it. -/
theorem getAt_edited {e : Edit} {p q : Pos} {y : Json} {s : String} (hy : e.Rearranges y)
    (hmoves : e.Moves p q) (h : getAt p y = some (.str s)) :
    getAt q (edited e y) = some (.str s) := by
  induction p generalizing e q y with
  | nil =>
    cases q with
    | nil =>
      obtain rfl : y = .str s := by simpa [getAt] using h
      rfl
    | cons step q => exact hmoves.elim
  | cons step p ih =>
    cases step with
    | member k =>
      cases y with
      | obj ms =>
        obtain ⟨v, hv, h⟩ := Option.bind_eq_some_iff.mp h
        rcases q with - | ⟨l | j, q⟩
        · exact hmoves.elim
        · obtain ⟨rfl, hmoves⟩ := hmoves
          rw [edited, getAt, editedMembers_eq,
            get?_map_members fun l u => edited (e.below (.member l)) u, hv]
          exact ih (hy.member hv) hmoves h
        · exact hmoves.elim
      | _ => cases h
    | item i =>
      cases y with
      | arr items =>
        obtain ⟨v, hv, h⟩ := Option.bind_eq_some_iff.mp h
        rcases q with - | ⟨l | j, q⟩
        · exact hmoves.elim
        · exact hmoves.elim
        · obtain ⟨hij, hmoves⟩ := hmoves
          have hbound := (hy [] items rfl).2
          rw [edited, getAt, editedItems_eq, getElem?_select (by simpa using hbound), hij,
            Option.bind_some, List.getElem?_mapIdx, hv, Nat.zero_add]
          exact ih (hy.item hv) hmoves h
      | _ => cases h

theorem movable_of_moves {e : Edit} {p q : Pos} {x v : Json} (hx : e.Rearranges x)
    (hmoves : e.Moves p q) (hv : getAt p x = some v) : movable x p q = true := by
  induction p generalizing e q x with
  | nil =>
    cases q with
    | nil => simp [movable]
    | cons step q => exact hmoves.elim
  | cons step p ih =>
    cases step with
    | member k =>
      cases x with
      | obj ms =>
        obtain ⟨u, hu, hv⟩ := Option.bind_eq_some_iff.mp hv
        rcases q with - | ⟨l | j, q⟩
        · exact hmoves.elim
        · obtain ⟨rfl, hmoves⟩ := hmoves
          simpa [movable, hu] using ih (hx.member hu) hmoves hv
        · exact hmoves.elim
      | _ => cases hv
    | item i =>
      cases x with
      | arr items =>
        obtain ⟨u, hu, hv⟩ := Option.bind_eq_some_iff.mp hv
        rcases q with - | ⟨l | j, q⟩
        · exact hmoves.elim
        · exact hmoves.elim
        · obtain ⟨hij, hmoves⟩ := hmoves
          obtain ⟨hnodup, hbound⟩ := hx [] items rfl
          have hj : j < items.length :=
            (List.getElem?_eq_some_iff.mp hij).1.trans_le (length_le_of_nodup hnodup hbound)
          simpa [movable, hj, hu] using ih (hx.item hu) hmoves hv
      | _ => cases hv

/-- The edit that leaves every list as it is. -/
def Edit.keep (x : Json) : Edit := fun p => List.range (listOf ((getAt p x).getD .null)).length

/-- The edit of one list and of what stands behind one step. -/
def Edit.onto (x : Json) (here : List ℕ) (step : Step) (e : Edit) : Edit
  | [] => here
  | next :: p => if next = step then e p else Edit.keep x (next :: p)

theorem Edit.keep_rearranges (x : Json) : (Edit.keep x).Rearranges x := by
  intro p items hp
  simp [Edit.keep, hp, listOf, List.nodup_range]

theorem Edit.below_onto (x : Json) (here : List ℕ) (step : Step) (e : Edit) :
    (Edit.onto x here step e).below step = e := by
  funext p
  simp [Edit.below, Edit.onto]

theorem Edit.onto_rearranges {x : Json} {here : List ℕ} {step : Step} {e : Edit}
    (hhere : ∀ items, x = .arr items → here.Nodup ∧ ∀ i ∈ here, i < items.length)
    (hbelow : ∀ p items, getAt (step :: p) x = some (.arr items) →
      (e p).Nodup ∧ ∀ i ∈ e p, i < items.length) :
    (Edit.onto x here step e).Rearranges x := by
  intro p items hp
  cases p with
  | nil => exact hhere items (by simpa [getAt] using hp)
  | cons next p =>
    by_cases hnext : next = step
    · obtain rfl := hnext
      rw [Edit.onto, if_pos rfl]
      exact hbelow p items hp
    · rw [Edit.onto, if_neg hnext]
      exact Edit.keep_rearranges x _ items hp

/-- Every element of a list can come to stand at the place of every other. -/
theorem exists_moved {n i j : ℕ} (hi : i < n) (hj : j < n) :
    ∃ σ : List ℕ, σ.Nodup ∧ (∀ m ∈ σ, m < n) ∧ σ[j]? = some i := by
  refine ⟨(List.range n).map (Equiv.swap i j), ?_, ?_, ?_⟩
  · exact (List.nodup_range).map (Equiv.swap i j).injective
  · intro m hm
    obtain ⟨l, hl, rfl⟩ := List.mem_map.mp hm
    have hlt := List.mem_range.mp hl
    rw [Equiv.swap_apply_def]
    split_ifs <;> omega
  · simp [hj]

/-- Places that differ in positions within lists only are brought to each other by some edit. -/
theorem exists_moves {p q : Pos} {x : Json} (h : movable x p q = true) :
    ∃ e : Edit, e.Rearranges x ∧ e.Moves p q := by
  induction p generalizing q x with
  | nil =>
    cases q with
    | nil => exact ⟨Edit.keep x, Edit.keep_rearranges x, trivial⟩
    | cons step q => simp [movable] at h
  | cons step p ih =>
    rcases q with - | ⟨next, q⟩
    · cases step <;> simp [movable] at h
    cases step with
    | member k =>
      cases next with
      | item j => simp [movable] at h
      | member l =>
        cases x with
        | obj ms =>
          simp only [movable, Bool.and_eq_true, decide_eq_true_eq, Option.any_eq_true] at h
          obtain ⟨rfl, v, hv, hmovable⟩ := h
          obtain ⟨e, he, hmoves⟩ := ih hmovable
          refine ⟨Edit.onto (.obj ms) [] (.member k) e, Edit.onto_rearranges (by simp) ?_, rfl, ?_⟩
          · intro r items hr
            exact he r items (by simpa [getAt, hv] using hr)
          · rw [Edit.below_onto]
            exact hmoves
        | _ => simp [movable] at h
    | item i =>
      cases next with
      | member l => simp [movable] at h
      | item j =>
        cases x with
        | arr items =>
          simp only [movable, Bool.and_eq_true, decide_eq_true_eq, Option.any_eq_true] at h
          obtain ⟨hj, v, hv, hmovable⟩ := h
          obtain ⟨e, he, hmoves⟩ := ih hmovable
          obtain ⟨σ, hnodup, hσ, hij⟩ := exists_moved (List.getElem?_eq_some_iff.mp hv).1 hj
          refine ⟨Edit.onto (.arr items) σ (.item i) e, Edit.onto_rearranges ?_ ?_, hij, ?_⟩
          · rintro _ ⟨⟩
            exact ⟨hnodup, hσ⟩
          · intro r others hr
            exact he r others (by simpa [getAt, hv] using hr)
          · rw [Edit.below_onto]
            exact hmoves
        | _ => simp [movable] at h

/-! ### The round trip -/

theorem getAt_headers (hs : Json.Members) (p : Pos) (zs : List Json) :
    getAt p (.obj (hs.map fun m => (m.1, maskHeaderMember T printable maskAll m.1 m.2))) ≠
      some (.arr zs) := by
  cases p with
  | nil => simp [getAt]
  | cons s p =>
    cases s with
    | item n => simp [getAt]
    | member l =>
      rw [getAt, get?_map_members]
      cases Dict.get? l hs with
      | none => simp
      | some u =>
        cases p with
        | nil => simp [getAt, maskHeaderMember]
        | cons s p => cases s <;> simp [getAt, maskHeaderMember]

theorem getAt_scalar_ne {v : Json} (h : v = .null ∨ ∃ s, v = .str s) (p : Pos) (zs : List Json) :
    getAt p v ≠ some (.arr zs) := by
  cases p with
  | nil =>
    rcases h with rfl | ⟨s, rfl⟩
    · simp [getAt]
    · simp [getAt]
  | cons s p =>
    rcases h with rfl | ⟨t, rfl⟩
    · cases s <;> simp [getAt]
    · cases s <;> simp [getAt]

/-- The lists of the masked form are lists of the configuration, masked. -/
theorem exists_of_getAt_mask_arr {p : Pos} {x : Json} {zs : List Json}
    (h : getAt p (maskConfigPayload T printable maskAll x) = some (.arr zs)) :
    ∃ xs, getAt p x = some (.arr xs) ∧ zs = xs.map (maskConfigPayload T printable maskAll) := by
  induction p generalizing x with
  | nil =>
    cases x with
    | arr xs =>
      rw [maskConfigPayload_arr] at h
      exact ⟨xs, rfl, (Json.arr.inj (Option.some.inj h)).symm⟩
    | obj ms => simp [getAt, maskConfigPayload_obj] at h
    | _ => simp [getAt, maskConfigPayload, maskSecrets, maskNestedHeaders, redactPemLiterals] at h
  | cons step p ih =>
    cases step with
    | item n =>
      cases x with
      | arr xs =>
        rw [maskConfigPayload_arr, getAt, List.getElem?_map] at h
        obtain ⟨w, hw, h⟩ := Option.bind_eq_some_iff.mp h
        obtain ⟨v, hv, rfl⟩ := Option.map_eq_some_iff.mp hw
        obtain ⟨ys, hys, hzs⟩ := ih h
        exact ⟨ys, by simp [getAt, hv, hys], hzs⟩
      | obj ms => simp [maskConfigPayload_obj, getAt] at h
      | _ => simp [maskConfigPayload, maskSecrets, maskNestedHeaders, redactPemLiterals, getAt] at h
    | member k =>
      cases x with
      | obj ms =>
        rw [maskConfigPayload_obj, getAt, get?_map_members] at h
        obtain ⟨w, hw, h⟩ := Option.bind_eq_some_iff.mp h
        obtain ⟨v, hv, rfl⟩ := Option.map_eq_some_iff.mp hw
        cases hk : isSensitiveFieldName T k with
        | true =>
          refine absurd h (getAt_scalar_ne ?_ p zs)
          rw [maskMember_sensitive hk]
          split_ifs with hunset
          · exact (isUnset_iff.mp hunset).imp_right fun heq => ⟨"", heq⟩
          · exact .inr ⟨maskText, rfl⟩
        | false =>
          by_cases hheaders : isHeadersKey T k = true ∧ ∃ hs, v = .obj hs
          · obtain ⟨hkey, hs, rfl⟩ := hheaders
            rw [maskMember_headers hk hkey] at h
            exact absurd h (getAt_headers hs p zs)
          · rw [maskMember_other hk fun hkey hs heq => hheaders ⟨hkey, hs, heq⟩] at h
            obtain ⟨ys, hys, hzs⟩ := ih h
            exact ⟨ys, by simp [getAt, hv, hys], hzs⟩
      | arr xs => simp [maskConfigPayload_arr, getAt] at h
      | _ => simp [maskConfigPayload, maskSecrets, maskNestedHeaders, redactPemLiterals, getAt] at h

theorem Edit.Rearranges.mask {e : Edit} {x : Json} (h : e.Rearranges x) :
    e.Rearranges (maskConfigPayload T printable maskAll x) := by
  intro p zs hp
  obtain ⟨xs, hx, rfl⟩ := exists_of_getAt_mask_arr hp
  simpa using h p xs hx

/-- A configuration survives being read masked and written back, with its lists edited in between,
exactly where it is restorable and no edit brings a hidden value to the place of another one. -/
theorem roundTrips_iff (T : CaseTable) (printable : Char → Bool) (maskAllHeaderValues : Bool)
    {x : Json} (hwf : x.WellFormed) :
    RoundTrips T printable maskAllHeaderValues x ↔
      Restorable T x ∧ Interchangeable T printable maskAllHeaderValues x := by
  have hstored : ∀ (e : Edit), e.Rearranges x → ∀ (p q : Pos) (v w : Json), e.Moves p q →
      HiddenAt T printable maskAllHeaderValues x p v →
        HiddenAt T printable maskAllHeaderValues x q w →
      getAt q (preserveMaskedSecrets T
          (edited e (maskConfigPayload T printable maskAllHeaderValues x)) x) =
        some (if takenAt T q w then w else .str maskText) := by
    intro e he p q v w hmoves hp hq
    rw [getAt_preserve_mask (getAt_edited he.mask hmoves hp.2), hq.1]
    rfl
  constructor
  · rintro ⟨hsame, hapart⟩
    refine ⟨(preserve_mask_iff x hwf).mp hsame, ?_⟩
    rintro ⟨p, v⟩ hp ⟨q, w⟩ hq hne hmovable hw htaken
    rw [mem_hidden_iff x hwf] at hp hq
    obtain ⟨e, he, hmoves⟩ := exists_moves hmovable
    refine hapart e he p q v w hmoves hne hp hq hw ?_
    rw [hstored e he p q v w hmoves hp hq, if_pos htaken]
  · rintro ⟨hrestorable, hsafe⟩
    refine ⟨(preserve_mask_iff x hwf).mpr hrestorable, ?_⟩
    intro e he p q v w hmoves hne hp hq hw hget
    have htaken : takenAt T q w = true := by
      by_contra hnot
      rw [hstored e he p q v w hmoves hp hq, if_neg hnot, Option.some.injEq] at hget
      exact hw hget.symm
    exact hsafe (p, v) ((mem_hidden_iff x hwf p v).mpr hp) (q, w)
      ((mem_hidden_iff x hwf q w).mpr hq) hne (movable_of_moves he hmoves hp.1) hw htaken

/-- Two hosts with a password each. -/
def twoHosts : Json :=
  .obj [("hosts", .arr [.obj [("password", .str "alpha")], .obj [("password", .str "beta")]])]

def deleteFirstHost : Edit := fun p => if p = [.member "hosts"] then [1] else []

/-- With the first host deleted, the second one gets its password. -/
theorem twoHosts_exposed : ¬ RoundTrips PyText.asciiCase (fun _ => false) false twoHosts := by
  intro h
  have hdeletes : deleteFirstHost.Rearranges twoHosts := by
    intro p items hp
    by_cases hhosts : p = [.member "hosts"]
    · obtain rfl := hhosts
      simp [getAt, twoHosts] at hp
      simp [deleteFirstHost, ← hp]
    · simp [deleteFirstHost, hhosts]
  have heq := h.apart deleteFirstHost hdeletes [.member "hosts", .item 1, .member "password"]
    [.member "hosts", .item 0, .member "password"] (.str "beta") (.str "alpha")
    ⟨rfl, rfl, rfl, trivial⟩ (by decide) ⟨rfl, by decide +kernel⟩ ⟨rfl, by decide +kernel⟩
    (by decide) (by decide +kernel)
  exact absurd heq (by decide)

/-- Hosts with users of their own; the passwords that an edit can exchange are the same. -/
def nestedHosts : Json :=
  .obj [("hosts", .arr [
      .obj [("users", .arr [.obj [("password", .str "alpha")], .obj [("token", .str "beta")]])],
      .obj [("users", .arr [.obj [("password", .str "alpha")]]), ("api_key", .str "gamma")]]),
    ("key_pem", .str "-----BEGIN KEY-----A-----END KEY-----")]

theorem nestedHosts_roundTrips :
    RoundTrips PyText.asciiCase (fun _ => false) false nestedHosts := by
  have hwf : nestedHosts.WellFormed := by
    simp [nestedHosts, Json.WellFormed, Json.WellFormedMembers, Json.WellFormedItems]
  apply (roundTrips_iff PyText.asciiCase (fun _ => false) false hwf).mpr
  refine ⟨by
    simp [nestedHosts, Restorable, RestorableMembers, RestorableItems, isObject], by decide +kernel⟩

end Secrets
