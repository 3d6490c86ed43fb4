import DataRelay.Lib.Json

/-! Multi-valued selector paths over JSON values. A path designates a list of
positions; `rewriteAt` is the reference meaning of rewriting every designated
value and touching nothing else. -/
namespace JsonPath
open Json

inductive Sel where
  | key (name : String)
  | index (i : ℤ)
  | wild
  deriving DecidableEq, Repr

inductive Step where
  | member (name : String)
  | item (n : ℕ)
  deriving DecidableEq, Repr

abbrev Pos := List Step

instance : LawfulBEq Pos := inferInstanceAs (LawfulBEq (List Step))

def getAt : Pos → Json → Option Json
  | [], v => some v
  | .member k :: p, .obj ms => (Dict.get? k ms).bind (getAt p)
  | .item n :: p, .arr xs => xs[n]?.bind (getAt p)
  | _ :: _, _ => none

theorem getAt_append (p q : Pos) (v : Json) : getAt (p ++ q) v = (getAt p v).bind (getAt q) := by
  induction p generalizing v with
  | nil => rfl
  | cons s p ih =>
    cases s with
    | member k =>
      cases v with
      | obj ms => cases hc : Dict.get? k ms <;> simp [getAt, hc, ih]
      | _ => rfl
    | item n =>
      cases v with
      | arr xs => cases hc : xs[n]? <;> simp [getAt, hc, ih]
      | _ => rfl

/-- Every position a selector path designates, in document order. -/
def positions : List Sel → Json → List Pos
  | [], _ => [[]]
  | .key k :: r, .obj ms =>
    match Dict.get? k ms with
    | some c => (positions r c).map (.member k :: ·)
    | none => []
  | .index i :: r, .arr xs =>
    match (resolveIndex xs.length i).bind (fun n => xs[n]?.map (n, ·)) with
    | some (n, c) => (positions r c).map (.item n :: ·)
    | none => []
  | .wild :: r, .arr xs =>
    xs.zipIdx.flatMap fun x => (positions r x.1).map (.item x.2 :: ·)
  | _ :: _, _ => []

/-- The values a path designates. -/
def valuesAt : List Sel → Json → List Json
  | [], v => [v]
  | .key k :: r, .obj ms => ((Dict.get? k ms).map (valuesAt r)).getD []
  | .index i :: r, .arr xs =>
    (((resolveIndex xs.length i).bind (xs[·]?)).map (valuesAt r)).getD []
  | .wild :: r, .arr xs => xs.flatMap (valuesAt r)
  | _ :: _, _ => []

def rewriteMember (k : String) (f : Json → Option Json) (ms : Members) : Members :=
  match Dict.get? k ms with
  | none => ms
  | some v =>
    match f v with
    | some w => Dict.set k w ms
    | none => Dict.erase k ms

def rewriteItem (n : ℕ) (f : Json → Option Json) (xs : List Json) : List Json :=
  match xs[n]? with
  | none => xs
  | some v =>
    match f v with
    | some w => xs.set n w
    | none => xs.eraseIdx n

/-- Rewrite every designated value by `f`, where `none` removes it. Only the empty
path can remove the root itself. -/
def rewriteAt (f : Json → Option Json) : List Sel → Json → Option Json
  | [], v => f v
  | .key k :: r, .obj ms => some (.obj (rewriteMember k (rewriteAt f r) ms))
  | .index i :: r, .arr xs =>
    some (.arr (match resolveIndex xs.length i with
      | some n => rewriteItem n (rewriteAt f r) xs
      | none => xs))
  | .wild :: r, .arr xs => some (.arr (xs.filterMap (rewriteAt f r)))
  | _ :: _, v => some v

attribute [local grind =] getAt positions valuesAt rewriteMember rewriteItem rewriteAt

theorem resolved_item {xs : List Json} {i : ℤ} {n : ℕ}
    (h : resolveIndex xs.length i = some n) : ∃ c, xs[n]? = some c :=
  ⟨xs.get ⟨n, resolveIndex_lt h⟩, List.getElem?_eq_getElem (resolveIndex_lt h)⟩

theorem positions_index {xs : List Json} {i : ℤ} {n : ℕ} {c : Json} (r : List Sel)
    (h : resolveIndex xs.length i = some n) (hc : xs[n]? = some c) :
    positions (.index i :: r) (.arr xs) = (positions r c).map (.item n :: ·) := by
  simp [positions, h, hc]

theorem mem_positions_wild {r : List Sel} {xs : List Json} {p : Pos} :
    p ∈ positions (.wild :: r) (.arr xs) ↔
      ∃ n x q, xs[n]? = some x ∧ q ∈ positions r x ∧ p = .item n :: q := by
  simp only [positions, List.mem_flatMap, List.mem_map, Prod.exists,
    List.mk_mem_zipIdx_iff_getElem?]
  constructor
  · rintro ⟨x, n, hx, q, hq, rfl⟩
    exact ⟨n, x, q, hx, hq, rfl⟩
  · rintro ⟨n, x, q, hx, hq, rfl⟩
    exact ⟨x, n, hx, q, hq, rfl⟩

theorem positions_wild_length (r : List Sel) (xs : List Json) :
    (positions (.wild :: r) (.arr xs)).length =
      (xs.map fun x => (positions r x).length).sum := by
  have h : ∀ k, (xs.zipIdx k).map (fun x => (positions r x.1).length) =
      xs.map fun x => (positions r x).length := by
    induction xs with
    | nil => simp
    | cons x xs ih => intro k; simp [List.zipIdx_cons, ih]
  simp [positions, List.length_flatMap, h]

theorem valuesAt_length (sels : List Sel) (v : Json) :
    (valuesAt sels v).length = (positions sels v).length := by
  induction sels generalizing v with
  | nil => rfl
  | cons s r ih =>
    cases s with
    | key k =>
      cases v with
      | obj ms => cases hc : Dict.get? k ms <;> simp [valuesAt, positions, hc, ih]
      | _ => rfl
    | index i =>
      cases v with
      | arr xs =>
        cases hn : resolveIndex xs.length i with
        | none => simp [valuesAt, positions, hn]
        | some n =>
          obtain ⟨c, hc⟩ := resolved_item hn
          simp [valuesAt, positions, hn, hc, ih]
      | _ => rfl
    | wild =>
      cases v with
      | arr xs => simp [valuesAt, positions_wild_length, List.length_flatMap, ih]
      | _ => rfl

/-- A rewrite that keeps every designated value is the identity. -/
theorem rewriteAt_eq_self {f : Json → Option Json} {sels : List Sel} {v : Json}
    (h : ∀ x ∈ valuesAt sels v, f x = some x) : rewriteAt f sels v = some v := by
  induction sels generalizing v with
  | nil => exact h v (by simp [valuesAt])
  | cons s r ih =>
    cases s with
    | key k =>
      cases v with
      | obj ms =>
        cases hc : Dict.get? k ms with
        | none => simp [rewriteAt, rewriteMember, hc]
        | some c =>
          have hr : rewriteAt f r c = some c := ih (by simpa [valuesAt, hc] using h)
          simp [rewriteAt, rewriteMember, hc, hr, Dict.set_self hc]
      | _ => rfl
    | index i =>
      cases v with
      | arr xs =>
        cases hn : resolveIndex xs.length i with
        | none => simp [rewriteAt, hn]
        | some n =>
          obtain ⟨c, hc⟩ := resolved_item hn
          have hr : rewriteAt f r c = some c := ih (by simpa [valuesAt, hn, hc] using h)
          obtain ⟨hlt, rfl⟩ := List.getElem?_eq_some_iff.mp hc
          simp only [rewriteAt, hn, rewriteItem, hc, hr, List.set_getElem_self]
      | _ => rfl
    | wild =>
      cases v with
      | arr xs =>
        have hx : ∀ x ∈ xs, rewriteAt f r x = some x := fun x hx =>
          ih fun y hy => h y (by simpa [valuesAt] using ⟨x, hx, hy⟩)
        have : xs.filterMap (rewriteAt f r) = xs := by
          rw [List.filterMap_congr hx]
          exact List.filterMap_some
        simp [rewriteAt, this]
      | _ => rfl

/-- Without a designated position the rewrite is the identity. -/
theorem rewriteAt_of_positions_nil {f : Json → Option Json} {sels : List Sel} {v : Json}
    (h : positions sels v = []) : rewriteAt f sels v = some v := by
  have hnil : valuesAt sels v = [] := by
    rw [← List.length_eq_zero_iff, valuesAt_length, h, List.length_nil]
  exact rewriteAt_eq_self (by simp [hnil])

theorem rewriteMember_some {k : String} {f : Json → Option Json} {ms : Members} {c d : Json}
    (hc : Dict.get? k ms = some c) (hd : f c = some d) :
    rewriteMember k f ms = Dict.set k d ms := by
  simp [rewriteMember, hc, hd]

theorem rewriteItem_some {n : ℕ} {f : Json → Option Json} {xs : List Json} {c d : Json}
    (hc : xs[n]? = some c) (hd : f c = some d) : rewriteItem n f xs = xs.set n d := by
  simp [rewriteItem, hc, hd]

/-- A replacing rewrite never removes anything. -/
theorem rewriteAt_replace_isSome (g : Json → Json) (sels : List Sel) (v : Json) :
    ∃ w, rewriteAt (fun x => some (g x)) sels v = some w := by
  cases sels with
  | nil => exact ⟨g v, rfl⟩
  | cons s r => cases s <;> cases v <;> exact ⟨_, rfl⟩

/-- A replacing rewrite keeps the length and the order of a list. -/
theorem filterMap_replace (g : Json → Json) (r : List Sel) (xs : List Json) (n : ℕ) :
    (xs.filterMap (rewriteAt (fun x => some (g x)) r))[n]? =
      xs[n]?.bind (rewriteAt (fun x => some (g x)) r) := by
  induction xs generalizing n with
  | nil => simp
  | cons x xs ih =>
    obtain ⟨w, hw⟩ := rewriteAt_replace_isSome g r x
    cases n with
    | zero => simp [hw]
    | succ n => simp [hw, ih]

/-- Replacing puts the new value at every designated position. -/
theorem getAt_rewriteAt_of_mem {g : Json → Json} {sels : List Sel} {v w x : Json} {p : Pos}
    (hw : rewriteAt (fun x => some (g x)) sels v = some w) (hp : p ∈ positions sels v)
    (hx : getAt p v = some x) : getAt p w = some (g x) := by
  induction sels generalizing v w p with
  | nil =>
    obtain rfl : p = [] := by simpa [positions] using hp
    simp only [getAt, Option.some.injEq, rewriteAt] at hx hw ⊢
    rw [← hw, hx]
  | cons s r ih =>
    cases s with
    | key k =>
      cases v <;> simp only [positions, List.not_mem_nil] at hp
      rename_i ms
      cases hc : Dict.get? k ms with
      | none => simp [hc] at hp
      | some c =>
        simp only [hc, List.mem_map] at hp
        obtain ⟨q, hq, rfl⟩ := hp
        obtain ⟨d, hd⟩ := rewriteAt_replace_isSome g r c
        simp only [rewriteAt, rewriteMember_some hc hd, Option.some.injEq] at hw
        simp only [getAt, hc, Option.bind_some] at hx
        simpa [← hw, getAt] using ih hd hq hx
    | index i =>
      cases v with
      | arr xs =>
        cases hn : resolveIndex xs.length i with
        | none => simp [positions, hn] at hp
        | some n =>
          obtain ⟨c, hc⟩ := resolved_item hn
          rw [positions_index r hn hc, List.mem_map] at hp
          obtain ⟨q, hq, rfl⟩ := hp
          obtain ⟨d, hd⟩ := rewriteAt_replace_isSome g r c
          simp only [rewriteAt, hn, rewriteItem_some hc hd, Option.some.injEq] at hw
          simp only [getAt, hc, Option.bind_some] at hx
          simpa [← hw, getAt, resolveIndex_lt hn] using ih hd hq hx
      | _ => simp [positions] at hp
    | wild =>
      cases v with
      | arr xs =>
        obtain ⟨n, c, q, hc, hq, rfl⟩ := mem_positions_wild.mp hp
        obtain ⟨d, hd⟩ := rewriteAt_replace_isSome g r c
        simp only [rewriteAt, Option.some.injEq] at hw
        simp only [getAt, hc, Option.bind_some] at hx
        simpa [← hw, getAt, filterMap_replace, hc, hd] using ih hd hq hx
      | _ => simp [positions] at hp

/-- `q` lies on no designated branch: it is neither below nor above a designated position. -/
def Apart (sels : List Sel) (v : Json) (q : Pos) : Prop :=
  ∀ p ∈ positions sels v, ¬ p <+: q ∧ ¬ q <+: p

theorem Apart.cons {sels r : List Sel} {v c : Json} {s : Step} {q : Pos}
    (h : Apart sels v (s :: q)) (hs : ∀ p ∈ positions r c, s :: p ∈ positions sels v) :
    Apart r c q := by
  intro p hp
  simpa [List.cons_prefix_cons] using h _ (hs p hp)

/-- Replacing changes no value off the designated branches. -/
theorem getAt_rewriteAt_of_apart {g : Json → Json} {sels : List Sel} {v w : Json} {q : Pos}
    (hw : rewriteAt (fun x => some (g x)) sels v = some w) (hq : Apart sels v q) :
    getAt q w = getAt q v := by
  induction sels generalizing v w q with
  | nil => simpa using (hq [] (by simp [positions])).1
  | cons s r ih =>
    cases q with
    | nil =>
      have hnil : positions (s :: r) v = [] := by
        rw [List.eq_nil_iff_forall_not_mem]
        intro p hp
        exact (hq p hp).2 List.nil_prefix
      rw [rewriteAt_of_positions_nil hnil, Option.some.injEq] at hw
      rw [hw]
    | cons t q =>
      cases s with
      | key k =>
        cases v with
        | obj ms =>
          simp only [rewriteAt, Option.some.injEq] at hw
          cases hc : Dict.get? k ms with
          | none => simp [← hw, rewriteMember, hc]
          | some c =>
            obtain ⟨d, hd⟩ := rewriteAt_replace_isSome g r c
            rw [rewriteMember_some hc hd] at hw
            subst hw
            cases t with
            | item n => rfl
            | member l =>
              by_cases hl : k = l
              · subst hl
                have := ih hd (hq.cons (by simp [positions, hc]))
                simpa [getAt, hc] using this
              · simp [getAt, hl]
        | _ => simp_all [rewriteAt]
      | index i =>
        cases v with
        | arr xs =>
          simp only [rewriteAt, Option.some.injEq] at hw
          cases hn : resolveIndex xs.length i with
          | none => simp [← hw, hn]
          | some n =>
            obtain ⟨c, hc⟩ := resolved_item hn
            obtain ⟨d, hd⟩ := rewriteAt_replace_isSome g r c
            simp only [hn, rewriteItem_some hc hd] at hw
            subst hw
            cases t with
            | member l => rfl
            | item m =>
              by_cases hm : n = m
              · subst hm
                have := ih hd (hq.cons (by simp [positions_index r hn hc]))
                rw [getAt, getAt, List.getElem?_set_self (resolveIndex_lt hn), hc]
                exact this
              · simp [getAt, List.getElem?_set_ne hm]
        | _ => simp_all [rewriteAt]
      | wild =>
        cases v with
        | arr xs =>
          simp only [rewriteAt, Option.some.injEq] at hw
          subst hw
          cases t with
          | member l => rfl
          | item m =>
            simp only [getAt, filterMap_replace]
            cases hc : xs[m]? with
            | none => rfl
            | some c =>
              obtain ⟨d, hd⟩ := rewriteAt_replace_isSome g r c
              have := ih hd (hq.cons (r := r) (c := c)
                (fun p hp => mem_positions_wild.mpr ⟨m, c, p, hc, hp, rfl⟩))
              simpa [hd] using this
        | _ => simp_all [rewriteAt]

/-- A selector accepts a concrete step; signed subscripts need the list and are left out. -/
def Sel.Accepts : Sel → Step → Prop
  | .key k, .member l => k = l
  | .wild, .item _ => True
  | _, _ => False

/-- A position whose steps the selectors accept one by one is designated if it exists. -/
theorem mem_positions_of_accepts {sels : List Sel} {p : Pos} {v x : Json}
    (h : List.Forall₂ Sel.Accepts sels p) (hx : getAt p v = some x) :
    p ∈ positions sels v := by
  induction h generalizing v with
  | nil => simp [positions]
  | @cons s t sels p hs _ ih =>
    cases s with
    | key k =>
      cases t with
      | item n => exact hs.elim
      | member l =>
        obtain rfl : k = l := hs
        cases v <;> simp only [getAt, reduceCtorEq] at hx
        rename_i ms
        obtain ⟨c, hc, hx⟩ := Option.bind_eq_some_iff.mp hx
        simp [positions, hc, ih hx]
    | index i => cases t <;> exact hs.elim
    | wild =>
      cases t with
      | member l => exact hs.elim
      | item n =>
        cases v <;> simp only [getAt, reduceCtorEq] at hx
        obtain ⟨c, hc, hx⟩ := Option.bind_eq_some_iff.mp hx
        exact mem_positions_wild.mpr ⟨n, c, p, hc, ih hx, rfl⟩

end JsonPath
