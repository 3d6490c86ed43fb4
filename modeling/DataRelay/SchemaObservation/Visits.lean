import DataRelay.Lib.BoundedCollect
import DataRelay.SchemaObservation.PathWalker

/-! The walk as a bounded collection: which places an event has for it, in the order they are
come upon, and that the walk enters them until it has paths enough. -/
namespace SchemaObservation
open BoundedCollect

section Visit

variable (maxDepth : ℕ)

mutual
/-- The places of a value down to `maxDepth`, each with the value that is recorded there. -/
def visitValue : Json → (depth : ℕ) → Place → List (Place × Json)
  | v, depth, p =>
    if maxDepth < depth then []
    else
      (p, v) ::
        match v with
        | .obj ms => visitMembers ms (depth + 1) p
        | .arr xs => (p.array, .arr xs) :: visitItems xs arraySampleSize 0 (depth + 1) p.array
        | _ => []

def visitMembers : Json.Members → (depth : ℕ) → Place → List (Place × Json)
  | [], _, _ => []
  | (key, child) :: ms, depth, p =>
    visitValue child depth (p.member key) ++ visitMembers ms depth p

def visitItems : List Json → (left n depth : ℕ) → Place → List (Place × Json)
  | [], _, _, _, _ => []
  | _, 0, _, _, _ => []
  | x :: xs, left + 1, n, depth, p =>
    (match x with
      | .obj ms => visitMembers ms depth (p.item n)
      | x => visitValue x depth (p.array.item n)) ++ visitItems xs left (n + 1) depth p
end

def visits (event : Json) : List (Place × Json) :=
  match event with
  | .obj ms => visitMembers maxDepth ms 0 ⟨"$", [], []⟩
  | v => visitValue maxDepth v 0 ⟨"$", [], []⟩

end Visit

/-- The recording of one place. -/
def enterType (out : List (String × InferredType)) (x : Place × Json) :
    List (String × InferredType) :=
  Dict.set x.1.path (mergeInferredTypes (Dict.get? x.1.path out) (inferValueType x.2)) out

/-- The merge of one path of an event. -/
def enterMerged (merged : List (String × InferredType)) (x : String × InferredType) :
    List (String × InferredType) :=
  Dict.set x.1 (mergeInferredTypes (Dict.get? x.1 merged) x.2) merged

theorem entersKey_enterType : EntersKey (fun x : Place × Json => x.1.path) enterType :=
  entersKey_set _ _

theorem entersKey_enterMerged : EntersKey Prod.fst enterMerged := entersKey_set _ _

section Walk

variable {maxDepth maxPaths : ℕ}

mutual
theorem walkEventFields_out : ∀ (v : Json) (depth : ℕ) (p : Place) (st : WalkState),
    (walkEventFields maxDepth maxPaths v depth p st).out =
      collect maxPaths enterType (visitValue maxDepth v depth p) st.out
  | v, depth, p, st => by
    unfold walkEventFields visitValue
    by_cases hfull : maxPaths ≤ st.out.length
    · rw [if_pos (.inl hfull), collect_of_full hfull]
    by_cases hdeep : maxDepth < depth
    · rw [if_pos (.inr hdeep), if_pos hdeep]
      rfl
    rw [if_neg (not_or.mpr ⟨hfull, hdeep⟩), if_neg hdeep,
      collect_cons_of_room (Nat.lt_of_not_le hfull)]
    have hrecord : (st.record p (inferValueType v)).out = enterType st.out (p, v) := rfl
    by_cases hfull' : maxPaths ≤ (st.record p (inferValueType v)).out.length
    · rw [collect_of_full (hrecord ▸ hfull')]
      exact congrArg WalkState.out (if_pos hfull')
    simp only [hfull', ↓reduceIte]
    cases v with
    | obj ms => exact walkMembers_out ms (depth + 1) p _
    | arr xs =>
      have hitems := walkItems_out xs arraySampleSize 0 (depth + 1) p.array
        ((st.record p .array).record p.array .array)
      have harray : collect maxPaths enterType ((p.array, .arr xs) ::
          visitItems maxDepth xs arraySampleSize 0 (depth + 1) p.array)
          (enterType st.out (p, .arr xs)) = _ := collect_cons_of_room (Nat.lt_of_not_le hfull') _ _
      exact hitems.trans harray.symm
    | _ => rfl

theorem walkMembers_out : ∀ (ms : Json.Members) (depth : ℕ) (p : Place) (st : WalkState),
    (walkMembers maxDepth maxPaths ms depth p st).out =
      collect maxPaths enterType (visitMembers maxDepth ms depth p) st.out
  | [], _, _, _ => by
    rw [walkMembers, visitMembers]
    rfl
  | (key, child) :: ms, depth, p, st => by
    have hchild := walkEventFields_out child depth (p.member key) st
    rw [walkMembers, visitMembers, collect_append, ← hchild]
    split_ifs with hfull
    · exact (collect_of_full hfull _).symm
    · exact walkMembers_out ms depth p _

theorem walkItems_out : ∀ (xs : List Json) (left n depth : ℕ) (p : Place) (st : WalkState),
    (walkItems maxDepth maxPaths xs left n depth p st).out =
      collect maxPaths enterType (visitItems maxDepth xs left n depth p) st.out
  | [], left, _, _, _, _ => by simp [walkItems, visitItems, collect]
  | x :: xs, 0, _, _, _, _ => by simp [walkItems, visitItems, collect]
  | x :: xs, left + 1, n, depth, p, st => by
    have hstep {st' : WalkState} {first : List (Place × Json)}
        (hfirst : st'.out = collect maxPaths enterType first st.out) :
        (if maxPaths ≤ st'.out.length then st'
          else walkItems maxDepth maxPaths xs left (n + 1) depth p st').out =
          collect maxPaths enterType (first ++ visitItems maxDepth xs left (n + 1) depth p)
            st.out := by
      rw [collect_append, ← hfirst]
      split_ifs with hfull
      · exact (collect_of_full hfull _).symm
      · exact walkItems_out xs left (n + 1) depth p st'
    cases x with
    | obj ms => exact hstep (walkMembers_out ms depth (p.item n) st)
    | arr ys => exact hstep (walkEventFields_out (.arr ys) depth (p.array.item n) st)
    | null => exact hstep (walkEventFields_out .null depth (p.array.item n) st)
    | bool b => exact hstep (walkEventFields_out (.bool b) depth (p.array.item n) st)
    | int i => exact hstep (walkEventFields_out (.int i) depth (p.array.item n) st)
    | float r => exact hstep (walkEventFields_out (.float r) depth (p.array.item n) st)
    | str s => exact hstep (walkEventFields_out (.str s) depth (p.array.item n) st)
end

theorem collectPathsFromEvent_out (event : Json) :
    (collectPathsFromEvent maxDepth maxPaths event).out =
      collect maxPaths enterType (visits maxDepth event) [] := by
  cases event with
  | obj ms => exact walkMembers_out ms 0 _ _
  | _ => exact walkEventFields_out _ 0 _ _

theorem mergePaths_eq_collect : ∀ (found merged : List (String × InferredType)),
    merged.length < maxPaths →
      mergePaths maxPaths found merged = collect maxPaths enterMerged found merged
  | [], _, _ => rfl
  | (path, type) :: found, merged, hroom => by
    rw [collect_cons_of_room hroom]
    unfold mergePaths
    by_cases hfull : maxPaths ≤ (enterMerged merged (path, type)).length
    · rw [collect_of_full hfull]
      exact if_pos hfull
    · rw [← mergePaths_eq_collect found _ (Nat.lt_of_not_le hfull)]
      exact if_neg hfull

end Walk

end SchemaObservation
