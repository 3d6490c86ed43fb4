import DataRelay.Lib.JsonPath
import DataRelay.Lib.PyText
import DataRelay.Lib.Raising

/-! The place in an event that the first match of a mapped JSONPath comes from. -/
namespace Mapping
open JsonPath

/-! ### The JSONPath library -/

/-- The path of a match as the library gives it. A class of node the program does not know keeps
its name. -/
inductive PathExpr where
  | root
  | child (left right : PathExpr)
  | fields (names : List String)
  /-- `none` is an index that is no number. -/
  | index (indices : List (Option ℤ))
  | other (className : String)
  deriving DecidableEq, Repr

structure Match where
  value : Json
  fullPath : PathExpr
  deriving DecidableEq

/-- The JSONPath library: `parse`, where `none` is `JsonPathParserError`, and `find`, where `none` is
`IndexError`. -/
structure PathLibrary where
  Query : Type
  parse : String → Option Query
  find : Query → Json → Option (List Match)

inductive MapError where
  /-- `ParserError` of a path. -/
  | parser (path : String)
  /-- `ValueError`. -/
  | value (message : String)
  /-- `MappingError` of a path that does not compile. -/
  | invalidMapping (outField path : String)
  deriving DecidableEq, Repr

/-- `_normalize_jsonpath`. -/
def normalizeJsonpath (path : String) : String :=
  if PyText.strip path = "" then "$" else PyText.strip path

section library

variable (lib : PathLibrary)

/-- `compile_jsonpath`. -/
def compileJsonpath (path : String) : Except MapError lib.Query :=
  match lib.parse (normalizeJsonpath path) with
  | some query => .ok query
  | none => .error (.parser (normalizeJsonpath path))

/-- `find_matches_compiled`. -/
def findMatchesCompiled (query : lib.Query) (data : Json) : List Match := (lib.find query data).getD []

/-- `extract_one_compiled`. -/
def extractOneCompiled (query : lib.Query) (data default : Json) : Json :=
  match findMatchesCompiled lib query data with
  | [] => default
  | m :: _ => m.value

end library

/-! ### Concrete tokens -/

/-- `_jsonpath_atoms`. -/
def jsonpathAtoms : PathExpr → List PathExpr
  | .child left right => jsonpathAtoms left ++ jsonpathAtoms right
  | .root => []
  | expression => [expression]

def PathExpr.className : PathExpr → String
  | .root => "Root"
  | .child _ _ => "Child"
  | .fields _ => "Fields"
  | .index _ => "Index"
  | .other name => name

/-- The loop of `_concrete_tokens` with the source event: `node` is where it stands. A negative
index becomes the place it means, so that no token is negative. -/
def concreteAtoms : List PathExpr → Json → Except MapError Pos
  | [], _ => .ok []
  | .fields [key] :: atoms, node =>
    match node with
    | .obj ms =>
      match Dict.get? key ms with
      | some v => (concreteAtoms atoms v).map (.member key :: ·)
      | none => .error (.value "JSONPath materialized field was not found")
    | _ => .error (.value "JSONPath materialized field was not found")
  | .index [index] :: atoms, node =>
    match index with
    | none => .error (.value "A JSONPath concrete index must be numeric")
    | some i =>
      match node with
      | .arr xs =>
        match (Json.resolveIndex xs.length i).bind (fun n => xs[n]?.map (n, ·)) with
        | some (n, v) => (concreteAtoms atoms v).map (.item n :: ·)
        | none => .error (.value "JSONPath materialized index is out of bounds")
      | _ => .error (.value "JSONPath materialized index is not an array")
  | atom :: _, _ => .error (.value ("Not an unambiguous concrete JSONPath: " ++ atom.className))

/-- `_concrete_tokens` with the source event. -/
def concreteTokens (expression : PathExpr) (sourceEvent : Json) : Except MapError Pos :=
  concreteAtoms (jsonpathAtoms expression) sourceEvent

/-- The tokens lead to a value of the event. -/
theorem getAt_of_concreteAtoms {atoms : List PathExpr} {node : Json} {tokens : Pos}
    (h : concreteAtoms atoms node = .ok tokens) : ∃ v, getAt tokens node = some v := by
  induction atoms generalizing node tokens with
  | nil =>
    obtain rfl : [] = tokens := Except.ok.inj h
    exact ⟨node, rfl⟩
  | cons atom atoms ih =>
    unfold concreteAtoms at h
    split at h
    · next heq => cases heq
    · next key rest node' heq =>
      obtain ⟨rfl, rfl⟩ := List.cons.inj heq
      split at h
      · split at h
        · next ms v hget =>
          obtain ⟨rest, hrest, rfl⟩ := Raising.map_eq_ok h
          obtain ⟨w, hw⟩ := ih hrest
          exact ⟨w, by simp [getAt, hget, hw]⟩
        · cases h
      · cases h
    · next index rest node' heq =>
      obtain ⟨rfl, rfl⟩ := List.cons.inj heq
      split at h
      · cases h
      · next i =>
        split at h
        · next xs =>
          split at h
          · next n v hitem =>
            obtain ⟨m, -, hm⟩ := Option.bind_eq_some_iff.mp hitem
            obtain ⟨w, hget, heq⟩ := Option.map_eq_some_iff.mp hm
            obtain ⟨rfl, rfl⟩ := Prod.mk.inj heq
            obtain ⟨rest, hrest, rfl⟩ := Raising.map_eq_ok h
            obtain ⟨u, hu⟩ := ih hrest
            exact ⟨u, by simp [getAt, hget, hu]⟩
          · cases h
        · cases h
    · cases h

/-! ### The selection -/

section selection

variable (lib : PathLibrary) (event : Json)

/-- The place of the first match of a path, if it has one. -/
def firstMatchAt (path : String) : Except MapError (Option Pos) :=
  (compileJsonpath lib path).bind fun query =>
    match findMatchesCompiled lib query event with
    | [] => .ok none
    | m :: _ => (concreteTokens m.fullPath event).map some

/-- A set as a list without repetitions: `selected.add`. -/
def addToken (selected : List Pos) (tokens : Pos) : List Pos :=
  if tokens ∈ selected then selected else selected ++ [tokens]

/-- The loop of `_selected_concrete_paths`. -/
def selectPaths (selected : List Pos) : List String → Except MapError (List Pos)
  | [] => .ok selected
  | path :: paths =>
    (firstMatchAt lib event path).bind fun tokens =>
      selectPaths (tokens.elim selected (addToken selected)) paths

/-- `_selected_concrete_paths`. -/
def selectedConcretePaths (sourceJsonPaths : List String) : Except MapError (List Pos) :=
  selectPaths lib event [] sourceJsonPaths

theorem mem_addToken {selected : List Pos} {tokens p : Pos} :
    p ∈ addToken selected tokens ↔ p ∈ selected ∨ p = tokens := by
  unfold addToken
  split_ifs with h
  · constructor
    · exact .inl
    · rintro (hp | rfl)
      · exact hp
      · exact h
  · simp

theorem nodup_addToken {selected : List Pos} (h : selected.Nodup) (tokens : Pos) :
    (addToken selected tokens).Nodup := by
  unfold addToken
  split_ifs with hmem
  · exact h
  · exact List.nodup_append.mpr ⟨h, List.nodup_singleton tokens, by
      rintro a ha b hb rfl
      exact hmem (List.mem_singleton.mp hb ▸ ha)⟩

variable {lib event}

/-- The selection goes through where every path has its place, and holds just these places. -/
theorem selectPaths_ok {paths : List String} (selected : List Pos) (hnodup : selected.Nodup)
    (h : ∀ path ∈ paths, ∃ tokens, firstMatchAt lib event path = .ok tokens) :
    ∃ result, selectPaths lib event selected paths = .ok result ∧ result.Nodup ∧
      ∀ p, p ∈ result ↔ p ∈ selected ∨ ∃ path ∈ paths, firstMatchAt lib event path = .ok (some p) := by
  induction paths generalizing selected with
  | nil => exact ⟨selected, rfl, hnodup, by simp⟩
  | cons path paths ih =>
    obtain ⟨hpath, hpaths⟩ := List.forall_mem_cons.mp h
    obtain ⟨tokens, htokens⟩ := hpath
    have hnodup' : (tokens.elim selected (addToken selected)).Nodup := by
      cases tokens with
      | none => exact hnodup
      | some p => exact nodup_addToken hnodup p
    obtain ⟨result, hresult, hnd, hmem⟩ := ih _ hnodup' hpaths
    refine ⟨result, ?_, hnd, fun p => ?_⟩
    · rw [selectPaths, htokens]
      exact hresult
    · rw [hmem, List.exists_mem_cons_iff, htokens]
      cases tokens with
      | none => simp
      | some q => simp [mem_addToken, or_assoc, eq_comm]

end selection

end Mapping
