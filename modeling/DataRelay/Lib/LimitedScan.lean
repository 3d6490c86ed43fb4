import Mathlib.Data.List.Basic
import Mathlib.Tactic

/-! Going through a list in order, with a limit on the items that count. An item may be skipped,
read without counting, or read and counted with what it yields; the first error ends the scan. -/
namespace LimitedScan

variable {ι ε α : Type*} (skips : ι → Except ε Bool) (read : ι → Except ε (Option (List α)))

/-- `read x` is `none` for an item that does not count. -/
def scan : ℕ → List ι → Except ε (List α)
  | _, [] => .ok []
  | limit, x :: xs =>
    match skips x with
    | .error e => .error e
    | .ok true => scan limit xs
    | .ok false =>
      match limit with
      | 0 => .ok []
      | limit + 1 =>
        match read x with
        | .error e => .error e
        | .ok none => scan (limit + 1) xs
        | .ok (some out) => (scan limit xs).map (out ++ ·)

/-- What an item yields. -/
def yields (x : ι) : List α :=
  match read x with
  | .ok (some out) => out
  | _ => []

def counts (x : ι) : Bool :=
  match read x with
  | .ok none => false
  | _ => true

/-- The items that are read and counted. -/
def window (skip : ι → Bool) (limit : ℕ) (xs : List ι) : List ι :=
  (xs.filter fun x => !skip x && counts read x).take limit

variable {skips read}

theorem map_append_eq_ok_iff (r : Except ε (List α)) (out ys : List α) :
    r.map (out ++ ·) = .ok ys ↔ ∃ zs, r = .ok zs ∧ ys = out ++ zs := by
  cases r with
  | error e => simp [Except.map]
  | ok zs => simp [Except.map, eq_comm]

/-- A scan succeeds when every item of its window is read, and yields what these yield. -/
theorem scan_eq_ok_iff {skip : ι → Bool} (limit : ℕ) {xs : List ι}
    (h : ∀ x ∈ xs, skips x = .ok (skip x)) (ys : List α) :
    scan skips read limit xs = .ok ys ↔
      (∀ x ∈ window read skip limit xs, ∀ e, read x ≠ .error e) ∧
        ys = (window read skip limit xs).flatMap (yields read) := by
  induction xs generalizing limit ys with
  | nil =>
    simp only [scan, window, List.filter_nil, List.take_nil, List.not_mem_nil, false_implies,
      implies_true, List.flatMap_nil, true_and, Except.ok.injEq]
    exact eq_comm
  | cons x xs ih =>
    have ih (limit : ℕ) (ys : List α) := ih limit (fun y hy => h y (List.mem_cons_of_mem x hy)) ys
    rw [scan.eq_def]
    simp only [h x List.mem_cons_self]
    cases hskip : skip x with
    | true =>
      simp only [ih]
      simp [window, hskip]
    | false =>
      cases limit with
      | zero =>
        simp only [window, List.take_zero, List.not_mem_nil, false_implies, implies_true,
          List.flatMap_nil, true_and, Except.ok.injEq]
        exact eq_comm
      | succ limit =>
        cases hread : read x with
        | error e => simp [window, hskip, counts, hread]
        | ok out =>
          cases out with
          | none =>
            simp only [ih]
            simp [window, hskip, counts, hread]
          | some out =>
            simp only [map_append_eq_ok_iff, ih]
            simp only [window, List.filter_cons, hskip, counts, hread, Bool.not_false,
              Bool.and_self, ↓reduceIte, List.take_succ_cons, List.mem_cons, List.flatMap_cons,
              yields, forall_eq_or_imp, ne_eq, reduceCtorEq, not_false_eq_true, implies_true,
              true_and]
            constructor
            · rintro ⟨zs, ⟨hok, rfl⟩, rfl⟩
              exact ⟨hok, rfl⟩
            · rintro ⟨hok, rfl⟩
              exact ⟨_, ⟨hok, rfl⟩, rfl⟩

end LimitedScan
