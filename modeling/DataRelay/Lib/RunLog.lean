import Mathlib.Data.List.Induction

/-! Runs that only ever append to a log. Whatever stands in the log after a sequence of
inputs was there at the start or was written by one of the inputs, in the state the inputs
before it led to. -/
namespace RunLog

variable {σ ι ρ : Type*}

/-- `step` extends the log `rows` by `emit` and keeps everything already written. -/
structure AppendOnly (step : σ → ι → σ) (rows : σ → List ρ) (emit : σ → ι → List ρ) : Prop where
  rows_step : ∀ s i, rows (step s i) = rows s ++ emit s i

/-- An entry of the log is traced back to the input that wrote it. -/
theorem AppendOnly.origin {step : σ → ι → σ} {rows : σ → List ρ} {emit : σ → ι → List ρ}
    (h : AppendOnly step rows emit) (s : σ) (inputs : List ι) {x : ρ}
    (hx : x ∈ rows (inputs.foldl step s)) :
    x ∈ rows s ∨ ∃ before i after, inputs = before ++ i :: after ∧
      x ∈ emit (before.foldl step s) i := by
  induction inputs using List.reverseRecOn with
  | nil => exact .inl hx
  | append_singleton inputs i ih =>
    rw [List.foldl_append, List.foldl_cons, List.foldl_nil, h.rows_step, List.mem_append] at hx
    rcases hx with hx | hx
    · rcases ih hx with hs | ⟨before, j, after, rfl, hj⟩
      · exact .inl hs
      · exact .inr ⟨before, j, after ++ [i], by simp, hj⟩
    · exact .inr ⟨inputs, i, [], rfl, hx⟩

end RunLog
