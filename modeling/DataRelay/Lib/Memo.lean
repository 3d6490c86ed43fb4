import DataRelay.Lib.Dict

/-! Memo tables for computations that may fail: a result is kept under a key and served to
whoever asks for that key next. Failures are not kept. -/
namespace Memo

variable {α κ β γ ε : Type*} [DecidableEq κ]

/-- The result kept under `k`, or else what `compute` gives, which is then kept. -/
def serve (k : κ) (compute : Except ε β) (table : List (κ × β)) : Except ε β × List (κ × β) :=
  match Dict.get? k table with
  | some b => (.ok b, table)
  | none =>
    match compute with
    | .ok b => (.ok b, Dict.set k b table)
    | .error e => (.error e, table)

theorem serve_nil (k : κ) (compute : Except ε β) : (serve k compute []).1 = compute := by
  cases compute <;> rfl

variable (key : α → κ) (f : α → Except ε β)

/-- Every entry is the result of someone in `past` with that key. -/
def Traced (past : List α) (table : List (κ × β)) : Prop :=
  ∀ k b, Dict.get? k table = some b → ∃ a ∈ past, key a = k ∧ f a = .ok b

theorem traced_nil (past : List α) : Traced key f past [] := by simp [Traced]

variable {key f}

theorem Traced.serve {past : List α} {table : List (κ × β)} (h : Traced key f past table)
    (a : α) : Traced key f (past ++ [a]) (serve (key a) (f a) table).2 := by
  have hold : Traced key f (past ++ [a]) table := by
    intro k b hb
    obtain ⟨c, hc, hck⟩ := h k b hb
    exact ⟨c, List.mem_append_left _ hc, hck⟩
  unfold Memo.serve
  cases Dict.get? (key a) table with
  | some b => exact hold
  | none =>
    cases hfa : f a with
    | error e => exact hold
    | ok b =>
      intro k c hc
      rw [Dict.get?_set] at hc
      split_ifs at hc with hk
      · exact ⟨a, by simp, hk, hfa.trans (congrArg Except.ok (Option.some.inj hc))⟩
      · exact hold k c hc

/-- What is served looks like `a`'s own result, if the results of everyone with its key do. -/
theorem Traced.serve_view {past : List α} {table : List (κ × β)} (h : Traced key f past table)
    (view : β → γ) {a : α}
    (hkey : ∀ c ∈ past, key c = key a → ∀ b, f c = .ok b → (f a).map view = .ok (view b)) :
    (Memo.serve (key a) (f a) table).1.map view = (f a).map view := by
  unfold Memo.serve
  cases hb : Dict.get? (key a) table with
  | none => cases f a <;> rfl
  | some b =>
    obtain ⟨c, hc, hck, hfc⟩ := h _ _ hb
    exact (hkey c hc hck b hfc).symm

/-- What is served is `a`'s own result, if everyone with its key has that result. -/
theorem Traced.serve_eq {past : List α} {table : List (κ × β)} (h : Traced key f past table)
    {a : α} (hkey : ∀ c ∈ past, key c = key a → f c = f a) :
    (Memo.serve (key a) (f a) table).1 = f a := by
  have := h.serve_view id fun c hc hck b hb => by rw [← hkey c hc hck, hb]; rfl
  simpa using this

end Memo
