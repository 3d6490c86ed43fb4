import DataRelay.Lib.Raising
import DataRelay.Protection.LiteralJoin

/-! The two scanners of a path against its spelling. What a path spells is told selector by
selector, with no scanner: a quoted member is a bracket, a quote, a member up to its closing
quote and a closing bracket. -/
namespace Protection
open JsonPath Delivery Raising

/-- The selectors a text spells, each with whether it is written as a quoted member. -/
inductive Spells : List Char → List (Sel × Bool) → Prop
  | done : Spells [] []
  | quoted {quote : Char} {cs rest : List Char} {member : String} {z : List (Sel × Bool)}
    (hquote : isQuote quote = true) (hread : readQuotedKey quote cs = .ok (member, ']' :: rest))
    (h : Spells rest z) : Spells ('[' :: quote :: cs) ((.key member, true) :: z)
  | unquoted {cs rest : List Char} {sel : Sel} {z : List (Sel × Bool)}
    (hplain : ∀ quote tail, isQuote quote = true → cs ≠ '[' :: quote :: tail)
    (hread : nextSelector cs = .ok (sel, rest)) (h : Spells rest z) : Spells cs ((sel, false) :: z)

section Spelling

variable {cs rest : List Char} {sel : Sel} {z z' : List (Sel × Bool)}

theorem startsQuoted_iff :
    startsQuoted cs = true ↔ ∃ quote tail, isQuote quote = true ∧ cs = '[' :: quote :: tail := by
  constructor
  · intro h
    unfold startsQuoted at h
    split at h
    · next quote tail => exact ⟨quote, tail, h, rfl⟩
    · cases h
  · rintro ⟨quote, tail, hquote, rfl⟩
    exact hquote

theorem isQuote_ne {quote c : Char} (hquote : isQuote quote = true) (hc : isQuote c = false) :
    quote ≠ c := by
  rintro rfl
  rw [hquote] at hc
  cases hc

/-- After a bracket and a quote the grammar reads a quoted member. -/
theorem nextSelector_quoted {quote : Char} (hquote : isQuote quote = true) :
    nextSelector ('[' :: quote :: cs) = .ok (sel, rest) ↔
      ∃ member, readQuotedKey quote cs = .ok (member, ']' :: rest) ∧ sel = .key member := by
  have hclose := isQuote_ne hquote (show isQuote ']' = false by decide)
  have hstar := isQuote_ne hquote (show isQuote '*' = false by decide)
  have hcolon := isQuote_ne hquote (show isQuote ':' = false by decide)
  constructor
  · intro h
    change bracketSelector (quote :: cs) = .ok (sel, rest) at h
    unfold bracketSelector at h
    split at h
    · next heq => exact absurd (List.cons.inj heq).1 hclose
    · next heq => exact absurd (List.cons.inj heq).1 hstar
    · next heq => exact absurd (List.cons.inj heq).1 hcolon
    · next heq => exact absurd (List.cons.inj heq).1 hcolon
    · next heq =>
      obtain ⟨rfl, rfl⟩ := List.cons.inj heq
      rw [if_pos hquote] at h
      split at h
      · cases h
      · next member after hread =>
        simp only [Except.ok.injEq, Prod.mk.injEq] at h
        obtain ⟨rfl, rfl⟩ := h
        exact ⟨member, hread, rfl⟩
      · cases h
    · next heq => cases heq
  · rintro ⟨member, hread, rfl⟩
    show bracketSelector (quote :: cs) = .ok (.key member, rest)
    unfold bracketSelector
    split
    · next heq => exact absurd (List.cons.inj heq).1 hclose
    · next heq => exact absurd (List.cons.inj heq).1 hstar
    · next heq => exact absurd (List.cons.inj heq).1 hcolon
    · next heq => exact absurd (List.cons.inj heq).1 hcolon
    · next heq =>
      obtain ⟨rfl, rfl⟩ := List.cons.inj heq
      rw [if_pos hquote, hread]
      rfl
    · next heq => cases heq

/-- The marks of the grammar are the spelling. -/
theorem spells_of_markedTokens {fuel : ℕ} (h : markedTokens fuel cs = .ok z) : Spells cs z := by
  induction fuel generalizing cs z with
  | zero =>
    cases cs with
    | nil =>
      cases h
      exact .done
    | cons c cs => cases h
  | succ fuel ih =>
    cases cs with
    | nil =>
      cases h
      exact .done
    | cons c cs =>
      rw [markedTokens] at h
      obtain ⟨⟨sel, rest⟩, hfirst, h⟩ := bind_eq_ok h
      obtain ⟨sels, hsels, h⟩ := bind_eq_ok h
      cases h
      cases hstart : startsQuoted (c :: cs) with
      | true =>
        obtain ⟨quote, tail, hquote, heq⟩ := startsQuoted_iff.mp hstart
        rw [heq] at hfirst ⊢
        obtain ⟨member, hread, rfl⟩ := (nextSelector_quoted hquote).mp hfirst
        exact .quoted hquote hread (ih hsels)
      | false =>
        refine .unquoted ?_ hfirst (ih hsels)
        intro quote tail hquote heq
        rw [startsQuoted_iff.mpr ⟨quote, tail, hquote, heq⟩] at hstart
        cases hstart

/-- A text spells at most one path. -/
theorem Spells.unique (h : Spells cs z) (h' : Spells cs z') : z = z' := by
  induction h generalizing z' with
  | done =>
    cases h' with
    | done => rfl
    | unquoted _ hread _ => cases hread
  | quoted hquote hread _ ih =>
    cases h' with
    | quoted _ hread' h =>
      rw [hread] at hread'
      obtain ⟨rfl, hrest⟩ := Prod.mk.inj (Except.ok.inj hread')
      obtain ⟨-, rfl⟩ := List.cons.inj hrest
      rw [ih h]
    | unquoted hplain _ _ => exact absurd rfl (hplain _ _ hquote)
  | unquoted hplain hread _ ih =>
    cases h' with
    | done => cases hread
    | quoted hquote _ _ => exact absurd rfl (hplain _ _ hquote)
    | unquoted _ hread' h =>
      rw [hread] at hread'
      obtain ⟨rfl, rfl⟩ := Prod.mk.inj (Except.ok.inj hread')
      rw [ih h]

end Spelling

/-- On every accepted path with selectors the flag scanner answers, one flag a selector, set for
those the path writes as quoted members; so the guard of the engine never finds a mismatch. -/
theorem quotedSelectorFlags_agree (path : String) (segments : List Sel)
    (hparse : parseProtectionPath path = .ok segments) (hne : segments ≠ []) :
    ∃ flags, quotedSelectorFlags path = .ok flags ∧ flags.length = segments.length ∧
      (∀ z, Spells ((pathChars path).drop 1) z ↔ z = segments.zip flags) ∧
      ∀ event, ∃ fires, legacyPathHasLiteralDottedMember event path segments = .ok fires := by
  obtain ⟨z, hz, rfl, hflags⟩ := markedSelectors_of_parse hparse
  have hzip : (z.map Prod.fst).zip (z.map Prod.snd) = z := by
    rw [List.zip_map']
    simp
  have hspells : Spells ((pathChars path).drop 1) z := by
    unfold markedSelectors at hz
    split_ifs at hz
    · cases hz
      exact absurd rfl hne
    · exact spells_of_markedTokens hz
  refine ⟨z.map Prod.snd, hflags hne, by simp, ?_, ?_⟩
  · intro z'
    rw [hzip]
    constructor
    · intro h
      exact h.unique hspells
    · rintro rfl
      exact hspells
  · intro event
    obtain ⟨fires, hfires, -⟩ := legacyGuard_eq event hparse hne
    exact ⟨fires, hfires⟩

/-- A quoted member with a bracket and the other quote in it. -/
theorem bracketMember_agrees :
    ∃ flags, quotedSelectorFlags "$['a]\"b'].c[0]" = .ok flags ∧ flags.length = 3 ∧
      (∀ z, Spells ((pathChars "$['a]\"b'].c[0]").drop 1) z ↔
        z = [Sel.key "a]\"b", .key "c", .index 0].zip flags) ∧
      ∀ event, ∃ fires, legacyPathHasLiteralDottedMember event "$['a]\"b'].c[0]"
        [.key "a]\"b", .key "c", .index 0] = .ok fires :=
  quotedSelectorFlags_agree "$['a]\"b'].c[0]" [.key "a]\"b", .key "c", .index 0] (by rfl)
    (by simp)

end Protection
