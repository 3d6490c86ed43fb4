import Mathlib.Data.List.Basic
import Mathlib.Tactic

/-! Putting a mark in the place of words of a text. Each letter of the text is noted with what it
reads as, which may be several letters of the alphabet the words are sought in; the words share no
letter with the mark. So a mark never makes a new occurrence, and two occurrences stay apart. -/
namespace Splicing

variable {α β : Type*}

/-- A piece beside another it shares no letter with lies before or behind it. -/
theorem beside {a m b x k y : List α} (hk : k ≠ []) (hm : m ≠ []) (hapart : ∀ c ∈ k, c ∉ m)
    (h : a ++ m ++ b = x ++ k ++ y) :
    (∃ y', a = x ++ k ++ y' ∧ y = y' ++ m ++ b) ∨ ∃ x', b = x' ++ k ++ y ∧ x = a ++ m ++ x' := by
  rw [List.append_assoc, List.append_assoc, List.append_eq_append_iff] at h
  rcases h with ⟨a', hx, h⟩ | ⟨c', ha, h⟩
  · rw [List.append_eq_append_iff] at h
    rcases h with ⟨a'', ha', hb⟩ | ⟨c', hmark, h⟩
    · exact .inr ⟨a'', by rw [hb, List.append_assoc], by rw [hx, ha', List.append_assoc]⟩
    · cases c' with
      | nil =>
        rw [List.append_nil] at hmark
        exact .inr ⟨[], by simpa using h.symm, by rw [hx, hmark, List.append_nil]⟩
      | cons c cs =>
        obtain ⟨d, ds, rfl⟩ := List.exists_cons_of_ne_nil hk
        obtain ⟨rfl, -⟩ := List.cons.inj h
        exact absurd (by rw [hmark]; simp) (hapart d List.mem_cons_self)
  · rw [List.append_eq_append_iff] at h
    rcases h with ⟨a', hc', hy⟩ | ⟨c'', hk', h⟩
    · exact .inl ⟨a', by rw [ha, hc', List.append_assoc], by rw [hy, List.append_assoc]⟩
    · cases c'' with
      | nil =>
        rw [List.append_nil] at hk'
        exact .inl ⟨[], by rw [ha, hk', List.append_nil], by simpa using h.symm⟩
      | cons c cs =>
        obtain ⟨d, ds, rfl⟩ := List.exists_cons_of_ne_nil hm
        obtain ⟨rfl, -⟩ := List.cons.inj h
        exact absurd List.mem_cons_self (hapart _ (by rw [hk']; simp))

/-! ### Noted texts -/

/-- What a noted text reads as. -/
def reading (s : List (α × List β)) : List β := s.flatMap Prod.snd

/-- Every letter reads as something. -/
def Legible (s : List (α × List β)) : Prop := ∀ c ∈ s, c.2 ≠ []

/-- Every letter reads as one. -/
def Single (s : List (α × List β)) : Prop := ∀ c ∈ s, c.2.length = 1

instance (s : List (α × List β)) : Decidable (Single s) :=
  inferInstanceAs (Decidable (∀ c ∈ s, c.2.length = 1))

@[simp] theorem reading_nil : reading ([] : List (α × List β)) = [] := rfl

@[simp] theorem reading_append (s t : List (α × List β)) :
    reading (s ++ t) = reading s ++ reading t := List.flatMap_append

theorem Legible.append_iff {s t : List (α × List β)} :
    Legible (s ++ t) ↔ Legible s ∧ Legible t := List.forall_mem_append

theorem Single.legible {s : List (α × List β)} (h : Single s) : Legible s := by
  intro c hc hnil
  have hlen := h c hc
  rw [hnil] at hlen
  cases hlen

theorem Single.length_reading {s : List (α × List β)} (h : Single s) :
    (reading s).length = s.length := by
  induction s with
  | nil => rfl
  | cons c s ih =>
    have hc := h c List.mem_cons_self
    have hrest := ih fun d hd => h d (List.mem_cons_of_mem c hd)
    simp only [reading, List.flatMap_cons, List.length_append, List.length_cons] at hrest ⊢
    omega

/-- Where each letter reads as one, a part that is read is read from letters of its own. -/
theorem Single.split {s : List (α × List β)} (h : Single s) {x y : List β}
    (heq : reading s = x ++ y) : ∃ a b, s = a ++ b ∧ reading a = x ∧ reading b = y := by
  induction s generalizing x with
  | nil =>
    obtain ⟨rfl, rfl⟩ := List.append_eq_nil_iff.mp heq.symm
    exact ⟨[], [], rfl, rfl, rfl⟩
  | cons c s ih =>
    cases x with
    | nil => exact ⟨[], c :: s, rfl, rfl, heq⟩
    | cons d x =>
      obtain ⟨e, he⟩ := List.length_eq_one_iff.mp (h c List.mem_cons_self)
      have hread : e :: reading s = d :: (x ++ y) := by simpa [reading, he] using heq
      obtain ⟨rfl, hrest⟩ := List.cons.inj hread
      obtain ⟨a, b, rfl, rfl, hb⟩ := ih (fun d hd => h d (List.mem_cons_of_mem c hd)) hrest
      exact ⟨c :: a, b, rfl, by simp [reading, he], hb⟩

theorem Legible.length_le {s : List (α × List β)} (h : Legible s) :
    s.length ≤ (reading s).length := by
  induction s with
  | nil => exact le_rfl
  | cons c s ih =>
    have hc := List.length_pos_of_ne_nil (h c List.mem_cons_self)
    have hrest := ih fun d hd => h d (List.mem_cons_of_mem c hd)
    simp only [reading, List.flatMap_cons, List.length_append, List.length_cons] at hrest ⊢
    omega

theorem Legible.eq_nil {s : List (α × List β)} (h : Legible s) (hnil : reading s = []) :
    s = [] := by
  have hlen := h.length_le
  rw [hnil] at hlen
  exact List.length_eq_zero_iff.mp (Nat.le_zero.mp hlen)

/-- Of two beginnings of a text the one that reads as part of the other is part of it. -/
theorem Legible.prefix_of_reading {s a b c d : List (α × List β)} (h : Legible s)
    (ha : s = a ++ c) (hb : s = b ++ d) {r : List β} (hread : reading a ++ r = reading b) :
    ∃ e, b = a ++ e ∧ reading e = r := by
  rcases List.append_eq_append_iff.mp (ha.symm.trans hb) with ⟨e, rfl, -⟩ | ⟨e, rfl, -⟩
  · rw [reading_append, List.append_cancel_left_eq] at hread
    exact ⟨e, rfl, hread.symm⟩
  · have hrest : reading e ++ r = [] := by simpa using hread
    rw [List.append_eq_nil_iff] at hrest
    rw [ha, Legible.append_iff, Legible.append_iff] at h
    obtain rfl := h.1.2.eq_nil hrest.1
    exact ⟨[], by simp, by simp [hrest.2]⟩

/-! ### Words -/

section words

variable (word : List β)

/-- Where the text reads as the word, whole letters do that meet the requirement, and as many
letters stand before them as are read there. -/
def Aligned (P : List (α × List β) → Prop) (s : List (α × List β)) : Prop :=
  ∀ x y, reading s = x ++ word ++ y →
    ∃ a k b, s = a ++ k ++ b ∧ reading a = x ∧ a.length = x.length ∧ reading k = word ∧ P k

/-- The word does not stand at two places that have no letter in common. -/
def NotTwice (s : List (α × List β)) : Prop :=
  ∀ a k b k' d, reading k = word → reading k' = word → s ≠ a ++ k ++ b ++ k' ++ d

/-- The mark reads as letters that are not the word's. -/
def Apart (mark : List (α × List β)) : Prop := ∀ c ∈ reading mark, c ∉ word

variable {word} {mark a k b : List (α × List β)} {P : List (α × List β) → Prop}

theorem reading_ne_nil (hmark : Single mark) (hne : mark ≠ []) : reading mark ≠ [] :=
  fun h => hne (hmark.legible.eq_nil h)

/-- A word read beside a mark is read before or behind it. -/
theorem Apart.beside (h : Apart word mark) (hmark : Single mark) (hne : mark ≠ [])
    (hword : word ≠ []) {x y : List β} (heq : reading (a ++ mark ++ b) = x ++ word ++ y) :
    (∃ y', reading a = x ++ word ++ y' ∧ y = y' ++ reading mark ++ reading b) ∨
      ∃ x', reading b = x' ++ word ++ y ∧ x = reading a ++ reading mark ++ x' := by
  rw [reading_append, reading_append] at heq
  exact Splicing.beside hword (reading_ne_nil hmark hne) (fun c hc hm => h c hm hc) heq

/-- A word found after a piece was marked was there before. -/
theorem Apart.infix_of_marked (h : Apart word mark) (hmark : Single mark) (hne : mark ≠ [])
    (hword : word ≠ []) (hread : word <:+: reading (a ++ mark ++ b)) :
    word <:+: reading (a ++ k ++ b) := by
  obtain ⟨x, y, hxy⟩ := hread
  rw [reading_append, reading_append]
  rcases h.beside hmark hne hword hxy.symm with ⟨y', ha, -⟩ | ⟨x', hb, -⟩
  · exact ⟨x, y' ++ reading k ++ reading b, by rw [ha]; simp⟩
  · exact ⟨reading a ++ reading k ++ x', y, by rw [hb]; simp⟩

theorem Aligned.marked (h : Aligned word P (a ++ k ++ b)) (hs : Legible (a ++ k ++ b))
    (hapart : Apart word mark) (hmark : Single mark) (hne : mark ≠ []) (hword : word ≠ []) :
    Aligned word P (a ++ mark ++ b) := by
  intro x y heq
  obtain ⟨⟨ha, hk⟩, hb⟩ := Legible.append_iff.mp hs |>.imp_left Legible.append_iff.mp
  rcases hapart.beside hmark hne hword heq with ⟨y', hread, rfl⟩ | ⟨x', hread, rfl⟩
  · obtain ⟨a', k', b', hsplit, hx, hlen, hword', hP⟩ :=
      h x (y' ++ reading k ++ reading b) (by simp [hread])
    obtain ⟨e, rfl, -⟩ := hs.prefix_of_reading hsplit (b := a) (d := k ++ b) (by simp) (r := y')
      (by rw [reading_append, hx, hword', hread])
    exact ⟨a', k', e ++ mark ++ b, by simp, hx, hlen, hword', hP⟩
  · obtain ⟨a', k', b', hsplit, hx, hlen, hword', hP⟩ :=
      h (reading a ++ reading k ++ x') y (by simp [hread])
    obtain ⟨e, rfl, he⟩ := hs.prefix_of_reading (a := a ++ k) (c := b) rfl
      (b := a') (d := k' ++ b') (by rw [hsplit, List.append_assoc]) (r := x')
      (by rw [reading_append, hx])
    have hbehind : b = e ++ k' ++ b' := by
      simpa using hsplit
    have hlegible : Legible e := by
      rw [hbehind] at hb
      exact (Legible.append_iff.mp (Legible.append_iff.mp hb).1).1
    refine ⟨a ++ mark ++ e, k', b', by rw [hbehind]; simp, by simp [he], ?_, hword', hP⟩
    have hla := ha.length_le
    have hlk := hk.length_le
    have hle := hlegible.length_le
    have hlm := hmark.length_reading
    rw [he] at hle
    simp only [List.length_append] at hlen ⊢
    omega

/-- Letters that read as the word have none of the mark's. -/
theorem Apart.not_mem (h : Apart word mark) (hk : reading k = word) (hlegible : Legible k) :
    ∀ c ∈ k, c ∉ mark := by
  intro c hc hm
  obtain ⟨d, hd⟩ := List.exists_mem_of_ne_nil _ (hlegible c hc)
  refine h d (List.mem_flatMap.mpr ⟨c, hm, hd⟩) ?_
  rw [← hk]
  exact List.mem_flatMap.mpr ⟨c, hc, hd⟩

theorem ne_nil_of_reading (hk : reading k = word) (hword : word ≠ []) : k ≠ [] := by
  rintro rfl
  exact hword hk.symm

theorem NotTwice.marked (h : NotTwice word (a ++ k ++ b)) (hb : Legible (a ++ mark ++ b))
    (hapart : Apart word mark) (hne : mark ≠ []) (hword : word ≠ []) :
    NotTwice word (a ++ mark ++ b) := by
  intro x u z u' y hu hu' heq
  have hlegible := hb
  rw [heq] at hlegible
  simp only [Legible.append_iff] at hlegible
  obtain ⟨⟨⟨⟨-, hlu⟩, -⟩, hlu'⟩, -⟩ := hlegible
  have hheq : a ++ mark ++ b = x ++ u ++ (z ++ u' ++ y) := by rw [heq]; simp
  rcases Splicing.beside (ne_nil_of_reading hu hword) hne (hapart.not_mem hu hlu) hheq with
    ⟨y', rfl, hy⟩ | ⟨x', rfl, -⟩
  · rcases Splicing.beside (ne_nil_of_reading hu' hword) hne (hapart.not_mem hu' hlu') hy.symm with
      ⟨y'', rfl, -⟩ | ⟨z', rfl, -⟩
    · exact h x u z u' (y'' ++ k ++ b) hu hu' (by simp)
    · exact h x u (y' ++ k ++ z') u' y hu hu' (by simp)
  · exact h (a ++ k ++ x') u z u' y hu hu' (by simp)

/-- Where the word does not stand twice, marking it leaves none. -/
theorem NotTwice.not_infix_marked (h : NotTwice word (a ++ k ++ b)) (hk : reading k = word)
    (haligned : Aligned word P (a ++ mark ++ b)) (hs : Legible (a ++ mark ++ b))
    (hapart : Apart word mark) (hne : mark ≠ []) (hword : word ≠ []) :
    ¬ word <:+: reading (a ++ mark ++ b) := by
  rintro ⟨x, y, hxy⟩
  obtain ⟨a', u, b', hsplit, -, -, hu, -⟩ := haligned x y hxy.symm
  rw [hsplit] at hs
  have hlu := (Legible.append_iff.mp (Legible.append_iff.mp hs).1).2
  rcases Splicing.beside (ne_nil_of_reading hu hword) hne (hapart.not_mem hu hlu) hsplit with
    ⟨y', rfl, -⟩ | ⟨x', rfl, -⟩
  · exact h a' u y' k b hu hk (by simp)
  · exact h a k x' u b' hk hu (by simp)

/-- A text of letters that each read as one is aligned. -/
theorem Single.aligned {s : List (α × List β)} (h : Single s)
    (hP : ∀ a k b, s = a ++ k ++ b → reading k = word → P k) : Aligned word P s := by
  intro x y heq
  obtain ⟨ak, b, hs, hak, -⟩ := h.split heq
  obtain ⟨hsingle, -⟩ := List.forall_mem_append.mp (hs ▸ h)
  obtain ⟨a, k, rfl, ha, hk⟩ := Single.split hsingle hak
  have hlen := (List.forall_mem_append.mp hsingle).1
  refine ⟨a, k, b, hs, ha, ?_, hk, hP a k b hs hk⟩
  rw [← ha, Single.length_reading hlen]

end words

/-- The second text is the first with some of its hits, none overlapping, marked. -/
inductive Marked (hit : List α → Prop) (mark : List α) : List α → List α → Prop
  | nil : Marked hit mark [] []
  | keep (c : α) {a b : List α} : Marked hit mark a b → Marked hit mark (c :: a) (c :: b)
  | hit {k a b : List α} : hit k → Marked hit mark a b → Marked hit mark (k ++ a) (mark ++ b)

namespace Marked

variable {hit : List α → Prop} {mark : List α}

theorem refl (hit : List α → Prop) (mark s : List α) : Marked hit mark s s := by
  induction s with
  | nil => exact .nil
  | cons c s ih => exact .keep c ih

theorem append {a a' b b' : List α} (ha : Marked hit mark a a') (hb : Marked hit mark b b') :
    Marked hit mark (a ++ b) (a' ++ b') := by
  induction ha with
  | nil => exact hb
  | keep c _ ih => exact .keep c ih
  | hit hk _ ih =>
    rw [List.append_assoc, List.append_assoc]
    exact .hit hk ih

/-- A piece with no letter of the mark was there from the start. -/
theorem split_front {t k b : List α} (h : Marked hit mark t (k ++ b))
    (hk : ∀ c ∈ k, c ∉ mark) (hmark : mark ≠ []) :
    ∃ b', t = k ++ b' ∧ Marked hit mark b' b := by
  induction k generalizing t with
  | nil => exact ⟨t, rfl, h⟩
  | cons c k ih =>
    generalize hs : c :: k ++ b = s at h
    cases h with
    | nil => cases hs
    | keep d hrest =>
      obtain ⟨rfl, rfl⟩ := List.cons.inj hs
      obtain ⟨b', rfl, hb'⟩ := ih hrest fun e he => hk e (List.mem_cons_of_mem c he)
      exact ⟨b', rfl, hb'⟩
    | hit hw hrest =>
      obtain ⟨d, ds, rfl⟩ := List.exists_cons_of_ne_nil hmark
      obtain ⟨rfl, -⟩ := List.cons.inj hs
      exact absurd List.mem_cons_self (hk c List.mem_cons_self)

theorem split {t a k b : List α} (h : Marked hit mark t (a ++ k ++ b)) (hne : k ≠ [])
    (hk : ∀ c ∈ k, c ∉ mark) (hmark : mark ≠ []) :
    ∃ a' b', t = a' ++ k ++ b' ∧ Marked hit mark a' a ∧ Marked hit mark b' b := by
  generalize hs : a ++ k ++ b = s at h
  induction h generalizing a with
  | nil =>
    rw [List.append_assoc, List.append_eq_nil_iff, List.append_eq_nil_iff] at hs
    exact absurd hs.2.1 hne
  | @keep c t' s' hrest ih =>
    cases a with
    | nil =>
      have hfront : Marked hit mark (c :: t') (k ++ b) := by
        rw [List.nil_append] at hs
        rw [hs]
        exact .keep c hrest
      obtain ⟨b', hb', hmarked⟩ := hfront.split_front hk hmark
      exact ⟨[], b', by simpa using hb', .nil, hmarked⟩
    | cons d a =>
      obtain ⟨rfl, hs'⟩ := List.cons.inj hs
      obtain ⟨a', b', rfl, ha', hb'⟩ := ih hs'
      exact ⟨d :: a', b', rfl, .keep d ha', hb'⟩
  | @hit w t' s' hw hrest ih =>
    rw [List.append_assoc, List.append_eq_append_iff] at hs
    rcases hs with ⟨m', hmark', h⟩ | ⟨a', rfl, hs'⟩
    · cases m' with
      | nil =>
        rw [List.append_nil] at hmark'
        rw [List.nil_append] at h
        obtain ⟨b', rfl, hb'⟩ := Marked.split_front (h ▸ hrest) hk hmark
        exact ⟨w, b', by simp, by simpa [hmark'] using Marked.hit hw .nil, hb'⟩
      | cons c cs =>
        obtain ⟨d, ds, rfl⟩ := List.exists_cons_of_ne_nil hne
        obtain ⟨rfl, -⟩ := List.cons.inj h
        exact absurd (by rw [hmark']; simp) (hk d List.mem_cons_self)
    · obtain ⟨a'', b', rfl, ha'', hb'⟩ := ih (a := a') (by rw [hs', List.append_assoc])
      exact ⟨w ++ a'', b', by simp, .hit hw ha'', hb'⟩

/-- Another hit of the text can be marked. -/
theorem marked_again {t a k b : List α} (h : Marked hit mark t (a ++ k ++ b)) (hhit : hit k)
    (hne : k ≠ []) (hk : ∀ c ∈ k, c ∉ mark) (hmark : mark ≠ []) :
    Marked hit mark t (a ++ mark ++ b) := by
  obtain ⟨a', b', rfl, ha', hb'⟩ := h.split hne hk hmark
  rw [List.append_assoc, List.append_assoc]
  exact ha'.append (.hit hhit hb')

end Marked

end Splicing
