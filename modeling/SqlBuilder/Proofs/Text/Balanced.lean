import Mathlib.Data.List.Count
import Mathlib.Data.List.Infix

/-!
# Balanced parentheses

A text is `Balanced` when no part of it from the beginning has more closing than opening parentheses
and all of it has as many of both. Texts without parentheses are, and so are balanced texts one
after the other and a balanced text in parentheses. In the last case the two parentheses match: what
stands between them closes whatever it opens.
-/

namespace SqlBuilder.Text

variable {s t : String}

/-- The text has no parentheses. -/
def isPlain (s : String) : Bool := s.toList.all fun c => c ≠ '(' && c ≠ ')'

/-- The parentheses of the text are balanced. -/
structure Balanced (s : String) : Prop where
  /-- The depth is never negative. -/
  never_negative : ∀ p, p <+: s.toList → p.count ')' ≤ p.count '('
  /-- The depth is zero at the end. -/
  closed : s.toList.count ')' = s.toList.count '('

/-! ## Texts without parentheses -/

@[simp]
theorem isPlain_append : isPlain (s ++ t) = (isPlain s && isPlain t) := by
  simp [isPlain, String.toList_append]

@[simp]
theorem isPlain_space : isPlain " " = true := by decide

theorem notMem_of_isPlain (h : isPlain s = true) : '(' ∉ s.toList ∧ ')' ∉ s.toList := by
  have hall : ∀ c ∈ s.toList, c ≠ '(' ∧ c ≠ ')' := by simpa [isPlain] using h
  exact ⟨fun hmem => (hall _ hmem).1 rfl, fun hmem => (hall _ hmem).2 rfl⟩

@[simp]
theorem isPlain_toString (n : Nat) : isPlain (toString n) = true := by
  have hdigit : ∀ c ∈ (toString n).toList, c.isDigit = true := by
    intro c hc
    have hrepr : (toString n).toList = Nat.toDigits 10 n := by
      rw [Nat.toString_eq_ofList_toDigits, String.toList_ofList]
    rw [hrepr] at hc
    exact Nat.isDigit_of_mem_toDigits (by decide) (by decide) hc
  simp only [isPlain, List.all_eq_true, Bool.and_eq_true, decide_eq_true_eq]
  intro c hc
  constructor
  · rintro rfl
    exact absurd (hdigit _ hc) (by decide)
  · rintro rfl
    exact absurd (hdigit _ hc) (by decide)

/-! ## Balanced texts -/

namespace Balanced

theorem of_isPlain (h : isPlain s = true) : Balanced s := by
  obtain ⟨hopening, hclosing⟩ := notMem_of_isPlain h
  refine ⟨fun p hp => ?_, ?_⟩
  · rw [List.count_eq_zero.mpr fun hmem => hclosing (hp.subset hmem)]
    exact Nat.zero_le _
  · rw [List.count_eq_zero.mpr hopening, List.count_eq_zero.mpr hclosing]

/-- One balanced text after another: the first one leaves nothing open. -/
theorem append (hs : Balanced s) (ht : Balanced t) : Balanced (s ++ t) where
  never_negative p hp := by
    rw [String.toList_append] at hp
    have hcut := List.prefix_or_prefix_of_prefix hp (List.prefix_append s.toList t.toList)
    rcases hcut with hp' | ⟨q, rfl⟩
    · exact hs.never_negative p hp'
    · have hq := ht.never_negative q ((List.prefix_append_right_inj s.toList).mp hp)
      rw [List.count_append, List.count_append, hs.closed]
      omega
  closed := by
    rw [String.toList_append, List.count_append, List.count_append, hs.closed, ht.closed]

/-- A balanced text in parentheses. -/
theorem parenthesized (hs : Balanced s) : Balanced ("(" ++ s ++ ")") := by
  have htext : ("(" ++ s ++ ")").toList = '(' :: (s.toList ++ [')']) := by
    simp [String.toList_append]
  refine ⟨fun p hp => ?_, ?_⟩
  · rw [htext, List.prefix_cons_iff] at hp
    rcases hp with rfl | ⟨q, rfl, hq⟩
    · exact Nat.le_refl _
    · rcases List.prefix_concat_iff.mp hq with rfl | hq
      · simp [hs.closed]
      · have hdepth := hs.never_negative q hq
        have hopening : ('(' :: q).count '(' = q.count '(' + 1 := List.count_cons_self
        have hclosing : ('(' :: q).count ')' = q.count ')' := List.count_cons_of_ne (by decide)
        omega
  · rw [htext]
    simp [hs.closed]

end Balanced

/-! ## Texts that open a parenthesis -/

/-- The text opens one parenthesis and has no other. -/
def Opens (s : String) : Prop :=
  ∃ before after, isPlain before = true ∧ isPlain after = true ∧ s = before ++ "(" ++ after

/-- A balanced text between one that opens a parenthesis and the one that closes it. -/
theorem Opens.balanced (hs : Opens s) (ht : Balanced t) : Balanced (s ++ t ++ ")") := by
  obtain ⟨before, after, hbefore, hafter, rfl⟩ := hs
  have hinner := ((Balanced.of_isPlain hafter).append ht).parenthesized
  have hall := (Balanced.of_isPlain hbefore).append hinner
  simpa only [String.append_assoc] using hall

end SqlBuilder.Text
