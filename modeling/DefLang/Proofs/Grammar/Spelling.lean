import DefLang.Grammar.Statement
import DefLang.Grammar.Written

namespace DefLang

def Spells (options : Options) (marks : List Mark) (tokens more : List Token) : Prop :=
  ∃ front, tokens = front ++ more ∧ Written options marks front

namespace Mark

/-- A token that fits is never taken for part of the gap before it. -/
def isSharp (m : Mark) : Bool :=
  match m.gap with
  | .nothing => true
  | .comments => m.kind != .comment
  | .layout => !m.kind.isLayout
  | .statements => m.kind.beginsStatement

theorem fits_iff {m : Mark} {t : Token} :
    m.fits t ↔ t.kind = m.kind ∧ ∀ c ∈ m.content?, t.content = c := by
  cases hc : m.content? with
  | none => simp [fits, hc]
  | some c =>
    simp only [fits, hc, Bool.and_eq_true, beq_iff_eq, Option.all_some, Option.mem_def,
      Option.some.injEq, forall_eq']
    rw [eq_comm (a := c)]

theorem allows_of_fits {m : Mark} {t : Token} {options : Options} (h : m.isSharp)
    (hf : m.fits t) : m.gap.allows options t = false := by
  obtain ⟨hk, _⟩ := fits_iff.1 hf
  unfold isSharp at h
  cases hg : m.gap with
  | nothing => rfl
  | comments => simpa [hg, Gap.allows, Token.isComment, hk] using h
  | layout => simpa [hg, Gap.allows, Token.isLayout, hk] using h
  | statements =>
    rw [hg] at h
    have layout : m.kind.isLayout = false := by
      cases hm : m.kind <;> simp_all [Kind.beginsStatement, Kind.isLayout]
    have h : m.kind.beginsStatement = true := h
    simp [Gap.allows, Options.passes, Token.isLayout, hk, h, layout]

end Mark

namespace Written

variable {options : Options} {m : Mark} {marks more : List Mark} {tokens : List Token}

theorem gap_append {front : List Token} (h : ∀ t ∈ front, m.gap.allows options t)
    (hw : Written options (m :: marks) tokens) :
    Written options (m :: marks) (front ++ tokens) := by
  induction front with
  | nil => exact hw
  | cons t front ih =>
    obtain ⟨ht, hf⟩ := List.forall_mem_cons.1 h
    exact .gap ht (ih hf)

theorem exists_append (h : Written options (marks ++ more) tokens) :
    ∃ front back, tokens = front ++ back ∧ Written options marks front ∧
      Written options more back := by
  generalize hm : marks ++ more = all at h
  induction h generalizing marks with
  | done =>
    obtain ⟨rfl, rfl⟩ := List.append_eq_nil_iff.1 hm
    exact ⟨[], [], rfl, .done, .done⟩
  | @gap m others t tokens allowed rest ih =>
    cases marks with
    | nil =>
      subst hm
      exact ⟨[], t :: tokens, rfl, .done, .gap allowed rest⟩
    | cons m' marks =>
      obtain ⟨front, back, rfl, hf, hb⟩ := ih hm
      obtain ⟨rfl, _⟩ := List.cons.inj hm
      exact ⟨t :: front, back, rfl, .gap allowed hf, hb⟩
  | @token m others t tokens fits rest ih =>
    cases marks with
    | nil =>
      subst hm
      exact ⟨[], t :: tokens, rfl, .done, .token fits rest⟩
    | cons m' marks =>
      obtain ⟨rfl, hs⟩ := List.cons.inj hm
      obtain ⟨front, back, rfl, hf, hb⟩ := ih hs
      exact ⟨t :: front, back, rfl, .token fits hf, hb⟩

end Written

namespace Spells

variable {options : Options} {m : Mark} {marks others : List Mark} {tokens more : List Token}

theorem nil_iff : Spells options [] tokens more ↔ more = tokens := by
  constructor
  · rintro ⟨front, rfl, h⟩
    cases h
    rfl
  · rintro rfl
    exact ⟨[], rfl, .done⟩

theorem append_iff :
    Spells options (marks ++ others) tokens more ↔
      ∃ middle, Spells options marks tokens middle ∧ Spells options others middle more := by
  constructor
  · rintro ⟨front, rfl, h⟩
    obtain ⟨first, second, rfl, hf, hs⟩ := h.exists_append
    exact ⟨second ++ more, ⟨first, List.append_assoc .., hf⟩, second, rfl, hs⟩
  · rintro ⟨middle, ⟨first, rfl, hf⟩, second, rfl, hs⟩
    exact ⟨first ++ second, (List.append_assoc ..).symm, hf.append hs⟩

theorem length_le (h : Spells options marks tokens more) : more.length ≤ tokens.length := by
  obtain ⟨front, rfl, _⟩ := h
  simp

theorem length_lt (h : Spells options marks tokens more) (hm : marks ≠ []) :
    more.length < tokens.length := by
  obtain ⟨front, rfl, hw⟩ := h
  have hf : 0 < front.length := by
    apply List.length_pos_iff.2
    rintro rfl
    cases hw
    exact hm rfl
  rw [List.length_append]
  omega

/-- The token of a mark is the first one that its gap does not allow. -/
theorem cons_iff (sharp : m.isSharp) :
    Spells options (m :: marks) tokens more ↔
      ∃ t middle, tokens.dropWhile (m.gap.allows options) = t :: middle ∧ t.kind = m.kind ∧
        (∀ c ∈ m.content?, t.content = c) ∧ Spells options marks middle more := by
  constructor
  · rintro ⟨front, rfl, h⟩
    generalize hm : m :: marks = all at h
    induction h with
    | done => cases hm
    | @gap _ _ t tokens allowed _ ih =>
      obtain ⟨rfl, rfl⟩ := List.cons.inj hm
      rw [List.cons_append, List.dropWhile_cons_of_pos allowed]
      exact ih rfl
    | @token _ _ t tokens fits rest _ =>
      obtain ⟨rfl, rfl⟩ := List.cons.inj hm
      have stop : ¬ m.gap.allows options t := by simp [Mark.allows_of_fits sharp fits]
      rw [List.cons_append, List.dropWhile_cons_of_neg stop]
      obtain ⟨hk, hc⟩ := Mark.fits_iff.1 fits
      exact ⟨t, tokens ++ more, rfl, hk, hc, tokens, rfl, rest⟩
  · -- all that the gap allows goes into it, and it stops right before the token
    rintro ⟨t, middle, hd, hk, hc, front, rfl, h⟩
    have split := List.takeWhile_append_dropWhile (p := m.gap.allows options) (l := tokens)
    have gap : ∀ u ∈ tokens.takeWhile (m.gap.allows options), m.gap.allows options u :=
      fun u hu => List.all_eq_true.1 List.all_takeWhile u hu
    rw [hd, ← List.cons_append, ← List.append_assoc] at split
    exact ⟨_, split.symm, .gap_append gap (.token (Mark.fits_iff.2 ⟨hk, hc⟩) h)⟩

/-- A mark without a gap stands for the next token. -/
theorem cons_nothing_iff {kind : Kind} {content? : Option String} :
    Spells options (⟨.nothing, kind, content?⟩ :: marks) tokens more ↔
      ∃ t middle, tokens = t :: middle ∧ t.kind = kind ∧ (∀ c ∈ content?, t.content = c) ∧
        Spells options marks middle more := by
  have all : tokens.dropWhile (Gap.nothing.allows options) = tokens := by cases tokens <;> rfl
  rw [cons_iff rfl, all]

/-- Unless whole statements may stand in the gap, the first token is layout or the one that fits. -/
theorem exists_head (h : Spells options (m :: marks) tokens more) (hg : m.gap ≠ .statements) :
    ∃ t rest, tokens = t :: rest ∧ (t.kind.isLayout ∨ t.kind = m.kind) := by
  obtain ⟨front, rfl, h⟩ := h
  cases h with
  | @gap _ _ t _ allowed _ =>
    refine ⟨t, _, rfl, .inl ?_⟩
    cases hm : m.gap with
    | nothing => rw [hm] at allowed; cases allowed
    | comments => rw [hm] at allowed; exact Token.isLayout_of_isComment allowed
    | layout => rw [hm] at allowed; exact allowed
    | statements => exact absurd hm hg
  | @token _ _ t _ fits _ => exact ⟨t, _, rfl, .inr (Mark.fits_iff.1 fits).1⟩

end Spells

end DefLang
