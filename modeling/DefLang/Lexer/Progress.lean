import DefLang.Lexer.Lexeme

namespace DefLang.Lexer

/-- Whatever it gives, the scan does not put anything back. -/
def Forward {α : Type} (scan : Scan α) : Prop :=
  ∀ ⦃l a l'⦄, scan l = .ok a l' → l'.left ≤ l.left

theorem Forward.pure {α : Type} (a : α) : Forward (pure a : Scan α) := by
  intro l b l' h
  cases h
  exact Nat.le_refl _

theorem Forward.bind {α β : Type} {scan : Scan α} {next : α → Scan β} (hs : Forward scan)
    (hn : ∀ a, Forward (next a)) : Forward (scan >>= next) := by
  intro l b l'' h
  change EStateM.bind scan next l = _ at h
  unfold EStateM.bind at h
  split at h
  · next a l' ha => exact Nat.le_trans (hn a h) (hs ha)
  · cases h

theorem forward_get : Forward (get : Scan Lexer) := by
  intro l a l' h
  cases h
  exact Nat.le_refl _

theorem forward_refuse {α : Type} : Forward (refuse : Scan α) := by
  intro l a l' h
  cases h

theorem forward_readByte : Forward readByte := by
  intro l a l' h
  exact Nat.le_trans (Nat.le_add_right _ _) (left_of_readByte h)

theorem left_of_takeOnto {accept : Byte → Bool} {taken text : List Byte} {l l' : Lexer}
    (h : takeOnto accept taken l = .ok text l') : l'.left ≤ l.left := by
  fun_induction takeOnto accept taken l with
  | case1 => cases h; exact Nat.le_refl _
  | case2 taken l b hc hb _ l₁ ha ih =>
    exact Nat.le_trans (ih h) (forward_readByte ha)
  | case3 => cases h
  | case4 => cases h; exact Nat.le_refl _

theorem forward_takeWhile (accept : Byte → Bool) : Forward (takeWhile accept) :=
  fun _ _ _ => left_of_takeOnto

theorem forward_requireFollower (followers : Followers) : Forward (requireFollower followers) := by
  unfold requireFollower
  refine forward_get.bind fun l => ?_
  split
  · exact .pure _
  · exact forward_refuse

theorem forward_close (start : Lexer) (kind : Kind) (text : List Byte) :
    Forward (start.close kind text) :=
  forward_get.bind fun _ => .pure _

theorem forward_lexeme (start : Lexer) (b : Byte) (lead : Lead) :
    Forward (start.lexeme b lead) := by
  cases lead with
  | newline => exact (forward_takeWhile _).bind fun _ => .pure _
  | comment => exact (forward_takeWhile _).bind fun _ => forward_close ..
  | atom =>
    refine forward_get.bind fun l => ?_
    have rest : Forward (do
        let name ← takeWhile Byte.isWord
        requireFollower Followers.spacing
        start.close .atom (b :: name)) :=
      (forward_takeWhile _).bind fun _ => (forward_requireFollower _).bind fun _ => forward_close ..
    dsimp only
    split
    · exact rest
    · exact forward_refuse.bind fun _ => rest
  | string =>
    exact (forward_takeWhile _).bind fun _ => forward_get.bind fun _ =>
      forward_readByte.bind fun _ => .pure _
  | word =>
    refine (forward_takeWhile _).bind fun _ => ?_
    dsimp only
    split
    · exact (forward_requireFollower _).bind fun _ => forward_get.bind fun _ => .pure _
    · refine forward_get.bind fun l => ?_
      split
      · exact forward_readByte.bind fun _ => (forward_requireFollower _).bind fun _ => .pure _
      · exact forward_close ..
  | number =>
    refine (forward_takeWhile _).bind fun _ => forward_get.bind fun l => ?_
    split
    · exact forward_readByte.bind fun _ => (forward_takeWhile _).bind fun _ => forward_close ..
    · exact forward_close ..
  | operator => exact (forward_takeWhile _).bind fun _ => forward_close ..
  | mark kind => exact forward_close ..

theorem left_lt_of_tokenAt {l l' : Lexer} {t : Token} (h : tokenAt l l = .ok t l')
    (ht : t.kind ≠ .eof) : l'.left < l.left := by
  cases hc : l.current with
  | none =>
    simp only [tokenAt, hc] at h
    cases h
    exact absurd rfl ht
  | some b =>
    cases hl : Lead.ofByte? b with
    | none =>
      simp only [tokenAt, hc, hl] at h
      cases h
    | some lead =>
      simp only [tokenAt, hc, hl] at h
      change EStateM.bind readByte _ l = _ at h
      unfold EStateM.bind at h
      split at h
      · next l₁ ha =>
        have hf := forward_lexeme l b lead h
        have := left_of_readByte ha
        simp only [hc, Option.toList_some, List.length_singleton] at this
        omega
      · cases h

/-- A token other than the end of input leaves less to read. -/
theorem left_lt_of_readToken {l l' : Lexer} {t : Token} (h : readToken l = .ok t l')
    (ht : t.kind ≠ .eof) : l'.left < l.left := by
  change EStateM.bind (takeWhile Byte.isBlank) _ l = _ at h
  unfold EStateM.bind at h
  split at h
  · next _ start hb =>
    exact Nat.lt_of_lt_of_le (left_lt_of_tokenAt (l := start) h ht) (forward_takeWhile _ hb)
  · cases h

end DefLang.Lexer
