import DefLang.Proofs.Grammar.Programs

namespace DefLang

def uncomment (tokens : List Token) : List Token := tokens.filter fun t => !t.isComment

def Input.uncommented (input : Input) : Input :=
  { input with tokens := input.tokens.filter fun t => !t.isComment }

section Uncomment

variable {pass : Token → Bool}

theorem uncomment_cons_of_code {t : Token} (h : t.isComment = false) (tokens : List Token) :
    uncomment (t :: tokens) = t :: uncomment tokens :=
  List.filter_cons_of_pos (by simp [h])

theorem uncomment_cons_of_comment {t : Token} (h : t.isComment) (tokens : List Token) :
    uncomment (t :: tokens) = uncomment tokens :=
  List.filter_cons_of_neg (by simp [h])

/-- Where comments are passed over it makes no difference that they are there. -/
theorem dropWhile_uncomment (comments : ∀ t, t.isComment → pass t) (tokens : List Token) :
    (uncomment tokens).dropWhile pass = uncomment (tokens.dropWhile pass) := by
  induction tokens with
  | nil => rfl
  | cons t tokens ih =>
    cases hc : t.isComment with
    | true =>
      rw [List.dropWhile_cons_of_pos (comments t hc), uncomment_cons_of_comment hc, ih]
    | false =>
      rw [uncomment_cons_of_code hc]
      cases hp : pass t with
      | true => rw [List.dropWhile_cons_of_pos hp, List.dropWhile_cons_of_pos hp, ih]
      | false => simp [hp, uncomment_cons_of_code hc]

end Uncomment

namespace Input

variable {input : Input} {cursor cursor' : Nat} {pass : Token → Bool} {t : Token}

def upcoming? (input : Input) (cursor : Nat) : Option Token :=
  (uncomment (input.rest cursor)).head?

def facesCode (input : Input) (cursor : Nat) : Prop :=
  ∀ t, input.tokens[cursor]? = some t → t.isComment = false

/-- The second cursor stands in the input without comments where the first one stands. -/
structure Meets (input : Input) (cursor cursor' : Nat) : Prop where
  rest : input.uncommented.rest cursor' = uncomment (input.rest cursor)
  isPastEnd : input.uncommented.isPastEnd cursor' = input.isPastEnd cursor

theorem meets_start (input : Input) : input.Meets 0 0 := ⟨Array.toList_filter, rfl⟩

/-- What comes next is kept, unless it is a comment. -/
theorem uncomment_rest_of_code (h : input.facesCode cursor) :
    (uncomment (input.rest cursor)).head? = (input.rest cursor).head? ∧
      (uncomment (input.rest cursor)).tail = uncomment (input.rest cursor).tail ∧
      (uncomment (input.rest cursor)).isEmpty = (input.rest cursor).isEmpty := by
  have head := input.head?_rest cursor
  cases hr : input.rest cursor with
  | nil => exact ⟨rfl, rfl, rfl⟩
  | cons t tokens =>
    rw [hr] at head
    rw [uncomment_cons_of_code (h t head.symm)]
    exact ⟨rfl, rfl, rfl⟩

theorem upcoming?_of_code (h : input.facesCode cursor) :
    input.upcoming? cursor = input.peek? cursor := by
  rw [upcoming?, (uncomment_rest_of_code h).1, head?_rest]
  rfl

theorem Meets.peek?_eq (h : input.Meets cursor cursor') :
    input.uncommented.peek? cursor' = input.upcoming? cursor := by
  rw [peek?, ← head?_rest, h.rest]
  rfl

theorem uncommented_facesCode (input : Input) (cursor : Nat) :
    input.uncommented.facesCode cursor := by
  intro t ht
  have kept := (Array.mem_filter.1 (Array.mem_of_getElem? ht)).2
  simpa using kept

theorem isPastEnd_succ (input : Input) (index : Nat) :
    input.isPastEnd (index + 1) = (input.rest index).isEmpty := by
  rw [Bool.eq_iff_iff, isPastEnd, decide_eq_true_eq, List.isEmpty_iff_length_eq_zero, length_rest]
  omega

/-- Comments are not stopped at where they are passed over. -/
theorem facesCode_seek (input : Input) (cursor : Nat) (comments : ∀ t, t.isComment → pass t) :
    input.facesCode (input.seek pass cursor) := by
  intro t ht
  by_contra comment
  have stops := input.pass_seek pass cursor t ht
  rw [comments t (by simpa using comment)] at stops
  cases stops

/-- Cursors that meet move on to the same token. -/
theorem Meets.seek (comments : ∀ t, t.isComment → pass t) (h : input.Meets cursor cursor') :
    let index := input.seek pass cursor
    let index' := input.uncommented.seek pass cursor'
    input.uncommented.tokens[index']? = input.tokens[index]? ∧
      input.Meets (index + 1) (index' + 1) := by
  intro index index'
  have rest : input.uncommented.rest index' = uncomment (input.rest index) := by
    rw [rest_seek, rest_seek, h.rest, dropWhile_uncomment comments]
  obtain ⟨head, tail, empty⟩ := uncomment_rest_of_code (input.facesCode_seek cursor comments)
  refine ⟨?_, ?_, ?_⟩
  · rw [← head?_rest, ← head?_rest, rest, head]
  · rw [rest_succ, rest_succ, rest, tail]
  · rw [isPastEnd_succ, isPastEnd_succ, rest, empty]

/-- The next token that is no comment is the next one at all that is not passed over. -/
theorem getElem?_seek_of_upcoming (comments : ∀ t, t.isComment → pass t)
    (ht : input.upcoming? cursor = some t) (stops : pass t = false) :
    input.tokens[input.seek pass cursor]? = some t := by
  obtain ⟨more, rest⟩ := List.head?_eq_some_iff.1 ht
  have head := (uncomment_rest_of_code (input.facesCode_seek cursor comments)).1
  rw [← head?_rest, ← head, rest_seek, ← dropWhile_uncomment comments, rest,
    List.dropWhile_cons_of_neg (by simp [stops])]
  rfl

end Input

namespace Outcome

variable {α β : Type}

def IsFault (o : Outcome α) : Prop := ∃ d, o.result = .error d ∧ d.cause.isGrammatical

/-- The second outcome is the first one without the comments. A fault may stand elsewhere. -/
inductive Echoes (input : Input) (o o' : Outcome α) : Prop
  | gives {a : α} (given : o.result = .ok a) (given' : o'.result = .ok a)
    (meets : input.Meets o.cursor o'.cursor)
  | fails {d d' : Diagnostic} (failed : o.result = .error d) (failed' : o'.result = .error d')
    (cause : d'.cause = d.cause) (meets : input.Meets o.cursor o'.cursor)

inductive Uncomments (hidden : α → Option Token → Bool) (input : Input) (o o' : Outcome α) : Prop
  | fault (fault : o.IsFault)
  | strays {a : α} (given : o.result = .ok a) (behind : hidden a (input.upcoming? o.cursor))
  | echoes (same : o.Echoes input o')

namespace Echoes

variable {input : Input} {o o' : Outcome α}

theorem meets (h : o.Echoes input o') : input.Meets o.cursor o'.cursor := by
  cases h <;> assumption

theorem ok_iff (h : o.Echoes input o') {a : α} : o'.result = .ok a ↔ o.result = .ok a := by
  cases h with
  | gives given given' => rw [given, given']
  | fails failed failed' => simp [failed, failed']

theorem exists_error (h : o.Echoes input o') {d' : Diagnostic} (failed' : o'.result = .error d') :
    ∃ d, o.result = .error d ∧ d'.cause = d.cause := by
  cases h with
  | gives _ given' =>
    rw [given'] at failed'
    cases failed'
  | fails failed failed'' cause =>
    rw [failed''] at failed'
    cases failed'
    exact ⟨_, failed, cause⟩

theorem after (events events' : List Event) (h : o.Echoes input o') :
    (o.after events).Echoes input (o'.after events') := by
  cases h with
  | gives given given' meets => exact .gives given given' meets
  | fails failed failed' cause meets => exact .fails failed failed' cause meets

end Echoes

theorem Uncomments.after {hidden : α → Option Token → Bool} {input : Input} {o o' : Outcome α}
    (events events' : List Event) (h : o.Uncomments hidden input o') :
    (o.after events).Uncomments hidden input (o'.after events') := by
  cases h with
  | fault fault => exact .fault fault
  | strays given behind => exact .strays given behind
  | echoes same => exact .echoes (same.after events events')

end Outcome

namespace Parse

variable {α β : Type} {input : Input} {cursor cursor' : Nat}

/-- The parser does the same without the comments, unless it is at fault or does not see a token
behind them. -/
def Uncomments (hidden : α → Option Token → Bool) (p : Parse α) : Prop :=
  ∀ ⦃input : Input⦄ ⦃cursor cursor' : Nat⦄, input.Meets cursor cursor' →
    (p input cursor).Uncomments hidden input (p input.uncommented cursor')

abbrev IgnoresComments (p : Parse α) : Prop := p.Uncomments fun _ _ => false

/-- The parser is at fault where such a token comes next, be it behind comments. -/
def Shuns (hidden : Option Token → Bool) (p : Parse α) : Prop :=
  ∀ input cursor, hidden (input.upcoming? cursor) → (p input cursor).IsFault

theorem fail_isFault {cause : Cause} (h : cause.isGrammatical) (input : Input) (cursor : Nat) :
    (fail cause input cursor : Outcome α).IsFault := ⟨_, rfl, h⟩

theorem bind_isFault {p : Parse α} (f : α → Parse β) (h : (p input cursor).IsFault) :
    ((p >>= f) input cursor).IsFault := by
  obtain ⟨d, hr, hg⟩ := h
  rw [bind_error hr]
  exact ⟨d, rfl, hg⟩

theorem Shuns.bind {p : Parse α} {hidden : Option Token → Bool} (f : α → Parse β)
    (h : p.Shuns hidden) : (p >>= f).Shuns hidden :=
  fun input cursor hidden => bind_isFault f (h input cursor hidden)

namespace Uncomments

variable {hidden : α → Option Token → Bool} {hidden' : β → Option Token → Bool}

/-- Where the first parser leaves a hidden token, it is for the second one to be at fault, or to
leave it hidden. -/
theorem bind_at {p : Parse α} {f : α → Parse β}
    (hp : (p input cursor).Uncomments hidden input (p input.uncommented cursor'))
    (hf : ∀ a, (f a).Uncomments hidden')
    (hh : ∀ a input cursor o', hidden a (input.upcoming? cursor) →
      (f a input cursor).Uncomments hidden' input o') :
    ((p >>= f) input cursor).Uncomments hidden' input
      ((p >>= f) input.uncommented cursor') := by
  cases hp with
  | fault fault => exact .fault (bind_isFault f fault)
  | @strays a given behind =>
    rw [bind_ok given]
    exact (hh a input _ ((p >>= f) input.uncommented cursor') behind).after _ []
  | echoes same =>
    cases same with
    | gives given given' meets =>
      rw [bind_ok given, bind_ok given']
      exact (hf _ meets).after _ _
    | fails failed failed' cause meets =>
      rw [bind_error failed, bind_error failed']
      exact .echoes (.fails rfl rfl cause meets)

theorem bind {p : Parse α} {f : α → Parse β} (hp : p.Uncomments hidden)
    (hf : ∀ a, (f a).Uncomments hidden') (hs : ∀ a, (f a).Shuns (hidden a)) :
    (p >>= f).Uncomments hidden' :=
  fun _ _ _ meets => bind_at (hp meets) hf fun a input cursor _ behind =>
    .fault (hs a input cursor behind)

theorem andThen_at {p : Parse α} {f : α → Parse β}
    (hp : (p input cursor).Uncomments (fun _ _ => false) input (p input.uncommented cursor'))
    (hf : ∀ a, (f a).Uncomments hidden') :
    ((p >>= f) input cursor).Uncomments hidden' input
      ((p >>= f) input.uncommented cursor') := bind_at hp hf fun _ _ _ _ => nofun

theorem andThen {p : Parse α} {f : α → Parse β} (hp : p.IgnoresComments)
    (hf : ∀ a, (f a).Uncomments hidden') : (p >>= f).Uncomments hidden' :=
  fun _ _ _ meets => andThen_at (hp meets) hf

theorem pure (a : α) : (Pure.pure a : Parse α).Uncomments hidden :=
  fun _ _ _ meets => .echoes (.gives rfl rfl meets)

theorem map {p : Parse α} (f : α → β) (hp : p.Uncomments hidden)
    (hh : ∀ a next, hidden a next → hidden' (f a) next) : (f <$> p).Uncomments hidden' := by
  intro input cursor cursor' meets
  rw [map_eq_pure_bind]
  exact bind_at (hp meets) (fun a => pure (f a)) fun a _ _ _ behind => .strays rfl (hh a _ behind)

theorem of_ignores {p : Parse α} (hp : p.IgnoresComments) : p.Uncomments hidden := by
  intro input cursor cursor' meets
  cases hp meets with
  | fault fault => exact .fault fault
  | strays _ behind => cases behind
  | echoes same => exact .echoes same

theorem fail (cause : Cause) : (Parse.fail cause : Parse α).Uncomments hidden :=
  fun _ _ _ meets => .echoes (.fails rfl rfl rfl meets)

theorem tell (event : Event) : (Parse.tell event).IgnoresComments :=
  fun _ _ _ meets => .echoes (.gives rfl rfl meets)

theorem nextPast {pass : Token → Bool} (comments : ∀ t, t.isComment → pass t) :
    (Parse.nextPast pass).IgnoresComments := by
  intro input cursor cursor' meets
  obtain ⟨same, moved⟩ := meets.seek comments
  exact .echoes (.gives rfl (congrArg Except.ok same) moved)

theorem orEnd (t : Option Token) : (Parse.orEnd t).IgnoresComments := by
  cases t with
  | some t => exact pure t
  | none => exact fail .earlyEnd

theorem requirePast {pass : Token → Bool} (comments : ∀ t, t.isComment → pass t) :
    (Parse.requirePast pass).IgnoresComments := (nextPast comments).andThen orEnd

/-- Where no comment comes next it makes no difference that the parser would stop at one. -/
theorem next_at (code : input.facesCode cursor) (meets : input.Meets cursor cursor') :
    (Parse.next input cursor).Uncomments (fun _ _ => false) input
      (Parse.next input.uncommented cursor') := by
  have past : ∀ {i : Input} {c : Nat}, i.facesCode c →
      Parse.next i c = Parse.nextPast Token.isComment i c := by
    intro i c h
    rw [next_eq, nextPast_of_stop h]
  rw [past code, past (input.uncommented_facesCode cursor')]
  exact nextPast (fun _ => id) meets

/-- Comments are no tokens that may be required, so they need not be passed over. -/
theorem requireNext_bind {f : Token → Parse β} (hf : ∀ t, (f t).Uncomments hidden')
    (comment : ∀ t input cursor, t.isComment → (f t input cursor).IsFault) :
    (Parse.requireNext >>= f).Uncomments hidden' := by
  intro input cursor cursor' meets
  rw [Parse.requireNext, bind_assoc]
  by_cases code : input.facesCode cursor
  · exact andThen_at (next_at code meets) fun t => (orEnd t).andThen hf
  · obtain ⟨t, ht, hc⟩ : ∃ t, input.tokens[cursor]? = some t ∧ t.isComment := by
      simpa [Input.facesCode] using code
    have first : (Parse.next input cursor).result = .ok (some t) := by
      rw [next_eq, ht]
    rw [bind_ok first]
    exact .fault (comment t input _ hc)

/-- A look at the next token. Without the comments it sees what they hide. -/
theorem peek_ite (pred : Option Token → Bool) {p q : Parse α}
    (comment : ∀ t, t.isComment → pred (some t) = false)
    (hp : ∀ {input cursor cursor'}, input.facesCode cursor → input.Meets cursor cursor' →
      (p input cursor).Uncomments hidden input (p input.uncommented cursor'))
    (hq : q.Uncomments hidden)
    (hh : ∀ input cursor o', pred (input.upcoming? cursor) →
      (q input cursor).Uncomments hidden input o') :
    (do if pred (← peek) then p else q : Parse α).Uncomments hidden := by
  intro input cursor cursor' meets
  have first (i : Input) (c : Nat) : (peek i c).result = .ok (i.peek? c) := rfl
  rw [bind_ok (first _ _), bind_ok (first _ _), meets.peek?_eq]
  apply Outcome.Uncomments.after
  cases here : pred (input.peek? cursor) with
  | true =>
    have code : input.facesCode cursor := by
      intro t ht
      by_contra hc
      rw [Input.peek?, ht, comment t (by simpa using hc)] at here
      cases here
    rw [Input.upcoming?_of_code code, here]
    exact hp code meets
  | false =>
    cases behind : pred (input.upcoming? cursor) with
    | true => exact hh input cursor _ behind
    | false => exact hq meets

end Uncomments

def hiddenByTurn (hidden : Option Token → Bool) : Turn α → Option Token → Bool
  | .again _ => hidden
  | .finish _ => fun _ => false

end Parse

namespace Repetition

open Parse (hiddenByTurn)

variable {α : Type} {turn : Parse (Turn α)} {input : Input}

/-- From turn to turn the items are the same. A turn that does not see the token behind comments
leaves it to the next one, which is at fault there. -/
theorem run_uncomments (hidden : Option Token → Bool) (ha : turn.Advances)
    (ht : turn.Uncomments (hiddenByTurn hidden)) (hs : turn.Shuns hidden) {cursor cursor' : Nat}
    (meets : input.Meets cursor cursor') :
    (run turn input cursor).last.IsFault ∨
      (run turn input.uncommented cursor').items = (run turn input cursor).items ∧
      (run turn input cursor).last.Echoes input (run turn input.uncommented cursor').last := by
  induction cursor using ha.induction input generalizing cursor' with
  | again cursor item hr ih =>
    rw [last_again ha hr, items_again ha hr]
    cases ht meets with
    | fault fault =>
      obtain ⟨d, hd, _⟩ := fault
      rw [hr] at hd
      cases hd
    | strays given behind =>
      rw [hr] at given
      cases given
      -- the next turn is the last one
      have fault := hs input _ behind
      have stops : ∀ item, (turn input (turn input cursor).cursor).result ≠ .ok (.again item) := by
        obtain ⟨d, hd, _⟩ := fault
        simp [hd]
      rw [run_stop stops]
      exact .inl fault
    | echoes same =>
      have hr' := same.ok_iff.2 hr
      rw [last_again ha hr', items_again ha hr']
      rcases ih same.meets with fault | ⟨items, last⟩
      · exact .inl fault
      · exact .inr ⟨congrArg _ items, last⟩
  | stop cursor stops =>
    rw [items_stop stops, run_stop stops]
    cases ht meets with
    | fault fault => exact .inl fault
    | @strays a given behind =>
      cases a with
      | again item => exact absurd given (stops item)
      | finish items => cases behind
    | echoes same =>
      have stops' := fun item h => stops item (same.ok_iff.1 h)
      rw [items_stop stops', run_stop stops']
      refine .inr ⟨?_, same⟩
      cases same with
      | gives given given' => simp only [Outcome.items, given, given']
      | fails failed failed' => simp only [Outcome.items, failed, failed']

end Repetition

namespace Parse

variable {α β : Type} {input : Input} {cursor cursor' : Nat}

theorem Uncomments.repeated {turn : Parse (Turn α)} (hidden : Option Token → Bool)
    (ha : turn.Advances) (ht : turn.Uncomments (hiddenByTurn hidden)) (hs : turn.Shuns hidden) :
    (repeated turn).IgnoresComments := by
  intro input cursor cursor' meets
  rcases Repetition.run_uncomments hidden ha ht hs meets with ⟨d, hd, hg⟩ | ⟨items, last⟩
  · exact .fault ⟨d, congrArg (Except.map _) hd, hg⟩
  · cases last with
    | gives given given' meets =>
      refine .echoes (.gives (congrArg (Except.map _) given) ?_ meets)
      exact (congrArg (Except.map _) given').trans (congrArg Except.ok items)
    | fails failed failed' cause meets =>
      exact .echoes (.fails (congrArg (Except.map _) failed) (congrArg (Except.map _) failed')
        cause meets)

theorem requirePast_isFault {pass : Token → Bool} (comments : ∀ t, t.isComment → pass t)
    {t : Token} (ht : input.upcoming? cursor = some t) (stops : pass t = false)
    (f : Token → Parse β) (hf : ∀ input cursor, (f t input cursor).IsFault) :
    ((requirePast pass >>= f) input cursor).IsFault := by
  have first : (nextPast pass input cursor).result = .ok (some t) :=
    congrArg Except.ok (Input.getElem?_seek_of_upcoming comments ht stops)
  rw [requirePast, bind_assoc, bind_ok first]
  exact hf input _

end Parse

end DefLang
