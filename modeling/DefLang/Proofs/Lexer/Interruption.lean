import DefLang.Proofs.Lexer.Stepping

namespace DefLang.Lexer

open Position (lineAfter columnAfter)

/-- The read that brings the first of the later bytes, or their end if there are none, is still to
come. -/
def awaits (l : Lexer) (later : List Byte) : Bool := later.length < l.left

/-- How many of the calls are over before the first one that makes this read. -/
def callsBefore (l : Lexer) (later : List Byte) (calls : Nat) : Nat :=
  ((l.stepsFor calls).takeWhile fun s => s.after.awaits later).length

/-- The lexer once it has left the last of the bytes read without getting another. It stands one
column before the next byte. -/
def stopped (file : String) (read ahead : List Byte) : Lexer :=
  ⟨file, some (read.getLast?.getD Byte.space), Source.ofBytes ahead, lineAfter read,
    columnAfter read - 1⟩

def final {α : Type} : EStateM.Result Diagnostic Lexer α → Lexer
  | .ok _ l | .error _ l => l

variable {file message : String} {front later : List Byte} {α β : Type}

/-- Two lexers that have read the same. To the second one the read after the front bytes fails. -/
inductive Doomed (file message : String) (front later : List Byte) : Lexer → Lexer → Prop
  | intro {l : Lexer} {read more : List Byte}
      (place : l.leaveLine = stopped file read (more ++ later)) (split : read ++ more = front) :
      Doomed file message front later l
        { l with rest := Source.ofBytes more ++ .failure message :: Source.ofBytes later }

/-- Results of a scan on two such lexers: the same, with the failure still ahead, or the second scan
met it, where the first one read on. -/
inductive Parted (file message : String) (front later : List Byte) :
    EStateM.Result Diagnostic Lexer α → EStateM.Result Diagnostic Lexer α → Prop
  | ok {a : α} {l l' : Lexer} (doomed : Doomed file message front later l l') :
      Parted file message front later (.ok a l) (.ok a l')
  | error {d : Diagnostic} {l l' : Lexer} (doomed : Doomed file message front later l l') :
      Parted file message front later (.error d l) (.error d l')
  | broken {result : EStateM.Result Diagnostic Lexer α}
      (gone : (final result).awaits later = false) :
      Parted file message front later result
        (.error ⟨.readFailure message, (stopped file front later).position⟩
          (stopped file front later))

/-- The scan reads forward only, and up to the failure it does not see that one is ahead. -/
structure Straight (scan : Scan α) : Prop where
  forward : ∀ l, (final (scan l)).left ≤ l.left
  parts : ∀ {file message front later l l'}, Doomed file message front later l l' →
    Parted file message front later (scan l) (scan l')

theorem left_between (before rest : List Byte) :
    (between file before rest).left = rest.length := by
  cases rest <;> simp [left, between, Source.ofBytes]

theorem leaveLine_eq_stopped (before : List Byte) (b : Byte) (rest : List Byte) :
    (between file before (b :: rest)).leaveLine = stopped file (before ++ [b]) rest := by
  rw [leaveLine_between, stopped, List.getLast?_concat]
  rfl

theorem leaveLine_with_rest (l : Lexer) (rest : Source) :
    ({ l with rest } : Lexer).leaveLine = { l.leaveLine with rest } := by
  simp only [leaveLine]
  split <;> rfl

theorem readByte_of_stopped {l : Lexer} {read ahead : List Byte}
    (h : l.leaveLine = stopped file read ahead) :
    readByte l = .ok () (between file read ahead) := by
  simp only [readByte, h]
  cases ahead <;> rfl

theorem callsBefore_succ_of_awaits {l : Lexer} (calls : Nat) (h : l.step.after.awaits later) :
    l.callsBefore later (calls + 1) = l.step.after.callsBefore later calls + 1 := by
  simp [callsBefore, stepsFor_succ, h]

theorem callsBefore_succ_of_gone {l : Lexer} (calls : Nat)
    (h : l.step.after.awaits later = false) : l.callsBefore later (calls + 1) = 0 := by
  simp [callsBefore, stepsFor_succ, h]

theorem takeOnto_eq_bind {accept : Byte → Bool} {l : Lexer} {b : Byte} (taken : List Byte)
    (hb : l.current = some b) (ha : accept b) :
    takeOnto accept taken l = (readByte >>= fun _ => takeOnto accept (b :: taken)) l := by
  let next : Unit → Scan (List Byte) := fun _ => takeOnto accept (b :: taken)
  cases read : readByte l with
  | ok _ l' =>
    exact (takeOnto_of_accept taken hb ha read).trans (@bind_eq_of_ok _ _ _ next _ _ _ read).symm
  | error d l' =>
    refine Eq.trans ?_ (@bind_eq_of_error _ _ _ next _ _ _ read).symm
    rw [takeOnto]
    split
    · next hn => simp [hn] at hb
    · next c hc =>
      obtain rfl : b = c := Option.some.inj (hb.symm.trans hc)
      rw [if_pos ha]
      split
      · next read' => cases read.symm.trans read'
      · next read' => cases read.symm.trans read'; rfl

/-- What reads on after all that was awaited has come awaits nothing of it. -/
theorem awaits_eq_false_of_le {l l' : Lexer} (h : l.awaits later = false) (hl : l'.left ≤ l.left) :
    l'.awaits later = false := by
  simp only [awaits, decide_eq_false_iff_not, Nat.not_lt] at h ⊢
  exact Nat.le_trans hl h

namespace Doomed

variable {l l' : Lexer}

theorem current_eq (h : Doomed file message front later l l') : l'.current = l.current := by
  cases h
  rfl

theorem awaits (h : Doomed file message front later l l') : l.awaits later := by
  obtain ⟨place, -⟩ := h
  have rest := (leaveLine_rest l).symm.trans (congrArg Lexer.rest place)
  have current := (leaveLine_current l).symm.trans (congrArg Lexer.current place)
  simp only [Lexer.awaits, left, rest, current, stopped, Source.ofBytes, Option.toList_some,
    List.length_map, List.length_append, List.length_singleton, decide_eq_true_eq]
  omega

theorem ofSource (file message : String) (front later : List Byte) :
    Doomed file message front later (ofSource (Source.ofBytes (front ++ later)) file)
      (Lexer.ofSource (Source.ofBytes front ++ .failure message :: Source.ofBytes later) file) :=
  @Doomed.intro _ _ _ _ _ [] front rfl rfl

/-- The two lexers part at the read after the front bytes, and nowhere before it. -/
theorem readByte (h : Doomed file message front later l l') :
    Parted file message front later (readByte l) (readByte l') := by
  cases h with
  | @intro read more place split =>
    subst split
    rw [readByte_of_stopped place]
    simp only [Lexer.readByte, leaveLine_with_rest, place]
    cases more with
    | nil =>
      rw [List.append_nil]
      exact .broken (by simp [final, Lexer.awaits, left_between])
    | cons b more =>
      have split : read ++ [b] ++ more = read ++ b :: more := (List.append_cons ..).symm
      exact .ok (.intro (leaveLine_eq_stopped read b (more ++ later)) split)

end Doomed

theorem left_bind_le {scan : Scan α} {next : α → Scan β}
    (forward : ∀ a l, (final (next a l)).left ≤ l.left) (l : Lexer) :
    (final ((scan >>= next) l)).left ≤ (final (scan l)).left := by
  cases h : scan l with
  | ok a l₁ => rw [bind_eq_of_ok h]; exact forward a l₁
  | error d l₁ => rw [bind_eq_of_error h]; exact Nat.le_refl _

/-- Once the failure was met nothing of what comes next is done, and without it all of it reads
forward. -/
theorem Parted.bind {scan : Scan α} {next : α → Scan β} {l l' : Lexer}
    (parts : Parted file message front later (scan l) (scan l'))
    (forward : ∀ a l, (final (next a l)).left ≤ l.left)
    (more : ∀ a l₁ l₁', scan l = .ok a l₁ → Doomed file message front later l₁ l₁' →
      Parted file message front later (next a l₁) (next a l₁')) :
    Parted file message front later ((scan >>= next) l) ((scan >>= next) l') := by
  have further := @left_bind_le _ _ scan next forward l
  generalize h : scan l = result, h' : scan l' = result' at parts further
  cases parts with
  | ok doomed => rw [bind_eq_of_ok h, bind_eq_of_ok h']; exact more _ _ _ h doomed
  | error doomed => rw [bind_eq_of_error h, bind_eq_of_error h']; exact .error doomed
  | broken gone =>
    rw [bind_eq_of_error h']
    exact .broken (awaits_eq_false_of_le gone further)

namespace Straight

variable {scan : Scan α} {next : α → Scan β}

theorem pure (a : α) : Straight (pure a : Scan α) :=
  ⟨fun _ => Nat.le_refl _, fun h => .ok h⟩

theorem bind (hs : Straight scan) (hn : ∀ a, Straight (next a)) : Straight (scan >>= next) where
  forward l := Nat.le_trans (left_bind_le (fun a => (hn a).forward) l) (hs.forward l)
  parts doomed :=
    (hs.parts doomed).bind (fun a => (hn a).forward) fun a _ _ _ doomed => (hn a).parts doomed

/-- A scan may look at the lexer, but not at what it has yet to read. -/
theorem get_bind {next : Lexer → Scan β} (hn : ∀ l, Straight (next l))
    (blind : ∀ (l : Lexer) (rest : Source), next { l with rest } = next l) :
    Straight (get >>= next) := by
  refine ⟨fun l => (hn l).forward l, ?_⟩
  intro file message front later l l' doomed
  rw [bind_get, bind_get]
  have same : next l' = next l := by
    cases doomed
    exact blind l _
  rw [same]
  exact (hn l).parts doomed

theorem refuse : Straight (refuse : Scan α) := by
  refine ⟨fun _ => Nat.le_refl _, fun doomed => ?_⟩
  cases doomed with
  | intro place split => exact .error (.intro place split)

theorem readByte : Straight readByte := by
  refine ⟨fun l => ?_, Doomed.readByte⟩
  simp only [Lexer.readByte, leaveLine_rest]
  split
  · next b rest read => simp [final, left, read]
  · next failure rest read => simp [final, left, read, leaveLine_current]
  · next read => simp [final, left, read]

theorem takeOnto (accept : Byte → Bool) (taken : List Byte) :
    Straight (takeOnto accept taken) := by
  have forward : ∀ taken l, (final (Lexer.takeOnto accept taken l)).left ≤ l.left := by
    intro taken l
    fun_induction Lexer.takeOnto accept taken l with
    | case1 => exact Nat.le_refl _
    | case2 taken l b current inside _ l₁ read ih =>
      have first := readByte.forward l
      rw [read] at first
      exact Nat.le_trans ih first
    | case3 taken l b current inside d l₁ read =>
      have first := readByte.forward l
      rwa [read] at first
    | case4 => exact Nat.le_refl _
  refine ⟨forward taken, ?_⟩
  intro file message front later l l' doomed
  -- on what is left to read, of which every byte that is taken leaves less
  induction hn : l.left using Nat.strongRecOn generalizing taken l l' with
  | _ n ih =>
    have same := doomed.current_eq
    by_cases inside : ∃ b, l.current = some b ∧ accept b
    · obtain ⟨b, current, inside⟩ := inside
      rw [takeOnto_eq_bind taken current inside,
        takeOnto_eq_bind taken (same.trans current) inside]
      refine doomed.readByte.bind (fun _ => forward _) fun _ l₁ l₁' read doomed => ?_
      have less := left_of_readByte read
      rw [current, hn] at less
      exact ih _ less (b :: taken) doomed rfl
    · have outside : ∀ b ∈ l.current, accept b = false := by simpa using inside
      rw [takeOnto_of_stop taken outside, takeOnto_of_stop taken (same ▸ outside)]
      exact .ok doomed

theorem requireFollower (followers : Followers) : Straight (requireFollower followers) := by
  refine get_bind (fun l => ?_) fun _ _ => rfl
  split
  · exact pure _
  · exact refuse

theorem close (start : Lexer) (kind : Kind) (text : List Byte) :
    Straight (start.close kind text) :=
  get_bind (fun _ => pure _) fun _ _ => rfl

theorem lexeme (start : Lexer) (b : Byte) (lead : Lead) : Straight (start.lexeme b lead) := by
  cases lead with
  | newline => exact (takeOnto _ _).bind fun _ => pure _
  | comment => exact (takeOnto _ _).bind fun _ => close ..
  | atom =>
    have rest : Straight (do
        let name ← takeWhile Byte.isWord
        Lexer.requireFollower Followers.spacing
        start.close .atom (b :: name)) :=
      (takeOnto _ _).bind fun _ => (requireFollower _).bind fun _ => close ..
    refine get_bind (fun l => ?_) fun _ _ => rfl
    dsimp only
    split
    · exact rest
    · exact refuse.bind fun _ => rest
  | string =>
    exact (takeOnto _ _).bind fun _ => get_bind (fun _ => readByte.bind fun _ => pure _)
      fun _ _ => rfl
  | word =>
    refine (takeOnto _ _).bind fun _ => ?_
    dsimp only
    split
    · exact (requireFollower _).bind fun _ => get_bind (fun _ => pure _) fun _ _ => rfl
    · refine get_bind (fun l => ?_) fun _ _ => rfl
      split
      · exact readByte.bind fun _ => (requireFollower _).bind fun _ => pure _
      · exact close ..
  | number =>
    refine (takeOnto _ _).bind fun _ => get_bind (fun l => ?_) fun _ _ => rfl
    split
    · exact readByte.bind fun _ => (takeOnto _ _).bind fun _ => close ..
    · exact close ..
  | operator => exact (takeOnto _ _).bind fun _ => close ..
  | mark kind => exact close ..

theorem tokenAt (start : Lexer) : Straight (tokenAt start) := by
  unfold Lexer.tokenAt
  split
  · exact pure _
  · split
    · exact refuse
    · exact readByte.bind fun _ => lexeme ..

theorem readToken : Straight readToken :=
  (takeOnto _ _).bind fun _ => get_bind tokenAt fun _ _ => rfl

end Straight

namespace Doomed

variable {l l' : Lexer}

theorem position_eq (h : Doomed file message front later l l') : l'.position = l.position := by
  cases h
  rfl

/-- A call on both: they answer the same and the failure is still ahead, or the second call is the
one that fails. -/
theorem step (h : Doomed file message front later l l') :
    (l.step.after.awaits later ∧ l'.step.answer = l.step.answer ∧
      Doomed file message front later l.step.after l'.step.after) ∨
    (l.step.after.awaits later = false ∧ l'.step =
      ⟨l', .error ⟨.readFailure message, (stopped file front later).position⟩,
        stopped file front later⟩) := by
  have parts := Straight.readToken.parts h
  have after : final (Lexer.readToken l) = l.step.after := by
    rw [Lexer.step]
    cases Lexer.readToken l <;> rfl
  generalize read : Lexer.readToken l = result, read' : Lexer.readToken l' = result' at parts
  cases parts with
  | ok doomed =>
    rw [step_of_ok read, step_of_ok read']
    exact .inl ⟨doomed.awaits, rfl, doomed⟩
  | error doomed =>
    rw [step_of_error read, step_of_error read']
    exact .inl ⟨doomed.awaits, rfl, doomed⟩
  | broken gone =>
    rw [← read, after] at gone
    exact .inr ⟨gone, step_of_error read'⟩

/-- Call after call on both: as long as the failure is ahead both report the same, and the call that
fails leaves the second lexer where the front ends. -/
theorem stepsFor (h : Doomed file message front later l l') (calls : Nat) :
    let undisturbed := l.callsBefore later calls
    ((l'.stepsFor calls).take undisturbed).map Step.report =
        ((l.stepsFor calls).take undisturbed).map Step.report ∧
      ∀ failing resumed, (l'.stepsFor calls).drop undisturbed = failing :: resumed →
        failing.answer = .error ⟨.readFailure message, (stopped file front later).position⟩ ∧
        failing.after = stopped file front later ∧
        resumed = (stopped file front later).stepsFor resumed.length := by
  induction calls generalizing l l' with
  | zero => simp [Lexer.stepsFor]
  | succ calls ih =>
    rcases h.step with ⟨awaits, answer, doomed⟩ | ⟨gone, failing⟩
    · obtain ⟨same, fails⟩ := ih doomed
      have report : l'.step.report = l.step.report := by
        rw [Step.report, Step.report, answer, doomed.position_eq]
      rw [callsBefore_succ_of_awaits calls awaits, stepsFor_succ, stepsFor_succ]
      refine ⟨?_, fails⟩
      rw [List.take_succ_cons, List.take_succ_cons, List.map_cons, List.map_cons, report, same]
    · rw [callsBefore_succ_of_gone calls gone, stepsFor_succ l', failing]
      refine ⟨rfl, ?_⟩
      rintro _ _ ⟨⟩
      exact ⟨rfl, rfl, by rw [length_stepsFor]⟩

end Doomed

end DefLang.Lexer
