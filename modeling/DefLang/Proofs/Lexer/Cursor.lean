import DefLang.Lexer.Step
import DefLang.Proofs.Lexer.Decomposition

namespace DefLang.Lexer

open Position (lineAfter columnAfter)

variable {file : String} {before : List Byte}

/-- The lexer at its true place in a source without failures, which falls into the bytes before it
and those still to come. -/
def between (file : String) (before rest : List Byte) : Lexer :=
  ⟨file, rest.head?, Source.ofBytes rest.tail, lineAfter before, columnAfter before⟩

/-- The lexer after a string that the end of input cut off. It stepped over a terminator that is not
there. -/
def pastEnd (file : String) (before : List Byte) : Lexer :=
  ⟨file, none, [], lineAfter before, columnAfter before + 1⟩

def tokensOf (file : String) (bytes : List Byte) : Except Diagnostic (List Token) :=
  (ofSource (Source.ofBytes bytes) file).tokens

section Scan

variable {α β : Type} {scan : Scan α} {next : α → Scan β} {l l' : Lexer}

theorem bind_eq_of_ok {a : α} (h : scan l = .ok a l') : (scan >>= next) l = next a l' := by
  change EStateM.bind scan next l = _
  rw [EStateM.bind, h]

theorem bind_eq_of_error {d : Diagnostic} (h : scan l = .error d l') :
    (scan >>= next) l = .error d l' := by
  change EStateM.bind scan next l = _
  rw [EStateM.bind, h]

theorem bind_get (next : Lexer → Scan β) (l : Lexer) : (get >>= next) l = next l l := rfl

end Scan

theorem current_between (rest : List Byte) :
    (between file before rest).current = rest.head? := rfl

/-- Leaving a byte counts its line, and the next column is then the true one. -/
theorem leaveLine_between (b : Byte) (rest : List Byte) :
    (between file before (b :: rest)).leaveLine =
      ⟨file, some b, Source.ofBytes rest, lineAfter (before ++ [b]),
        columnAfter (before ++ [b]) - 1⟩ := by
  rw [Position.lineAfter_append]
  -- a newline resets the column, any other byte leaves it for the next one to count
  by_cases hb : b = Byte.newline
  · rw [hb, Position.columnAfter_concat_newline]
    simp [leaveLine, between]
  · rw [Position.columnAfter_concat_of_ne before hb]
    simp [leaveLine, between, hb]

/-- Reading the next byte is moving over the current one. -/
theorem readByte_between (b : Byte) (rest : List Byte) :
    readByte (between file before (b :: rest)) = .ok () (between file (before ++ [b]) rest) := by
  have column : columnAfter (before ++ [b]) - 1 + 1 = columnAfter (before ++ [b]) := rfl
  simp only [readByte, leaveLine_between]
  cases rest with
  | nil => simp only [Source.ofBytes, List.map_nil, column]; rfl
  | cons c rest => simp only [Source.ofBytes, List.map_cons, column]; rfl

theorem takeOnto_of_stop {accept : Byte → Bool} {l : Lexer} (taken : List Byte)
    (h : ∀ b ∈ l.current, accept b = false) : takeOnto accept taken l = .ok taken.reverse l := by
  rw [takeOnto]
  split
  · rfl
  · next b hb => rw [if_neg (by simp [h b hb])]

theorem takeOnto_of_accept {accept : Byte → Bool} {l l' : Lexer} {b : Byte} (taken : List Byte)
    (hb : l.current = some b) (ha : accept b) (hr : readByte l = .ok () l') :
    takeOnto accept taken l = takeOnto accept (b :: taken) l' := by
  rw [takeOnto]
  split
  · next hn => simp [hn] at hb
  · next c hc =>
    obtain rfl : b = c := Option.some.inj (hb.symm.trans hc)
    rw [if_pos ha]
    split
    · next hr' => cases hr.symm.trans hr'; rfl
    · next hr' => cases hr.symm.trans hr'

theorem takeOnto_between {accept : Byte → Bool} {run rest : List Byte} (taken : List Byte)
    (h : Longest accept run rest) :
    takeOnto accept taken (between file before (run ++ rest)) =
      .ok (taken.reverse ++ run) (between file (before ++ run) rest) := by
  -- on the run, each byte of which moves from what is to come to what was taken
  induction run generalizing before taken with
  | nil =>
    rw [List.append_nil, List.append_nil]
    exact takeOnto_of_stop taken h.stops
  | cons b run ih =>
    have hb : accept b := h.inside b List.mem_cons_self
    rw [List.cons_append, takeOnto_of_accept taken rfl hb (readByte_between b (run ++ rest)),
      ih (b :: taken) h.tail]
    simp

/-- Taking bytes takes the longest run of them. -/
theorem takeWhile_between {accept : Byte → Bool} {run rest : List Byte}
    (h : Longest accept run rest) :
    takeWhile accept (between file before (run ++ rest)) =
      .ok run (between file (before ++ run) rest) :=
  takeOnto_between [] h

theorem requireFollower_of_mem {followers : Followers} {l : Lexer} (h : l.current ∈ followers) :
    requireFollower followers l = .ok () l := by
  rw [requireFollower, bind_get, if_pos (List.contains_iff_mem.2 h)]
  rfl

def mention (next : Option Byte) : String := (next.map (·.toChar.toString)).getD ""

def faultAfter (file : String) (before rest : List Byte) : Diagnostic :=
  ⟨.invalidToken (mention rest.head?), Position.after file before⟩

theorem refuse_between {α : Type} (rest : List Byte) :
    (refuse : Scan α) (between file before rest) =
      .error (faultAfter file before rest) (between file before rest) := rfl

theorem requireFollower_of_not_mem {followers : Followers} {rest : List Byte}
    (h : rest.head? ∉ followers) :
    requireFollower followers (between file before rest) =
      .error (faultAfter file before rest) (between file before rest) := by
  rw [requireFollower, bind_get, if_neg (by rwa [List.contains_iff_mem])]
  rfl

theorem close_between (start : Lexer) (kind : Kind) (text rest : List Byte) :
    start.close kind text (between file before rest) =
      .ok (start.token kind (some (Text.Utf8.lossy text)) (columnAfter before))
        (between file before rest) := rfl

end DefLang.Lexer
