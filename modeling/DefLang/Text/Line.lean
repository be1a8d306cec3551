namespace DefLang.Text

def isWhiteSpace (c : Char) : Bool :=
  let n := c.toNat
  (0x9 ≤ n && n ≤ 0xD) || n == 0x20 || n == 0x85 || n == 0xA0 || n == 0x1680 ||
    (0x2000 ≤ n && n ≤ 0x200A) || n == 0x2028 || n == 0x2029 || n == 0x202F || n == 0x205F ||
    n == 0x3000

def trimEnd (line : List Char) : List Char := (line.reverse.dropWhile isWhiteSpace).reverse

def lineAfter : Nat → List Char → Option (List Char)
  | 0, source => some (source.takeWhile (· != '\n'))
  | n + 1, source =>
    match source.dropWhile (· != '\n') with
    | [] => none
    | _ :: rest => lineAfter n rest

/-- One carriage return at the end of a line belongs to its line break. -/
def dropReturn (line : List Char) : List Char :=
  if line.getLast? = some '\r' then line.dropLast else line

/-- The text of a line, counted from 1, without its line break. A source that ends in a newline has
an empty last line. -/
def line? (source : String) : Nat → Option String
  | 0 => none
  | n + 1 => (lineAfter n source.toList).map fun line => String.ofList (dropReturn line)

theorem lineAfter_append {line : List Char} (h : '\n' ∉ line) (n : Nat) (rest : List Char) :
    lineAfter (n + 1) (line ++ '\n' :: rest) = lineAfter n rest := by
  have hd : (line ++ '\n' :: rest).dropWhile (· != '\n') = '\n' :: rest := by
    rw [List.dropWhile_append_of_pos fun c hc => by
      simp only [bne_iff_ne, ne_eq]
      exact fun e => h (e ▸ hc)]
    rfl
  simp [lineAfter, hd]

end DefLang.Text
