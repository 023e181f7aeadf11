/-! Strings, whole numbers and keys of a settings document. A reader takes what it reads off the
front of the text and gives back the rest. -/
namespace SymbolCatalog.Toml

abbrev Reader := StateT (List Char) Option

/-- The rest of a text after at least one character. -/
abbrev Shorter (text : List Char) := { rest : List Char // rest.length < text.length }

def isBlank (c : Char) : Bool := c = ' ' || c = '\t'

def isPlain (c : Char) : Bool := c = '\t' || (' ' ≤ c && c ≠ '\x7f')

def isWordChar (c : Char) : Bool := c.isAlphanum || c = '_' || c = '-'

def span (p : Char → Bool) : Reader (List Char) :=
  modifyGet fun text => (text.takeWhile p, text.dropWhile p)

def accept (c : Char) : Reader Bool :=
  modifyGet fun
    | d :: rest => if d = c then (true, rest) else (false, d :: rest)
    | [] => (false, [])

def expect (c : Char) : Reader Unit := do guard (← accept c)

def blanks : Reader Unit := discard (span isBlank)

/-! ### Numbers -/

def digit? (base : Nat) (c : Char) : Option Nat :=
  let n :=
    if '0' ≤ c ∧ c ≤ '9' then c.toNat - '0'.toNat
    else if 'a' ≤ c ∧ c ≤ 'f' then c.toNat - 'a'.toNat + 10
    else if 'A' ≤ c ∧ c ≤ 'F' then c.toNat - 'A'.toNat + 10
    else base
  if n < base then some n else none

def digitsFrom (base : Nat) (n : Nat) : List Char → Option Nat
  | [] => some n
  | '_' :: c :: rest => do digitsFrom base (n * base + (← digit? base c)) rest
  | c :: rest => do digitsFrom base (n * base + (← digit? base c)) rest

def digits? (base : Nat) : List Char → Option Nat
  | [] => none
  | c :: rest => do digitsFrom base (← digit? base c) rest

def decimal? : List Char → Option Nat
  | '0' :: _ :: _ => none
  | text => digits? 10 text

def whole? : List Char → Option Int
  | '+' :: text => (decimal? text).map .ofNat
  | '-' :: text => (decimal? text).map fun n => -Int.ofNat n
  | '0' :: 'x' :: text => (digits? 16 text).map .ofNat
  | '0' :: 'o' :: text => (digits? 8 text).map .ofNat
  | '0' :: 'b' :: text => (digits? 2 text).map .ofNat
  | text => (decimal? text).map .ofNat

def whole : Reader Int := do whole? (← span fun c => isWordChar c || c = '+')

/-! ### Strings -/

def hexChar? (text : List Char) : Option Char := do
  let n ← text.foldlM (fun n c => return n * 16 + (← digit? 16 c)) 0
  if h : n.isValidChar then some (Char.ofNatAux n h) else none

def shortEscape? : Char → Option Char
  | 'b' => some '\x08'
  | 't' => some '\t'
  | 'n' => some '\n'
  | 'f' => some '\x0c'
  | 'r' => some '\r'
  | 'e' => some '\x1b'
  | '"' => some '"'
  | '\\' => some '\\'
  | _ => none

def escapeWidth? : Char → Option Nat
  | 'x' => some 2
  | 'u' => some 4
  | 'U' => some 8
  | _ => none

def escape? : (text : List Char) → Option (Char × Shorter text)
  | [] => none
  | c :: rest =>
    match escapeWidth? c with
    | none => (shortEscape? c).map (·, ⟨rest, Nat.lt_succ_self _⟩)
    | some width =>
      if (rest.take width).length < width then none
      else (hexChar? (rest.take width)).map
        (·, ⟨rest.drop width, by simp only [List.length_drop, List.length_cons]; omega⟩)

def quoted? (text : List Char) : Option (List Char × List Char) :=
  match text with
  | [] => none
  | '"' :: rest => some ([], rest)
  | '\\' :: rest => do
    let (c, ⟨rest, _⟩) ← escape? rest
    let (body, rest) ← quoted? rest
    pure (c :: body, rest)
  | c :: rest =>
    if isPlain c then do
      let (body, rest) ← quoted? rest
      pure (c :: body, rest)
    else none
termination_by text.length

def literal? (text : List Char) : Option (List Char × List Char) :=
  match text.dropWhile fun c => isPlain c && c ≠ '\'' with
  | '\'' :: rest => some (text.takeWhile fun c => isPlain c && c ≠ '\'', rest)
  | _ => none

def afterNewline? : List Char → Option (List Char)
  | '\n' :: rest => some rest
  | '\r' :: '\n' :: rest => some rest
  | _ => none

def skipNewline (text : List Char) : List Char := (afterNewline? text).getD text

def isSpace (c : Char) : Bool := isBlank c || c = '\n' || c = '\r'

def skipSpace : List Char → List Char
  | [] => []
  | '\n' :: rest => skipSpace rest
  | '\r' :: '\n' :: rest => skipSpace rest
  | c :: rest => if isBlank c then skipSpace rest else c :: rest

theorem length_skipSpace_le (text : List Char) : (skipSpace text).length ≤ text.length := by
  fun_induction skipSpace text <;> simp only [List.length_cons, List.length_nil] at * <;> omega

/-- The inside of a string of several lines, up to three closing quotes; up to two more may stand
right before them. Where escapes are read, a backslash at the end of a line takes the line end and
all blanks after it away. -/
def lines? (quote : Char) (escapes : Bool) (text : List Char) : Option (List Char × List Char) :=
  match text with
  | [] => none
  | c :: rest =>
    if c = quote ∧ rest.take 2 = [quote, quote] then
      let more := ((rest.drop 2).take 2).takeWhile (· = quote)
      some (more, rest.drop (2 + more.length))
    else if c = '\\' ∧ escapes then
      if rest.head?.any isSpace then
        if (afterNewline? (rest.dropWhile isBlank)).isSome then lines? quote escapes (skipSpace rest)
        else none
      else do
        let (c, ⟨rest, _⟩) ← escape? rest
        let (body, rest) ← lines? quote escapes rest
        pure (c :: body, rest)
    else if isPlain c || c = '\n' || (c = '\r' && rest.head? = some '\n') then do
      let (body, rest) ← lines? quote escapes rest
      pure (c :: body, rest)
    else none
termination_by text.length
decreasing_by
  all_goals simp only [List.length_cons]
  · exact Nat.lt_succ_of_le (length_skipSpace_le _)
  · omega
  · omega

def shortString : Reader String := do
  match ← get with
  | '"' :: rest => let (body, rest) ← quoted? rest; set rest; pure (.ofList body)
  | '\'' :: rest => let (body, rest) ← literal? rest; set rest; pure (.ofList body)
  | _ => failure

def string : Reader String := do
  match ← get with
  | '"' :: '"' :: '"' :: rest =>
    let (body, rest) ← lines? '"' true (skipNewline rest)
    set rest
    pure (.ofList body)
  | '\'' :: '\'' :: '\'' :: rest =>
    let (body, rest) ← lines? '\'' false (skipNewline rest)
    set rest
    pure (.ofList body)
  | _ => shortString

/-! ### Keys -/

def key : Reader String := do
  match (← get).head? with
  | some '"' | some '\'' => shortString
  | _ =>
    let word ← span isWordChar
    guard !word.isEmpty
    pure (.ofList word)

def path : (n : Nat) → Reader (List String)
  | 0 => failure
  | n + 1 => do
    let first ← key
    blanks
    if ← accept '.' then
      blanks
      pure (first :: (← path n))
    else pure [first]

end SymbolCatalog.Toml
