import SymbolCatalog.Toml.Scalar
import SymbolCatalog.Toml.Value

/-! Settings documents. Those that hold other values than settings use, such as fractions, truth
values, dates and lists of tables, are refused as malformed ones are. -/
namespace SymbolCatalog.Toml

def afterGap? : (inComment : Bool) → List Char → Option (List Char)
  | _, [] => some []
  | _, '\n' :: rest => afterGap? false rest
  | _, '\r' :: '\n' :: rest => afterGap? false rest
  | true, c :: rest => if isPlain c then afterGap? true rest else none
  | false, c :: rest =>
    if isBlank c then afterGap? false rest
    else if c = '#' then afterGap? true rest
    else some (c :: rest)

def gap : Reader Unit := do set (← afterGap? false (← get))

def endLine : Reader Unit := do
  blanks
  let text ← get
  guard (text.isEmpty || text.head? = some '#' || (afterNewline? text).isSome)
  gap

def assignment (space : Reader Unit) (value : Reader Value) (n : Nat) :
    Reader (List String × Value) := do
  let path ← path n
  space
  expect '='
  space
  pure (path, ← value)

def items (value : Reader Value) : (n : Nat) → Reader (List Value)
  | 0 => failure
  | n + 1 => do
    if ← accept ']' then pure []
    else
      let first ← value
      gap
      if ← accept ',' then
        gap
        pure (first :: (← items value n))
      else
        expect ']'
        pure [first]

def fields (value : Reader Value) : (n : Nat) → Table → Reader Table
  | 0, _ => failure
  | n + 1, before => do
    if ← accept '\x7d' then pure before
    else
      let (path, v) ← assignment gap value n
      let table ← before.assign v path
      gap
      if ← accept ',' then
        gap
        fields value n table
      else
        expect '\x7d'
        pure table

/-- A value; `n` bounds its length. -/
def value : (n : Nat) → Reader Value
  | 0 => failure
  | n + 1 => do
    match (← get).head? with
    | some '"' | some '\'' => .text <$> string
    | some '[' =>
      expect '['
      gap
      .list <$> items (value n) n
    | some '\x7b' =>
      expect '\x7b'
      gap
      .table .braces <$> fields (value n) n []
    | _ => .whole <$> whole

def statements : (n : Nat) → (header : List String) → Table → Reader Table
  | 0, _, _ => failure
  | n + 1, header, table => do
    match (← get).head? with
    | none => pure table
    | some '[' =>
      expect '['
      blanks
      let path ← path n
      expect ']'
      let table ← table.begin path
      endLine
      statements n path table
    | some _ =>
      let (path, v) ← assignment blanks (value n) n
      let table ← table.assignUnder header path v
      endLine
      statements n header table

def withoutMark : List Char → List Char
  | '\ufeff' :: rest => rest
  | text => text

def parse? (text : String) : Option Table :=
  let chars := withoutMark text.toList
  ((do gap; statements (chars.length + 1) [] []) : Reader Table).run' chars

end SymbolCatalog.Toml
