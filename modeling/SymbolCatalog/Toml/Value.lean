/-! The values of a settings document. A key is defined once; a table grows only in the way in which
it began: under its header, through dotted keys, or between braces. -/
namespace SymbolCatalog.Toml

inductive Origin where
  | implied
  | header
  | dotted
  | braces
  deriving DecidableEq, Repr

inductive Value where
  | text (s : String)
  | whole (n : Int)
  | list (items : List Value)
  | table (origin : Origin) (entries : List (String × Value))

abbrev Table := List (String × Value)

namespace Table

def alter (key : String) (change : Option Value → Option Value) : Table → Option Table
  | [] => (change none).map fun v => [(key, v)]
  | (k, v) :: rest =>
    if k = key then (change (some v)).map fun v => (k, v) :: rest
    else (alter key change rest).map ((k, v) :: ·)

def assign (value : Value) : (path : List String) → Table → Option Table
  | [], _ => none
  | [key], table => table.alter key fun old? => if old?.isNone then some value else none
  | key :: rest, table => table.alter key fun
    | none => (assign value rest []).map (.table .dotted)
    | some (.table .dotted entries) => (assign value rest entries).map (.table .dotted)
    | some _ => none

/-- Puts a value at the end of a path of dotted keys inside the table that a header began. -/
def assignUnder (header path : List String) (value : Value) (table : Table) : Option Table :=
  match header with
  | [] => table.assign value path
  | key :: rest => table.alter key fun
    | some (.table origin entries) => (assignUnder rest path value entries).map (.table origin)
    | _ => none

def begin : (path : List String) → Table → Option Table
  | [], _ => none
  | [key], table => table.alter key fun
    | none => some (.table .header [])
    | some (.table .implied entries) => some (.table .header entries)
    | some _ => none
  | key :: rest, table => table.alter key fun
    | none => (begin rest []).map (.table .implied)
    | some (.table .braces _) => none
    | some (.table origin entries) => (begin rest entries).map (.table origin)
    | some _ => none

end Table
end SymbolCatalog.Toml
