import Mathlib.Data.List.DropRight
import Mathlib.Data.Rat.Defs
import Relay.Config.Interpolation
import Relay.Library.Checks

/-!
# Relay.Config.Fields

**Reading the fields of a configuration** (`relay/config.py`, field helpers). A configuration is
what the parser of the file gives: a `Node` whose other values are Python scalars. What the loader
asks of Python itself and of the machine stands in a `Host`: the texts of values in error messages,
the conversion of integers to floats, the check of a cron expression and the file system.
-/

namespace Relay.Topology

open Checks

/-! ### Values -/

/-- A key of a mapping. Only strings are looked up. -/
inductive RawKey
  | str (text : String)
  | other (text : String)
  deriving DecidableEq, Repr

/-- A Python float. -/
inductive PyFloat
  | finite (value : ℚ)
  | inf
  | negInf
  | nan
  deriving DecidableEq, Repr

/-- What is neither a mapping nor a list nor a string. -/
inductive Scalar
  | none
  | bool (value : Bool)
  | int (value : Int)
  | float (value : PyFloat)
  /-- A value of another type, such as a date. -/
  | other (typeName : String) (truthy : Bool)

/-- A value of the configuration. -/
abbrev Raw := Node RawKey Scalar

/-- A mapping. -/
abbrev Mapping := List (RawKey × Raw)

/-- The string of a text. -/
def Raw.ofString (text : String) : Raw := .str text.toList

/-- The value of a key, when there is one. -/
def Mapping.get? (fields : Mapping) (key : String) : Option Raw :=
  (fields.find? (fun entry => entry.1 = .str key)).map Prod.snd

/-- `section.get(key)`. -/
def Mapping.get (fields : Mapping) (key : String) : Raw := (fields.get? key).getD (.other .none)

/-- The value of a key that is there and not `None` (`_present`). -/
def Mapping.present (fields : Mapping) (key : String) : Option Raw :=
  match fields.get key with
  | .other .none => none
  | value => some value

/-- `type(raw).__name__`. -/
def typeName : Raw → String
  | .mapping _ => "dict"
  | .list _ => "list"
  | .str _ => "str"
  | .other .none => "NoneType"
  | .other (.bool _) => "bool"
  | .other (.int _) => "int"
  | .other (.float _) => "float"
  | .other (.other name _) => name

/-- `bool(raw)`. -/
def truthy : Raw → Bool
  | .mapping entries => !entries.isEmpty
  | .list items => !items.isEmpty
  | .str text => !text.isEmpty
  | .other .none => false
  | .other (.bool value) => value
  | .other (.int value) => value != 0
  | .other (.float value) => value != .finite 0
  | .other (.other _ truthy) => truthy

/-- `value < minimum`. -/
def PyFloat.below (minimum : ℚ) : PyFloat → Bool
  | .finite value => decide (value < minimum)
  | .negInf => true
  | .inf | .nan => false

/-! ### Strings -/

/-- `str.isspace` of one character. -/
def isSpace (c : Char) : Bool :=
  let n := c.toNat
  decide ((9 ≤ n ∧ n ≤ 13) ∨ (28 ≤ n ∧ n ≤ 32) ∨ n = 0x85 ∨ n = 0xA0 ∨ n = 0x1680 ∨
    (0x2000 ≤ n ∧ n ≤ 0x200A) ∨ n = 0x2028 ∨ n = 0x2029 ∨ n = 0x202F ∨ n = 0x205F ∨ n = 0x3000)

/-- `str.strip`. -/
def strip (text : List Char) : List Char := (text.dropWhile isSpace).rdropWhile isSpace

/-- `str.split`. -/
def split (text : List Char) : List (List Char) :=
  (text.splitOnP isSpace).filter fun field => !field.isEmpty

/-- `text.rstrip("/")`. -/
def rstripSlash (text : String) : String := String.ofList (text.toList.rdropWhile (· = '/'))

/-- `text.startswith(start)`. -/
def startsWith (text start : String) : Bool := start.toList.isPrefixOf text.toList

theorem startsWith_iff {text start : String} :
    startsWith text start = true ↔ start.toList <+: text.toList := List.isPrefixOf_iff_prefix

/-! ### Paths -/

/-- A `pathlib.PurePosixPath`: its root and its parts. -/
structure PosixPath where
  root : String
  parts : List String
  deriving DecidableEq, Repr

namespace PosixPath

/-- `Path(text)`: two leading slashes are a root of their own, empty parts and dots are dropped. -/
def ofString (text : String) : PosixPath where
  root := match text.toList with
    | '/' :: '/' :: '/' :: _ => "/"
    | '/' :: '/' :: _ => "//"
    | '/' :: _ => "/"
    | _ => ""
  parts := ((text.toList.splitOn '/').filter fun part => part ≠ [] ∧ part ≠ ['.']).map String.ofList

/-- `path.parent`: a path without parts is its own parent. -/
def parent (path : PosixPath) : PosixPath := { path with parts := path.parts.dropLast }

/-- `str(path)`. -/
def text (path : PosixPath) : String :=
  if path.root = "" ∧ path.parts = [] then "." else path.root ++ "/".intercalate path.parts

end PosixPath

/-! ### What the loader asks for -/

/-- What `croniter(schedule)` raises: a `ValueError` or `KeyError` with its text, or another
exception. -/
inductive CronError
  | invalid (text : String)
  | other

/-- Python and the machine. -/
structure Host where
  /-- `repr`. -/
  repr : Raw → String
  /-- The text of a float. -/
  floatText : PyFloat → String
  /-- `float` of an integer; `none` when it is too large. -/
  float : Int → Option PyFloat
  /-- `str.lower`. -/
  lower : String → String
  croniter : String → Except CronError Unit
  /-- `path.expanduser()`; `none` when there is no home directory. -/
  expanduser : PosixPath → Option PosixPath
  pathExists : PosixPath → Bool
  isDir : PosixPath → Bool

/-- A `ConfigError` with its message, or another exception. -/
inductive Failure
  | config (message : String)
  | other
  deriving DecidableEq, Repr

abbrev Result := Except Failure

/-- `raise ConfigError(message)`. -/
def fail {α : Type} (message : String) : Result α := .error (.config message)

/-! ### Sections -/

/-- `_section`. -/
def asSection (raw : Raw) (name : String) : Result Mapping :=
  match raw with
  | .other .none => .ok []
  | .mapping entries => .ok entries
  | raw => fail ("'" ++ name ++ "' must be a mapping, got " ++ typeName raw)

/-- `_list_section`. -/
def listSection (raw : Raw) (name : String) : Result (List Raw) :=
  match raw with
  | .other .none => .ok []
  | .list items => .ok items
  | raw => fail ("'" ++ name ++ "' must be a list, got " ++ typeName raw)

/-! ### Fields

A helper returns the default of a field that is not there, and otherwise reads its value. -/

/-- How a message names a field. -/
def fieldText (key where' : String) : String := "field '" ++ key ++ "' in " ++ where'

/-- What the helpers with a default have in common. -/
def getField {α : Type} (fields : Mapping) (key where' : String) (default : Option α)
    (read : Raw → Result α) : Result α :=
  match fields.present key, default with
  | some value, _ => read value
  | none, some default => .ok default
  | none, none => fail ("missing required field '" ++ key ++ "' in " ++ where')

/-- `_get_str`. -/
def getStr (fields : Mapping) (key where' : String) : Result String :=
  getField fields key where' none fun value =>
    match value with
    | .str text =>
        if strip text = [] then fail (fieldText key where' ++ " must be a non-empty string")
        else .ok (String.ofList text)
    | _ => fail (fieldText key where' ++ " must be a non-empty string")

/-- `_get_str_opt`. -/
def getStrOpt (fields : Mapping) (key where' : String) : Result (Option String) :=
  match fields.present key with
  | none => .ok none
  | some (.str text) => .ok (some (String.ofList text))
  | some _ => fail (fieldText key where' ++ " must be a string when set")

/-- `_get_str_opt(...) or default`. -/
def getStrOr (fields : Mapping) (key where' default : String) : Result String := do
  let value ← getStrOpt fields key where'
  return (value.filter (· ≠ "")).getD default

/-- `_get_bool`. -/
def getBool (host : Host) (fields : Mapping) (key where' : String) (default : Bool) :
    Result Bool :=
  getField fields key where' (some default) fun value =>
    match value with
    | .other (.bool flag) => .ok flag
    | value => fail (fieldText key where' ++ " must be a boolean, got " ++ host.repr value)

/-- `_get_int`. -/
def getInt (host : Host) (fields : Mapping) (key where' : String) (default : Int)
    (minimum : Option Int) : Result Int :=
  getField fields key where' (some default) fun value =>
    match value with
    | .other (.int n) =>
        match minimum.filter (n < ·) with
        | some least => fail (fieldText key where' ++ " must be >= " ++ toString least ++
            ", got " ++ toString n)
        | none => .ok n
    | value => fail (fieldText key where' ++ " must be an integer, got " ++ host.repr value)

/-- `float(value)` of a number. -/
def toFloat (host : Host) : Raw → Option (Result PyFloat)
  | .other (.int n) => some ((host.float n).elim (.error .other) .ok)
  | .other (.float x) => some (.ok x)
  | _ => none

/-- `_get_float`. -/
def getFloat (host : Host) (fields : Mapping) (key where' : String) (default : ℚ)
    (minimum : Option ℚ) : Result PyFloat :=
  getField fields key where' (some (.finite default)) fun value =>
    match toFloat host value with
    | none => fail (fieldText key where' ++ " must be a number, got " ++ host.repr value)
    | some converted => do
        let x ← converted
        match minimum.filter (fun least => x.below least) with
        | some least => fail (fieldText key where' ++ " must be >= " ++
            host.floatText (.finite least) ++ ", got " ++ host.floatText x)
        | none => return x

/-- `_get_enum`: `allowed` gives the values their texts stand for. -/
def getEnum {α : Type} (host : Host) (fields : Mapping) (key where' : String)
    (allowed : List (String × α)) (default : Option α) : Result α :=
  getField fields key where' default fun value =>
    let found : Option (String × α) := match value with
      | .str text => allowed.find? (fun member => member.1 = String.ofList text)
      | _ => none
    match found with
    | some member => .ok member.2
    | none => fail (fieldText key where' ++ " must be one of " ++
        ", ".intercalate (allowed.map Prod.fst) ++ ", got " ++ host.repr value)

/-- The text of a non-empty string. -/
def nonEmptyText : Raw → Option String
  | .str text => if strip text = [] then none else some (String.ofList (strip text))
  | _ => none

/-- `_get_str_list`. -/
def getStrList (fields : Mapping) (key where' : String) (default : List String) :
    Result (List String) :=
  match fields.get key with
  | .other .none => .ok default
  | .list items =>
      match items.mapM nonEmptyText with
      | some texts => .ok texts
      | none => fail (fieldText key where' ++ " must be a list of non-empty strings")
  | _ => fail (fieldText key where' ++ " must be a list of non-empty strings")

/-- An integer that is not a boolean. -/
def integer : Raw → Option Int
  | .other (.int n) => some n
  | _ => none

/-- `_get_int_list`. -/
def getIntList (fields : Mapping) (key where' : String) (default : List Int) : Result (List Int) :=
  match fields.get key with
  | .other .none => .ok default
  | .list items =>
      match items.mapM integer with
      | some numbers => .ok numbers
      | none => fail (fieldText key where' ++ " must be a list of integers")
  | _ => fail (fieldText key where' ++ " must be a list of integers")

end Relay.Topology
