import Mathlib.Algebra.Group.Int.Defs
import Mathlib.Data.List.AList
import Mathlib.Data.List.DropRight
import Mathlib.Data.Rat.Defs
import LbRpc.Base.Runs

/-!
# Configuration files

`ConfigFile` (`reactor/include/config_file.h`, `reactor/src/config_file.cpp`). A
`std::string` is a list of characters, one for each byte.

* `load`: what `ConfigFile::Load` makes of a text, line by line.
* `getString`, `getNumber`, `getFloat`: the readers that the agent uses.
-/

namespace LbRpc

/-- `std::map<std::string, std::string>`. -/
abbrev Section := AList fun _ : List Char => List Char

/-- The parsed file, `STR_MAP`. -/
structure ConfigFile where
  map : AList fun _ : List Char => Section

/-- How the library reads and prints a `float`, and the rounding of a literal to one.
`read` is `none` where the stream fails. -/
structure FloatText where
  f32 : ℚ → ℚ
  print : ℚ → List Char
  read : List Char → Option ℚ

/-- An assignment goes through the null pointer `m`. -/
inductive NullPointer
  | mk
  deriving DecidableEq, Repr

namespace ConfigFile

/-- No section yet. -/
def empty : ConfigFile := ⟨∅⟩

/-- `isspace` in the C locale. -/
def isspace (c : Char) : Bool := c ∈ [' ', '\t', '\n', '\x0b', '\x0c', '\r']

/-- `ConfigFile::trimLeft`. -/
def trimLeft (s : List Char) : List Char := s.dropWhile isspace

/-- `ConfigFile::trimRight`. -/
def trimRight (s : List Char) : List Char := s.rdropWhile isspace

/-- `ConfigFile::trim`. -/
def trim (s : List Char) : List Char := trimLeft (trimRight s)

/-- `ConfigFile::isSection`: the name in a section header. -/
def isSection (line : List Char) : Option (List Char) :=
  let s := trim line
  if s.length ≤ 2 then none
  else if s.head? ≠ some '[' ∨ s.getLast? ≠ some ']' then none
  else some (trim ((s.drop 1).take (s.length - 2)))

/-- An assignment line, split at its first `=` and trimmed. -/
def assignment (line : List Char) : Option (List Char × List Char) :=
  if '=' ∈ line then
    some (trim (line.takeWhile (· ≠ '=')), trim ((line.dropWhile (· ≠ '=')).drop 1))
  else none

/-- The key is empty or starts a comment. -/
def skipped (key : List Char) : Bool :=
  key = [] ∨ key.head? = some '#' ∨ key.head? = some ';'

/-- Where `Load` is: the file so far, and the section that `m` points to, if any. -/
structure Loading where
  file : ConfigFile
  m : Option (List Char)

/-- A section header: `m` points to the section, which is made if it is new. -/
def enter (s : Loading) (section_ : List Char) : Loading :=
  if (s.file.map.lookup section_).isSome then { s with m := some section_ }
  else { file := ⟨s.file.map.insert section_ ∅⟩, m := some section_ }

/-- An assignment in the section that `m` points to. -/
def assign (s : Loading) (key value : List Char) : Except NullPointer Loading :=
  match s.m with
  | none => .error .mk
  | some m =>
    .ok { s with file := ⟨s.file.map.insert m (((s.file.map.lookup m).getD ∅).insert key value)⟩ }

/-- One round of the loop of `ConfigFile::Load`. -/
def loadLine (s : Loading) (line : List Char) : Except NullPointer Loading :=
  match isSection line with
  | some section_ => .ok (enter s section_)
  | none =>
    match assignment line with
    | none => .ok s
    | some (key, value) => if skipped key then .ok s else assign s key value

/-- The lines that `getline` reads. -/
def lines (text : List Char) : List (List Char) := text.splitOn '\n'

/-- `ConfigFile::Load` of a text. -/
def load (text : List Char) : Except NullPointer ConfigFile :=
  match Runs.run loadLine ⟨empty, none⟩ (lines text) with
  | .error f => .error f
  | .ok s => .ok s.file

/-- The value under a section and a key. -/
def find (cf : ConfigFile) (section_ key : List Char) : Option (List Char) :=
  (cf.map.lookup section_).bind fun m => m.lookup key

/-- `ConfigFile::GetString`. -/
def getString (cf : ConfigFile) (section_ key default_value : List Char) : List Char :=
  (cf.find section_ key).getD default_value

/-- The digits at the front of a text, as a number; no digit reads as zero. -/
def digits (s : List Char) : ℤ :=
  (s.takeWhile Char.isDigit).foldl (fun n c => 10 * n + (c.toNat - '0'.toNat : ℕ)) 0

/-- `iss >> v` into a `long long` that holds zero: a number out of range is clamped. -/
def readLongLong (s : List Char) : ℤ :=
  match s.dropWhile isspace with
  | '-' :: t => max (-2 ^ 63) (-digits t)
  | '+' :: t => min (2 ^ 63 - 1) (digits t)
  | t => min (2 ^ 63 - 1) (digits t)

/-- `ConfigFile::parseNumber`: the low 32 bits. -/
def parseNumber (s : List Char) : UInt32 := UInt32.ofNat (readLongLong s % 2 ^ 32).toNat

/-- `ConfigFile::GetNumber`. -/
def getNumber (cf : ConfigFile) (section_ key : List Char) (default_value : UInt32) : UInt32 :=
  match cf.find section_ key with
  | some s => parseNumber s
  | none => default_value

/-- `ConfigFile::GetFloat`: the default goes through its printed form, and a text that
does not read is zero. -/
def getFloat (F : FloatText) (cf : ConfigFile) (section_ key : List Char) (default_value : ℚ) : ℚ :=
  (F.read (cf.getString section_ key (F.print default_value))).getD 0

end ConfigFile

end LbRpc
