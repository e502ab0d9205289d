import Abacus.Dict
import Abacus.Double
import Abacus.Toml.Datetime

/-!
# The data of a settings file

Settings files are written in TOML.  Their data are tables, which map names to values;
a value may be a table again.  A table is the list of its entries, in the order of the
file as it is read, and in the order of the names as it is written.
-/

namespace Abacus.Toml

/-- Values. -/
inductive Value where
  | string (s : String)
  | integer (n : Int)
  | float (x : Double)
  | boolean (b : Bool)
  | datetime (d : Datetime)
  | array (elements : List Value)
  | table (entries : List (String × Value))

/-- The entries of a table. -/
abbrev Table := List (String × Value)

namespace Value

instance : Inhabited Value := ⟨.boolean false⟩

/-- Whether a value is a table. -/
def isTable : Value → Bool
  | .table _ => true
  | _ => false

/-- Whether a value is an array of tables and nothing else, and not empty. -/
def isTableArray : Value → Bool
  | .array elements => !elements.isEmpty && elements.all isTable
  | _ => false

mutual

/-- Values can be compared. -/
def decEq (v w : Value) : Decidable (v = w) :=
  match v with
  | .string s =>
      match w with
      | .string t => decidable_of_iff (s = t) (by simp)
      | .integer _ | .float _ | .boolean _ | .datetime _ | .array _ | .table _ => isFalse nofun
  | .integer m =>
      match w with
      | .integer n => decidable_of_iff (m = n) (by simp)
      | .string _ | .float _ | .boolean _ | .datetime _ | .array _ | .table _ => isFalse nofun
  | .float x =>
      match w with
      | .float y => decidable_of_iff (x = y) (by simp)
      | .string _ | .integer _ | .boolean _ | .datetime _ | .array _ | .table _ => isFalse nofun
  | .boolean a =>
      match w with
      | .boolean b => decidable_of_iff (a = b) (by simp)
      | .string _ | .integer _ | .float _ | .datetime _ | .array _ | .table _ => isFalse nofun
  | .datetime d =>
      match w with
      | .datetime e => decidable_of_iff (d = e) (by simp)
      | .string _ | .integer _ | .float _ | .boolean _ | .array _ | .table _ => isFalse nofun
  | .array vs =>
      match w with
      | .array ws => @decidable_of_iff _ (vs = ws) (by simp) (decEqElements vs ws)
      | .string _ | .integer _ | .float _ | .boolean _ | .datetime _ | .table _ => isFalse nofun
  | .table es =>
      match w with
      | .table fs => @decidable_of_iff _ (es = fs) (by simp) (decEqEntries es fs)
      | .string _ | .integer _ | .float _ | .boolean _ | .datetime _ | .array _ => isFalse nofun

/-- So can the elements of arrays. -/
def decEqElements : (vs ws : List Value) → Decidable (vs = ws)
  | [], [] => isTrue rfl
  | [], _ :: _ => isFalse nofun
  | _ :: _, [] => isFalse nofun
  | v :: vs, w :: ws =>
      have := decEq v w
      have := decEqElements vs ws
      decidable_of_iff (v = w ∧ vs = ws) (by simp)

/-- And so can the entries of tables. -/
def decEqEntries : (es fs : List (String × Value)) → Decidable (es = fs)
  | [], [] => isTrue rfl
  | [], _ :: _ => isFalse nofun
  | _ :: _, [] => isFalse nofun
  | (k, v) :: es, (l, w) :: fs =>
      have := decEq v w
      have := decEqEntries es fs
      decidable_of_iff ((k = l ∧ v = w) ∧ es = fs) (by simp)

end

instance : DecidableEq Value := decEq

end Value

end Abacus.Toml
