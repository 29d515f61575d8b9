import Superkiro.Lib.I64

-- Parsed JSON. Only integers are read as numbers; other numbers are kept as they are written.
inductive Json
  | null
  | bool (b : Bool)
  | num (n : Int)
  | real (text : String)
  | str (s : String)
  | arr (xs : List Json)
  | obj (fields : List (String × Json))
  deriving Inhabited

namespace Json

def get? (key : String) : Json → Option Json
  | obj fields => (fields.find? (·.1 = key)).map (·.2)
  | _          => none

def asStr? : Json → Option String
  | str s => some s
  | _     => none

def asArr? : Json → Option (List Json)
  | arr xs => some xs
  | _      => none

def asI64? : Json → Option I64
  | num n => if -9223372036854775808 ≤ n ∧ n ≤ 9223372036854775807 then some (.sat n) else none
  | _     => none

def asU64? : Json → Option Nat
  | num n => if 0 ≤ n ∧ n ≤ 18446744073709551615 then some n.toNat else none
  | _     => none

def isNull : Json → Bool
  | null => true
  | _    => false

def isObject : Json → Bool
  | obj _ => true
  | _     => false

-- Sets a field of an object, whose keys are in order.
def setField (key : String) (v : Json) : List (String × Json) → List (String × Json)
  | []          => [(key, v)]
  | f :: fields =>
    if f.1 = key then (key, v) :: fields
    else if key < f.1 then (key, v) :: f :: fields
    else f :: setField key v fields

-- `json[key] = v`
def set (j : Json) (key : String) (v : Json) : Json :=
  match j with
  | obj fields => obj (setField key v fields)
  | null       => obj [(key, v)]
  | other      => other

example : (obj [("a", num 1), ("c", num 2)]).set "b" null =
    obj [("a", num 1), ("b", null), ("c", num 2)] := rfl

theorem find?_setField {key key' : String} {v : Json} {fields : List (String × Json)}
    (h : key' ≠ key) : (setField key v fields).find? (·.1 = key') = fields.find? (·.1 = key') := by
  induction fields
  case nil => simp [setField, h.symm]
  case cons f fields hi =>
    unfold setField
    split
    case isTrue hf => simp [hf, h.symm]
    case isFalse =>
      split
      case isTrue => simp [h.symm]
      case isFalse => rw [List.find?_cons, List.find?_cons, hi]

-- A field keeps its value when another one is set.
theorem get?_set {key key' : String} {v j : Json} (h : key' ≠ key) (hj : j.isObject) :
    (j.set key v).get? key' = j.get? key' := by
  cases j
  case obj => simp only [set, get?, find?_setField h]
  all_goals cases hj

end Json
