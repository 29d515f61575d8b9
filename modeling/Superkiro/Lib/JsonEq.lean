import Superkiro.Lib.Json

namespace Json

mutual

def same : Json → Json → Bool
  | null, null       => true
  | bool a, bool b   => a == b
  | num a, num b     => a == b
  | real a, real b   => a == b
  | str a, str b     => a == b
  | arr xs, arr ys   => sameItems xs ys
  | obj fs, obj gs   => sameFields fs gs
  | _, _             => false

def sameItems : List Json → List Json → Bool
  | [], []           => true
  | x :: xs, y :: ys => same x y && sameItems xs ys
  | _, _             => false

def sameFields : List (String × Json) → List (String × Json) → Bool
  | [], []                     => true
  | (k, v) :: fs, (l, w) :: gs => k == l && same v w && sameFields fs gs
  | _, _                       => false

end

mutual

theorem same_iff (a b : Json) : same a b ↔ a = b := by
  cases a <;> cases b <;> simp [same, sameItems_iff, sameFields_iff]

theorem sameItems_iff (xs ys : List Json) : sameItems xs ys ↔ xs = ys := by
  cases xs <;> cases ys <;> simp [sameItems, same_iff, sameItems_iff]

theorem sameFields_iff (fs gs : List (String × Json)) : sameFields fs gs ↔ fs = gs := by
  cases fs <;> cases gs <;> simp [sameFields, same_iff, sameFields_iff, Prod.ext_iff]

end

instance : DecidableEq Json := fun a b => decidable_of_iff _ (same_iff a b)

example : Json.obj [("a", .arr [.num 1])] = .obj [("a", .arr [.num 1])] := by decide

end Json
