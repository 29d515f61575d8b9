import Superkiro.Translate.Accepted
import Superkiro.Translate.Anthropic

namespace Translate

def unmark : Json → Json
  | .obj fields => .obj (fields.filter (·.1 ≠ "cache_control"))
  | other       => other

def isMarked (b : Json) : Bool := (b.get? "cache_control").isSome

-- The calls and the results among blocks.
def useId? (b : Json) : Option String :=
  if blockType b = some "tool_use" then (b.get? "id").bind Json.asStr? else none

def resultId? (b : Json) : Option String :=
  if blockType b = some "tool_result" then (b.get? "tool_use_id").bind Json.asStr? else none

def uses (bs : List Json) : List String := bs.filterMap useId?

theorem filter_setField {key : String} {v : Json} {fields : List (String × Json)} :
    (Json.setField key v fields).filter (·.1 ≠ key) = fields.filter (·.1 ≠ key) := by
  induction fields
  case nil => simp [Json.setField]
  case cons f fields hi =>
    unfold Json.setField
    split
    case isTrue hf => simp [hf]
    case isFalse =>
      split
      case isTrue => simp
      case isFalse => rw [List.filter_cons, List.filter_cons, hi]

theorem unmark_mark (b : Json) (h : b.isObject) : unmark (mark b) = unmark b := by
  cases b
  case obj => exact congrArg Json.obj filter_setField
  all_goals cases h

theorem unmark_of_unmarked (h : isMarked b = false) : unmark b = b := by
  cases b
  case obj fields =>
    simp only [isMarked, Json.get?, Option.isSome_map, Option.isSome_eq_false_iff,
      Option.isNone_iff_eq_none, List.find?_eq_none, decide_eq_true_eq] at h
    simp only [unmark, Json.obj.injEq, List.filter_eq_self, decide_eq_true_eq]
    exact h
  all_goals rfl

-- A block, with or without a mark.
def MarkOf (b b' : Json) : Prop := b' = b ∨ (b.isObject ∧ b' = mark b)

namespace MarkOf

variable {b b' : Json}

theorem get? (h : MarkOf b b') (hk : key ≠ "cache_control") : b'.get? key = b.get? key := by
  cases h
  case inl h => rw [h]
  case inr h => rw [h.right, mark, Json.get?_set hk h.left]

theorem blockType (h : MarkOf b b') : blockType b' = blockType b := by
  rw [Translate.blockType, Translate.blockType, h.get? (by decide)]

theorem useId? (h : MarkOf b b') : useId? b' = useId? b := by
  rw [Translate.useId?, Translate.useId?, h.blockType, h.get? (by decide)]

theorem resultId? (h : MarkOf b b') : resultId? b' = resultId? b := by
  rw [Translate.resultId?, Translate.resultId?, h.blockType, h.get? (by decide)]

theorem unmark (h : MarkOf b b') : unmark b' = unmark b := by
  cases h
  case inl h => rw [h]
  case inr h => rw [h.right, unmark_mark _ h.left]

end MarkOf

theorem markOf_markBlock (h : b.isObject) : MarkOf b (markBlock b) := by
  simp only [markBlock]
  split
  case isTrue => exact .inr ⟨h, rfl⟩
  case isFalse => exact .inl rfl

theorem markOf_modifyLast {f : Json → Json} (hf : ∀ b : Json, b.isObject → MarkOf b (f b))
    (h : ∀ b ∈ bs, b.isObject) : List.Forall₂ MarkOf bs (modifyLast f bs) := by
  induction bs
  case nil => exact .nil
  case cons b bs hi =>
    cases bs
    case nil => exact .cons (hf b (h b (by simp))) .nil
    case cons => exact .cons (.inl rfl) (hi fun b hb => h b (by simp [hb]))

-- Messages of the same roles, with or without marks.
def MarksOf (ms ms' : List (Speaker × List Json)) : Prop :=
  List.Forall₂ (fun m m' => m'.1 = m.1 ∧ List.Forall₂ MarkOf m.2 m'.2) ms ms'

theorem forall₂_markOf_refl (bs : List Json) : List.Forall₂ MarkOf bs bs :=
  List.forall₂_same.mpr fun _ _ => .inl rfl

theorem marksOf_refl (ms : List (Speaker × List Json)) : MarksOf ms ms :=
  List.forall₂_same.mpr fun _ _ => ⟨rfl, forall₂_markOf_refl _⟩

theorem marksOf_markTurns (h : ∀ m ∈ ms, ∀ b ∈ m.2, b.isObject) : MarksOf ms (markTurns n ms) := by
  induction ms generalizing n
  case nil => cases n <;> exact .nil
  case cons m ms hi =>
    have hi := fun n => @hi n fun m hm => h m (by simp [hm])
    obtain ⟨role, bs⟩ := m
    cases n
    case zero => exact marksOf_refl _
    case succ n =>
      cases role
      case user =>
        exact .cons ⟨rfl, markOf_modifyLast (fun _ => markOf_markBlock) (h (.user, bs) (by simp))⟩ (hi n)
      case assistant => exact .cons ⟨rfl, forall₂_markOf_refl _⟩ (hi (n + 1))

def marks (bs : List Json) : Nat := bs.countP isMarked

theorem marks_modifyLast {f : Json → Json} : marks (modifyLast f bs) ≤ marks bs + 1 := by
  induction bs
  case nil => simp [modifyLast, marks]
  case cons b bs hi =>
    cases bs
    case nil =>
      simp only [modifyLast, marks, List.countP_cons, List.countP_nil]
      split <;> omega
    case cons =>
      simp only [marks, modifyLast] at hi ⊢
      rw [List.countP_cons, List.countP_cons]
      omega

def messageMarks (ms : List (Speaker × List Json)) : Nat := marks (ms.flatMap (·.2))

theorem messageMarks_cons {m : Speaker × List Json} :
    messageMarks (m :: ms) = marks m.2 + messageMarks ms := by
  simp [messageMarks, marks, List.countP_append]

theorem messageMarks_markTurns : messageMarks (markTurns n ms) ≤ messageMarks ms + n := by
  induction ms generalizing n
  case nil => cases n <;> simp [markTurns, messageMarks, marks]
  case cons m ms hi =>
    obtain ⟨role, bs⟩ := m
    cases n
    case zero => simp [markTurns]
    case succ n =>
      cases role
      case user =>
        have := hi (n := n)
        have : marks (modifyLast markBlock bs) ≤ marks bs + 1 := marks_modifyLast
        simp only [markTurns, messageMarks_cons]
        omega
      case assistant =>
        have := hi (n := n + 1)
        simp only [markTurns, messageMarks_cons]
        omega

end Translate
