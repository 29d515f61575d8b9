import Superkiro.Lib.Table

namespace Console

-- An entry of a list. Its ID is one of its fields, too, but never differs where fields are
-- compared.
structure Row (V : Type) where
  id     : String
  fields : Table String V

inductive Reason
  | changed
  | removed
  -- `exists`
  | taken

-- An edit that isn't applied. Where a field has been changed, it comes with what the server has.
structure Skipped (V : Type) where
  row    : Row V
  field  : Option String := none
  server : Option V := none
  reason : Reason

structure Rebased (V : Type) where
  rows    : List (Row V)
  applied : Nat
  skipped : List (Skipped V)

-- Values are compared as they are printed. What's absent is only the same as what's absent.
class Printed (V : Type) where
  stringify : V → String

section

variable {V : Type} [Printed V]

def same (a b : Option V) : Bool := a.map Printed.stringify == b.map Printed.stringify

def sameRow (a b : Row V) : Bool :=
  a.fields.entries.map (fun e => (e.1, Printed.stringify e.2)) ==
    b.fields.entries.map (fun e => (e.1, Printed.stringify e.2))

structure Merge (V : Type) where
  now     : Row V
  skipped : List (Skipped V)
  changed : Bool

def mergeField (before edit : Row V) (m : Merge V) (field : String) : Merge V :=
  let was := before.fields.lookup field
  let new := edit.fields.lookup field
  let now := m.now.fields.lookup field
  if same was new ∨ same now new then m
  else if ¬same now was then
    { m with skipped := m.skipped ++ [⟨edit, some field, now, .changed⟩] }
  else
    let fields :=
      match new with
      | some v => m.now.fields.insert field v
      | none   => m.now.fields.erase field
    { m with now := { m.now with fields }, changed := true }

def mergeRow (before edit now : Row V) : Merge V :=
  (before.fields.keys ++ edit.fields.keys.filter (· ∉ before.fields.keys)).foldl
    (mergeField before edit) ⟨now, [], false⟩

-- Puts a row in the place of the first one with its ID.
def putRow (row : Row V) : List (Row V) → List (Row V)
  | []      => []
  | r :: rs => if r.id = row.id then row :: rs else r :: putRow row rs

def rebaseRow (base : List (Row V)) (r : Rebased V) (edit : Row V) : Rebased V :=
  match base.find? (·.id = edit.id), r.rows.find? (·.id = edit.id) with
  | none, some _          => { r with skipped := r.skipped ++ [{ row := edit, reason := .taken }] }
  | none, none            => { r with rows := r.rows ++ [edit], applied := r.applied + 1 }
  | some before, none     =>
    if sameRow before edit then r
    else { r with skipped := r.skipped ++ [{ row := edit, reason := .removed }] }
  | some before, some now =>
    if sameRow before edit then r
    else
      let m := mergeRow before edit now
      { rows    := putRow m.now r.rows
        applied := r.applied + if m.changed then 1 else 0
        skipped := r.skipped ++ m.skipped }

def rebaseRows (base draft server : List (Row V)) : Rebased V :=
  draft.foldl (rebaseRow base) ⟨server, 0, []⟩

-- What's under a key: a list, of rows and other values, or another value.
inductive Section (V : Type)
  | list (entries : List (Row V ⊕ V))
  | value (v : V)

def rowsOf : Option (Section V) → List (Row V)
  | some (.list entries) => entries.filterMap (·.getLeft?)
  | _                    => []

structure RebasedSection (V : Type) where
  value   : Section V
  applied : Nat
  skipped : List (Skipped V)

def listOf (rows : List (Row V)) : Section V := .list (rows.map .inl)

def rebaseSection (base server : Table String (Section V)) (name : String) (value : Section V) :
    RebasedSection V :=
  if name = "versions" then
    let taken := (rowsOf (server.lookup "versions")).map (·.id)
    let (kept, lost) := (rowsOf (some value)).partition (·.id ∉ taken)
    ⟨listOf kept, kept.length, lost.map fun row => { row, reason := .taken }⟩
  else
    match value with
    | .list entries =>
      let r := rebaseRows (rowsOf (base.lookup name)) (rowsOf (some (.list entries)))
        (rowsOf (server.lookup name))
      ⟨listOf r.rows, r.applied, r.skipped⟩
    | .value v      => ⟨.value v, 0, []⟩

structure RebasedDraft (V : Type) where
  draft   : Table String (Section V)
  applied : Nat
  skipped : List (Skipped V)

def rebaseDraft (base draft server : Table String (Section V)) : RebasedDraft V where
  draft   := draft.mapValues fun name value => (rebaseSection base server name value).value
  applied := (draft.entries.map fun e => (rebaseSection base server e.1 e.2).applied).sum
  skipped := draft.entries.flatMap fun e => (rebaseSection base server e.1 e.2).skipped

theorem same_iff {a b : Option V} :
    same a b ↔ a.map Printed.stringify = b.map Printed.stringify := beq_iff_eq

theorem same_refl (a : Option V) : same a a := same_iff.mpr rfl

-- What a field becomes: the draft's value, where only the draft has changed it.
def merged (was new now : Option V) : Option V := if ¬same was new ∧ same now was then new else now

theorem merged_of_same {was new now : Option V} (h : same was new) : merged was new now = now :=
  if_neg fun hn => hn.left h

-- Someone else's change stays.
theorem merged_of_changed {was new now : Option V} (h : ¬same now was) : merged was new now = now :=
  if_neg fun hn => h hn.right

-- An edit is either there or in conflict with a change of the server.
theorem same_merged {was new now : Option V} (h : same now was ∨ same now new) :
    ¬same was new → same (merged was new now) new := by
  intro hn
  rw [merged]
  split
  case isTrue => exact same_refl _
  case isFalse hm => exact h.resolve_left fun hs => hm ⟨hn, hs⟩

variable {before edit now : Row V} {m : Merge V} {field other : String}

variable (before edit m field) in
-- What's done with a field, in the three cases that there are.
theorem mergeField_cases :
    let was := before.fields.lookup field
    let new := edit.fields.lookup field
    let now := m.now.fields.lookup field
    (mergeField before edit m field = m ∧ (same was new ∨ same now new)) ∨
    (mergeField before edit m field =
      { m with skipped := m.skipped ++ [⟨edit, some field, now, .changed⟩] } ∧
      ¬same was new ∧ ¬same now new ∧ ¬same now was) ∨
    (∃ fields, mergeField before edit m field =
      { m with now := { m.now with fields }, changed := true } ∧ fields.lookup field = new ∧
      (∀ other ≠ field, fields.lookup other = m.now.fields.lookup other) ∧
      ¬same was new ∧ same now was) := by
  simp only [mergeField]
  split_ifs with h₁ h₂
  case pos => exact .inl ⟨rfl, h₁⟩
  case neg => exact .inr (.inl ⟨rfl, fun h => h₁ (.inl h), fun h => h₁ (.inr h), h₂⟩)
  case pos =>
    refine .inr (.inr ⟨_, rfl, ?_, fun other hi => ?_, fun h => h₁ (.inl h), h₂⟩)
    · cases edit.fields.lookup field
      case none => exact AList.lookup_erase _ _
      case some => exact AList.lookup_insert _
    · cases edit.fields.lookup field
      case none => exact AList.lookup_erase_ne hi
      case some => exact AList.lookup_insert_ne hi

theorem id_mergeField : (mergeField before edit m field).now.id = m.now.id := by
  obtain h | h | ⟨_, h, _⟩ := mergeField_cases before edit m field
  · rw [h.left]
  · rw [h.left]
  · rw [h]

theorem lookup_mergeField : (mergeField before edit m field).now.fields.lookup other =
    if other = field then merged (before.fields.lookup field) (edit.fields.lookup field)
      (m.now.fields.lookup field)
    else m.now.fields.lookup other := by
  obtain h | h | ⟨_, h, hs, ho, hn, hc⟩ := mergeField_cases before edit m field
  · have hm : merged (before.fields.lookup field) (edit.fields.lookup field)
        (m.now.fields.lookup field) = m.now.fields.lookup field := by
      refine if_neg fun hn => ?_
      have hs := h.right.resolve_left hn.left
      exact hn.left (same_iff.mpr ((same_iff.mp hn.right).symm.trans (same_iff.mp hs)))
    rw [h.left, hm]
    split
    case isTrue he => rw [he]
    case isFalse => rfl
  · rw [h.left, merged_of_changed h.right.right.right]
    split
    case isTrue he => rw [he]
    case isFalse => rfl
  · rw [h]
    split
    case isTrue he => rw [he, merged, if_pos ⟨hn, hc⟩]; exact hs
    case isFalse he => exact ho other he

-- What's reported of a field.
def conflict (before edit now : Row V) (field : String) : List (Skipped V) :=
  if ¬same (before.fields.lookup field) (edit.fields.lookup field) ∧
    ¬same (now.fields.lookup field) (edit.fields.lookup field) ∧
    ¬same (now.fields.lookup field) (before.fields.lookup field) then
    [⟨edit, some field, now.fields.lookup field, .changed⟩] else []

theorem skipped_mergeField : (mergeField before edit m field).skipped =
    m.skipped ++ conflict before edit m.now field := by
  rw [conflict]
  obtain h | h | ⟨_, h, _, _, hn, hc⟩ := mergeField_cases before edit m field
  · rw [h.left, if_neg fun hn => h.right.elim hn.left hn.right.left, List.append_nil]
  · rw [h.left, if_pos h.right]
  · rw [h, if_neg fun hn => hn.right.right hc, List.append_nil]

theorem foldl_mergeField {fs : List String} (hf : fs.Nodup) :
    (fs.foldl (mergeField before edit) m).now.id = m.now.id ∧
    (∀ f, (fs.foldl (mergeField before edit) m).now.fields.lookup f =
      if f ∈ fs then merged (before.fields.lookup f) (edit.fields.lookup f) (m.now.fields.lookup f)
      else m.now.fields.lookup f) ∧
    (fs.foldl (mergeField before edit) m).skipped =
      m.skipped ++ fs.flatMap (conflict before edit m.now) := by
  induction fs generalizing m
  case nil => exact ⟨rfl, fun _ => rfl, (List.append_nil _).symm⟩
  case cons field fs hi =>
    have ⟨hn, hf⟩ := List.nodup_cons.mp hf
    have ⟨hd, hl, hs⟩ := hi (m := mergeField before edit m field) hf
    rw [List.foldl_cons]
    refine ⟨hd.trans id_mergeField, fun f => ?_, ?_⟩
    · rw [hl, lookup_mergeField]
      by_cases he : f = field
      case pos =>
        subst he
        rw [if_neg hn, if_pos rfl, if_pos List.mem_cons_self]
      case neg => simp only [List.mem_cons, he, false_or, if_false]
    · rw [hs, skipped_mergeField, List.flatMap_cons, List.append_assoc]
      congr 2
      refine List.flatMap_congr fun f hm => ?_
      have he : f ≠ field := fun he => hn (he ▸ hm)
      rw [conflict, conflict, lookup_mergeField, if_neg he]

omit [Printed V] in
theorem mem_fields {f : String} :
    f ∈ before.fields.keys ++ edit.fields.keys.filter (· ∉ before.fields.keys) ↔
      f ∈ before.fields ∨ f ∈ edit.fields := by
  simp only [List.mem_append, List.mem_filter, decide_eq_true_eq, AList.mem_keys]
  tauto

omit [Printed V] in
theorem nodup_fields :
    (before.fields.keys ++ edit.fields.keys.filter (· ∉ before.fields.keys)).Nodup := by
  refine List.nodup_append.mpr ⟨before.fields.keys_nodup, edit.fields.keys_nodup.filter _, ?_⟩
  rintro a ha _ hb rfl
  exact of_decide_eq_true (List.mem_filter.mp hb).right ha

variable {f : String} {s : Skipped V}

theorem id_mergeRow : (mergeRow before edit now).now.id = now.id :=
  (foldl_mergeField nodup_fields).left

theorem same_of_not_mem (h : ¬(f ∈ before.fields ∨ f ∈ edit.fields)) :
    same (before.fields.lookup f) (edit.fields.lookup f) := by
  have ⟨hb, he⟩ := not_or.mp h
  rw [AList.lookup_eq_none.mpr hb, AList.lookup_eq_none.mpr he]
  exact same_refl _

theorem lookup_mergeRow : (mergeRow before edit now).now.fields.lookup f =
    merged (before.fields.lookup f) (edit.fields.lookup f) (now.fields.lookup f) := by
  rw [mergeRow, (foldl_mergeField nodup_fields).right.left]
  split
  case isTrue => rfl
  case isFalse hf => exact (merged_of_same (same_of_not_mem (mt mem_fields.mpr hf))).symm

theorem mem_skipped_mergeRow : s ∈ (mergeRow before edit now).skipped ↔
    ∃ f, s ∈ conflict before edit now f := by
  rw [mergeRow, (foldl_mergeField nodup_fields).right.right, List.nil_append, List.mem_flatMap]
  refine exists_congr fun f => and_iff_right_of_imp fun hs => ?_
  rw [conflict] at hs
  split_ifs at hs with hc
  case pos =>
    by_contra hf
    exact hc.left (same_of_not_mem (mt mem_fields.mpr hf))
  case neg => cases hs

-- The row that the server's becomes.
def mergedRow (base draft : List (Row V)) (now : Row V) : Row V :=
  match base.find? (·.id = now.id), draft.find? (·.id = now.id) with
  | some before, some edit => if sameRow before edit then now else (mergeRow before edit now).now
  | _, _                   => now

def Ids (rows : List (Row V)) : List String := rows.map (·.id)

-- Whether a row of the draft is new to both of the others.
def isNew (base server : List (Row V)) (edit : Row V) : Bool :=
  edit.id ∉ Ids base && edit.id ∉ Ids server

-- What's reported of a row of the draft.
def reported (base server : List (Row V)) (edit : Row V) : List (Skipped V) :=
  match base.find? (·.id = edit.id), server.find? (·.id = edit.id) with
  | none, none            => []
  | none, some _          => [{ row := edit, reason := .taken }]
  | some before, none     =>
    if sameRow before edit then [] else [{ row := edit, reason := .removed }]
  | some before, some now => if sameRow before edit then [] else (mergeRow before edit now).skipped

variable {base draft server rows : List (Row V)} {row : Row V}

omit [Printed V] in
theorem find?_id_eq_none : rows.find? (·.id = row.id) = none ↔ row.id ∉ Ids rows := by
  rw [List.find?_eq_none, Ids, List.mem_map]
  simp only [decide_eq_true_eq, not_exists, not_and]

omit [Printed V] in
theorem id_of_find? (h : rows.find? (·.id = row.id) = some now) : now.id = row.id := by
  simpa using List.find?_some h

omit [Printed V] in
theorem putRow_eq (h : (Ids rows).Nodup) :
    putRow row rows = rows.map fun r => if r.id = row.id then row else r := by
  induction rows
  case nil => rfl
  case cons r rs hi =>
    have ⟨hn, hr⟩ := List.nodup_cons.mp h
    rw [putRow, List.map_cons]
    split
    case isTrue he =>
      have hk : ∀ r' ∈ rs, (if r'.id = row.id then row else r') = r' := fun r' hm =>
        if_neg fun hi => hn (List.mem_map.mpr ⟨r', hm, hi.trans he.symm⟩)
      rw [List.map_congr_left hk, List.map_id']
    case isFalse => rw [hi hr]

theorem id_mergedRow : (mergedRow base draft now).id = now.id := by
  rw [mergedRow]
  split
  case h_1 =>
    split
    case isTrue => rfl
    case isFalse => exact id_mergeRow
  case h_2 => rfl

theorem ids_mergedRow : Ids (server.map (mergedRow base draft)) = Ids server := by
  rw [Ids, List.map_map]
  exact List.map_congr_left fun _ _ => id_mergedRow

theorem mergedRow_of_not_mem (h : now.id ∉ Ids draft) : mergedRow base draft now = now := by
  rw [mergedRow, find?_id_eq_none.mpr h]
  cases base.find? (·.id = now.id) <;> rfl

theorem mergedRow_of_not_base (h : base.find? (·.id = now.id) = none) :
    mergedRow base draft now = now := by
  rw [mergedRow, h]

-- A further row of the draft.
theorem mergedRow_append (h : edit.id ∉ Ids draft) : mergedRow base (draft ++ [edit]) now =
    if now.id = edit.id then mergedRow base [edit] now else mergedRow base draft now := by
  split
  case isTrue he =>
    have hf : draft.find? (·.id = now.id) = none := find?_id_eq_none.mpr (he ▸ h)
    rw [mergedRow, List.find?_append, hf]
    rfl
  case isFalse he =>
    have hf : [edit].find? (·.id = now.id) = none := by simpa using Ne.symm he
    rw [mergedRow, List.find?_append, hf, Option.or_none]
    rfl

omit [Printed V] in
theorem isNew_iff : isNew base server edit ↔ edit.id ∉ Ids base ∧ edit.id ∉ Ids server := by
  rw [isNew, Bool.and_eq_true, decide_eq_true_eq, decide_eq_true_eq]

variable (base) in
theorem nodup_rebased (hd : (Ids draft).Nodup) (hs : (Ids server).Nodup) :
    (Ids (server.map (mergedRow base draft) ++ draft.filter (isNew base server))).Nodup := by
  have hm : Ids (server.map (mergedRow base draft)) = Ids server := ids_mergedRow
  rw [Ids, List.map_append, ←Ids, hm]
  refine List.nodup_append.mpr ⟨hs, hd.sublist (List.filter_sublist.map _), ?_⟩
  rintro i hi j hj rfl
  have ⟨e, he, hid⟩ := List.mem_map.mp hj
  exact (isNew_iff.mp (List.mem_filter.mp he).right).right (hid ▸ hi)

-- A row of the draft still finds what the server has, as nothing before it is about that row.
theorem find?_rebased (h : edit.id ∉ Ids draft) :
    (server.map (mergedRow base draft) ++ draft.filter (isNew base server)).find?
      (·.id = edit.id) = server.find? (·.id = edit.id) := by
  have hn : (draft.filter (isNew base server)).find? (·.id = edit.id) = none :=
    find?_id_eq_none.mpr fun hm => h ((List.filter_sublist.map _).subset hm)
  have hp : (fun r : Row V => decide (r.id = edit.id)) ∘ mergedRow base draft =
      fun r => decide (r.id = edit.id) := funext fun _ => by rw [Function.comp, id_mergedRow]
  rw [List.find?_append, hn, Option.or_none, List.find?_map, hp]
  cases hf : server.find? (·.id = edit.id)
  case none => rfl
  case some now =>
    rw [Option.map_some, mergedRow_of_not_mem (id_of_find? hf ▸ h)]

variable (base server) in
-- A further row of the draft that changes nothing.
theorem map_mergedRow_of_kept (h : edit.id ∉ Ids draft)
    (hk : ∀ now ∈ server, now.id = edit.id → mergedRow base [edit] now = now) :
    server.map (mergedRow base (draft ++ [edit])) = server.map (mergedRow base draft) := by
  refine List.map_congr_left fun now hm => ?_
  rw [mergedRow_append h]
  split
  case isTrue he => rw [hk now hm he, mergedRow_of_not_mem (he ▸ h)]
  case isFalse => rfl

omit [Printed V] in
theorem eq_of_find? (hs : (Ids server).Nodup) (hf : server.find? (·.id = edit.id) = some now)
    (hm : row ∈ server) (he : row.id = edit.id) : row = now := by
  exact List.inj_on_of_nodup_map hs hm (List.mem_of_find?_eq_some hf)
    (he.trans (id_of_find? hf).symm)

-- A further row of the draft that's merged.
theorem putRow_rebased (hd : (Ids draft).Nodup) (hs : (Ids server).Nodup) (h : edit.id ∉ Ids draft)
    (hf : server.find? (·.id = edit.id) = some now) :
    putRow (mergedRow base [edit] now)
        (server.map (mergedRow base draft) ++ draft.filter (isNew base server)) =
      server.map (mergedRow base (draft ++ [edit])) ++ draft.filter (isNew base server) := by
  have hi := id_of_find? hf
  have hn : ∀ r ∈ draft.filter (isNew base server),
      (if r.id = edit.id then mergedRow base [edit] now else r) = r := fun r hm =>
    if_neg fun he => h (List.mem_map.mpr ⟨r, List.mem_of_mem_filter hm, he⟩)
  rw [putRow_eq (nodup_rebased base hd hs), id_mergedRow, hi, List.map_append, List.map_map,
    List.map_congr_left hn, List.map_id']
  refine congrArg (· ++ _) (List.map_congr_left fun r hm => ?_)
  rw [Function.comp, id_mergedRow, mergedRow_append h]
  split
  case isTrue he => rw [eq_of_find? hs hf hm he]
  case isFalse => rfl

omit [Printed V] in
theorem not_isNew {b : Row V} (h : base.find? (·.id = edit.id) = some b ∨
    server.find? (·.id = edit.id) = some b) : [edit].filter (isNew base server) = [] := by
  refine List.filter_eq_nil_iff.mpr fun r hm hn => ?_
  have ⟨hb, hs⟩ := isNew_iff.mp (List.mem_singleton.mp hm ▸ hn)
  rw [←find?_id_eq_none] at hb hs
  cases h
  case inl hf => cases hb.symm.trans hf
  case inr hf => cases hs.symm.trans hf

theorem mergedRow_singleton {b : Row V} (hi : now.id = edit.id)
    (hb : base.find? (·.id = edit.id) = some b) : mergedRow base [edit] now =
      if sameRow b edit then now else (mergeRow b edit now).now := by
  have hf : [edit].find? (·.id = edit.id) = some edit := by simp
  rw [mergedRow, hi, hb, hf]

variable (base) in
theorem rebaseRows_eq (hd : (Ids draft).Nodup) (hs : (Ids server).Nodup) :
    (rebaseRows base draft server).rows =
      server.map (mergedRow base draft) ++ draft.filter (isNew base server) ∧
    (rebaseRows base draft server).skipped = draft.flatMap (reported base server) := by
  induction draft using List.reverseRecOn
  case nil =>
    refine ⟨?_, rfl⟩
    have hk : ∀ now ∈ server, mergedRow base [] now = now := fun _ _ =>
      mergedRow_of_not_mem (List.not_mem_nil)
    rw [List.map_congr_left hk, List.map_id']
    exact (List.append_nil _).symm
  case append_singleton draft edit hi =>
    rw [Ids, List.map_append] at hd
    have ⟨hd, _, hj⟩ := List.nodup_append.mp hd
    have h : edit.id ∉ Ids draft := fun hm => hj _ hm _ List.mem_cons_self rfl
    have ⟨hr, hk⟩ := hi hd
    have hf := hr ▸ find?_rebased h
    rw [rebaseRows, List.foldl_concat, ←rebaseRows, rebaseRow, hf, List.filter_append,
      List.flatMap_append, List.flatMap_singleton, reported]
    have hkept := map_mergedRow_of_kept base server h
    cases hb : base.find? (·.id = edit.id) <;> cases hv : server.find? (·.id = edit.id)
    case none.none =>
      have hn : isNew base server edit :=
        isNew_iff.mpr ⟨find?_id_eq_none.mp hb, find?_id_eq_none.mp hv⟩
      have hl : [edit].filter (isNew base server) = [edit] := by simp [hn]
      refine ⟨?_, ?_⟩
      · rw [hl, hkept fun r hm he => (find?_id_eq_none.mp hv (List.mem_map.mpr ⟨r, hm, he⟩)).elim,
          ←List.append_assoc, hr]
      · exact hk.trans (List.append_nil _).symm
    case none.some =>
      rw [not_isNew (.inr hv), List.append_nil, hkept fun r _ he => mergedRow_of_not_base (he ▸ hb)]
      exact ⟨hr, congrArg (· ++ _) hk⟩
    case some.none b =>
      rw [not_isNew (.inl hb), List.append_nil,
        hkept fun r hm he => (find?_id_eq_none.mp hv (List.mem_map.mpr ⟨r, hm, he⟩)).elim]
      by_cases hs : sameRow b edit
      case pos => simp only [if_pos hs, hr, hk, List.append_nil, and_self]
      case neg => simp only [if_neg hs, hr, hk, and_self]
    case some.some b now =>
      rw [not_isNew (.inl hb), List.append_nil]
      have hm := mergedRow_singleton (id_of_find? hv) hb
      by_cases hp : sameRow b edit
      case pos =>
        rw [if_pos hp] at hm
        simp only [if_pos hp, hr, hk, List.append_nil]
        refine ⟨congrArg (· ++ _) (hkept fun r hs' he => ?_).symm, trivial⟩
        exact eq_of_find? hs hv hs' he ▸ hm
      case neg =>
        rw [if_neg hp] at hm
        simp only [if_neg hp]
        exact ⟨hr ▸ hm ▸ putRow_rebased hd hs h hv, congrArg (· ++ _) hk⟩

theorem lookup_entries (es : List (Σ _ : String, V)) :
    (es.dlookup f).map Printed.stringify =
      (es.map fun e => (e.1, Printed.stringify e.2)).lookup f := by
  induction es
  case nil => rfl
  case cons e es hi =>
    by_cases h : f = e.1
    case pos =>
      obtain ⟨k, v⟩ := e
      subst h
      simp only [List.dlookup_cons_eq, List.map_cons, List.lookup_cons_self, Option.map_some]
    case neg =>
      rw [List.dlookup_cons_ne _ _ h, hi, List.map_cons, List.lookup_cons, beq_false_of_ne h]

theorem lookup_printed (t : Table String V) : (t.lookup f).map Printed.stringify =
    (t.entries.map fun e => (e.1, Printed.stringify e.2)).lookup f := lookup_entries _

theorem same_of_sameRow (h : sameRow before edit) (f : String) :
    same (before.fields.lookup f) (edit.fields.lookup f) := by
  rw [sameRow, beq_iff_eq] at h
  refine same_iff.mpr ?_
  rw [lookup_printed, lookup_printed, h]

-- A merged row, field by field.
theorem lookup_mergedRow {b e : Row V} (hb : base.find? (·.id = now.id) = some b)
    (he : draft.find? (·.id = now.id) = some e) :
    (mergedRow base draft now).fields.lookup f =
      merged (b.fields.lookup f) (e.fields.lookup f) (now.fields.lookup f) := by
  rw [mergedRow, hb, he]
  simp only
  split
  case isTrue hs => exact (merged_of_same (same_of_sameRow hs f)).symm
  case isFalse => exact lookup_mergeRow

omit [Printed V] in
theorem find?_of_mem (h : (Ids rows).Nodup) (hm : now ∈ rows) (hi : now.id = row.id) :
    rows.find? (·.id = row.id) = some now := by
  cases hf : rows.find? (·.id = row.id)
  case none => exact absurd (List.mem_map.mpr ⟨now, hm, hi⟩) (find?_id_eq_none.mp hf)
  case some => rw [eq_of_find? h hf hm hi]

variable (server) in
-- What's reported of an edit, field by field.
theorem mem_reported {b : Row V} (hb : base.find? (·.id = edit.id) = some b)
    (hn : ¬same (b.fields.lookup f) (edit.fields.lookup f)) :
    (server.find? (·.id = edit.id) = none →
      { row := edit, reason := .removed } ∈ reported base server edit) ∧
    (∀ now, server.find? (·.id = edit.id) = some now →
      ¬same (now.fields.lookup f) (edit.fields.lookup f) →
      ¬same (now.fields.lookup f) (b.fields.lookup f) →
      ⟨edit, some f, now.fields.lookup f, .changed⟩ ∈ reported base server edit) := by
  have hs : ¬sameRow b edit := fun hs => hn (same_of_sameRow hs f)
  refine ⟨fun hf => ?_, fun now hf hc ho => ?_⟩
  all_goals
    rw [reported, hb, hf]
    simp only [if_neg hs]
  · exact List.mem_cons_self
  · refine mem_skipped_mergeRow.mpr ⟨f, ?_⟩
    rw [conflict, if_pos ⟨hn, hc, ho⟩]
    exact List.mem_cons_self

-- Two rows with the same fields, in whatever order.
def Row.Agrees (a b : Row V) : Prop := a.id = b.id ∧ ∀ f, a.fields.lookup f = b.fields.lookup f

-- What a list that's been rebased keeps of the server's rows and of the draft's.
structure Rebases (base draft server rows : List (Row V)) (skipped : List (Skipped V)) : Prop where
  nodup   : (Ids rows).Nodup
  ids     : ∀ i, i ∈ Ids rows ↔ i ∈ Ids server ∨ (i ∈ Ids draft ∧ i ∉ Ids base)
  theirs  : ∀ now ∈ server, now.id ∉ Ids base ∨ now.id ∉ Ids draft → now ∈ rows
  fields  : ∀ before ∈ base, ∀ edit ∈ draft, ∀ now ∈ server, before.id = now.id →
    edit.id = now.id → ∃ row ∈ rows, row.id = now.id ∧ ∀ f, row.fields.lookup f =
      if ¬same (before.fields.lookup f) (edit.fields.lookup f) ∧
        same (now.fields.lookup f) (before.fields.lookup f)
      then edit.fields.lookup f else now.fields.lookup f
  new     : ∀ edit ∈ draft, edit.id ∉ Ids base →
    if edit.id ∈ Ids server then { row := edit, reason := .taken } ∈ skipped else edit ∈ rows
  removed : ∀ before ∈ base, ∀ edit ∈ draft, before.id = edit.id → edit.id ∉ Ids server →
    ∀ f, ¬same (before.fields.lookup f) (edit.fields.lookup f) →
      { row := edit, reason := .removed } ∈ skipped
  edits   : ∀ before ∈ base, ∀ edit ∈ draft, ∀ now ∈ server, before.id = edit.id →
    now.id = edit.id → ∀ f, ¬same (before.fields.lookup f) (edit.fields.lookup f) →
      (∃ row ∈ rows, row.id = edit.id ∧ same (row.fields.lookup f) (edit.fields.lookup f)) ∨
      (¬same (now.fields.lookup f) (before.fields.lookup f) ∧
        ⟨edit, some f, now.fields.lookup f, .changed⟩ ∈ skipped)

theorem rebases (hb : (Ids base).Nodup) (hd : (Ids draft).Nodup) (hs : (Ids server).Nodup) :
    Rebases base draft server (rebaseRows base draft server).rows
      (rebaseRows base draft server).skipped := by
  have ⟨hr, hk⟩ := rebaseRows_eq base hd hs
  rw [hr, hk]
  have hfields : ∀ before ∈ base, ∀ edit ∈ draft, ∀ now ∈ server, before.id = now.id →
      edit.id = now.id → ∀ f, (mergedRow base draft now).fields.lookup f =
        merged (before.fields.lookup f) (edit.fields.lookup f) (now.fields.lookup f) :=
    fun _ hmb _ hme _ _ hib hie _ =>
      lookup_mergedRow (find?_of_mem hb hmb hib) (find?_of_mem hd hme hie)
  have hmem : ∀ now ∈ server, mergedRow base draft now ∈
      server.map (mergedRow base draft) ++ draft.filter (isNew base server) :=
    fun now hm => List.mem_append_left _ (List.mem_map_of_mem hm)
  refine ⟨nodup_rebased base hd hs, fun i => ?_, fun now hm ho => ?_, ?_, fun edit hm hn => ?_, ?_, ?_⟩
  · have hi : Ids (server.map (mergedRow base draft)) = Ids server := ids_mergedRow
    rw [Ids, List.map_append, ←Ids, hi, List.mem_append]
    refine ⟨fun h => h.imp_right fun h => ?_, fun h => ?_⟩
    · have ⟨e, he, hi⟩ := List.mem_map.mp h
      have ⟨hm, hn⟩ := List.mem_filter.mp he
      exact ⟨List.mem_map.mpr ⟨e, hm, hi⟩, hi ▸ (isNew_iff.mp hn).left⟩
    · by_cases ht : i ∈ Ids server
      case pos => exact .inl ht
      case neg =>
        have ⟨hm, hn⟩ := h.resolve_left ht
        have ⟨e, he, hi⟩ := List.mem_map.mp hm
        subst hi
        exact .inr (List.mem_map_of_mem (List.mem_filter.mpr ⟨he, isNew_iff.mpr ⟨hn, ht⟩⟩))
  · have hk : mergedRow base draft now = now :=
      ho.elim (fun h => mergedRow_of_not_base (find?_id_eq_none.mpr h)) mergedRow_of_not_mem
    exact hk ▸ hmem now hm
  · intro before hmb edit hme now hm hib hie
    exact ⟨_, hmem now hm, id_mergedRow, hfields before hmb edit hme now hm hib hie⟩
  · split
    case isTrue ht =>
      refine List.mem_flatMap.mpr ⟨edit, hm, ?_⟩
      have ⟨now, hm, hi⟩ := List.mem_map.mp ht
      rw [reported, find?_id_eq_none.mpr hn, find?_of_mem hs hm hi]
      exact List.mem_cons_self
    case isFalse ht =>
      exact List.mem_append_right _ (List.mem_filter.mpr ⟨hm, isNew_iff.mpr ⟨hn, ht⟩⟩)
  · intro before hmb edit hme hib ht f hn
    have hr := mem_reported server (find?_of_mem hb hmb hib) hn
    exact List.mem_flatMap.mpr ⟨edit, hme, hr.left (find?_id_eq_none.mpr ht)⟩
  · intro before hmb edit hme now hm hib hin f hn
    by_cases ho : same (now.fields.lookup f) (before.fields.lookup f) ∨
      same (now.fields.lookup f) (edit.fields.lookup f)
    case pos =>
      refine .inl ⟨_, hmem now hm, id_mergedRow.trans hin, ?_⟩
      rw [hfields before hmb edit hme now hm (hib.trans hin.symm) hin.symm]
      exact same_merged ho hn
    case neg =>
      have ⟨hc, he⟩ := not_or.mp ho
      have hr := mem_reported server (find?_of_mem hb hmb hib) hn
      exact .inr ⟨hc, List.mem_flatMap.mpr ⟨edit, hme, hr.right now (find?_of_mem hs hm hin) he hc⟩⟩

-- Rebased rows already have what a further rebase would merge into them.
theorem merged_again {was new now : Option V} :
    merged now (merged was new now) now = merged was new now := by
  rw [merged]
  split_ifs with h
  case pos => rfl
  case neg =>
    have hm : same now (merged was new now) := by
      by_contra hn
      exact h ⟨hn, same_refl _⟩
    rw [merged] at hm ⊢
    split_ifs at hm ⊢ with hc
    case pos =>
      have he := (same_iff.mp hc.right).symm.trans (same_iff.mp hm)
      exact (hc.left (same_iff.mpr he)).elim
    case neg => rfl

theorem filter_isNew_theirs :
    (server.map (mergedRow base draft)).filter (isNew server server) = [] := by
  refine List.filter_eq_nil_iff.mpr fun r hm hn => (isNew_iff.mp hn).left ?_
  have hi : Ids (server.map (mergedRow base draft)) = Ids server := ids_mergedRow
  exact hi ▸ List.mem_map_of_mem hm

omit [Printed V] in
theorem Row.agrees_refl (a : Row V) : a.Agrees a := ⟨rfl, fun _ => rfl⟩

-- A row of the server's, rebased once and twice.
theorem agrees_again (hs : (Ids server).Nodup)
    (hn : (Ids (server.map (mergedRow base draft) ++ draft.filter (isNew base server))).Nodup)
    (hm : now ∈ server) :
    (mergedRow server (server.map (mergedRow base draft) ++ draft.filter (isNew base server))
      now).Agrees (mergedRow base draft now) := by
  refine ⟨id_mergedRow.trans id_mergedRow.symm, fun f => ?_⟩
  have hr : List.find? (·.id = now.id) _ = some (mergedRow base draft now) :=
    find?_of_mem hn (List.mem_append_left _ (List.mem_map_of_mem hm)) id_mergedRow
  rw [lookup_mergedRow (find?_of_mem hs hm rfl) hr]
  cases hb : base.find? (·.id = now.id)
  case none =>
    rw [mergedRow_of_not_base hb]
    exact merged_of_same (same_refl _)
  case some b =>
    cases he : draft.find? (·.id = now.id)
    case none =>
      rw [mergedRow_of_not_mem (find?_id_eq_none.mp he)]
      exact merged_of_same (same_refl _)
    case some e =>
      rw [lookup_mergedRow hb he]
      exact merged_again

variable (base) in
theorem rebases_again (hd : (Ids draft).Nodup) (hs : (Ids server).Nodup) :
    (rebaseRows server (rebaseRows base draft server).rows server).skipped = [] ∧
    List.Forall₂ Row.Agrees
      (rebaseRows server (rebaseRows base draft server).rows server).rows
      (rebaseRows base draft server).rows := by
  have hr := (rebaseRows_eq base hd hs).left
  have hn := nodup_rebased base hd hs
  rw [hr]
  have ⟨ha, hk⟩ := rebaseRows_eq server hn hs
  rw [ha, hk]
  refine ⟨?_, ?_⟩
  · refine List.flatMap_eq_nil_iff.mpr fun edit _ => ?_
    rw [reported]
    cases server.find? (·.id = edit.id)
    case none => rfl
    case some now =>
      simp only
      split
      case isTrue => rfl
      case isFalse =>
        refine List.eq_nil_iff_forall_not_mem.mpr fun s hm => ?_
        have ⟨f, hf⟩ := mem_skipped_mergeRow.mp hm
        rw [conflict, if_neg fun hc => hc.right.right (same_refl _)] at hf
        cases hf
  · refine List.rel_append ?_ ?_
    · rw [List.forall₂_map_left_iff, List.forall₂_map_right_iff, List.forall₂_same]
      intro now hm
      exact agrees_again hs hn hm
    · rw [List.filter_append, filter_isNew_theirs, List.nil_append, List.filter_filter]
      have hi : ∀ e ∈ draft, (isNew server server e && isNew base server e) = isNew base server e :=
        fun e _ => by rw [isNew, isNew]; grind
      rw [List.filter_congr hi]
      exact List.forall₂_same.mpr fun a _ => a.agrees_refl

theorem Rebases.mono {skipped skipped' : List (Skipped V)}
    (h : Rebases base draft server rows skipped) (hs : skipped ⊆ skipped') :
    Rebases base draft server rows skipped' where
  nodup   := h.nodup
  ids     := h.ids
  theirs  := h.theirs
  fields  := h.fields
  new     := fun edit hm hn => by
    have hc := h.new edit hm hn
    split at hc
    case isTrue ht => exact (if_pos ht).mpr (hs hc)
    case isFalse ht => exact (if_neg ht).mpr hc
  removed := fun b hb e he hi ht f hn => hs (h.removed b hb e he hi ht f hn)
  edits   := fun b hb e he n hm hi hj f hn =>
    (h.edits b hb e he n hm hi hj f hn).imp_right fun hc => ⟨hc.left, hs hc.right⟩

abbrev Config (V : Type) := Table String (Section V)

-- IDs are unique within each list.
def Unique (c : Config V) : Prop := ∀ name, (Ids (rowsOf (c.lookup name))).Nodup

inductive Section.Agrees : Section V → Section V → Prop
  | list {as bs : List (Row V)} (h : List.Forall₂ Row.Agrees as bs) : Agrees (listOf as) (listOf bs)
  | value (v : V) : Agrees (.value v) (.value v)

-- What a draft that's been rebased keeps of the server's configuration and of the draft.
structure RebasesDraft (base draft server : Config V) (r : RebasedDraft V) : Prop where
  sections : r.draft.keys = draft.keys
  lists    : ∀ name entries, name ≠ "versions" → draft.lookup name = some (.list entries) →
    ∃ rows, r.draft.lookup name = some (listOf rows) ∧
      Rebases (rowsOf (base.lookup name)) (rowsOf (draft.lookup name)) (rowsOf (server.lookup name))
        rows r.skipped
  versions : "versions" ∈ draft → ∃ rows, r.draft.lookup "versions" = some (listOf rows) ∧
    (∀ row, row ∈ rows ↔ row ∈ rowsOf (draft.lookup "versions") ∧
      row.id ∉ Ids (rowsOf (server.lookup "versions"))) ∧ (Ids rows).Nodup ∧
    ∀ row ∈ rowsOf (draft.lookup "versions"), row ∈ rows ∨
      { row, reason := .taken } ∈ r.skipped
  settings : ∀ name v, name ≠ "versions" → draft.lookup name = some (.value v) →
    r.draft.lookup name = some (.value v)
  again    : (rebaseDraft server r.draft server).skipped = [] ∧
    ∀ name, Option.Rel Section.Agrees ((rebaseDraft server r.draft server).draft.lookup name)
      (r.draft.lookup name)

omit [Printed V] in
theorem rowsOf_listOf : rowsOf (some (listOf rows)) = rows := by
  have h : rowsOf (some (listOf rows)) =
      (rows.map .inl).filterMap fun e : Row V ⊕ V => e.getLeft? := rfl
  rw [h, List.filterMap_map]
  exact List.filterMap_some

variable {base draft server : Config V} {name : String} {value : Section V}

omit [Printed V] in
theorem not_decide_mem {i : String} {taken : List String} :
    (!decide (i ∉ taken)) = decide (i ∈ taken) := by
  by_cases h : i ∈ taken <;> simp [h]

theorem rebaseSection_versions : rebaseSection base server "versions" value =
    ⟨listOf ((rowsOf (some value)).filter (·.id ∉ Ids (rowsOf (server.lookup "versions")))),
      ((rowsOf (some value)).filter (·.id ∉ Ids (rowsOf (server.lookup "versions")))).length,
      ((rowsOf (some value)).filter (·.id ∈ Ids (rowsOf (server.lookup "versions")))).map
        fun row => { row, reason := .taken }⟩ := by
  rw [rebaseSection.eq_def, if_pos rfl]
  simp only [List.partition_eq_filter_filter, Ids, Function.comp_def, not_decide_mem]
  congr!

theorem rebaseSection_list {entries : List (Row V ⊕ V)} (h : name ≠ "versions") :
    rebaseSection base server name (.list entries) =
      let r := rebaseRows (rowsOf (base.lookup name)) (rowsOf (some (.list entries)))
        (rowsOf (server.lookup name))
      ⟨listOf r.rows, r.applied, r.skipped⟩ := if_neg h

theorem rebaseSection_value {v : V} (h : name ≠ "versions") :
    rebaseSection base server name (.value v) = ⟨.value v, 0, []⟩ := if_neg h

variable (base) in
theorem rebaseSection_again (hd : (Ids (rowsOf (some value))).Nodup)
    (hs : (Ids (rowsOf (server.lookup name))).Nodup) :
    let r := rebaseSection base server name value
    (rebaseSection server server name r.value).skipped = [] ∧
    (rebaseSection server server name r.value).value.Agrees r.value := by
  by_cases hn : name = "versions"
  case pos =>
    subst hn
    simp only [rebaseSection_versions, rowsOf_listOf, List.filter_filter]
    refine ⟨?_, ?_⟩
    · simp
    · simp only [Bool.and_self]
      exact .list (List.forall₂_same.mpr fun a _ => a.agrees_refl)
  case neg =>
    cases value
    case value v =>
      simp only [rebaseSection_value hn]
      exact ⟨trivial, .value v⟩
    case list entries =>
      have ⟨hk, ha⟩ := rebases_again (rowsOf (base.lookup name)) hd hs
      simp only [rebaseSection_list hn]
      have hl : ∀ rows : List (Row V), listOf rows = .list (rows.map .inl) := fun _ => rfl
      rw [hl, rebaseSection_list hn, ←hl, rowsOf_listOf]
      exact ⟨hk, .list ha⟩

variable (base server) in
theorem skipped_subset (h : draft.lookup name = some value) :
    (rebaseSection base server name value).skipped ⊆ (rebaseDraft base draft server).skipped :=
  fun _ hs => List.mem_flatMap.mpr ⟨⟨name, value⟩, AList.mem_entries_iff.mpr h, hs⟩

theorem lookup_rebaseDraft : (rebaseDraft base draft server).draft.lookup name =
    (draft.lookup name).map fun value => (rebaseSection base server name value).value :=
  AList.lookup_mapValues _

theorem rebaseDraft_again (hd : Unique draft) (hs : Unique server) :
    let r := rebaseDraft base draft server
    (rebaseDraft server r.draft server).skipped = [] ∧
    ∀ name, Option.Rel Section.Agrees ((rebaseDraft server r.draft server).draft.lookup name)
      (r.draft.lookup name) := by
  intro r
  have hagain : ∀ name value, draft.lookup name = some value → _ := fun name value h =>
    rebaseSection_again base (h ▸ hd name : (Ids (rowsOf (some value))).Nodup) (hs name)
  refine ⟨List.flatMap_eq_nil_iff.mpr fun e he => ?_, fun name => ?_⟩
  · have ⟨value, hv, hi⟩ := Option.map_eq_some_iff.mp
      (lookup_rebaseDraft.symm.trans (AList.mem_entries_iff.mp he))
    exact hi ▸ (hagain _ value hv).left
  · rw [lookup_rebaseDraft, lookup_rebaseDraft]
    cases hv : draft.lookup name
    case none => exact .none
    case some value => exact .some (hagain name value hv).right

-- Rebased onto the server's configuration, a draft loses nobody's edit of a row.
theorem rebaseDraft_keeps (hb : Unique base) (hd : Unique draft) (hs : Unique server) :
    RebasesDraft base draft server (rebaseDraft base draft server) where
  sections := AList.keys_mapValues _
  lists    := fun name entries hn hl => by
    refine ⟨_, ?_, (rebases (hb name) (hd name) (hs name)).mono ?_⟩
    · rw [lookup_rebaseDraft, hl, Option.map_some, rebaseSection_list hn]
    · have hk := skipped_subset base server hl
      rw [rebaseSection_list hn] at hk
      exact hl ▸ hk
  versions := fun hm => by
    have ⟨value, hv⟩ := AList.mem_iff_lookup.mp hm
    let kept := (rowsOf (some value)).filter (·.id ∉ Ids (rowsOf (server.lookup "versions")))
    refine ⟨kept, ?_, fun row => ?_, ?_, fun row hr => ?_⟩
    · rw [lookup_rebaseDraft, hv, Option.map_some, rebaseSection_versions]
    · rw [List.mem_filter, decide_eq_true_eq, hv]
    · exact (hv ▸ hd "versions").sublist (List.filter_sublist.map _)
    · by_cases ht : row.id ∈ Ids (rowsOf (server.lookup "versions"))
      case pos =>
        refine .inr (skipped_subset base server hv ?_)
        rw [rebaseSection_versions]
        exact List.mem_map.mpr ⟨row, List.mem_filter.mpr ⟨hv ▸ hr, decide_eq_true ht⟩, rfl⟩
      case neg => exact .inl (List.mem_filter.mpr ⟨hv ▸ hr, decide_eq_true ht⟩)
  settings := fun name v hn hv => by
    rw [lookup_rebaseDraft, hv, Option.map_some, rebaseSection_value hn]
  again    := rebaseDraft_again hd hs

end

section

-- A configuration with one key.
def only {V : Type} (name : String) (value : Section V) : Config V := AList.singleton name value

instance : Printed Bool := ⟨toString⟩

def flagged (enabled : Bool) : Section Bool :=
  listOf [⟨"group", AList.singleton "enabled" enabled⟩]

theorem unique_flagged {name : String} {enabled : Bool} : Unique (only name (flagged enabled)) := by
  intro n
  by_cases h : n = name
  case pos =>
    subst h
    rw [only, ←AList.insert_empty, AList.lookup_insert]
    exact List.nodup_singleton _
  case neg =>
    rw [only, ←AList.insert_empty, AList.lookup_insert_ne h]
    exact List.nodup_nil

theorem rebaseDraft_keeps_flag :
    RebasesDraft (only "groups" (flagged true)) (only "groups" (flagged false))
      (only "groups" (flagged true)) (rebaseDraft (only "groups" (flagged true))
        (only "groups" (flagged false)) (only "groups" (flagged true))) :=
  rebaseDraft_keeps unique_flagged unique_flagged unique_flagged

-- A setting is the draft's even where only the server has changed it, the server's versions aren't
-- part of the result, and a row that the draft has deleted is back without a word.
theorem rebaseDraft_loses :
    (rebaseDraft (only "fallback" (.value false)) (only "fallback" (.value false))
      (only "fallback" (.value true))).draft.lookup "fallback" = some (.value false) ∧
    (rebaseDraft (only "versions" (listOf [])) (only "versions" (listOf []))
      (only "versions" (flagged true))).draft.lookup "versions" = some (listOf []) ∧
    let r := rebaseDraft (only "groups" (flagged true)) (only "groups" (listOf []))
      (only "groups" (flagged true))
    r.draft.lookup "groups" = some (flagged true) ∧ r.skipped = [] :=
  ⟨rfl, rfl, rfl, rfl⟩

end

end Console
