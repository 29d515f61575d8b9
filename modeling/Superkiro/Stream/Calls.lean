import Superkiro.Stream.Settlement

-- What Kiro reads of the tool calls of a response.
namespace Gateway

-- A call as Kiro shows it.
structure Shown where
  name      : String
  id        : String
  arguments : String
  deriving DecidableEq

-- The calls Kiro has read, and the one it's reading.
structure Reading where
  closed : List Shown := []
  live   : Option Shown := none

namespace Reading

def calls (r : Reading) : List Shown := r.closed ++ r.live.toList

-- A fragment is added to the call that Kiro heard of last, which has to be the one it's of. A stop
-- ends the call.
def read (r : Reading) : Frame → Option Reading
  | .toolUse name id arguments stop => do
    let call ← match r.live with
      | none      => some ⟨name, id, arguments⟩
      | some call =>
        if call.name = name ∧ call.id = id then
          some { call with arguments := call.arguments ++ arguments }
        else none
    return if stop then ⟨r.closed ++ [call], none⟩ else { r with live := some call }
  | _ => some r

abbrev readAll (r : Reading) (frames : List Frame) : Option Reading := frames.foldlM read r

variable {r r' : Reading} {call : Shown} {name id arguments : String}

theorem readAll_append (h : r.readAll frames = some r') :
    r.readAll (frames ++ more) = r'.readAll more := by
  rw [readAll] at h ⊢
  rw [List.foldlM_append, h]
  rfl

theorem read_open (h : r.live = none) :
    r.read (.toolUse name id arguments false) = some { r with live := some ⟨name, id, arguments⟩ } := by
  simp [read, h]

theorem read_whole (h : r.live = none) :
    r.read (.toolUse name id arguments true) = some ⟨r.closed ++ [⟨name, id, arguments⟩], none⟩ := by
  simp [read, h]

theorem read_more (h : r.live = some call) :
    r.read (.toolUse call.name call.id arguments false) =
      some { r with live := some { call with arguments := call.arguments ++ arguments } } := by
  simp [read, h]

theorem read_end (h : r.live = some call) :
    r.read (.toolUse call.name call.id "" true) = some ⟨r.closed ++ [call], none⟩ := by
  simp [read, h]

end Reading

def ToolBuffer.shown (b : ToolBuffer) : Shown := ⟨b.name, b.id, b.arguments⟩

-- A call with more arguments, all of which Kiro has seen.
def ToolBuffer.grown (c : ToolBuffer) (arguments : String) : ToolBuffer :=
  { c with arguments := c.arguments ++ arguments, sent := Text.len (c.arguments ++ arguments) }

-- A call that is named.
def ToolBuffer.named (b : ToolBuffer) : Bool := b.name ≠ "" || b.id ≠ ""

-- An element that is changed, and those before and after it.
theorem modify_split {xs : List α} (h : xs[i]? = some x) :
    ∃ before after, before.length = i ∧ xs = before ++ x :: after ∧
      ∀ f : α → α, xs.modify i f = before ++ f x :: after := by
  obtain ⟨hi, rfl⟩ := List.getElem?_eq_some_iff.mp h
  refine ⟨xs.take i, xs.drop (i + 1), List.length_take_of_le hi.le, by simp, fun f => ?_⟩
  exact List.modify_eq_take_cons_drop hi

namespace ToolCalls

-- What Kiro has read is what it was told of the calls.
structure Told (t : ToolCalls) (r : Reading) : Prop where
  reads : r.live = t.live.map fun live => (t.call live).shown
  begun : ∀ live, t.live = some live → ∃ c, t.calls[live]? = some c ∧ c.announced
  calls : r.calls.Perm ((t.calls.filter (·.announced)).map (·.shown))
  known : ∀ c ∈ t.calls, c.announced → c.named ∧ c.sent = Text.len c.arguments

variable {t t' : ToolCalls} {r : Reading} {position next live : Nat}

theorem call_eq (h : t.calls[position]? = some c) : t.call position = c := by
  rw [call, List.getD_eq_getElem?_getD, h, Option.getD_some]

theorem Told.known_changed (h : t.Told r) (hs : t.calls = before ++ c :: after)
    (hc : c'.announced → c'.named ∧ c'.sent = Text.len c'.arguments) :
    ∀ x ∈ before ++ c' :: after, x.announced → x.named ∧ x.sent = Text.len x.arguments := by
  intro x hx ha
  rcases List.mem_append.mp hx with hb | hb
  · exact h.known x (hs ▸ List.mem_append_left _ hb) ha
  · rcases List.mem_cons.mp hb with rfl | hb
    · exact hc ha
    · exact h.known x (hs ▸ List.mem_append_right _ (.tail _ hb)) ha

-- A call that Kiro wasn't told of can be changed.
theorem Told.update (h : t.Told r) {f : ToolBuffer → ToolBuffer}
    (hp : (t.call position).announced = false) (hf : ∀ c, (f c).announced = c.announced) :
    (t.update position f).Told r := by
  cases hc : t.calls[position]?
  case none =>
    have he : t.calls.modify position f = t.calls :=
      List.modify_eq_self (List.getElem?_eq_none_iff.mp hc)
    have he : t.update position f = t := by rw [ToolCalls.update, he]
    rwa [he]
  case some c =>
    rw [call_eq hc] at hp
    obtain ⟨before, after, _, hs, hm⟩ := modify_split hc
    have hl {live} (hl : t.live = some live) : (t.update position f).calls[live]? = t.calls[live]? := by
      obtain ⟨c', hc', ha⟩ := h.begun live hl
      refine List.getElem?_modify_ne f _ fun he => ?_
      subst he
      rw [hc] at hc'
      cases hc'
      rw [hp] at ha
      cases ha
    constructor
    case reads =>
      rw [h.reads]
      refine Option.map_congr fun live hlive => ?_
      rw [call, call, List.getD_eq_getElem?_getD, List.getD_eq_getElem?_getD, hl hlive]
    case begun =>
      intro live hlive
      rw [hl hlive]
      exact h.begun live hlive
    case calls =>
      have hfc : (f c).announced = false := (hf c).trans hp
      have he : (t.update position f).calls.filter (·.announced) = t.calls.filter (·.announced) := by
        rw [ToolCalls.update, hm, hs]
        simp [hp, hfc]
      rw [he]
      exact h.calls
    case known =>
      rw [ToolCalls.update, hm]
      refine h.known_changed hs fun ha => ?_
      rw [hf, hp] at ha
      cases ha

theorem Told.announce (h : t.Told r) (hl : t.live = none) (hn : t.next? = some next) :
    ∃ r', r.read (t.announce next).1 = some r' ∧ (t.announce next).2.Told r' := by
  obtain ⟨hi, hc, _⟩ := List.findIdx?_eq_some_iff_getElem.mp hn
  have hget := List.getElem?_eq_getElem hi
  generalize t.calls[next] = c at hc hget
  simp only [Bool.and_eq_true, Bool.not_eq_true', decide_eq_true_eq] at hc
  obtain ⟨before, after, _, hs, hm⟩ := modify_split hget
  let told : ToolBuffer := { c with announced := true, sent := Text.len c.arguments }
  have hcalls : (t.announce next).2.calls = before ++ told :: after := hm _
  have htold : (t.announce next).2.calls[next]? = some told := by
    simp [ToolCalls.announce, ToolCalls.update, hget, told]
  have hr : r.live = none := by rw [h.reads, hl, Option.map_none]
  refine ⟨_, Reading.read_open hr, ?reads, ?begun, ?calls, ?known⟩
  case reads =>
    have he : (t.announce next).2.live = some next := rfl
    rw [he, Option.map_some, call_eq htold, call_eq hget]
    rfl
  case begun =>
    intro live hlive
    cases hlive
    exact ⟨told, htold, rfl⟩
  case calls =>
    have hp := h.calls
    rw [Reading.calls, hr, Option.toList_none, List.append_nil, hs] at hp
    rw [hcalls, call_eq hget]
    simp only [List.filter_append, List.filter_cons, hc.left.left, List.map_append, told] at hp ⊢
    simp only [Bool.false_eq_true, if_false, if_true, List.map_cons] at hp ⊢
    refine (List.perm_append_comm.trans ?_).trans List.perm_middle.symm
    exact List.Perm.cons _ hp
  case known =>
    rw [hcalls]
    exact h.known_changed hs fun _ => ⟨by simp [ToolBuffer.named, told, hc.right], rfl⟩

theorem Told.ended (h : t.Told r) (hl : t.live = some live) :
    ∃ r', r.read (t.ended live).1 = some r' ∧ (t.ended live).2.Told r' ∧ r'.live = none := by
  have hr : r.live = some (t.call live).shown := by rw [h.reads, hl, Option.map_some]
  refine ⟨_, Reading.read_end hr, ⟨rfl, nofun, ?_, h.known⟩, rfl⟩
  have hp := h.calls
  rw [Reading.calls, hr] at hp
  rw [Reading.calls, Option.toList_none, List.append_nil]
  exact hp

theorem Told.rest (h : t.Told r) (hl : t.live = some live) : t.rest live = ([], t) := by
  obtain ⟨c, hc, ha⟩ := h.begun live hl
  have hs := (h.known c (List.mem_of_getElem? hc) ha).right
  rw [ToolCalls.rest, call_eq hc, if_pos hs.ge]

theorem call_announce (h : next ≠ position) :
    (t.announce next).2.call position = t.call position := by
  simp only [ToolCalls.announce, ToolCalls.update, call, List.getD_eq_getElem?_getD]
  rw [List.getElem?_modify_ne _ _ h]

-- What of a call's arguments Kiro hasn't seen yet is what a fragment added.
theorem unseen_append (seen arguments : String) :
    String.ofList (Utf8.ofBytes ((seen ++ arguments).utf8.drop (Text.len seen))) = arguments := by
  have hl : seen.utf8.length = Text.len seen := String.length_utf8 seen
  rw [String.utf8_append, ← hl, List.drop_left, String.utf8, Utf8.ofBytes_encode, String.ofList_toList]

-- What's added to the call that streams goes to Kiro at once.
theorem Told.grow (h : t.Told r) (hl : t.live = some live) {f : ToolBuffer → ToolBuffer}
    (hf : f (t.call live) =
      { t.call live with arguments := (t.call live).arguments ++ arguments }) :
    ∃ r', r.readAll ((t.update live f).rest live).1 = some r' ∧
      ((t.update live f).rest live).2.Told r' := by
  obtain ⟨c, hc, ha⟩ := h.begun live hl
  obtain ⟨hnamed, hsent⟩ := h.known c (List.mem_of_getElem? hc) ha
  obtain ⟨before, after, hlen, hs, hm⟩ := modify_split hc
  rw [call_eq hc] at hf
  have hr : r.live = some c.shown := by rw [h.reads, hl, Option.map_some, call_eq hc]
  -- Kiro has the call as it is, which is all that changed.
  have told {t' : ToolCalls} (hcalls : t'.calls = before ++ c.grown arguments :: after)
      (hlive : t'.live = some live) :
      t'.Told { r with live := some (c.grown arguments).shown } := by
    have hget : t'.calls[live]? = some (c.grown arguments) := by
      rw [hcalls, List.getElem?_append_right hlen.le, hlen, Nat.sub_self, List.getElem?_cons_zero]
    constructor
    case reads => rw [hlive, Option.map_some, call_eq hget]
    case begun =>
      intro l hl'
      cases hlive.symm.trans hl'
      exact ⟨_, hget, ha⟩
    case calls =>
      have hp := h.calls
      have hga : (c.grown arguments).announced = true := ha
      rw [Reading.calls, hr, hs] at hp
      rw [hcalls, Reading.calls]
      simp only [Option.toList_some, List.filter_append, List.filter_cons, ha, hga, if_true,
        List.map_append, List.map_cons] at hp ⊢
      have hp := (List.perm_append_comm.trans hp).trans List.perm_middle
      exact (List.perm_append_comm.trans ((List.Perm.cons_inv hp).cons _)).trans
        List.perm_middle.symm
    case known =>
      rw [hcalls]
      exact h.known_changed hs fun _ => ⟨hnamed, rfl⟩
  have hcalls : (t.update live f).calls = before ++ f c :: after := hm f
  have hget : (t.update live f).calls[live]? = some (f c) := by
    rw [hcalls, List.getElem?_append_right hlen.le, hlen, Nat.sub_self, List.getElem?_cons_zero]
  rw [ToolCalls.rest, call_eq hget, hf]
  split
  case isTrue hle =>
    have he : arguments = "" := by
      simp only [hsent, Text.len, String.utf8ByteSize_append] at hle
      exact String.utf8ByteSize_eq_zero_iff.mp (by omega)
    subst he
    have hgrown : c.grown "" = c := by
      rw [ToolBuffer.grown, String.append_empty, ← hsent]
    rw [String.append_empty] at hf
    have hu : (t.update live f).calls = before ++ c.grown "" :: after := by rw [hcalls, hf, hgrown]
    have ht := told hu hl
    rw [hgrown, ← hr] at ht
    exact ⟨r, rfl, ht⟩
  case isFalse =>
    simp only [hsent, unseen_append]
    refine ⟨{ r with live := some (c.grown arguments).shown }, ?_, told ?_ hl⟩
    · have hread := @Reading.read_more r _ arguments hr
      exact Option.bind_eq_some_iff.mpr ⟨_, hread, rfl⟩
    · have htwice (g : ToolBuffer → ToolBuffer) : ((t.update live f).update live g).calls =
          before ++ g (f c) :: after := by
        simp only [ToolCalls.update]
        rw [List.modify_modify_eq]
        exact hm (g ∘ f)
      rw [htwice, hf]
      rfl

theorem readAll_whole (hr : r.live = none) (calls : List ToolBuffer) :
    r.readAll (calls.map fun c => .toolUse c.name c.id c.arguments true) =
      some ⟨r.closed ++ calls.map (·.shown), none⟩ := by
  induction calls generalizing r
  case nil =>
    rw [List.map_nil, List.map_nil, List.append_nil, ← hr]
    rfl
  case cons c calls hi =>
    rw [List.map_cons, Reading.readAll, List.foldlM_cons, Reading.read_whole hr]
    have hi := hi (r := ⟨r.closed ++ [c.shown], none⟩) rfl
    rw [List.append_assoc] at hi
    exact hi

-- At the end of a response Kiro has read its calls.
theorem Told.finish (h : t.Told r) : ∃ calls, r.readAll t.finish = some ⟨calls, none⟩ ∧
    calls.Perm ((t.calls.filter (·.named)).map (·.shown)) := by
  have ended : ∃ r', r.readAll (t.live.map fun live => (t.ended live).1).toList = some r' ∧
      r'.live = none ∧ r'.closed.Perm ((t.calls.filter (·.announced)).map (·.shown)) := by
    cases hl : t.live
    case none =>
      have hr : r.live = none := by rw [h.reads, hl, Option.map_none]
      have hp := h.calls
      rw [Reading.calls, hr, Option.toList_none, List.append_nil] at hp
      exact ⟨r, rfl, hr, hp⟩
    case some live =>
      obtain ⟨r', hr, h', hlive⟩ := h.ended hl
      have hp := h'.calls
      rw [Reading.calls, hlive, Option.toList_none, List.append_nil] at hp
      exact ⟨r', Option.bind_eq_some_iff.mpr ⟨r', hr, rfl⟩, hlive, hp⟩
  obtain ⟨r', hr, hlive, hp⟩ := ended
  refine ⟨_, (Reading.readAll_append hr).trans (readAll_whole hlive _), ?_⟩
  have hannounced : t.calls.filter (·.announced) = (t.calls.filter (·.named)).filter (·.announced) := by
    rw [List.filter_filter]
    refine List.filter_congr fun c hc => ?_
    cases ha : c.announced
    case false => rfl
    case true => simp [(h.known c hc ha).left]
  have hothers : (t.calls.filter fun c => !c.announced && (c.name ≠ "" || c.id ≠ "")) =
      (t.calls.filter (·.named)).filter fun c => !c.announced := by
    rw [List.filter_filter]
    rfl
  rw [hannounced] at hp
  rw [hothers]
  have hall := List.filter_append_perm (fun c : ToolBuffer => c.announced) (t.calls.filter (·.named))
  exact ((hp.append_right _).trans (by rw [← List.map_append])).trans (hall.map _)

variable [StreamHost]

theorem advance_live (h : t.live = some live) : t.advance position =
    if live = position then some (t.rest live)
    else if (t.call position).announced then none
    else if !(t.call live).complete then some ([], t)
    else ((t.ended live).2.advance position).map fun (frames, t') =>
      ((t.ended live).1 :: frames, t') := by
  rw [ToolCalls.advance.eq_def]
  split
  case h_1 h' =>
    cases h.symm.trans h'
    rfl
  case h_2 h' => cases h.symm.trans h'

theorem advance_idle (h : t.live = none) : t.advance position =
    match t.next? with
    | none      => some ([], t)
    | some next => ((t.announce next).2.advance position).map fun (frames, t') =>
        ((t.announce next).1 :: frames, t') := by
  rw [ToolCalls.advance.eq_def]
  split
  case h_1 h' => cases h.symm.trans h'
  case h_2 =>
    split
    case h_1 hn => rw [hn]
    case h_2 hn => rw [hn]

-- What is sent after a fragment tells Kiro of the calls as they are.
theorem Told.advance (h : t.Told r) (hp : (t.call position).announced → t.live = some position)
    (ha : t.advance position = some (frames, t')) :
    ∃ r', r.readAll frames = some r' ∧ t'.Told r' := by
  induction t using ToolCalls.advance.induct position generalizing r frames
  case case1 t hl =>
    rw [advance_live hl, if_pos rfl, h.rest hl] at ha
    cases ha
    exact ⟨r, rfl, h⟩
  case case2 t live hl hne hann =>
    rw [hp hann] at hl
    cases hl
    exact absurd rfl hne
  case case3 t live hl hne hann hc =>
    rw [advance_live hl, if_neg hne, if_neg hann, if_pos hc] at ha
    cases ha
    exact ⟨r, rfl, h⟩
  case case4 t live hl hne hann hc hi =>
    rw [advance_live hl, if_neg hne, if_neg hann, if_neg hc] at ha
    obtain ⟨⟨frames, t''⟩, ha, he⟩ := Option.map_eq_some_iff.mp ha
    cases he
    obtain ⟨r₁, hr₁, h₁, _⟩ := h.ended hl
    obtain ⟨r₂, hr₂, h₂⟩ := hi h₁ (fun he => absurd he hann) ha
    exact ⟨r₂, Option.bind_eq_some_iff.mpr ⟨r₁, hr₁, hr₂⟩, h₂⟩
  case case5 t hl hn =>
    rw [advance_idle hl, hn] at ha
    cases ha
    exact ⟨r, rfl, h⟩
  case case6 t hl next hn hi =>
    rw [advance_idle hl, hn] at ha
    obtain ⟨⟨frames, t''⟩, ha, he⟩ := Option.map_eq_some_iff.mp ha
    cases he
    obtain ⟨r₁, hr₁, h₁⟩ := h.announce hl hn
    have hp₁ (hann : ((t.announce next).2.call position).announced) :
        (t.announce next).2.live = some position := by
      by_cases he : next = position
      case pos => exact congrArg some he
      case neg =>
        rw [call_announce he] at hann
        rw [hp hann] at hl
        cases hl
    obtain ⟨r₂, hr₂, h₂⟩ := hi h₁ hp₁ ha
    exact ⟨r₂, Option.bind_eq_some_iff.mpr ⟨r₁, hr₁, hr₂⟩, h₂⟩


end ToolCalls

-- A fragment of a call as it's read: an empty id or name names nothing.
structure Fragment where
  index     : Option Nat
  id        : Option String
  name      : Option String
  arguments : String

-- A call with a fragment.
def Fragment.onto (f : Fragment) (c : ToolBuffer) : ToolBuffer :=
  { c with
    id        := f.id.getD c.id
    name      := f.name.getD c.name
    arguments := c.arguments ++ f.arguments }

def Fragment.renames (f : Fragment) (c : ToolBuffer) : Bool :=
  f.id.any (· ≠ c.id) || f.name.any (· ≠ c.name)

theorem Fragment.onto_eq {f : Fragment} (h : f.renames c = false) :
    f.onto c = { c with arguments := c.arguments ++ f.arguments } := by
  simp only [renames, Bool.or_eq_false_iff] at h
  have hid : f.id.getD c.id = c.id := by
    cases hf : f.id
    case none => rfl
    case some id => simpa [hf] using h.left
  have hname : f.name.getD c.name = c.name := by
    cases hf : f.name
    case none => rfl
    case some name => simpa [hf] using h.right
  rw [onto, hid, hname]

-- A tool's name as Kiro knows it.
def restored (registry : Option Translate.ToolRegistry) (name : String) : String :=
  match registry with
  | some r => r.restore name
  | none   => name

def Awake.fragment? (registry : Option Translate.ToolRegistry) (m : Awake) : Option Fragment :=
  match m.wake with
  | .event (some (.ok (.delta (.toolCallChunk index id name arguments)))) => some {
      index     := index
      id        := id.filter (· ≠ "")
      name      := (name.filter (· ≠ "")).map (restored registry)
      arguments := arguments }
  | _ => none

namespace ToolCalls

variable (t : ToolCalls) (f : Fragment)

def positionOf : Option Nat := t.find f.index f.id

def takes : Bool := !t.addsNothing (t.positionOf f) f.id f.name f.arguments

-- Whether a fragment comes too late: for a call that ended while none streams, or with another name
-- for a call Kiro was told of.
def late : Bool :=
  t.takes f && (t.positionOf f).any fun position =>
    (t.call position).announced && (t.live.isNone || f.renames (t.call position))

def place : Nat := (t.positionOf f).getD t.calls.length

-- The call that a fragment's arguments are of, by its position.
def arrival : List (Nat × String) := if t.takes f then [(t.place f, f.arguments)] else []

-- The calls with the one a fragment is of, which may be new.
def indexed : ToolCalls :=
  let calls := if (t.positionOf f).isNone then t.opened f.index else t
  { calls with byId := match f.id with
    | some id => calls.byId.orInsert id (t.place f)
    | none    => calls.byId }

def added : ToolCalls := (t.indexed f).update (t.place f) f.onto

variable {t f} {t' : ToolCalls} {r : Reading}

theorem Told.congr (h : t.Told r) (hc : t'.calls = t.calls) (hl : t'.live = t.live) : t'.Told r := by
  have hcall live : t'.call live = t.call live := by rw [call, call, hc]
  constructor
  case reads => simpa only [hl, hcall] using h.reads
  case begun => simpa only [hl, hc] using h.begun
  case calls => simpa only [hc] using h.calls
  case known => simpa only [hc] using h.known

theorem Told.opened (h : t.Told r) (index : Option Nat) : (t.opened index).Told r := by
  have hget {live c} (hc : t.calls[live]? = some c) : (t.opened index).calls[live]? = some c :=
    List.getElem?_append_left (List.getElem?_eq_some_iff.mp hc).choose ▸ hc
  constructor
  case reads =>
    rw [h.reads]
    refine Option.map_congr fun live hl => ?_
    obtain ⟨c, hc, _⟩ := h.begun live hl
    rw [call_eq hc, call_eq (hget hc)]
  case begun =>
    intro live hl
    obtain ⟨c, hc, ha⟩ := h.begun live hl
    exact ⟨c, hget hc, ha⟩
  case calls =>
    have he : (t.opened index).calls.filter (·.announced) = t.calls.filter (·.announced) := by
      simp [ToolCalls.opened]
    rw [he]
    exact h.calls
  case known =>
    intro c hc ha
    rcases List.mem_append.mp hc with hc | hc
    · exact h.known c hc ha
    · rw [List.mem_singleton.mp hc] at ha
      cases ha

variable [StreamHost]

omit [StreamHost] in
theorem Told.indexed (h : t.Told r) : (t.indexed f).Told r := by
  unfold ToolCalls.indexed
  split
  case isTrue => exact (h.opened f.index).congr rfl rfl
  case isFalse => exact h.congr rfl rfl

omit [StreamHost] in
theorem call_update {g : ToolBuffer → ToolBuffer} (hg : ∀ c, (g c).announced = c.announced) :
    ((t.update position g).call position).announced = (t.call position).announced := by
  simp only [ToolCalls.update, call, List.getD_eq_getElem?_getD, List.getElem?_modify_eq]
  cases t.calls[position]?
  case none => rfl
  case some c => exact hg c

omit [StreamHost] in
theorem call_indexed (f : Fragment) (i : Nat) : (t.indexed f).call i = t.call i := by
  simp only [ToolCalls.indexed, call]
  split
  case isTrue =>
    simp only [ToolCalls.opened, List.getD_eq_getElem?_getD]
    by_cases hi : i < t.calls.length
    case pos => rw [List.getElem?_append_left hi]
    case neg =>
      have hi := not_lt.mp hi
      rw [List.getElem?_append_right hi, List.getElem?_eq_none hi]
      cases i - t.calls.length <;> rfl
  case isFalse => rfl

-- What is sent after a fragment that isn't late tells Kiro of the calls as they are.
theorem Told.added (h : t.Told r) (hl : t.late f = false) (ht : t.takes f)
    (ha : (t.added f).advance (t.place f) = some (frames, t')) :
    ∃ r', r.readAll frames = some r' ∧ t'.Told r' := by
  by_cases hann : ((t.indexed f).call (t.place f)).announced
  case neg =>
    have hann := Bool.eq_false_iff.mpr hann
    have h₁ : (t.added f).Told r := h.indexed.update hann fun _ => rfl
    refine h₁.advance (fun he => ?_) ha
    rw [ToolCalls.added, call_update (g := f.onto) fun _ => rfl, hann] at he
    cases he
  case pos =>
    cases hp : t.positionOf f
    case none =>
      have hnew : (t.indexed f).call (t.place f) = {} := by
        simp [ToolCalls.indexed, place, hp, ToolCalls.opened, call]
      rw [hnew] at hann
      cases hann
    case some position =>
      have hplace : t.place f = position := by rw [place, hp, Option.getD_some]
      rw [hplace] at ha hann
      have hc : (t.indexed f).call position = t.call position := call_indexed f position
      rw [hc] at hann
      simp only [late, ht, hp, Option.any_some, Bool.true_and, hann, Bool.or_eq_false_iff] at hl
      have hlive : ∃ live, t.live = some live := Option.isSome_iff_exists.mp (by simpa using hl.left)
      obtain ⟨live, hlive⟩ := hlive
      have hi : (t.indexed f).live = some live := by
        rw [← hlive, ToolCalls.indexed, hp]
        rfl
      have hadded : t.added f = (t.indexed f).update position f.onto := by
        rw [ToolCalls.added, hplace]
      have hi' : ((t.indexed f).update position f.onto).live = some live := hi
      rw [hadded, advance_live hi'] at ha
      by_cases he : live = position
      case pos =>
        subst he
        rw [if_pos rfl, Option.some.injEq] at ha
        have hg := h.indexed.grow hi (f := f.onto) (hc ▸ Fragment.onto_eq hl.right)
        rwa [ha] at hg
      case neg =>
        rw [if_neg he, if_pos] at ha
        · cases ha
        · rw [call_update (g := f.onto) fun _ => rfl, hc, hann]

-- What telling Kiro of the calls leaves as it is.
structure Kept (t t' : ToolCalls) : Prop where
  shown   : t'.calls.map (·.shown) = t.calls.map (·.shown)
  byIndex : t'.byIndex = t.byIndex
  byId    : t'.byId = t.byId

omit [StreamHost] in
theorem Kept.trans {t'' : ToolCalls} (h : Kept t t') (h' : Kept t' t'') : Kept t t'' :=
  ⟨h'.shown.trans h.shown, h'.byIndex.trans h.byIndex, h'.byId.trans h.byId⟩

omit [StreamHost] in
theorem kept_update {i : Nat} {g : ToolBuffer → ToolBuffer} (hg : ∀ c, (g c).shown = c.shown) :
    Kept t (t.update i g) := by
  refine ⟨List.ext_getElem? fun j => ?_, rfl, rfl⟩
  rw [ToolCalls.update, List.getElem?_map, List.getElem?_map, List.getElem?_modify]
  cases t.calls[j]?
  case none => rfl
  case some c =>
    simp only [Option.map_eq_map, Option.map_some]
    split
    case isTrue => rw [hg]
    case isFalse => rfl

omit [StreamHost] in
theorem kept_rest {i : Nat} : Kept t (t.rest i).2 := by
  simp only [ToolCalls.rest]
  split
  case isTrue => exact ⟨rfl, rfl, rfl⟩
  case isFalse => exact kept_update fun _ => rfl

omit [StreamHost] in
theorem kept_announce {i : Nat} : Kept t (t.announce i).2 :=
  (kept_update (t := t) (i := i)
    (g := fun c => { c with announced := true, sent := Text.len c.arguments }) fun _ => rfl).trans
    ⟨rfl, rfl, rfl⟩

theorem kept_advance {place : Nat} (h : t.advance place = some (frames, t')) : Kept t t' := by
  induction t using ToolCalls.advance.induct place generalizing frames
  case case1 t hl =>
    rw [advance_live hl, if_pos rfl, Option.some.injEq] at h
    have hk : Kept t (t.rest place).2 := kept_rest
    rwa [h] at hk
  case case2 t live hl hne hann =>
    rw [advance_live hl, if_neg hne, if_pos hann] at h
    cases h
  case case3 t live hl hne hann hc =>
    rw [advance_live hl, if_neg hne, if_neg hann, if_pos hc] at h
    cases h
    exact ⟨rfl, rfl, rfl⟩
  case case4 t live hl hne hann hc hi =>
    rw [advance_live hl, if_neg hne, if_neg hann, if_neg hc] at h
    obtain ⟨⟨frames, t''⟩, h, he⟩ := Option.map_eq_some_iff.mp h
    cases he
    exact Kept.trans (show Kept t (t.ended live).2 from ⟨rfl, rfl, rfl⟩) (hi h)
  case case5 t hl hn =>
    rw [advance_idle hl, hn] at h
    cases h
    exact ⟨rfl, rfl, rfl⟩
  case case6 t hl next hn hi =>
    rw [advance_idle hl, hn] at h
    obtain ⟨⟨frames, t''⟩, h, he⟩ := Option.map_eq_some_iff.mp h
    cases he
    exact kept_announce.trans (hi h)

omit [StreamHost] in
theorem Kept.call_arguments (h : Kept t t') (place : Nat) :
    (t'.call place).arguments = (t.call place).arguments := by
  have hs (calls : List ToolBuffer) : (calls.getD place {}).shown =
      (calls.map (·.shown)).getD place (ToolBuffer.shown {}) := (List.getD_map ..).symm
  have he : (t'.call place).shown = (t.call place).shown := by rw [call, call, hs, hs, h.shown]
  exact congrArg Shown.arguments he

-- Calls that are found are there.
structure Indexed (t : ToolCalls) : Prop where
  byIndex : ∀ {k place}, t.byIndex.lookup k = some place → place < t.calls.length
  byId    : ∀ {k place}, t.byId.lookup k = some place → place < t.calls.length

omit [StreamHost] in
theorem Indexed.kept (h : t.Indexed) (hk : Kept t t') : t'.Indexed := by
  have hl : t'.calls.length = t.calls.length := by simpa using congrArg List.length hk.shown
  exact ⟨fun hf => hl ▸ h.byIndex (hk.byIndex ▸ hf), fun hf => hl ▸ h.byId (hk.byId ▸ hf)⟩

omit [StreamHost] in
theorem Indexed.place_lt {i : Nat} (h : t.Indexed) (hp : t.positionOf f = some i) :
    i < t.calls.length := by
  unfold positionOf find at hp
  split at hp
  case h_1 => exact h.byIndex hp
  case h_2 => exact h.byId hp
  case h_3 =>
    split at hp
    case isTrue => cases hp
    case isFalse hne =>
      cases hp
      have := List.length_pos_iff.mpr (fun he => hne (List.isEmpty_iff.mpr he))
      omega

-- The arguments of a call, with those that arrive.
def collect (place : Nat) (text : String) (arrivals : List (Nat × String)) : String :=
  arrivals.foldl (fun text (at_, more) => if at_ = place then text ++ more else text) text

omit [StreamHost] in
theorem Indexed.opened (h : t.Indexed) (index : Option Nat) : (t.opened index).Indexed := by
  have hl : (t.opened index).calls.length = t.calls.length + 1 := by simp [ToolCalls.opened]
  refine ⟨fun {k i} hf => ?_, fun hf => hl ▸ (h.byId hf).trans_le (Nat.le_succ _)⟩
  rw [hl]
  cases index
  case none => exact (h.byIndex hf).trans_le (Nat.le_succ _)
  case some index =>
    rcases AList.lookup_insert_iff.mp hf with ⟨_, hv⟩ | ⟨_, hf⟩
    · exact hv ▸ Nat.lt_succ_self _
    · exact (h.byIndex hf).trans_le (Nat.le_succ _)

omit [StreamHost] in
theorem Indexed.named {i : Nat} (h : t.Indexed) (hi : i < t.calls.length) (id : Option String) :
    ToolCalls.Indexed { t with byId := match id with
      | some id => t.byId.orInsert id i
      | none    => t.byId } := by
  refine ⟨h.byIndex, fun hf => ?_⟩
  cases id
  case none => exact h.byId hf
  case some id =>
    simp only [AList.lookup_orInsert] at hf
    split at hf
    case isTrue =>
      cases hf
      exact hi
    case isFalse => exact h.byId hf

omit [StreamHost] in
theorem Indexed.indexed (h : t.Indexed) (f : Fragment) :
    (t.indexed f).Indexed ∧ t.place f < (t.indexed f).calls.length := by
  cases hp : t.positionOf f
  case none =>
    have hi : t.place f < (t.opened f.index).calls.length := by
      simp [ToolCalls.place, hp, ToolCalls.opened]
    have hn := (h.opened f.index).named hi f.id
    rw [ToolCalls.indexed, hp]
    exact ⟨hn, hi⟩
  case some i =>
    have hi : t.place f < t.calls.length := by
      rw [ToolCalls.place, hp]
      exact h.place_lt hp
    have hn := h.named hi f.id
    rw [ToolCalls.indexed, hp]
    exact ⟨hn, hi⟩

omit [StreamHost] in
-- A fragment is added to its call, and nothing to others.
theorem Indexed.added (h : t.Indexed) (ht : t.takes f) : (t.added f).Indexed ∧
    ∀ place, ((t.added f).call place).arguments =
      collect place (t.call place).arguments (t.arrival f) := by
  obtain ⟨hi, hplace⟩ := h.indexed f
  have hlen : (t.added f).calls.length = (t.indexed f).calls.length := by
    simp [ToolCalls.added, ToolCalls.update]
  refine ⟨⟨fun hf => hlen ▸ hi.byIndex hf, fun hf => hlen ▸ hi.byId hf⟩, fun i => ?_⟩
  rw [arrival, if_pos ht, collect, List.foldl_cons, List.foldl_nil, ← call_indexed (t := t) f]
  by_cases he : t.place f = i
  case pos =>
    subst he
    have hget := List.getElem?_eq_getElem hplace
    have hupdated : (t.added f).calls[t.place f]? = some (f.onto (t.indexed f).calls[t.place f]) := by
      simp [ToolCalls.added, ToolCalls.update, hget]
    simp only [call_eq hupdated, call_eq hget, if_pos]
    rfl
  case neg =>
    simp only [if_neg he]
    rw [call, call, List.getD_eq_getElem?_getD, List.getD_eq_getElem?_getD]
    rw [ToolCalls.added, ToolCalls.update, List.getElem?_modify_ne _ _ he]

end ToolCalls

namespace StreamGuard

-- Kiro has read what it was sent, and was told of the calls as far as they go.
structure Reads (s : StreamGuard) : Prop where
  told    : ∃ r, Reading.readAll {} s.sent = some r ∧ s.toolCalls.Told r
  indexed : s.toolCalls.Indexed
  quiet   : s.sawOutput = false → s.toolCalls.calls = []
  going   : s.completed = false

-- Frames of no call.
def isCallFrame : Frame → Bool
  | .toolUse .. => true
  | _           => false

variable {s s' : StreamGuard} {sends : Nat → Bool} {frames : List Frame} {cfg : StreamGuardConfig}
  {f : Fragment} {index : Option Nat} {id name : Option String} {arguments : String}

theorem initial_taken {p : Frame × Nat → Bool} :
    ((frames.zipIdx.takeWhile p).map (·.1)) <+: frames := by
  have hz : frames.zipIdx.map (·.1) = frames := by simp
  conv_rhs => rw [← hz]
  exact (List.takeWhile_prefix p).map _

theorem send_all (h : s.send sends frames = (true, s')) : s' = { s with sent := s.sent ++ frames } := by
  simp only [send, Prod.mk.injEq, decide_eq_true_eq] at h
  obtain ⟨hl, rfl⟩ := h
  rw [initial_taken.eq_of_length hl]

theorem readAll_others {r : Reading} (h : ∀ frame ∈ frames, isCallFrame frame = false) :
    r.readAll frames = some r := by
  induction frames
  case nil => rfl
  case cons frame frames hi =>
    rw [List.forall_mem_cons] at h
    have hr : r.read frame = some r := by
      cases frame
      case toolUse => cases h.left
      all_goals rfl
    rw [Reading.readAll, List.foldlM_cons, hr]
    exact hi h.right

-- What has nothing to do with calls leaves Kiro's reading as it is.
theorem Reads.others (h : s.Reads) (hf : ∀ frame ∈ frames, isCallFrame frame = false)
    (hs : s'.sent = s.sent ++ frames) (ht : s'.toolCalls = s.toolCalls)
    (ho : s.sawOutput → s'.sawOutput) (hc : s'.completed = s.completed) : s'.Reads where
  told := by
    obtain ⟨r, hr, htold⟩ := h.told
    exact ⟨r, by rw [hs, Reading.readAll_append hr, readAll_others hf], ht ▸ htold⟩
  indexed := ht ▸ h.indexed
  quiet hq := by
    rw [ht]
    apply h.quiet
    cases hso : s.sawOutput
    case false => rfl
    case true => rw [ho hso] at hq; cases hq
  going := hc.trans h.going

theorem Reads.send {s₁ : StreamGuard} (h : s.Reads) (hsend : s₁.send sends frames = (true, s'))
    (hf : ∀ frame ∈ frames, isCallFrame frame = false) (hs : s₁.sent = s.sent)
    (ht : s₁.toolCalls = s.toolCalls) (ho : s.sawOutput → s₁.sawOutput)
    (hc : s₁.completed = s.completed) : s'.Reads ∧ s'.toolCalls = s.toolCalls := by
  rw [send_all hsend]
  exact ⟨h.others hf (congrArg (· ++ frames) hs) ht ho hc, ht⟩

variable [StreamHost] {registry : Option Translate.ToolRegistry}

omit [StreamHost] in
theorem takes_some {t : ToolCalls} {position : Option Nat}
    (h : t.addsNothing position id name arguments = false) :
    (arguments ≠ "" || id.isSome || name.isSome) = true := by
  by_contra hn
  simp only [Bool.not_eq_true, Bool.or_eq_false_iff, decide_eq_false_iff_not, not_not,
    Option.isSome_eq_false_iff, Option.isNone_iff_eq_none] at hn
  obtain ⟨⟨rfl, rfl⟩, rfl⟩ := hn
  cases position <;> cases h

-- What a fragment of a call does to a stream that goes on.
theorem toolCallChunk_cases
    (hf : (Awake.mk (.event (some (.ok (.delta (.toolCallChunk index id name arguments))))) sends).fragment?
      registry = some f)
    (h : s.toolCallChunk registry sends index id name arguments = (true, s')) :
    (s.toolCalls.takes f = false ∧ s' = s) ∨ (s.toolCalls.takes f ∧ ∃ frames,
      (s.toolCalls.added f).advance (s.toolCalls.place f) = some (frames, s'.toolCalls) ∧
      s'.sent = s.sent ++ frames ∧ s'.sawOutput ∧ s'.completed = s.completed) := by
  unfold toolCallChunk at h
  extract_lets id' name' position units s₁ s₂ at h
  have hf' : f = ⟨index, id', name', arguments⟩ := (Option.some.inj hf).symm
  clear_value id' name'
  subst hf'
  split at h
  case isTrue hn =>
    cases h
    exact .inl ⟨congrArg not hn, rfl⟩
  case isFalse hn =>
    have hn := Bool.eq_false_iff.mpr hn
    have hsaw : s₁.sawOutput := by
      simp only [s₁, outputs, Bool.or_eq_true]
      exact .inr (by simpa only [Bool.or_eq_true] using takes_some hn)
    split at h
    case isTrue => cases h
    case isFalse =>
      split at h
      case isTrue => cases h
      case isFalse =>
        split at h
        case h_1 place t hp =>
          split at h
          case h_2 => cases h
          case h_1 frames calls ha =>
            cases hp
            have hs := send_all h
            subst hs
            exact .inr ⟨congrArg not hn, frames, ha, rfl, hsaw, rfl⟩

omit [StreamHost] in
theorem done_not_continues : s.done cfg sends ≠ (true, s') := by
  unfold done
  split
  case isTrue =>
    split <;> nofun
  case isFalse =>
    split
    case isTrue => nofun
    case isFalse =>
      split
      case h_1 => nofun
      case h_2 =>
        split <;> nofun

-- The arguments that arrive in some turns, by the position of the call they're of.
def arrivals (cfg : StreamGuardConfig) (registry : Option Translate.ToolRegistry) (s : StreamGuard) :
    List Awake → List (Nat × String)
  | []      => []
  | m :: ms => ((m.fragment? registry).map (s.toolCalls.arrival ·)).getD [] ++
    (s.turn cfg registry m).2.arrivals cfg registry ms

-- Whether no fragment comes too late in some turns.
def punctual (cfg : StreamGuardConfig) (registry : Option Translate.ToolRegistry) (s : StreamGuard) :
    List Awake → Bool
  | []      => true
  | m :: ms => (m.fragment? registry).all (!s.toolCalls.late ·) &&
    (s.turn cfg registry m).2.punctual cfg registry ms

theorem Reads.chunk (h : s.Reads) (hl : s.toolCalls.late f = false)
    (hf : (Awake.mk (.event (some (.ok (.delta (.toolCallChunk index id name arguments))))) sends).fragment?
      registry = some f)
    (ht : s.toolCallChunk registry sends index id name arguments = (true, s')) :
    s'.Reads ∧ ∀ place, (s'.toolCalls.call place).arguments =
      ToolCalls.collect place (s.toolCalls.call place).arguments (s.toolCalls.arrival f) := by
  rcases toolCallChunk_cases hf ht with ⟨hn, rfl⟩ | ⟨htakes, frames, ha, hs, hsaw, hc⟩
  · refine ⟨h, fun place => ?_⟩
    rw [ToolCalls.arrival, hn]
    rfl
  · obtain ⟨r, hr, htold⟩ := h.told
    obtain ⟨r', hr', htold'⟩ := htold.added hl htakes ha
    obtain ⟨hi, hargs⟩ := h.indexed.added htakes
    have hk := ToolCalls.kept_advance ha
    refine ⟨⟨⟨r', by rw [hs, Reading.readAll_append hr, hr'], htold'⟩, hi.kept hk, ?_,
      hc.trans h.going⟩, fun place => (hk.call_arguments place).trans (hargs place)⟩
    intro hq
    rw [hsaw] at hq
    cases hq

-- A turn after which the stream goes on.
theorem Reads.turn {m : Awake} (h : s.Reads)
    (hl : (m.fragment? registry).all (!s.toolCalls.late ·)) (ht : s.turn cfg registry m = (true, s')) :
    s'.Reads ∧ ∀ place, (s'.toolCalls.call place).arguments =
      ToolCalls.collect place (s.toolCalls.call place).arguments
        (((m.fragment? registry).map (s.toolCalls.arrival ·)).getD []) := by
  have same (hs : s'.Reads ∧ s'.toolCalls = s.toolCalls) (hf : m.fragment? registry = none) :
      s'.Reads ∧ ∀ place, (s'.toolCalls.call place).arguments =
        ToolCalls.collect place (s.toolCalls.call place).arguments
          (((m.fragment? registry).map (s.toolCalls.arrival ·)).getD []) := by
    rw [hs.right, hf]
    exact ⟨hs.left, fun _ => rfl⟩
  have nothing (ht : (true, s) = (true, s')) : s'.Reads ∧ s'.toolCalls = s.toolCalls := by
    cases ht
    exact ⟨h, rfl⟩
  obtain ⟨wake, sends⟩ := m
  cases wake
  case closed => cases ht
  case deadline => cases ht
  case stopping => cases ht
  case tick => exact same (h.send ht (by simp [isCallFrame]) rfl rfl id rfl) rfl
  case event e =>
    unfold StreamGuard.turn StreamGuard.event at ht
    simp only at ht
    split at ht
    case h_1 d =>
      cases d
      case text | reasoning =>
        unfold StreamGuard.delta at ht
        exact same (h.send ht (by simp [isCallFrame]) rfl rfl (by simp +contextual [outputs]) rfl) rfl
      case reasoningSignature =>
        unfold StreamGuard.delta at ht
        exact same (h.send ht (by simp [isCallFrame]) rfl rfl id rfl) rfl
      case toolCallChunk =>
        refine h.chunk ?_ rfl ht
        rw [← Bool.not_eq_true']
        exact hl
    case h_2 | h_3 => exact same (nothing ht) rfl
    case h_4 | h_6 | h_8 =>
      cases ht
      have hs := (List.append_nil s.sent).symm
      exact same ⟨h.others (List.forall_mem_nil _) hs rfl id rfl, rfl⟩ rfl
    case h_5 | h_10 | h_11 => cases ht
    case h_7 =>
      unfold StreamGuard.usage at ht
      exact same (h.send ht (by simp [isCallFrame]) rfl rfl id rfl) rfl
    case h_9 => exact absurd ht done_not_continues

-- Kiro has read all of some calls, and nothing else.
def Shows (s : StreamGuard) : Prop :=
  ∃ calls, Reading.readAll {} s.sent = some ⟨calls, none⟩ ∧
    calls.Perm ((s.toolCalls.calls.filter (·.named)).map (·.shown))

omit [StreamHost] in
theorem Reads.notice (h : s.Reads) (hn : s.notice cfg sends = (true, s')) :
    s'.Reads ∧ s'.toolCalls = s.toolCalls := by
  unfold StreamGuard.notice at hn
  split at hn
  case h_1 => exact h.send hn (by simp [isCallFrame]) rfl rfl id rfl
  case h_2 =>
    cases hn
    exact ⟨h, rfl⟩

omit [StreamHost] in
theorem Reads.finish (h : s.Reads) (hs : s'.sent = s.sent ++ s.toolCalls.finish)
    (ht : s'.toolCalls = s.toolCalls) : s'.Shows := by
  obtain ⟨r, hr, htold⟩ := h.told
  obtain ⟨calls, hfinish, hp⟩ := htold.finish
  exact ⟨calls, by rw [hs, Reading.readAll_append hr, hfinish], ht ▸ hp⟩

omit [StreamHost] in
theorem Reads.finish_nil (h : s.Reads) (hn : s.toolCalls.calls = []) : s.toolCalls.finish = [] := by
  obtain ⟨r, _, htold⟩ := h.told
  have hl : s.toolCalls.live = none := by
    cases hl : s.toolCalls.live
    case none => rfl
    case some live =>
      obtain ⟨c, hc, _⟩ := htold.begun live hl
      rw [hn] at hc
      cases hc
  simp [ToolCalls.finish, hl, hn]

omit [StreamHost] in
-- A response that completes has told Kiro of all its calls.
theorem Reads.done (h : s.Reads) (ht : s.done cfg sends = (false, s')) (hc : s'.completed) :
    s'.Shows ∧ s'.toolCalls = s.toolCalls := by
  have noticed {b s₁} (hn : s.notice cfg sends = (b, s₁)) : s₁.completed = false := by
    rw [← h.going]
    exact congrArg Heard.completed (notice_heard hn)
  unfold StreamGuard.done at ht
  split at ht
  case isTrue hq =>
    split at ht
    case h_1 s₁ hn =>
      cases ht
      obtain ⟨h₁, ht₁⟩ := h.notice hn
      simp only [Bool.and_eq_true, Bool.not_eq_true'] at hq
      have hnil : s₁.toolCalls.calls = [] := ht₁ ▸ h.quiet hq.left.left
      refine ⟨h₁.finish ?_ rfl, ht₁⟩
      rw [h₁.finish_nil hnil, List.append_nil]
    case h_2 s₁ hn =>
      cases ht
      rw [noticed hn] at hc
      cases hc
  case isFalse =>
    split at ht
    case isTrue =>
      cases ht
      cases h.going.symm.trans hc
    case isFalse =>
      have hread {s₁} (hn : (if s.sawAnswer then (true, s) else s.notice cfg sends) = (true, s₁)) :
          s₁.Reads ∧ s₁.toolCalls = s.toolCalls := by
        split at hn
        case isTrue =>
          cases hn
          exact ⟨h, rfl⟩
        case isFalse => exact h.notice hn
      split at ht
      case h_1 s₁ hn =>
        split at hn
        case isTrue => cases hn
        case isFalse =>
          cases ht
          rw [noticed hn] at hc
          cases hc
      case h_2 s₁ hn =>
        obtain ⟨h₁, ht₁⟩ := hread hn
        split at ht
        case h_1 s₂ hsend =>
          cases ht
          have hs := send_all hsend
          subst hs
          exact ⟨h₁.finish rfl rfl, ht₁⟩
        case h_2 s₂ hsend =>
          cases ht
          have hg : s'.completed = s₁.completed := congrArg Heard.completed (send_heard hsend)
          cases (hg.trans h₁.going).symm.trans hc

theorem Reads.completed {m : Awake} (h : s.Reads) (hc : (s.turn cfg registry m).2.completed) :
    m.wake = .event (some (.ok .done)) := by
  have ht : Turned m.event? s.toHeard (s.turn cfg registry m).2.toHeard := turn_turned
  generalize (s.turn cfg registry m).2.toHeard = heard at ht hc
  generalize he : m.event? = e at ht
  have hdone : e = some .done := by
    cases ht
    case completed => rfl
    case empty => rfl
    all_goals cases h.going.symm.trans hc
  rw [hdone, Awake.event?.eq_def] at he
  split at he
  case h_1 hw =>
    rw [hw]
    cases he
    rfl
  case h_2 => cases he

-- What a response that completes has told Kiro, and what arguments its calls have.
theorem Reads.loop {ms : List Awake} (h : s.Reads)
    (hl : s.punctual cfg registry (s.loop cfg registry ms).1)
    (hc : (s.loop cfg registry ms).2.completed) : (s.loop cfg registry ms).2.Shows ∧
      ∀ place, ((s.loop cfg registry ms).2.toolCalls.call place).arguments =
        ToolCalls.collect place (s.toolCalls.call place).arguments
          (s.arrivals cfg registry (s.loop cfg registry ms).1) := by
  induction ms generalizing s
  case nil =>
    have hw := h.completed hc
    cases hw
  case cons m ms hi =>
    unfold StreamGuard.loop at hl hc ⊢
    split at hl
    case h_1 s₁ ht =>
      simp only [ht] at hc ⊢
      simp only [punctual, ht, Bool.and_eq_true] at hl
      obtain ⟨h₁, hargs⟩ := h.turn hl.left ht
      obtain ⟨hs, hcollect⟩ := hi h₁ hl.right hc
      refine ⟨hs, fun place => ?_⟩
      rw [hcollect, hargs, arrivals, ht, ToolCalls.collect, ToolCalls.collect, ToolCalls.collect,
        List.foldl_append]
    case h_2 s₁ ht =>
      simp only [ht] at hc ⊢
      have hw : m.wake = .event (some (.ok .done)) := h.completed (by rw [ht]; exact hc)
      obtain ⟨wake, sends⟩ := m
      subst hw
      obtain ⟨hs, hcalls⟩ := h.done ht hc
      exact ⟨hs, fun place => by rw [hcalls]; rfl⟩

omit [StreamHost] in
theorem start_reads (settler : Option BillingSettler) : (start settler).Reads where
  told    := ⟨{}, rfl, ⟨rfl, nofun, .nil, nofun⟩⟩
  indexed := ⟨nofun, nofun⟩
  quiet _ := rfl
  going   := rfl

def Effect.frame? : Effect → Option Frame
  | .sent f => some f
  | _       => none

omit [StreamHost] in
theorem finalize_frames {guard : Option String} {e : Ending} :
    ∀ frame ∈ (s.finalize cfg guard e).filterMap (·.frame?), isCallFrame frame = false := by
  intro frame hf
  obtain ⟨effect, he, hf⟩ := List.mem_filterMap.mp hf
  cases effect
  case sent f =>
    cases hf
    simp only [finalize] at he
    split at he
    case isTrue =>
      simp only [List.mem_append, Option.mem_toList, Option.map_eq_some_iff,
        reduceCtorEq, and_false, exists_false, false_or, Effect.sent.injEq] at he
      rcases he with (⟨_, _, rfl⟩ | he) | ⟨_, _, he⟩
      · rfl
      · split at he
        case isTrue =>
          rw [List.mem_singleton, Effect.sent.injEq] at he
          rw [he]
          rfl
        case isFalse => cases he
      · split at he
        case isTrue => cases he
        case isFalse => split at he <;> cases he
    case isFalse =>
      simp only [List.mem_append, Option.mem_toList, Option.map_eq_some_iff,
        reduceCtorEq, and_false, exists_false, false_or, Effect.sent.injEq] at he
      rcases he with ⟨_, _, he⟩ | ⟨_, _, rfl⟩
      · split at he <;> cases he
      · rfl
  all_goals cases hf

end StreamGuard

-- Two calls in turns, of which Kiro is told one after the other.
def interleavedCalls : List Awake :=
  [fragment 0 "a" "write" "[", fragment 1 "b" "read" "[", fragment 0 "" "" "1]", fragment 1 "" "" "2]",
    ⟨.event (some (.ok .done)), fun _ => true⟩]
where
  fragment (index : Nat) (id name arguments : String) : Awake :=
    ⟨.event (some (.ok (.delta (.toolCallChunk (some index) (some id) (some name) arguments)))),
      fun _ => true⟩

@[reducible]
def bracketedJson : StreamHost where
  wholeJson text   := text.endsWith "]"
  replayThinking _ := false

end Gateway
