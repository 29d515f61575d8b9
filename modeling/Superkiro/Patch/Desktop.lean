import Superkiro.Lib.Run
import Superkiro.Lib.Text

-- Signing in to a gateway replaces the customer's token, and logging out puts it back.
namespace Patch

-- The token as it was. Old records have it parsed.
inductive PreviousToken (B T : Type)
  | raw (bytes : B)
  | legacy (token : T)

def PreviousToken.bytes {B T : Type} (encode : T → B) : PreviousToken B T → B
  | .raw bytes    => bytes
  | .legacy token => encode token

structure Session (B T : Type) where
  gateway       : String
  device        : String
  previousToken : Option (PreviousToken B T)
  authenticated : Bool := false
  caPath        : Option String := none

-- What an operation does next. It holds the session lock, so there's only one at a time.
inductive Phase (B T : Type)
  | idle
  -- `activate_locked`
  | opening (session : Session B T) (prepared : Option T)
  | signing (session : Session B T) (prepared : Option T)
  | recording (session : Session B T)
  | taking
  -- `unbind_with_gateway`, and `restore_and_logout`
  | revoking (session : Session B T)
  | restoring
  -- `restore_token`
  | returning
  | removing

-- A step that fails changes nothing. A takeover or its rollback may end with or without a record.
inductive DesktopEvent (B T : Type)
  -- Kiro or the customer changes the token. Kiro is stopped while an operation runs.
  | kiro (token : Option B)
  | activate (gateway device card : String) (caPath : Option String) (prepared : Option T)
  | sign (token : T) (succeeds : Bool)
  | takeover (succeeds active : Bool)
  | logout
  | unbind
  | restore (succeeds active : Bool)
  | step (succeeds : Bool)
  -- A balance is read with a new token, or refused.
  | refresh (token : T)
  | reject
  | die

structure Desktop (B T : Type) where
  token   : Option B
  session : Option (Session B T) := none
  -- There's a takeover record.
  active  : Bool
  phase   : Phase B T := .idle
  -- What the customer had when no session was recorded.
  own     : Option B := token

namespace Desktop

section

variable {B T : Type} [DecidableEq T] (encode : T → B)

def step? (d : Desktop B T) (event : DesktopEvent B T) : Option (Desktop B T) :=
  match event, d.phase with
  | .die, _ => some { d with phase := .idle }
  | .kiro token, .idle =>
    some { d with token := token, own := if d.session.isNone then token else d.own }
  | .activate gateway device card caPath prepared, .idle =>
    match d.session with
    | some session =>
      if session.gateway = gateway then some { d with phase := .signing session prepared } else none
    | none =>
      if Text.isBlank card then none
      else
        let session : Session B T := {
          gateway       := gateway
          device        := device
          previousToken := d.token.map .raw
          caPath        := caPath }
        some { d with phase := .opening session prepared }
  | .step succeeds, .opening session prepared =>
    if succeeds then some { d with session := some session, phase := .signing session prepared }
    else some { d with phase := .idle }
  | .sign token succeeds, .signing session prepared =>
    if prepared.all (· = token) then
      if succeeds then some { d with token := some (encode token), phase := .recording session }
      else some { d with phase := .idle }
    else none
  | .step succeeds, .recording session =>
    if succeeds then
      some { d with session := some { session with authenticated := true }, phase := .taking }
    else some { d with phase := .idle }
  | .takeover succeeds active, .taking =>
    if succeeds then
      if active then some { d with active := true, phase := .idle } else none
    -- `after_failed_takeover`
    else some { d with active := active, phase := if active then .idle else .returning }
  | .logout, .idle =>
    if d.session.isNone && !d.active then none
    else some { d with phase := if d.active then .restoring else .returning }
  | .unbind, .idle =>
    match d.session with
    | some session => some { d with phase := .revoking session }
    | none         => some { d with phase := if d.active then .restoring else .returning }
  | .step succeeds, .revoking session =>
    if succeeds then
      some { d with
        session := some { session with authenticated := false }
        phase   := if d.active then .restoring else .returning }
    else some { d with phase := .idle }
  | .restore succeeds active, .restoring =>
    if succeeds then
      if active then none else some { d with active := false, phase := .returning }
    else some { d with active := active, phase := .idle }
  | .step succeeds, .returning =>
    match d.session with
    | none         => some { d with phase := .idle }
    | some session =>
      if succeeds then
        some { d with
          token := session.previousToken.map (·.bytes encode)
          phase := .removing }
      else some { d with phase := .idle }
  | .step succeeds, .removing =>
    some { d with session := if succeeds then none else d.session, phase := .idle }
  | .refresh token, .idle =>
    if d.session.any (·.authenticated) then some { d with token := some (encode token) } else none
  | .reject, .idle =>
    match d.session with
    | some session => some { d with session := some { session with authenticated := false } }
    | none         => none
  | _, _ => none

def Step (d : Desktop B T) (event : DesktopEvent B T) (d' : Desktop B T) : Prop :=
  d.step? encode event = some d'

-- The customer's token is kept by the session.
def Keeps (own : Option B) (session : Session B T) : Prop :=
  session.previousToken.map (·.bytes encode) = own

def InPhase (d : Desktop B T) : Prop :=
  match d.phase with
  | .idle | .taking | .restoring => True
  | .opening session _ => d.session = none ∧ Keeps encode d.own session
  | .signing session _ | .recording session | .revoking session => d.session = some session
  | .returning => d.active = false
  | .removing => d.active = false ∧ d.session.isSome ∧ d.token = d.own

structure Sound (d : Desktop B T) : Prop where
  kept  : ∀ session, d.session = some session → Keeps encode d.own session
  back  : d.session = none → d.token = d.own
  phase : d.InPhase encode

variable {B T : Type} [DecidableEq T] {encode : T → B} {d d' start : Desktop B T}
  {event : DesktopEvent B T} {events : List (DesktopEvent B T)} {session : Session B T}

omit [DecidableEq T] in
theorem Keeps.authenticated {own : Option B} {b : Bool} (h : Keeps encode own session) :
    Keeps encode own { session with authenticated := b } := h

omit [DecidableEq T] in
-- Steps that leave the token and its owner alone.
theorem Sound.rest (h : d.Sound encode) (ht : d'.token = d.token) (ho : d'.own = d.own)
    (hs : d'.session = d.session) (hp : d'.InPhase encode) : d'.Sound encode where
  kept  := by rw [hs, ho]; exact h.kept
  back  := by rw [hs, ht, ho]; exact h.back
  phase := hp

omit [DecidableEq T] in
-- Steps with a session that still has the customer's token.
theorem Sound.recorded (h : Keeps encode d'.own session) (hs : d'.session = some session)
    (hp : d'.InPhase encode) : d'.Sound encode where
  kept _ hs' := Option.some.inj (hs.symm.trans hs') ▸ h
  back hn    := by rw [hs] at hn; cases hn
  phase      := hp

theorem Sound.step (h : d.Sound encode) (hs : d.Step encode event d') : d'.Sound encode := by
  have hp := h.phase
  unfold Step step? at hs
  split at hs
  case h_1 =>
    cases hs
    exact h.rest rfl rfl rfl trivial
  case h_2 token hphase =>
    cases hs
    refine ⟨fun session hs => ?_, fun hs => ?_, ?_⟩
    · have hs : d.session = some session := hs
      simpa [hs] using h.kept session hs
    · have hs : d.session = none := hs
      simp [hs]
    · rw [InPhase, hphase]
      trivial
  case h_3 =>
    split at hs
    case h_1 session hsession =>
      split at hs
      case isTrue =>
        cases hs
        exact h.rest rfl rfl rfl hsession
      case isFalse => cases hs
    case h_2 hsession =>
      split at hs
      case isTrue => cases hs
      case isFalse =>
        cases hs
        refine h.rest rfl rfl rfl ⟨hsession, ?_⟩
        rw [← h.back hsession, Keeps, Option.map_map]
        exact Option.map_id_fun ▸ rfl
  case h_4 session prepared hphase =>
    rw [InPhase, hphase] at hp
    split at hs
    case isTrue =>
      cases hs
      exact Sound.recorded hp.right rfl rfl
    case isFalse =>
      cases hs
      exact h.rest rfl rfl rfl trivial
  case h_5 token succeeds session prepared hphase =>
    rw [InPhase, hphase] at hp
    split at hs
    case isTrue =>
      split at hs
      case isTrue =>
        cases hs
        exact Sound.recorded (h.kept session hp) hp hp
      case isFalse =>
        cases hs
        exact h.rest rfl rfl rfl trivial
    case isFalse => cases hs
  case h_6 succeeds session hphase =>
    rw [InPhase, hphase] at hp
    split at hs
    case isTrue =>
      cases hs
      exact Sound.recorded (h.kept session hp).authenticated rfl trivial
    case isFalse =>
      cases hs
      exact h.rest rfl rfl rfl trivial
  case h_7 succeeds active hphase =>
    split at hs
    case isTrue =>
      split at hs
      case isTrue =>
        cases hs
        exact h.rest rfl rfl rfl trivial
      case isFalse => cases hs
    case isFalse =>
      cases hs
      refine h.rest rfl rfl rfl ?_
      cases active <;> trivial
  case h_8 hphase =>
    split at hs
    case isTrue => cases hs
    case isFalse =>
      cases hs
      refine h.rest rfl rfl rfl ?_
      cases d.active <;> simp [InPhase]
  case h_9 hphase =>
    split at hs
    case h_1 session hsession =>
      cases hs
      exact h.rest rfl rfl rfl hsession
    case h_2 =>
      cases hs
      refine h.rest rfl rfl rfl ?_
      cases d.active <;> simp [InPhase]
  case h_10 succeeds session hphase =>
    rw [InPhase, hphase] at hp
    split at hs
    case isTrue =>
      cases hs
      refine Sound.recorded (h.kept session hp).authenticated rfl ?_
      cases d.active <;> simp [InPhase]
    case isFalse =>
      cases hs
      exact h.rest rfl rfl rfl trivial
  case h_11 succeeds active hphase =>
    split at hs
    case isTrue =>
      split at hs
      case isTrue => cases hs
      case isFalse =>
        cases hs
        exact h.rest rfl rfl rfl rfl
    case isFalse =>
      cases hs
      exact h.rest rfl rfl rfl trivial
  case h_12 succeeds hphase =>
    rw [InPhase, hphase] at hp
    split at hs
    case h_1 =>
      cases hs
      exact h.rest rfl rfl rfl trivial
    case h_2 session hsession =>
      have hk := h.kept session hsession
      split at hs
      case isTrue =>
        cases hs
        exact Sound.recorded hk hsession ⟨hp, by rw [hsession]; rfl, hk⟩
      case isFalse =>
        cases hs
        exact h.rest rfl rfl rfl trivial
  case h_13 succeeds hphase =>
    rw [InPhase, hphase] at hp
    cases hs
    cases succeeds
    case true => exact ⟨nofun, fun _ => hp.right.right, trivial⟩
    case false => exact h.rest rfl rfl rfl trivial
  case h_14 token hphase =>
    split at hs
    case isTrue ha =>
      cases hs
      cases hsession : d.session
      case none => simp [hsession] at ha
      case some session =>
        refine Sound.recorded (h.kept session hsession) rfl ?_
        rw [InPhase, hphase]
        trivial
    case isFalse => cases hs
  case h_15 hphase =>
    split at hs
    case h_1 session hsession =>
      cases hs
      refine Sound.recorded (h.kept session hsession).authenticated rfl ?_
      rw [InPhase, hphase]
      trivial
    case h_2 => cases hs
  case h_16 => cases hs

theorem Sound.run (h : d.Sound encode) (r : Run (Step encode) d events d') : d'.Sound encode :=
  r.preserves (fun h hs => h.step hs) h

-- What a step can do to the session, and to what the customer has.
theorem Step.change (hs : d.Step encode event d') :
    (∃ token, event = .kiro token ∧ d'.session = d.session ∧
      d'.own = if d.session.isNone then token else d.own) ∨
    d'.own = d.own ∧ (d'.session = d.session ∨ d'.session.isSome ∨
      d.phase = .removing ∧ d'.token = d.token ∧ d'.active = d.active) := by
  unfold Step step? at hs
  split at hs
  case h_2 token _ =>
    cases hs
    exact .inl ⟨token, rfl, rfl, rfl⟩
  case h_13 hphase =>
    cases hs
    exact .inr ⟨rfl, .inr (.inr ⟨hphase, rfl, rfl⟩)⟩
  all_goals
    apply Or.inr
    (try split at hs) <;> (try split at hs) <;> cases hs <;> simp

theorem own_of_step (hs : d.Step encode event d') :
    d'.own = d.own ∨ event = .kiro d'.own ∧ d.session = none := by
  rcases hs.change with ⟨token, rfl, _, ho⟩ | ⟨ho, _⟩
  · cases hn : d.session
    case none => exact .inr ⟨by rw [ho, hn]; rfl, rfl⟩
    case some => exact .inl (by rw [ho, hn]; rfl)
  · exact .inl ho

-- A session is only given up once its token is back and nothing is taken over.
theorem Sound.removed (h : d.Sound encode) (hs : d.Step encode event d')
    (hsome : d.session.isSome) (hnone : d'.session = none) :
    d'.active = false ∧ d'.token = d'.own ∧ d'.own = d.own := by
  rcases hs.change with ⟨_, _, he, _⟩ | ⟨ho, he | he | ⟨hphase, ht, ha⟩⟩
  · rw [← he, hnone] at hsome
    cases hsome
  · rw [← he, hnone] at hsome
    cases hsome
  · rw [hnone] at he
    cases he
  · have hp := h.phase
    rw [InPhase, hphase] at hp
    exact ⟨ha.trans hp.left, by rw [ht, ho]; exact hp.right.right, ho⟩

-- The steps of a logout in which nothing fails.
def logoutEvents (d : Desktop B T) : List (DesktopEvent B T) :=
  if d.session.isNone && !d.active then []
  else [.logout] ++ (if d.active then [.restore true false] else []) ++ [.step true] ++
    if d.session.isSome then [.step true] else []

theorem Sound.logout (h : d.Sound encode) (hi : d.phase = .idle) :
    ∃ d', Run (Step encode) d (logoutEvents d) d' ∧ d'.session = none ∧ d'.active = false ∧
      d'.token = d.own ∧ d'.own = d.own := by
  obtain ⟨token, session, active, phase, own⟩ := d
  cases hi
  have hback := h.back
  cases session
  case none =>
    cases active
    case false => exact ⟨_, .nil, rfl, rfl, hback rfl, rfl⟩
    case true => exact ⟨_, Run.of_foldlM rfl, rfl, rfl, hback rfl, rfl⟩
  case some session =>
    have hk : Keeps encode own session := h.kept session rfl
    cases active
    case false => exact ⟨_, Run.of_foldlM rfl, rfl, rfl, hk, rfl⟩
    case true => exact ⟨_, Run.of_foldlM rfl, rfl, rfl, hk, rfl⟩

-- The customer's own token is never lost, whatever fails and wherever the process dies. A session
-- that's recorded keeps it, without one it's in its place, and it's only put back once nothing is
-- taken over. From wherever an operation was left, a logout in which nothing fails puts it back.
theorem own_token_kept {token : Option B} {active : Bool}
    (r : Run (Step encode) { token := token, active := active } events d) :
    (∀ session, d.session = some session →
      session.previousToken.map (·.bytes encode) = d.own) ∧
    (d.session = none → d.token = d.own) ∧
    (∀ event d', d.Step encode event d' →
      (d'.own = d.own ∨ event = .kiro d'.own ∧ d.session = none) ∧
      (d.session.isSome → d'.session = none →
        d'.active = false ∧ d'.token = d'.own ∧ d'.own = d.own)) ∧
    (d.phase = .idle → ∃ d', Run (Step encode) d (logoutEvents d) d' ∧ d'.session = none ∧
      d'.active = false ∧ d'.token = d.own ∧ d'.own = d.own) := by
  have start : Sound encode { token := token, active := active } := ⟨nofun, fun _ => rfl, trivial⟩
  have h := start.run r
  refine ⟨h.kept, h.back, fun event d' hs => ?_, h.logout⟩
  exact ⟨own_of_step hs, h.removed hs⟩

end

-- A takeover that fails leaves a record, and the process dies during the logout after that.
def interrupted : List (DesktopEvent String String) :=
  [.activate "https://gateway" "device" "card" none none, .step true, .sign "theirs" true,
    .step true, .takeover false true, .logout, .restore true false, .step true, .die]

theorem own_token_kept_sample : ∃ d d' : Desktop String String,
    Run (Step id) { token := some "mine", active := false } interrupted d ∧
    Run (Step id) d (logoutEvents d) d' ∧ d'.session = none ∧ d'.token = some "mine" := by
  have h : Run (Step id) { token := some "mine", active := false } interrupted _ :=
    Run.of_foldlM rfl
  obtain ⟨d', hr, hn, _, ht, _⟩ := (own_token_kept h).right.right.right rfl
  exact ⟨_, d', h, hr, hn, ht⟩

end Desktop

end Patch
