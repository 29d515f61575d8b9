import Superkiro.Billing.Exec

-- What's left of the announcements when a change of them can't be saved.
namespace Billing

open Except Host

def withoutId (id : String) (as : List Announcement) : List Announcement := as.filter (·.id ≠ id)

-- Changes the first announcement of an id.
def changeFirst (id : String) (f : Announcement → Announcement) :
    List Announcement → List Announcement
  | []      => []
  | a :: as => if a.id = id then f a :: as else a :: changeFirst id f as

namespace Tables

variable (t : Tables F)

def addAnnouncementUnsaved (a : Announcement) : Tables F :=
  { t with announcements := withoutId a.id t.announcements ++ [a] }

def removeAnnouncement (id : String) : Tables F :=
  { t with announcements := withoutId id t.announcements }

def setEnabled (id : String) (enabled : Bool) : Tables F :=
  { t with announcements := changeFirst id ({ · with enabled }) t.announcements }

-- The change says what it makes of an announcement, and whether that's to be saved.
def editAnnouncement (id : String) (change : Announcement → Result (Announcement × Bool)) :
    Result (Txn F (Option Announcement)) :=
  match t.announcements.find? (·.id = id) with
  | none   => pure (.answer none)
  | some a => do
    let (edited, changed) ← change a
    let announcements := changeFirst id (fun _ => edited) t.announcements
    return if changed then .write { t with announcements } ({ · with announcements }) (some edited)
      else .answer (some edited)

end Tables

-- A change of the announcements that's asked for.
inductive AnnouncementCall
  | publish (a : Announcement)
  | withdraw (id : String)
  | edit (id : String) (change : Announcement → Result (Announcement × Bool))

-- An announcement of the same id would be lost, and a withdrawn one would be shown again.
def AnnouncementCall.Keeps : AnnouncementCall → List Announcement → Prop
  | .publish a, as   => ∀ b ∈ as, b.id ≠ a.id
  | .withdraw id, as => ∀ a, as.find? (·.id = id) = some a → a.enabled
  | .edit .., _      => True

namespace Engine

variable [Host F] (e : Engine F) (io : Io)

-- Saves what memory holds.
def syncToDisk : Result Unit × Engine F :=
  if !e.persistent then (.ok (), e)
  else
    let s := e.snapshotOf io e.tables
    match e.checkPersist io s with
    | .error m => (.error (.persistence m), { e with lastPersistenceError := some m })
    | .ok _    => (.ok (), { e with
        disk                 := some s
        snapshotSequence     := s.sequence
        lastSnapshotChecksum := some (checksum s)
        lastPersistenceError := none })

-- A change that's made in memory, saved, and undone if it can't be.
def saveOrUndo (change undo : Tables F → Tables F) : Result Unit × Engine F :=
  match { e with tables := change e.tables }.syncToDisk io with
  | (.ok _, e')      => (.ok (), e')
  | (.error err, e') => (.error err, { e' with tables := undo e'.tables })

def publishAnnouncement (a : Announcement) : Result Unit × Engine F :=
  e.saveOrUndo io (·.addAnnouncementUnsaved a) (·.removeAnnouncement a.id)

def withdrawAnnouncement (id : String) : Result Bool × Engine F :=
  if e.tables.announcements.any (·.id = id) then
    let (r, e') := e.saveOrUndo io (·.setEnabled id false) (·.setEnabled id true)
    (r.map fun _ => true, e')
  else (.ok false, e)

def editAnnouncement (id : String) (change : Announcement → Result (Announcement × Bool)) :
    Result (Option Announcement) × Engine F :=
  e.transact io (e.tables.editAnnouncement id change)

def announce (c : AnnouncementCall) : Result Unit × Engine F :=
  match c with
  | .publish a      => e.publishAnnouncement io a
  | .withdraw id    =>
    let (r, e') := e.withdrawAnnouncement io id
    (r.map fun _ => (), e')
  | .edit id change =>
    let (r, e') := e.editAnnouncement io id change
    (r.map fun _ => (), e')

end Engine

section Lists

variable {id : String} {a b : Announcement} {as : List Announcement} {on : Bool}
  {f g : Announcement → Announcement}

theorem withoutId_eq_self_iff : withoutId id as = as ↔ ∀ a ∈ as, a.id ≠ id := by
  simp [withoutId, List.filter_eq_self]

theorem withoutId_append : withoutId a.id (withoutId a.id as ++ [a]) = withoutId a.id as := by
  simp [withoutId, List.filter_append]

theorem changeFirst_changeFirst (hf : ∀ a, (f a).id = a.id) :
    changeFirst id g (changeFirst id f as) = changeFirst id (g ∘ f) as := by
  induction as
  case nil => rfl
  case cons a as hi =>
    by_cases h : a.id = id
    case pos => simp [changeFirst, h, hf]
    case neg => simp [changeFirst, h, hi]

-- A change is none if and only if the announcement it's made to is as it's to become.
theorem changeFirst_eq_self_iff :
    changeFirst id f as = as ↔ ∀ a, as.find? (·.id = id) = some a → f a = a := by
  induction as
  case nil => simp [changeFirst]
  case cons a as hi =>
    by_cases h : a.id = id
    case pos => simp [changeFirst, h]
    case neg => simp [changeFirst, h, hi]

end Lists

namespace Engine

variable [Host F] {e e' : Engine F} {io : Io} {err : BillingError}
  {change undo : Tables F → Tables F}

theorem map_eq_error {f : α → β} {r : Result α} (h : r.map f = .error err) : r = .error err := by
  cases r
  case ok => cases h
  case error => cases h; rfl

theorem syncToDisk_error (h : (e.syncToDisk io).1 = .error err) :
    (e.syncToDisk io).2.tables = e.tables := by
  rw [syncToDisk] at h ⊢
  split at h
  case isTrue => cases h
  case isFalse hp =>
    rw [if_neg hp]
    cases hc : e.checkPersist io (e.snapshotOf io e.tables)
    case error => simp only [hc]
    case ok => simp only [hc] at h; cases h

-- What a change that isn't saved leaves in memory is what undoing it leads to.
theorem saveOrUndo_error (h : (e.saveOrUndo io change undo).1 = .error err) :
    (e.saveOrUndo io change undo).2.tables = undo (change e.tables) := by
  rw [saveOrUndo] at h ⊢
  cases hs : { e with tables := change e.tables }.syncToDisk io
  case mk r e' =>
    rw [hs] at h
    cases r
    case ok => cases h
    case error err' =>
      have ht := syncToDisk_error (congrArg Prod.fst hs)
      rw [hs] at ht
      exact congrArg undo ht

theorem publishAnnouncement_error {a : Announcement}
    (h : (e.publishAnnouncement io a).1 = .error err) :
    (e.publishAnnouncement io a).2.tables.announcements = withoutId a.id e.tables.announcements := by
  rw [publishAnnouncement, saveOrUndo_error h]
  exact withoutId_append

theorem withdrawAnnouncement_error {id : String}
    (h : (e.withdrawAnnouncement io id).1 = .error err) :
    (e.withdrawAnnouncement io id).2.tables.announcements =
      changeFirst id ({ · with enabled := true }) e.tables.announcements := by
  rw [withdrawAnnouncement] at h ⊢
  split at h
  case isFalse => cases h
  case isTrue hi =>
    rw [if_pos hi]
    change (e.saveOrUndo io _ _).2.tables.announcements = _
    rw [saveOrUndo_error (map_eq_error h)]
    change changeFirst id _ (changeFirst id _ _) = _
    rw [changeFirst_changeFirst]
    · rfl
    · exact fun _ => rfl

omit [Host F] in
theorem editAnnouncement_publishes {id : String}
    {change : Announcement → Result (Announcement × Bool)} :
    Publishes e.tables (e.tables.editAnnouncement id change) := by
  intro c pub a h
  rw [Tables.editAnnouncement] at h
  split at h
  case h_1 => cases h
  case h_2 =>
    simp only [bind_eq_ok', pure_eq_ok] at h
    have ⟨⟨edited, changed⟩, _, h⟩ := h
    cases changed
    case false => cases h
    case true =>
      cases h
      rfl

theorem editAnnouncement_error {id : String} {change : Announcement → Result (Announcement × Bool)}
    (h : (e.editAnnouncement io id change).1 = .error err) :
    (e.editAnnouncement io id change).2.tables = e.tables := by
  rw [editAnnouncement] at h ⊢
  have hp : Publishes e.tables (e.tables.editAnnouncement id change) := editAnnouncement_publishes
  generalize e.tables.editAnnouncement id change = txn at hp h ⊢
  have ht := transact_cases io hp
  rw [h] at ht
  cases ht
  case refused => rfl
  case unsaved hu => exact hu.tables

-- A change that fails keeps the announcements if and only if there's none that undoing it loses or
-- shows again.
theorem announcements_kept_iff (e : Engine F) (io : Io) (c : AnnouncementCall)
    (h : (e.announce io c).1 = .error err) :
    (e.announce io c).2.tables.announcements = e.tables.announcements ↔
      c.Keeps e.tables.announcements := by
  cases c
  case publish a =>
    change (e.publishAnnouncement io a).2.tables.announcements = _ ↔ _
    rw [publishAnnouncement_error h]
    exact withoutId_eq_self_iff
  case withdraw id =>
    change (e.withdrawAnnouncement io id).2.tables.announcements = _ ↔ _
    rw [withdrawAnnouncement_error (map_eq_error h), changeFirst_eq_self_iff]
    refine forall_congr' fun a => imp_congr_right fun _ => ?_
    cases a
    simp [eq_comm]
  case edit id change =>
    change (e.editAnnouncement io id change).2.tables.announcements = _ ↔ _
    rw [editAnnouncement_error (map_eq_error h)]
    exact iff_of_true rfl trivial

def announced : Engine ℚ where
  tables := {
    settings      := .default
    announcements := [⟨"ann-1", "Maintenance", "Tonight", .info, false, 0, none, none, [], []⟩] }

def diskFull : Io where
  fault := some "No space left on device"

-- An announcement that wasn't there before is taken back.
theorem announcements_kept_iff_sample :
    (announced.announce diskFull (.publish ⟨"ann-2", "", "", .info, true, 0, none, none, [], []⟩)
      ).2.tables.announcements = announced.tables.announcements := by
  have hf : (announced.announce diskFull (.publish
      ⟨"ann-2", "", "", .info, true, 0, none, none, [], []⟩)).1 =
        .error (.persistence "No space left on device") := rfl
  apply (announcements_kept_iff _ _ _ hf).mpr
  simp [AnnouncementCall.Keeps, announced]

-- One that's published again is lost, and a withdrawn one is shown again.
theorem announcements_not_kept : ¬∀ (e : Engine ℚ) (io : Io) (c : AnnouncementCall) (err),
    (e.announce io c).1 = .error err →
      (e.announce io c).2.tables.announcements = e.tables.announcements := by
  intro h
  have hp := h announced diskFull
    (.publish ⟨"ann-1", "Maintenance", "Tomorrow", .info, true, 0, none, none, [], []⟩) _ rfl
  exact absurd (congrArg List.length hp) (by decide)

example : ((announced.announce diskFull (.withdraw "ann-1")).2.tables.announcements.map
    (·.enabled)) = [true] := rfl

end Engine
end Billing
