import Mathlib

-- A count of events since the first of them, which starts anew once that's a window ago.
structure Counter where
  start : Nat
  count : Nat
  deriving DecidableEq

-- The events of a window, which ends just before the next one of its length begins.
def during (w t : Nat) (ts : List Nat) : List Nat := ts.filter fun a => t ≤ a && a < t + w

theorem during_cons_le : (during w t (now :: ts)).length ≤ (during w t ts).length + 1 := by
  rw [during, List.filter_cons]
  split
  case isTrue => exact Nat.le_refl _
  case isFalse => exact Nat.le_succ _

theorem during_cons_of_le (h : t + w ≤ now) : during w t (now :: ts) = during w t ts := by
  refine List.filter_cons_of_neg ?_
  rw [Bool.and_eq_true, decide_eq_true_eq, decide_eq_true_eq]
  omega

-- No window has more than so many events.
def Paced (w limit : Nat) (ts : List Nat) : Prop := ∀ t, (during w t ts).length ≤ limit

namespace Counter

variable {w limit now t : Nat} {c : Counter} {ts : List Nat}

def live (w now : Nat) (c : Counter) : Bool := now - c.start < w

theorem live_iff (hw : 0 < w) : c.live w now ↔ now < c.start + w := by
  rw [live, decide_eq_true_eq]
  omega

def renew (w now : Nat) (c : Counter) : Counter := if c.live w now then c else ⟨now, 0⟩

-- Counts another event, unless there have been as many as are let through.
def take (w limit now : Nat) (c : Counter) : Bool × Counter :=
  let c := c.renew w now
  if limit ≤ c.count then (false, c) else (true, { c with count := c.count + 1 })

-- The events that a counter stands for, the latest first. Those it hasn't counted are a window
-- older than its first.
structure Counts (w : Nat) (c : Counter) (ts : List Nat) : Prop where
  split : ∃ recent old, ts = recent ++ old ∧ recent.length = c.count ∧
    (∀ t ∈ recent, c.start ≤ t) ∧ ∀ t ∈ old, t + w ≤ c.start

theorem Counts.fresh (h : ∀ t ∈ ts, t + w ≤ now) : Counts w ⟨now, 0⟩ ts :=
  ⟨[], ts, rfl, rfl, nofun, h⟩

theorem Counts.cons (h : Counts w c ts) (hn : c.start ≤ now) :
    Counts w { c with count := c.count + 1 } (now :: ts) := by
  have ⟨recent, old, he, hl, hr, ho⟩ := h.split
  refine ⟨now :: recent, old, by rw [he]; rfl, by rw [List.length_cons, hl], ?_, ho⟩
  exact List.forall_mem_cons.mpr ⟨hn, hr⟩

-- A window with the latest event has only events that are counted.
theorem Counts.during_le (h : Counts w c ts) (hs : c.start ≤ now) (ht : now < t + w) :
    (during w t ts).length ≤ c.count := by
  have ⟨recent, old, he, hr, _, ho⟩ := h.split
  have hd : during w t old = [] := by
    rw [during, List.filter_eq_nil_iff]
    intro a ha
    have := ho a ha
    simp only [Bool.and_eq_true, decide_eq_true_eq]
    omega
  have he : during w t ts = during w t recent ++ during w t old := he ▸ List.filter_append ..
  rw [he, hd, List.append_nil, ← hr]
  exact List.length_filter_le _ _

theorem Counts.paced (h : Counts w c ts) (hp : Paced w limit ts) (hs : c.start ≤ now)
    (hc : c.count < limit) : Paced w limit (now :: ts) := by
  intro t
  rw [during, List.filter_cons]
  split
  case isFalse => exact hp t
  case isTrue hn =>
    rw [Bool.and_eq_true, decide_eq_true_eq, decide_eq_true_eq] at hn
    have := h.during_le hs hn.right
    rw [List.length_cons]
    exact Nat.lt_of_le_of_lt this hc

theorem paced_nil : Paced w limit [] := fun _ => Nat.zero_le _

-- What taking one more does to what's counted, where the counter starts anew only once every event
-- is a window old.
theorem Counts.take (h : c.live w now → Counts w c ts) (ho : ¬c.live w now → ∀ t ∈ ts, t + w ≤ now)
    (hw : 0 < w) (hs : c.start ≤ now) (hp : Paced w limit ts) :
    ((c.take w limit now).1 = true →
      Counts w (c.take w limit now).2 (now :: ts) ∧ Paced w limit (now :: ts)) ∧
    ((c.take w limit now).1 = false → Counts w (c.take w limit now).2 ts) ∧
    (c.take w limit now).2.start ≤ now ∧ (c.take w limit now).2.live w now := by
  have hc : Counts w (c.renew w now) ts := by
    rw [renew]
    split
    case isTrue hl => exact h hl
    case isFalse hl => exact .fresh (ho hl)
  have hb : (c.renew w now).start ≤ now ∧ (c.renew w now).live w now := by
    rw [renew]
    split
    case isTrue hl => exact ⟨hs, hl⟩
    case isFalse => exact ⟨Nat.le_refl _, by simpa [live] using hw⟩
  simp only [Counter.take]
  split
  case isTrue => exact ⟨nofun, fun _ => hc, hb.left, hb.right⟩
  case isFalse hn =>
    have hp := hc.paced hp hb.left (Nat.not_le.mp hn)
    exact ⟨fun _ => ⟨hc.cons hb.left, hp⟩, nofun, hb.left, hb.right⟩

section

variable {l : List (Nat × Nat)}

-- Each event lies in the window of the count that it belongs to, whose start comes with it, and no
-- such window has more than so many of them.
def Capped (w limit : Nat) (l : List (Nat × Nat)) : Prop :=
  ∀ e ∈ l, e.2 ≤ e.1 ∧ e.1 < e.2 + w ∧ (during w e.2 (l.map (·.1))).length ≤ limit

-- A counter stands for the latest events. The windows of those before it are over when it starts.
structure Charges (w : Nat) (c : Counter) (l : List (Nat × Nat)) : Prop where
  split : ∃ recent old, l = recent ++ old ∧ recent.length = c.count ∧
    (∀ e ∈ recent, e.2 = c.start) ∧ ∀ e ∈ old, e.2 + w ≤ c.start

theorem Charges.fresh (h : ∀ e ∈ l, e.2 + w ≤ now) : Charges w ⟨now, 0⟩ l :=
  ⟨[], l, rfl, rfl, nofun, h⟩

theorem Charges.cons (h : Charges w c l) :
    Charges w { c with count := c.count + 1 } ((now, c.start) :: l) := by
  have ⟨recent, old, he, hl, hr, ho⟩ := h.split
  refine ⟨(now, c.start) :: recent, old, by rw [he]; rfl, by rw [List.length_cons, hl], ?_, ho⟩
  exact List.forall_mem_cons.mpr ⟨rfl, hr⟩

theorem Charges.start_le (h : Charges w c l) : ∀ e ∈ l, e.2 ≤ c.start := by
  have ⟨recent, old, he, _, hr, ho⟩ := h.split
  intro e hm
  cases List.mem_append.mp (he ▸ hm)
  case inl hm => exact (hr e hm).le
  case inr hm => exact (Nat.le_add_right _ _).trans (ho e hm)

-- The window of a counter only has the events that it stands for.
theorem Charges.during_le (h : Charges w c l) (hp : Capped w limit l) :
    (during w c.start (l.map (·.1))).length ≤ c.count := by
  have ⟨recent, old, he, hl, _, ho⟩ := h.split
  have hd : during w c.start (old.map (·.1)) = [] := by
    rw [during, List.filter_eq_nil_iff, List.forall_mem_map]
    intro e hm
    have := (hp e (he ▸ List.mem_append_right _ hm)).right.left
    have := ho e hm
    simp only [Bool.and_eq_true, decide_eq_true_eq]
    omega
  have he : during w c.start (l.map (·.1)) = during w c.start (recent.map (·.1)) ++
      during w c.start (old.map (·.1)) := by
    rw [he, List.map_append]
    exact List.filter_append ..
  rw [he, hd, List.append_nil, ← hl, ← @List.length_map _ _ recent (·.1)]
  exact List.length_filter_le _ _

theorem Charges.capped (h : Charges w c l) (hp : Capped w limit l) (hs : c.start ≤ now)
    (hn : now < c.start + w) (hc : c.count < limit) : Capped w limit ((now, c.start) :: l) := by
  have ⟨recent, old, he, _, hr, ho⟩ := h.split
  have hd : (during w c.start (now :: l.map (·.1))).length ≤ limit :=
    during_cons_le.trans (Nat.add_le_of_le_sub (by omega) ((h.during_le hp).trans (by omega)))
  refine List.forall_mem_cons.mpr ⟨⟨hs, hn, hd⟩, fun e hm => ?_⟩
  have ⟨hf, hl, hm'⟩ := hp e hm
  refine ⟨hf, hl, ?_⟩
  cases List.mem_append.mp (he ▸ hm)
  case inl hm => exact hr e hm ▸ hd
  case inr hm =>
    rw [List.map_cons, during_cons_of_le ((ho e hm).trans hs)]
    exact hm'

-- What taking one more does to what's charged, where counts start anew only once the others' windows
-- are over.
theorem Charges.take (h : c.live w now → Charges w c l)
    (ho : ¬c.live w now → ∀ e ∈ l, e.2 + w ≤ now) (hw : 0 < w) (hs : c.start ≤ now)
    (hp : Capped w limit l) : let c' := (c.take w limit now).2
    ((c.take w limit now).1 = true → Charges w c' ((now, c'.start) :: l) ∧
      Capped w limit ((now, c'.start) :: l)) ∧
    ((c.take w limit now).1 = false → Charges w c' l) ∧
    c'.start ≤ now ∧ now < c'.start + w ∧ c.start ≤ c'.start := by
  have hc : Charges w (c.renew w now) l := by
    rw [renew]
    split
    case isTrue hl => exact h hl
    case isFalse hl => exact .fresh (ho hl)
  have hb : (c.renew w now).start ≤ now ∧ now < (c.renew w now).start + w ∧
      c.start ≤ (c.renew w now).start := by
    rw [renew]
    split
    case isTrue hl => exact ⟨hs, by rw [live, decide_eq_true_eq] at hl; omega, Nat.le_refl _⟩
    case isFalse hl => exact ⟨Nat.le_refl _, by simpa using hw, hs⟩
  simp only [Counter.take]
  split
  case isTrue => exact ⟨nofun, fun _ => hc, hb⟩
  case isFalse hn =>
    have hp := hc.capped hp hb.left hb.right.left (Nat.not_le.mp hn)
    exact ⟨fun _ => ⟨hc.cons, hp⟩, nofun, hb⟩

end

end Counter
