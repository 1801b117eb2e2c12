import Nula.Lib.Buckets
import Nula.Lib.Spacing
import Nula.Server.Connection

/-!
# `Server.Rates` — what the rate limiter admits (`RateLimiter`)

The limiter counts in windows. A window begins with the first message that comes a minute or more after the last
one began, and of the messages of a window the first `n` pass (`admitted_eq`). A minute reaches over one border
at most, as the next window begins a minute later (`windows_skips`). So only at the borders can too many pass:
there the first messages of a window have to keep their distance from those of the window before, place by place
(`limited_iff_apart`).
-/

namespace Nula.Server

open Nula.Buckets

/-- `Duration::from_mins(1)`. -/
def minute : Nat := 60000000000

/-- A message, and what the outside does when it is checked. -/
abbrev Arrival := Env × ClientMessage

/-- When it comes: the reading of `elapsed`. -/
def Arrival.time (a : Arrival) : Instant := a.1.elapsedAt

/-- The readings of the clock, in the order of the code. -/
def Arrival.readings (a : Arrival) : List Instant := [a.1.elapsedAt, a.1.rolledAt]

/-- The two counters. -/
inductive Meter where
  | notes
  | reqs

namespace Meter

/-- What a meter counts. -/
def meters : Meter → ClientMessage → Bool
  | notes, .event _ => true
  | reqs, .req _ _ => true
  | _, _ => false

/-- Its limit, if there is one. -/
def max (limit : RateLimit) : Meter → Option Nat
  | notes => limit.notesPerMinute
  | reqs => limit.reqsPerMinute

/-- What it has counted in the window. -/
def count (rate : RateLimiter) : Meter → Nat
  | notes => rate.notes
  | reqs => rate.reqs

end Meter

namespace RateLimiter

/-- `RateLimiter::new`. -/
def new (now : Instant) : RateLimiter := ⟨now, 0, 0⟩

variable (limit : RateLimit) (meter : Meter)

/-- The limiter after some messages. -/
def feed (rate : RateLimiter) (arrivals : List Arrival) : RateLimiter :=
  arrivals.foldl (fun rate a => (rate.check limit a.1 a.2).2) rate

/-- When the messages came that the meter counts and the limiter let through. -/
def admitted : RateLimiter → List Arrival → List Instant
  | _, [] => []
  | rate, a :: rest =>
      let (refusal, rate) := rate.check limit a.1 a.2
      if meter.meters a.2 && refusal.isNone then Arrival.time a :: admitted rate rest else admitted rate rest

/-! ## One message -/

variable {limit} {meter} {n : Nat} (env : Env) (message : ClientMessage) (rate : RateLimiter)

theorem windowStart_check : (rate.check limit env message).2.windowStart = (rate.roll env).windowStart := by
  unfold check
  cases message with
  | event e =>
      cases limit.notesPerMinute with
      | none => rfl
      | some max =>
          dsimp only
          split <;> rfl
  | req id filters =>
      cases limit.reqsPerMinute with
      | none => rfl
      | some max =>
          dsimp only
          split <;> rfl
  | _ => rfl

/-- A message the meter counts passes while there is room. -/
theorem check_metered (hmax : meter.max limit = some n) (hmeters : meter.meters message = true) :
    ((rate.check limit env message).1.isNone = true ↔ meter.count (rate.roll env) < n) ∧
      meter.count (rate.check limit env message).2 =
        if meter.count (rate.roll env) < n then meter.count (rate.roll env) + 1 else meter.count (rate.roll env) := by
  cases meter with
  | notes =>
      cases message with
      | event e =>
          have hlimit : limit.notesPerMinute = some n := hmax
          simp only [check, hlimit, Meter.count]
          by_cases hfull : n ≤ (rate.roll env).notes
          · simp [hfull, Nat.not_lt.mpr hfull]
          · simp [hfull, Nat.not_le.mp hfull]
      | _ => cases hmeters
  | reqs =>
      cases message with
      | req id filters =>
          have hlimit : limit.reqsPerMinute = some n := hmax
          simp only [check, hlimit, Meter.count]
          by_cases hfull : n ≤ (rate.roll env).reqs
          · simp [hfull, Nat.not_lt.mpr hfull]
          · simp [hfull, Nat.not_le.mp hfull]
      | _ => cases hmeters

theorem check_unlimited (hmax : meter.max limit = none) (hmeters : meter.meters message = true) :
    (rate.check limit env message).2 = rate.roll env := by
  cases meter with
  | notes =>
      cases message with
      | event e =>
          have hlimit : limit.notesPerMinute = none := hmax
          simp [check, hlimit]
      | _ => cases hmeters
  | reqs =>
      cases message with
      | req id filters =>
          have hlimit : limit.reqsPerMinute = none := hmax
          simp [check, hlimit]
      | _ => cases hmeters

/-- Any other leaves the counter alone. -/
theorem count_check_other (hmeters : meter.meters message = false) :
    meter.count (rate.check limit env message).2 = meter.count (rate.roll env) := by
  cases meter with
  | notes =>
      cases message with
      | event e => cases hmeters
      | req id filters =>
          cases hlimit : limit.reqsPerMinute with
          | none => simp [check, hlimit, Meter.count]
          | some max =>
              simp only [check, hlimit, Meter.count]
              split <;> rfl
      | _ => rfl
  | reqs =>
      cases message with
      | event e =>
          cases hlimit : limit.notesPerMinute with
          | none => simp [check, hlimit, Meter.count]
          | some max =>
              simp only [check, hlimit, Meter.count]
              split <;> rfl
      | req id filters => cases hmeters
      | _ => rfl

/-! ## Windows -/

variable (meter) in
/-- The arrivals of the metered messages, window by window; the first window began at `start`. -/
def windows : Instant → List Arrival → List (List Instant)
  | _, [] => [[]]
  | start, a :: rest =>
      let times := if meter.meters a.2 then [Arrival.time a] else []
      if minute ≤ Arrival.time a - start then [] :: (windows a.1.rolledAt rest).modifyHead (times ++ ·)
      else (windows start rest).modifyHead (times ++ ·)

/-- The first of each window; the first window has room for `room` only. -/
def firstsFrom (n room : Nat) : List (List Instant) → List Instant
  | [] => []
  | w :: ws => w.take room ++ (ws.map (List.take n)).flatten

/-- The first `n` of each window. -/
def firsts (n : Nat) (ws : List (List Instant)) : List Instant := (ws.map (List.take n)).flatten

theorem firstsFrom_self (n : Nat) (ws : List (List Instant)) : firstsFrom n n ws = firsts n ws := by
  cases ws with
  | nil => rfl
  | cons w ws => rfl

theorem firstsFrom_modifyHead_nil (n room : Nat) (ws : List (List Instant)) :
    firstsFrom n room (ws.modifyHead ([] ++ ·)) = firstsFrom n room ws := by
  cases ws with
  | nil => rfl
  | cons w ws => rfl

theorem windows_ne_nil (start : Instant) (arrivals : List Arrival) : windows meter start arrivals ≠ [] := by
  induction arrivals generalizing start with
  | nil => exact List.cons_ne_nil _ _
  | cons a rest ih =>
      rw [windows]
      split
      · exact List.cons_ne_nil _ _
      · have := ih start
        cases hws : windows meter start rest with
        | nil => exact absurd hws this
        | cons w ws => exact List.cons_ne_nil _ _

/-- A message in front takes a place, if one is left. -/
theorem firstsFrom_modifyHead_cons {ws : List (List Instant)} (hws : ws ≠ []) (n room : Nat) (t : Instant) :
    firstsFrom n room (ws.modifyHead ([t] ++ ·)) =
      if 0 < room then t :: firstsFrom n (room - 1) ws else firstsFrom n room ws := by
  cases ws with
  | nil => exact absurd rfl hws
  | cons w ws =>
      cases room with
      | zero => rfl
      | succ room => rfl

/-- What passes, from a limiter that has counted some messages of its window. By induction on the arrivals: each is
    counted in a window that may have begun with it. -/
theorem admitted_eq (hmax : meter.max limit = some n) (rate : RateLimiter) (arrivals : List Arrival) :
    admitted limit meter rate arrivals =
      firstsFrom n (n - meter.count rate) (windows meter rate.windowStart arrivals) := by
  induction arrivals generalizing rate with
  | nil => simp [admitted, windows, firstsFrom]
  | cons a rest ih =>
      -- The same from the state in which the window of this message has begun.
      have hrolled : admitted limit meter rate (a :: rest) = firstsFrom n (n - meter.count (rate.roll a.1))
          ((windows meter (rate.roll a.1).windowStart rest).modifyHead
            ((if meter.meters a.2 then [Arrival.time a] else []) ++ ·)) := by
        rw [admitted]
        dsimp only
        rw [ih, windowStart_check]
        by_cases hmeters : meter.meters a.2 = true
        · obtain ⟨hpasses, hcount⟩ := check_metered a.1 a.2 rate hmax hmeters
          rw [if_pos hmeters, firstsFrom_modifyHead_cons (windows_ne_nil _ _), hcount]
          by_cases hroom : meter.count (rate.roll a.1) < n
          · rw [if_pos (by simp [hmeters, hpasses.mpr hroom]), if_pos hroom, if_pos (by omega), Nat.sub_add_eq]
          · have hstopped : (rate.check limit a.1 a.2).1.isNone = false :=
              Bool.eq_false_iff.mpr (fun h => hroom (hpasses.mp h))
            rw [if_neg (by simp [hstopped]), if_neg hroom, if_neg (by omega)]
        · have hother := Bool.eq_false_iff.mpr hmeters
          rw [if_neg (by simp [hother]), if_neg hmeters, firstsFrom_modifyHead_nil,
            count_check_other a.1 a.2 rate hother]
      rw [hrolled, windows]
      by_cases hroll : minute ≤ Arrival.time a - rate.windowStart
      · have hnew : rate.roll a.1 = ⟨a.1.rolledAt, 0, 0⟩ := if_pos hroll
        have hzero : meter.count (⟨a.1.rolledAt, 0, 0⟩ : RateLimiter) = 0 := by
          cases meter <;> rfl
        rw [if_pos hroll, hnew, hzero, Nat.sub_zero, firstsFrom_self]
        simp only [firstsFrom, List.take_nil, List.nil_append, firsts]
      · have hsame : rate.roll a.1 = rate := if_neg hroll
        rw [if_neg hroll, hsame]

/-! ## Windows that are no neighbours -/

/-- No message is lost to the windows. -/
theorem flatten_windows (start : Instant) (arrivals : List Arrival) :
    (windows meter start arrivals).flatten =
      (arrivals.filter (fun a => meter.meters a.2)).map Arrival.time := by
  induction arrivals generalizing start with
  | nil => rfl
  | cons a rest ih =>
      -- What a message adds to the head of the windows comes first in all of them.
      have hhead : ∀ start', ((windows meter start' rest).modifyHead
          ((if meter.meters a.2 then [Arrival.time a] else []) ++ ·)).flatten =
          ((a :: rest).filter (fun a => meter.meters a.2)).map Arrival.time := by
        intro start'
        have htail := ih start'
        cases hws : windows meter start' rest with
        | nil => exact absurd hws (windows_ne_nil _ _)
        | cons w ws =>
            rw [hws] at htail
            rw [List.modifyHead_cons, List.flatten_cons, List.append_assoc, ← List.flatten_cons, htail]
            by_cases hmeters : meter.meters a.2 = true
            · rw [if_pos hmeters, List.filter_cons, if_pos hmeters]
              rfl
            · rw [if_neg hmeters, List.filter_cons, if_neg hmeters]
              rfl
      rw [windows]
      split
      · exact hhead _
      · exact hhead _

/-- What is in the windows came after whatever all arrivals came after. -/
theorem le_of_mem_windows {start z : Instant} {arrivals : List Arrival}
    (hlater : ∀ y ∈ arrivals.flatMap Arrival.readings, z ≤ y) :
    ∀ y ∈ (windows meter start arrivals).flatten, z ≤ y := by
  intro y hy
  rw [flatten_windows] at hy
  obtain ⟨a, ha, rfl⟩ := List.mem_map.mp hy
  refine hlater _ (List.mem_flatMap.mpr ⟨a, (List.mem_filter.mp ha).1, ?_⟩)
  exact List.mem_cons_self

/-- The windows after the first are a minute or more after its beginning. -/
theorem late_of_mem_tail {start : Instant} {arrivals : List Arrival}
    (hordered : (arrivals.flatMap Arrival.readings).Pairwise (· ≤ ·)) :
    ∀ y ∈ (windows meter start arrivals).tail.flatten, start + minute ≤ y := by
  induction arrivals generalizing start with
  | nil =>
      intro y hy
      cases hy
  | cons a rest ih =>
      rw [List.flatMap_cons, List.pairwise_append] at hordered
      obtain ⟨-, hrest, hafter⟩ := hordered
      intro y hy
      rw [windows] at hy
      split at hy
      · rename_i hroll
        have hpassed : start < Arrival.time a := Nat.lt_of_sub_pos (Nat.lt_of_lt_of_le (by decide) hroll)
        have hbegins : start + minute ≤ Arrival.time a := (Nat.le_sub_iff_add_le' hpassed.le).mp hroll
        refine hbegins.trans ?_
        rw [List.tail_cons] at hy
        cases hws : windows meter a.1.rolledAt rest with
        | nil => exact absurd hws (windows_ne_nil _ _)
        | cons w ws =>
            rw [hws, List.modifyHead_cons, List.flatten_cons, List.append_assoc, ← List.flatten_cons, ← hws] at hy
            rcases List.mem_append.mp hy with hy | hy
            · split at hy
              · exact (List.mem_singleton.mp hy).ge
              · cases hy
            · exact le_of_mem_windows (fun z hz => hafter _ List.mem_cons_self z hz) y hy
      · refine ih hrest y ?_
        rwa [List.tail_modifyHead] at hy

/-- The windows after the second are a minute or more after whatever came before all arrivals: the second begins
    with one of them. -/
theorem late_of_mem_tail_tail {start z : Instant} {arrivals : List Arrival}
    (hordered : (arrivals.flatMap Arrival.readings).Pairwise (· ≤ ·))
    (hlater : ∀ y ∈ arrivals.flatMap Arrival.readings, z ≤ y) :
    ∀ y ∈ (windows meter start arrivals).tail.tail.flatten, z + minute ≤ y := by
  induction arrivals generalizing start with
  | nil =>
      intro y hy
      cases hy
  | cons a rest ih =>
      rw [List.flatMap_cons] at hordered hlater
      obtain ⟨-, hrest, -⟩ := List.pairwise_append.mp hordered
      intro y hy
      rw [windows] at hy
      split at hy
      · rw [List.tail_cons, List.tail_modifyHead] at hy
        have hrolled : z ≤ a.1.rolledAt :=
          hlater _ (List.mem_append_left _ (List.mem_cons_of_mem _ List.mem_cons_self))
        exact (Nat.add_le_add_right hrolled minute).trans (late_of_mem_tail hrest y hy)
      · rw [List.tail_modifyHead] at hy
        exact ih hrest (fun y hy => hlater y (List.mem_append_right _ hy)) y hy

/-- Only neighbours can be closer than a minute. -/
theorem windows_skips (start : Instant) {arrivals : List Arrival}
    (hordered : (arrivals.flatMap Arrival.readings).Pairwise (· ≤ ·)) :
    Skips minute (windows meter start arrivals) := by
  induction arrivals generalizing start with
  | nil => exact True.intro
  | cons a rest ih =>
      rw [List.flatMap_cons, List.pairwise_append] at hordered
      obtain ⟨-, hrest, hafter⟩ := hordered
      -- The message itself is a minute or more before the windows after the next.
      have hhead : ∀ start', Skips minute ((windows meter start' rest).modifyHead
          ((if meter.meters a.2 then [Arrival.time a] else []) ++ ·)) := by
        intro start'
        refine (ih start' hrest).modifyHead (fun x hx => ?_)
        have hx : x = Arrival.time a := by
          split at hx
          · exact List.mem_singleton.mp hx
          · cases hx
        rw [hx]
        exact late_of_mem_tail_tail hrest (fun y hy => hafter _ List.mem_cons_self y hy)
      rw [windows]
      split
      · cases hws : windows meter a.1.rolledAt rest with
        | nil => exact True.intro
        | cons w ws =>
            have hnext := hhead a.1.rolledAt
            rw [hws] at hnext
            refine ⟨fun x hx => ?_, hnext⟩
            cases hx
      · exact hhead start

/-! ## Any minute -/

variable (limit) (meter) in
/-- Who is admitted has arrived, in the same order. -/
theorem admitted_sublist (rate : RateLimiter) (arrivals : List Arrival) :
    (admitted limit meter rate arrivals).Sublist (arrivals.map Arrival.time) := by
  induction arrivals generalizing rate with
  | nil => exact List.Sublist.slnil
  | cons a rest ih =>
      rw [admitted, List.map_cons]
      dsimp only
      split
      · exact (ih _).cons_cons _
      · exact (ih _).cons _

variable (meter) in
/-- No counter passes its limit. -/
theorem count_check_le (hcount : meter.count rate ≤ (meter.max limit).getD 0) :
    meter.count (rate.check limit env message).2 ≤ (meter.max limit).getD 0 := by
  have hroll : meter.count (rate.roll env) ≤ (meter.max limit).getD 0 := by
    unfold roll
    split
    · cases meter <;> exact Nat.zero_le _
    · exact hcount
  by_cases hmeters : meter.meters message = true
  · cases hmax : meter.max limit with
    | none =>
        rw [hmax] at hroll
        rw [check_unlimited env message rate hmax hmeters]
        exact hroll
    | some n =>
        rw [hmax] at hroll
        rw [(check_metered env message rate hmax hmeters).2]
        split
        · assumption
        · exact hroll
  · rw [count_check_other env message rate (Bool.eq_false_iff.mpr hmeters)]
    exact hroll

/-- The times of arrival are among the readings. -/
theorem times_ordered {arrivals : List Arrival} (hordered : (arrivals.flatMap Arrival.readings).Pairwise (· ≤ ·)) :
    (arrivals.map Arrival.time).Pairwise (· ≤ ·) := by
  obtain ⟨-, hpairs⟩ := List.pairwise_flatMap.mp hordered
  exact List.pairwise_map.mpr (hpairs.imp (fun h => h _ List.mem_cons_self _ List.mem_cons_self))

/-- **No minute holds more than its limit exactly when neighbouring windows keep their distance**: where the earlier
    window lacks `m` messages of its `n`, the `m + i`-th of the later one comes a minute or more after the `i`-th
    of the earlier. What passes are the first `n` of each window, a row of them is within the limit when each comes
    a minute after the `n`-th before it, and that one is found in the window before.

    By induction on the arrivals what passes is determined by the windows (`admitted_eq`), and windows that follow
    each other are a minute long, so that times two windows apart need no looking at (`windows_skips`). -/
theorem limited_iff_apart (limit : RateLimit) (meter : Meter) {n : Nat} (hmax : meter.max limit = some n)
    (start : Instant) {arrivals : List Arrival}
    (hordered : (arrivals.flatMap Arrival.readings).Pairwise (· ≤ ·)) :
    (AtMostWithin n minute (admitted limit meter (new start) arrivals) ↔
      (windows meter start arrivals).IsChain (Apart n minute)) ∧
    ∀ (other : Meter) (k : Nat), other.count (feed limit (new start) (arrivals.take k)) ≤ (other.max limit).getD 0 := by
  constructor
  · have hsorted := (times_ordered hordered).sublist (admitted_sublist limit meter (new start) arrivals)
    have hempty : meter.count (new start) = 0 := by
      cases meter <;> rfl
    have hpass : admitted limit meter (new start) arrivals = firsts n (windows meter start arrivals) := by
      rw [admitted_eq hmax, hempty, Nat.sub_zero, firstsFrom_self]
      rfl
    rw [within_iff_spaced hsorted, hpass]
    exact spaced_iff_apart (windows_skips start hordered)
  · intro other k
    refine foldl_keeps (P := fun rate => other.count rate ≤ (other.max limit).getD 0)
      (fun rate a h => count_check_le other a.1 a.2 rate h) _ ?_
    cases other <;> exact Nat.zero_le _

end RateLimiter

namespace Sample

open Nula.Sample

/-- The note of carol, this long after the limiter began. -/
def noteAt (seconds : Nat) : Arrival :=
  ({ serverEnv 0 with elapsedAt := seconds * 1000000000, rolledAt := seconds * 1000000000 }, .event genuine)

/-- One note a minute. -/
def oneNote : RateLimit := ⟨some 1, none⟩

end Sample

/-- One note at once, one that is refused, and one when the next window begins. -/
theorem limited_iff_apart_notes :
    (AtMostWithin 1 minute (RateLimiter.admitted Sample.oneNote .notes (RateLimiter.new 0)
        [Sample.noteAt 0, Sample.noteAt 30, Sample.noteAt 60]) ↔
      (RateLimiter.windows .notes 0 [Sample.noteAt 0, Sample.noteAt 30, Sample.noteAt 60]).IsChain (Apart 1 minute)) ∧
    (∀ (other : Meter) (k : Nat), other.count (RateLimiter.feed Sample.oneNote (RateLimiter.new 0)
      ([Sample.noteAt 0, Sample.noteAt 30, Sample.noteAt 60].take k)) ≤ (other.max Sample.oneNote).getD 0) ∧
    (RateLimiter.windows .notes 0 [Sample.noteAt 0, Sample.noteAt 30, Sample.noteAt 60]).IsChain (Apart 1 minute) := by
  have hordered : ([Sample.noteAt 0, Sample.noteAt 30, Sample.noteAt 60].flatMap Arrival.readings).Pairwise
      (· ≤ ·) := by decide
  obtain ⟨hlimited, hcounts⟩ := RateLimiter.limited_iff_apart Sample.oneNote .notes rfl 0 hordered
  exact ⟨hlimited, hcounts, by decide⟩

/-- With a limit of one note, one comes at the end of a window and one at the beginning of the next. -/
theorem two_in_a_minute : ¬AtMostWithin 1 minute
    (RateLimiter.admitted Sample.oneNote .notes (RateLimiter.new 0) [Sample.noteAt 59, Sample.noteAt 60]) := by
  intro h
  have htwo := h 59000000000
  revert htwo
  decide +kernel

end Nula.Server
