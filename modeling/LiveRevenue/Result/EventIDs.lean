import LiveRevenue.Json.RoundTrip
import LiveRevenue.Result.Leaderboard

/-! # The event id on its way to the consumers

The relay writes the numeral of the event id into a header and the consumers parse it
back. So a message carries the id of its row, rows keep their ids apart, and no consumer
skips a relayed message for want of an id.
-/

namespace LiveRevenue

open Transact
open Json (head_toDigits)

section General

variable [Platform] {calls : ℕ → Call} {w : World} {s : State}
  {K : State → Act Choice → State → Prop}

theorem reach_log_eventID (hs : Start w) (h : (system calls).Reach K (Pool.fresh w) s) {m : Message}
    (hm : m ∈ s.world.log.map (·.2)) : extractEventID m ≠ 0 := by
  have hi := (reach_good (.any calls w) hs Env.any_allows h).1
  obtain ⟨r, hr, -, hid⟩ := hi.row_of_message hm
  obtain ⟨h1, -⟩ := hi.engine.below.outboxEvents r hr
  omega

theorem reach_not_missing (hs : Start w) (h : (system calls).Reach K (Pool.fresh w) s)
    {e : ℕ × Mark} (he : e ∈ s.world.marked) : e.2.metadata ≠ "missing_event_id" := by
  intro hmissing
  have hdel := reach_delivery hs h
  have hmarks := hdel.marked e he
  have hstarted : ∀ m, (calls e.1).message? = some m → extractEventID m ≠ 0 := fun m hm =>
    reach_log_eventID hs h (hdel.started e.1 m hm (hdel.markers e he))
  generalize calls e.1 = c at hmarks hstarted
  cases c with
  | leaderboard m => exact hstarted m rfl (hmarks.2.2.1 hmissing)
  | points m => exact hstarted m rfl (hmarks.2.2.1 hmissing)
  | settlement m => exact hmarks.2.2 hmissing
  | _ => cases hmarks

/-- The header of an event round-trips: every `uint64` fits the buffer, is written as its
numeral without leading zeros and parsed back; so each row has a message, with its id; in
a reachable state the messages of different rows have different ids, and none is skipped. -/
theorem event_id_round_trips (calls : ℕ → Call) {w : World} (hs : Start w) {s : State}
    (h : (system calls).Reach (fun _ _ _ => True) (Pool.fresh w) s) :
    (∀ v < 2 ^ 64, formatUint v = some (toString v) ∧ parseUint (toString v) = some v ∧
      (v ≠ 0 → (toString v).toList.head? ≠ some '0')) ∧
    (∀ r : OutboxRow, 1 ≤ r.eventID → r.eventID < 2 ^ 64 →
      ∃ m, r.message = some m ∧ extractEventID m = r.eventID) ∧
    (∀ r ∈ s.world.db.outboxEvents, ∀ r' ∈ s.world.db.outboxEvents, ∀ m m', r.message = some m →
      r'.message = some m' → extractEventID m = extractEventID m' → r = r') ∧
    (∀ m ∈ s.world.log.map (·.2), extractEventID m ≠ 0) ∧
    ∀ e ∈ s.world.marked, e.2.metadata ≠ "missing_event_id" := by
  refine ⟨fun v hv => ⟨formatUint_eq hv, parseUint_toString hv, fun h0 => ?_⟩,
    fun r _ hr => ⟨_, r.message_eq hr, eventID_of_message hr (r.message_eq hr)⟩,
    fun r hr r' hr' m m' hm hm' hid => ?_, fun m hm => reach_log_eventID hs h hm,
    fun e he => reach_not_missing hs h he⟩
  · rw [show (toString v).toList = Nat.toDigits 10 v from Nat.toList_repr]
    exact head_toDigits h0
  · have hi := (reach_good (.any calls w) hs Env.any_allows h).1
    rw [hi.eventID_of_message hr hm, hi.eventID_of_message hr' hm'] at hid
    exact hi.row_unique hs hr hr' hid

end General

section Witness

open Plain

/-- A gift is relayed and applied: its message carries the id of its row. -/
theorem event_id_round_trips_relayed : ∃ s : State, s.world.marked.length = 1 ∧
    (∀ m ∈ s.world.log.map (·.2), extractEventID m ≠ 0) ∧
    ∀ e ∈ s.world.marked, e.2.metadata ≠ "missing_event_id" := by
  obtain ⟨s, hr, hp⟩ := Machine.exists_reach (M := system giftAndBoards)
    (s := Pool.fresh (World.boot migrated)) (K := fun _ _ _ => true)
    (p := fun s => decide (s.world.marked.length = 1))
    (launch 0 21 5 ++ launch 1 9 6 ++ launch 2 9 7) (by decide +kernel)
  obtain ⟨-, -, -, hlog, hmarked⟩ := event_id_round_trips giftAndBoards
    (Start.boot rfl rfl rfl rfl) (hr.mono fun _ _ _ _ => trivial)
  exact ⟨s, of_decide_eq_true hp, hlog, hmarked⟩

end Witness

end LiveRevenue
