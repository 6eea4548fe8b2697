import LiveRevenue.Proof.Delivery
import LiveRevenue.Schema.Seed

/-! # The relay loses no event

A row is marked only by a transaction all of whose rows its own relay has sent, and
sending happens only from committed rows. Nothing else touches `published_at`, so
marked rows are on the log in every reachable state. A relay whose `COMMIT` fails
unapplied has marked nothing.
-/

namespace LiveRevenue

open Transact

section General

variable [Platform]

/-- A message with a row's topic, key and payload, and its id in the header. -/
structure Message.Carries (m : Message) (r : OutboxRow) : Prop where
  topic : m.topic = r.topic
  key : m.key = r.eventKey
  value : m.value = r.payload
  headers : m.headers = [("event_id", toString r.eventID)]

/-- Process `t` has marked `n` rows, in one transaction, and has sent them all; the initial tables
are `d`. -/
def Relayed (d : DB) (t : ℕ) (w : World) (n : ℕ) : Prop :=
  ∃ h₁ h₂, ∃ p : Published (dbAt d h₁),
    w.store.binlog = h₁ ++ (t, p.writes) :: h₂ ∧ (∀ e ∈ h₁ ++ h₂, e.1 ≠ t) ∧
    p.rows.length = n ∧ ∀ r ∈ p.rows, ∃ m ∈ w.sentBy t, m.Carries r

/-- Marked rows are on the log and the log holds nothing but rows; the tables are what the
transactions made of the initial ones, and a relay's are what its result says. -/
structure NothingLost (calls : ℕ → Call) (w : World) (s : State) : Prop where
  marked : ∀ r ∈ s.world.db.outboxEvents, r.publishedAt ≠ none →
    ∃ m ∈ s.world.log.map (·.2), m.Carries r
  logged : ∀ m ∈ s.world.log.map (·.2), ∃ r ∈ s.world.db.outboxEvents, m.Carries r
  tables : s.world.db = dbAt w.db s.world.store.binlog
  relayed : ∀ t n, (s.threads t).result? = some (.relayed (.ok n)) → Relayed w.db t s.world n
  failed : ∀ t e, (s.threads t).result? = some (.relayed (.error e)) →
    (system calls).Reach (Answered t) (Pool.fresh w) s → ∀ x ∈ s.world.store.binlog, x.1 ≠ t

variable {𝓔 : Env} {t : ℕ} {w w' : World}

omit [Platform] in
theorem Message.carries {r : OutboxRow} {m : Message} (h : r.eventID < 2 ^ 64)
    (hm : r.message = some m) : m.Carries r := by
  rw [r.message_eq h] at hm
  cases hm
  exact ⟨rfl, rfl, rfl, rfl⟩

theorem Inv.carries (hi : Inv 𝓔 w) {r : OutboxRow} (hr : r ∈ w.db.outboxEvents) {m : Message}
    (hm : r.message = some m) : m.Carries r :=
  Message.carries (hi.engine.below.outboxEvents r hr).2.2 hm

def World.MarkedSent (w : World) : Prop :=
  ∀ r ∈ w.db.outboxEvents, r.publishedAt ≠ none → ∃ m ∈ w.log.map (·.2), r.message = some m

theorem Guar.markedSent (hs : Start 𝓔.start) (hi : Inv 𝓔 w) (hp : w.MarkedSent)
    (hg : Guar 𝓔 t w w') : w'.MarkedSent := by
  have hlog : ∀ m ∈ w.log.map (·.2), m ∈ w'.log.map (·.2) := fun m hm =>
    (hg.log_grows.map _).subset hm
  intro r hr hpub
  rcases hg.tables with ⟨-, hd⟩ | ⟨ws, -, hd, ht, hsent⟩
  · obtain ⟨m, hm, he⟩ := hp r (hd ▸ hr) hpub
    exact ⟨m, hlog m hm, he⟩
  · rw [hd] at hr
    obtain ⟨r', hr', hi', hp'⟩ := mem_applyAll_outbox hr
    have hid : r'.eventID = r.eventID := (OutboxRow.eq_of_inserted hi').1
    have hnew : ∀ {x}, x ∈ ws.filterMap Write.outbox? → w.db.NewEvent x.eventID := fun hx => by
      rw [hi.db_eq]
      exact (ht.of_outbox hx).newEvent
    rcases hp' with hp' | ⟨at_, hm⟩
    · rcases List.mem_append.mp hr' with hr' | hr'
      · obtain ⟨m, hm, he⟩ := hp r' hr' (hp' ▸ hpub)
        exact ⟨m, hlog m hm, (message_congr hi').symm.trans he⟩
      · exact absurd (hp'.symm.trans (ht.of_outbox hr').unpublished) hpub
    · -- the row is marked by this transaction, so its relay has sent it
      obtain ⟨r₀, hr₀, hid₀, m, hm, hm₀⟩ := hsent.sent _ _ hm
      rcases List.mem_append.mp hr' with hr' | hr'
      · obtain rfl := hi.row_unique hs hr' hr₀ (hid.trans hid₀.symm)
        exact ⟨m, hlog m (World.mem_log_of_sentBy hm), (message_congr hi').symm.trans hm₀⟩
      · exact absurd (hid₀.trans hid.symm) (hnew hr' r₀ hr₀)

theorem RelayPost.relayed (hs : Start 𝓔.start) (hi : Inv 𝓔 w) {n : ℤ}
    (hc : 𝓔.calls t = .runOnce n) {k : ℕ} (hp : RelayPost 𝓔 t (.ok k) w) :
    Relayed 𝓔.start.db t w k := by
  obtain ⟨-, d, hg, p, hcom, rfl, hsent⟩ := hp
  have hmem : (t, p.writes) ∈ w.store.binlog :=
    Store.mem_committedBy.mp (hcom ▸ List.mem_singleton_self _)
  obtain ⟨h₁, h₂, hb, -, ht⟩ := hi.legal.at hmem
  obtain ⟨q, hq⟩ : ∃ q : Published (dbAt 𝓔.start.db h₁), p.writes = q.writes := by
    rw [hc] at ht
    generalize p.writes = ws at ht
    cases ht with
    | nothing => exact ⟨⟨[], 0, by simp, List.nodup_nil⟩, rfl⟩
    | published q => exact ⟨q, rfl⟩
  have hids : p.rows.map (·.eventID) = q.rows.map (·.eventID) := by
    rw [← p.picks.2.2.2.2.2.1, hq, q.picks.2.2.2.2.2.1]
  have hgrows : (dbAt 𝓔.start.db h₁).Grows w.db := by
    rw [hi.db_eq]
    exact dbAt_grows ⟨_, hb.symm⟩
  refine ⟨h₁, h₂, q, hq ▸ hb, Store.ne_of_committedBy hb hcom, ?_, fun r hr => ?_⟩
  · rw [← List.length_map (f := (·.eventID)), ← hids, List.length_map]
  · -- the row the relay sent and the one it marked are the same row later on
    obtain ⟨r', hr', he⟩ := List.mem_map.mp (hids ▸ List.mem_map_of_mem hr : r.eventID ∈ _)
    obtain ⟨x, hx, hxi, -⟩ := hgrows.outboxEvents r (q.mem r hr).1
    obtain ⟨x', hx', hxi', -⟩ := hg.outboxEvents r' (p.mem r' hr').1
    have hid : x.eventID = r.eventID := (OutboxRow.eq_of_inserted hxi).1
    have hxx := hi.row_unique hs hx hx' (by
      rw [hid, (OutboxRow.eq_of_inserted hxi').1, he])
    obtain ⟨m, hm, hrm⟩ := hsent r' hr'
    refine ⟨m, hm, Message.carries ?_ ?_⟩
    · rw [← hid]
      exact (hi.engine.below.outboxEvents x hx).2.2
    · rw [← message_congr hxi, hxx, message_congr hxi', hrm]

theorem reach_relayFailed {calls : ℕ → Call} {w : World} (hs : Start w) {s : State}
    (h : (system calls).Reach (Answered t) (Pool.fresh w) s) {e : Err}
    (hr : (s.threads t).result? = some (.relayed (.error e))) :
    ∀ x ∈ s.world.store.binlog, x.1 ≠ t := by
  have hg := reach_good (.answered calls w t) hs Env.answered_allows h
  have hfin := hg.result hr
  generalize (Env.answered calls w t).calls t = c at hfin
  cases hfin with
  | relayed hp =>
    have hnone := hp.2.resolve_right (Env.answered_not_losing)
    rintro ⟨u, ws⟩ hm rfl
    have hmem := Store.mem_committedBy.mpr hm
    rw [hnone] at hmem
    cases hmem

/-- Whatever fails and whoever dies: marked rows are on the log, the log holds only committed
rows, a relay that returns `n` marked `n` rows it sent, and one that fails has marked nothing, if
its `COMMIT` did not go through unanswered. -/
theorem relay_loses_nothing (calls : ℕ → Call) {w : World} (hs : Start w)
    (hw : ∀ r ∈ w.db.outboxEvents, r.publishedAt = none) {s : State}
    (h : (system calls).Reach (fun _ _ _ => True) (Pool.fresh w) s) : NothingLost calls w s := by
  have hS := (Env.any calls w).sound hs (Env.any_allows (K := fun _ _ _ => True))
  have hg := hS.reach hs.inv hs.fresh h
  have hsent : s.world.MarkedSent := hS.reach_keeps (P := World.MarkedSent) hs.inv hs.fresh
    (fun r hr hp => absurd (hw r hr) hp) (fun hi hp hgu => hgu.markedSent hs hi hp)
    (fun hp => hp) h
  constructor
  · intro r hr hp
    obtain ⟨m, hm, he⟩ := hsent r hr hp
    exact ⟨m, hm, hg.1.carries hr he⟩
  · intro m hm
    obtain ⟨r, hr, hrm, -⟩ := hg.1.row_of_message hm
    exact ⟨r, hr, hg.1.carries hr hrm⟩
  · exact hg.1.db_eq
  · intro t n hr
    have hfin := hg.result hr
    generalize hc : (Env.any calls w).calls t = c at hfin
    cases hfin with
    | relayed hp => exact hp.relayed hs hg.1 hc
  · intro t e hr hanswered
    exact reach_relayFailed hs hanswered hr

end General

section Witness

open Plain

def rechargeAndRelay : ℕ → Call
  | 0 => .recharge ⟨"r1", 2001, 100, "card"⟩
  | _ => .runOnce 10

/-- The first relay sends and dies before it can mark; the second sends again and marks. -/
theorem relay_loses_nothing_crash : ∃ s : State,
    (s.world.db.outboxEvents.map (·.publishedAt)) = [some 6] ∧ s.world.log.length = 2 ∧
    NothingLost rechargeAndRelay (World.boot migrated) s := by
  obtain ⟨s, hr, hp⟩ := Machine.exists_reach (M := system rechargeAndRelay)
    (s := Pool.fresh (World.boot migrated)) (K := fun _ _ _ => true)
    (p := fun s => decide (s.world.db.outboxEvents.map (·.publishedAt) = [some 6] ∧
      s.world.log.length = 2))
    (startAll [0, 1, 2] ++ resume 0 15 4 ++ resume 1 4 5 ++ kill 1 ++ resume 2 7 6)
    (by decide +kernel)
  obtain ⟨h1, h2⟩ := of_decide_eq_true hp
  exact ⟨s, h1, h2, relay_loses_nothing rechargeAndRelay (Start.boot rfl rfl rfl rfl)
    (fun r hr => by cases hr) (hr.mono fun _ _ _ _ => trivial)⟩

end Witness

end LiveRevenue
