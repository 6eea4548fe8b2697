import LiveRevenue.Proof.System

/-! # What reaches the consumers

A consumer reads back the event id the relay wrote, so the messages of one event are
all the same. In every run a handler works on a message of the log, and what it
marks or pushes to Redis is backed by its dedupe row.
-/

namespace LiveRevenue

open Transact

theorem World.mem_log_of_sentBy {w : World} {t : ℕ} {m : Message} (h : m ∈ w.sentBy t) :
    m ∈ w.log.map (·.2) := by
  obtain ⟨e, he, hm⟩ := List.mem_filterMap.mp h
  split at hm
  · cases hm
    exact List.mem_map_of_mem he
  · cases hm

def Call.message? : Call → Option Message
  | .settlement m => some m
  | .leaderboard m => some m
  | .points m => some m
  | _ => none

def Call.topics : Call → List String
  | .settlement _ => [sessionClosedTopic]
  | .leaderboard _ => [giftAcceptedTopic]
  | .points _ => pointsTopics
  | _ => []

theorem Call.ready_message {c : Call} {w : World} {m : Message} (h : c.ready w = true)
    (hm : c.message? = some m) : m.topic ∈ c.topics ∧ m ∈ w.log.map (·.2) := by
  cases c <;> cases hm <;> simp only [Call.ready, decide_eq_true_eq] at h
  · exact ⟨List.mem_singleton.mpr h.1, h.2⟩
  · exact ⟨List.mem_singleton.mpr h.1, h.2⟩
  · exact h

theorem Call.Marks.mono {c : Call} {d d' : DB} {mk : Mark} (hg : d.Grows d') (h : c.Marks d mk) :
    c.Marks d' mk := by
  have hsub := hg.consumerDedupe.subset
  cases c with
  | leaderboard m =>
    obtain ⟨hgroup, hmsg, hskip, happlied⟩ := h
    exact ⟨hgroup, hmsg, hskip, fun ha => (happlied ha).imp fun r hr => ⟨hsub hr.1, hr.2⟩⟩
  | points m =>
    obtain ⟨hgroup, hmsg, hskip, happlied⟩ := h
    exact ⟨hgroup, hmsg, hskip,
      happlied.imp_right (Or.imp_right (.imp fun r hr => ⟨hsub hr.1, hr.2⟩))⟩
  | settlement m => exact h
  | _ => cases h

def Call.Pushed (h : History) (t : ℕ) (c : RedisCmd) : Call → Prop
  | .leaderboard m => (∃ r, (t, [.dedupe r]) ∈ h ∧
      r.lock = .dedupe leaderboardConsumer (extractEventID m)) ∧
      ∃ evt, m.value.unmarshalGiftAccepted = some evt ∧ c ∈ giftIncrements evt
  | .rebuild _ => True
  | _ => False

theorem Call.Pushed.mono {c : Call} {h h' : History} {t : ℕ} {rc : RedisCmd} (hp : h <+: h')
    (hc : c.Pushed h t rc) : c.Pushed h' t rc := by
  cases c with
  | leaderboard m =>
    obtain ⟨⟨r, hr, hk⟩, he⟩ := hc
    exact ⟨⟨r, hp.subset hr, hk⟩, he⟩
  | rebuild _ => trivial
  | _ => cases hc

theorem Call.Pushes.pushed {c : Call} {w : World} {t : ℕ} {rc : RedisCmd}
    (hc : c.Pushes t w rc) : c.Pushed w.store.binlog t rc := by
  cases c with
  | leaderboard m =>
    obtain ⟨⟨r, hr, hk⟩, evt, hu, hp⟩ := hc
    exact ⟨⟨r, Store.mem_committedBy.mp (hr ▸ List.mem_singleton_self _), hk⟩, evt, hu,
      hp.subset (by simp)⟩
  | rebuild _ => trivial
  | _ => cases hc

/-- Handlers work on messages of the log; marks and pushes are backed. -/
structure Delivery (calls : ℕ → Call) (s : State) : Prop where
  started : ∀ t m, (calls t).message? = some m → s.threads t ≠ .idle → m ∈ s.world.log.map (·.2)
  topics : ∀ t m, (calls t).message? = some m → s.threads t ≠ .idle → m.topic ∈ (calls t).topics
  marked : ∀ e ∈ s.world.marked, (calls e.1).Marks s.world.db e.2
  markers : ∀ e ∈ s.world.marked, s.threads e.1 ≠ .idle
  pushed : ∀ e ∈ s.world.aof, (calls e.1).Pushed s.world.store.binlog e.1 e.2

variable [Platform] {calls : ℕ → Call} {w : World} {s : State}
  {K : State → Act Choice → State → Prop}

theorem Guar.log_grows {𝓔 : Env} {t : ℕ} {w w' : World} (hg : Guar 𝓔 t w w') :
    w.log <+: w'.log := by
  rcases hg.log with h | ⟨r, -, m, -, h, -⟩
  · exact h ▸ List.prefix_rfl
  · exact h ▸ List.prefix_append _ _

theorem Guar.binlog_grows {𝓔 : Env} {t : ℕ} {w w' : World} (hg : Guar 𝓔 t w w') :
    w.store.binlog <+: w'.store.binlog := by
  rcases hg.tables with ⟨h, -⟩ | ⟨ws, h, -⟩
  · exact h ▸ List.prefix_rfl
  · exact h ▸ List.prefix_append _ _

section Rows

variable {𝓔 : Env} {w : World} (hs : Start 𝓔.start) (hi : Inv 𝓔 w)
include hs hi

theorem Inv.row_unique {r r' : OutboxRow} (hr : r ∈ w.db.outboxEvents)
    (hr' : r' ∈ w.db.outboxEvents) (h : r.eventID = r'.eventID) : r = r' := by
  have hids := hi.legal.eventIDs hs.eventIDs
  rw [← hi.db_eq] at hids
  exact List.inj_on_of_nodup_map hids hr hr' h

omit hs in
theorem Inv.eventID_of_message {r : OutboxRow} (hr : r ∈ w.db.outboxEvents) {m : Message}
    (hm : r.message = some m) : extractEventID m = r.eventID :=
  LiveRevenue.eventID_of_message (hi.engine.below.outboxEvents r hr).2.2 hm

omit hs in
theorem Inv.row_of_message {m : Message} (hm : m ∈ w.log.map (·.2)) :
    ∃ r ∈ w.db.outboxEvents, r.message = some m ∧ extractEventID m = r.eventID := by
  obtain ⟨e, he, rfl⟩ := List.mem_map.mp hm
  obtain ⟨r, hr, hrm⟩ := hi.log e he
  exact ⟨r, hr, hrm, hi.eventID_of_message hr hrm⟩

theorem Inv.message_unique {m m' : Message} (hm : m ∈ w.log.map (·.2))
    (hm' : m' ∈ w.log.map (·.2)) (h : extractEventID m = extractEventID m') : m = m' := by
  obtain ⟨r, hr, hrm, he⟩ := hi.row_of_message hm
  obtain ⟨r', hr', hrm', he'⟩ := hi.row_of_message hm'
  obtain rfl := hi.row_unique hs hr hr' (by rw [← he, ← he', h])
  exact Option.some.inj (hrm.symm.trans hrm')

end Rows

theorem reach_delivery (hs : Start w) (h : (system calls).Reach K (Pool.fresh w) s) :
    Delivery calls s := by
  refine ((Env.any calls w).sound hs Env.any_allows).reach_induct (P := Delivery calls) hs.inv
    hs.fresh ⟨fun t m _ hi => absurd rfl hi, fun t m _ hi => absurd rfl hi, ?_, ?_, ?_⟩
      (fun {s t} _ hp hi hready _ => ?_)
    (fun {s t ch c k r w'} _ hp ht he _ hgu => ?_) (fun {s t c k} _ hp ht _ => ?_) h
  · simp [Pool.fresh, Env.any, hs.marked]
  · simp [Pool.fresh, Env.any, hs.marked]
  · simp [Pool.fresh, Env.any, hs.aof]
  · refine ⟨fun u m hm hu => ?_, fun u m hm hu => ?_, hp.marked, fun e he => ?_, hp.pushed⟩
    · by_cases hut : u = t
      · subst hut
        exact (Call.ready_message hready hm).2
      · rw [Pool.setThread_of_ne hut] at hu
        exact hp.started u m hm hu
    · by_cases hut : u = t
      · subst hut
        exact (Call.ready_message hready hm).1
      · rw [Pool.setThread_of_ne hut] at hu
        exact hp.topics u m hm hu
    · exact Pool.setThread_ne_idle nofun (hp.markers e he)
  · have hgrows := hgu.grows
    have hlive : s.threads t ≠ .idle := by
      rw [ht]
      exact nofun
    refine ⟨fun u m hm hu => ?_, fun u m hm hu => ?_, fun e he => ?_, fun e he => ?_,
      fun e he => ?_⟩
    · refine (hgu.log_grows.map _).subset (hp.started u m hm ?_)
      exact Pool.ne_idle_of_setThread hlive hu
    · exact hp.topics u m hm (Pool.ne_idle_of_setThread hlive hu)
    · rw [Pool.setThread_world] at he ⊢
      rcases hgu.marked with hm | ⟨mk, hm, hmk⟩
      · exact (hp.marked e (hm ▸ he)).mono hgrows
      · rw [hm, List.mem_append, List.mem_singleton] at he
        rcases he with he | rfl
        · exact (hp.marked e he).mono hgrows
        · exact hmk.mono hgrows
    · refine Pool.setThread_ne_idle nofun ?_
      rw [Pool.setThread_world] at he
      rcases hgu.marked with hm | ⟨mk, hm, hmk⟩
      · exact hp.markers e (hm ▸ he)
      · rw [hm, List.mem_append, List.mem_singleton] at he
        rcases he with he | rfl
        · exact hp.markers e he
        · exact hlive
    · rw [Pool.setThread_world] at he ⊢
      rcases hgu.aof with ha | ⟨rc, ha, hc⟩
      · exact (hp.pushed e (ha ▸ he)).mono hgu.binlog_grows
      · rw [ha, List.mem_append, List.mem_singleton] at he
        rcases he with he | rfl
        · exact (hp.pushed e he).mono hgu.binlog_grows
        · exact hc.pushed.mono hgu.binlog_grows
  · have hlive : s.threads t ≠ .idle := by
      rw [ht]
      exact nofun
    exact ⟨fun u m hm hu => hp.started u m hm (Pool.ne_idle_of_setThread hlive hu),
      fun u m hm hu => hp.topics u m hm (Pool.ne_idle_of_setThread hlive hu), hp.marked,
      fun e he => Pool.setThread_ne_idle nofun (hp.markers e he), hp.pushed⟩

/-- A consumer that has committed handles a message of the log. -/
theorem reach_handled (hs : Start w) (h : (system calls).Reach K (Pool.fresh w) s) {t : ℕ}
    {ws : List Write} (ht : (t, ws) ∈ s.world.store.binlog) {m : Message}
    (hm : (calls t).message? = some m) : m ∈ s.world.log.map (·.2) :=
  (reach_delivery hs h).started t m hm (reach_not_idle hs h ht)

end LiveRevenue
