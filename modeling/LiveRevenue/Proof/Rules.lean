import LiveRevenue.Proof.Engine
import LiveRevenue.Spec.Invariants

/-! # The logic of the system and its rules

`Env.logic` instantiates the assertions on programs: commits are legal
transactions, sends and marks are justified, and the engine's own guarantees are
what a process relies on. One rule per kind of command follows; the proofs about
programs use these and never look at `World.exec`.
-/

namespace LiveRevenue

open Transact

/-- A setting to reason in: the calls, the initial world, which choices the environment
may make for a command, where a process may die, and what nobody else commits while the
transaction of a process is open. -/
structure Env where
  calls : ℕ → Call
  start : World
  permit : ℕ → Cmd → Choice → World → Prop
  crash : ℕ → Cmd → World → Prop
  bars : ℕ → List Write → Prop

def Env.Since (𝓔 : Env) (t : ℕ) (h : History) (w : World) : Prop :=
  ∃ k, w.store.binlog = h ++ k ∧ ∀ e ∈ k, ¬ 𝓔.bars t e.2

def Env.Calm (𝓔 : Env) (t : ℕ) (w w' : World) : Prop :=
  w.store.opened t ≠ none → 𝓔.Since t w.store.binlog w'

theorem Env.Calm.refl (𝓔 : Env) (t : ℕ) (w : World) : 𝓔.Calm t w w :=
  fun _ => ⟨[], (List.append_nil _).symm, fun _ h => by cases h⟩

theorem Env.Calm.trans {𝓔 : Env} {t : ℕ} {w w' w'' : World} (h : 𝓔.Calm t w w')
    (h' : 𝓔.Calm t w' w'') (ho : w.store.opened t ≠ none → w'.store.opened t ≠ none) :
    𝓔.Calm t w w'' := by
  intro hw
  obtain ⟨k, hk, hb⟩ := h hw
  obtain ⟨k', hk', hb'⟩ := h' (ho hw)
  refine ⟨k ++ k', by rw [hk', hk, List.append_assoc], fun e he => ?_⟩
  rcases List.mem_append.mp he with he | he
  · exact hb e he
  · exact hb' e he

/-- The dedupe row by which a handler claimed an event. -/
def Claimed (t : ℕ) (m : Message) (w : World) : Prop :=
  ∃ r : DedupeRow, w.store.committedBy t = [[.dedupe r]] ∧
    r.lock = .dedupe leaderboardConsumer (extractEventID m)

namespace Call

def relays : Call → Bool
  | .runOnce _ => true
  | _ => false

def Pushes (t : ℕ) (w : World) (c : RedisCmd) : Call → Prop
  | .leaderboard m => Claimed t m w ∧ ∃ evt, m.value.unmarshalGiftAccepted = some evt ∧
      w.aofBy t ++ [c] <+: giftIncrements evt
  | .rebuild _ => True
  | _ => False

def Marks (d : DB) (mk : Mark) : Call → Prop
  | .leaderboard m => mk.group = leaderboardGroup ∧ mk.msg = m ∧
      (mk.metadata = "missing_event_id" → extractEventID m = 0) ∧ (mk.metadata = "applied" →
        ∃ r ∈ d.consumerDedupe, r.lock = .dedupe leaderboardConsumer (extractEventID m))
  | .points m => mk.group = pointsGroup ∧ mk.msg = m ∧
      (mk.metadata = "missing_event_id" → extractEventID m = 0) ∧ (extractEventID m = 0 ∨
        pointsApply m (extractEventID m) = none ∨
        ∃ r ∈ d.consumerDedupe, r.lock = .dedupe pointsConsumer (extractEventID m))
  | .settlement m => mk.group = settlementGroup ∧ mk.msg = m ∧ mk.metadata ≠ "missing_event_id"
  | _ => False

end Call

structure Later (t : ℕ) (w w' : World) : Prop where
  grows : w.db.Grows w'.db
  binlog : w.store.binlog <+: w'.store.binlog
  log : w.log <+: w'.log
  sent : w'.sentBy t = w.sentBy t
  aof : w'.aofBy t = w.aofBy t

theorem Later.trans {t : ℕ} {w w' w'' : World} (h : Later t w w') (h' : Later t w' w'') :
    Later t w w'' where
  grows := h.grows.trans h'.grows
  binlog := h.binlog.trans h'.binlog
  log := h.log.trans h'.log
  sent := h'.sent.trans h.sent
  aof := h'.aof.trans h.aof

def Write.claims : Write → Bool
  | .dedupe r => r.consumerName = leaderboardConsumer
  | _ => false

def World.HasClaimed (w : World) (t : ℕ) : Prop :=
  ∃ ws ∈ w.store.committedBy t, ∃ x ∈ ws, x.claims = true

instance {w : World} {t : ℕ} : Decidable (w.HasClaimed t) :=
  inferInstanceAs (Decidable (∃ ws ∈ w.store.committedBy t, ∃ x ∈ ws, x.claims = true))

theorem Claimed.hasClaimed {t : ℕ} {m : Message} {w : World} (h : Claimed t m w) :
    w.HasClaimed t := by
  obtain ⟨r, hr, hk⟩ := h
  refine ⟨_, hr ▸ List.mem_singleton_self _, _, List.mem_singleton_self _, ?_⟩
  exact decide_eq_true (Lock.dedupe.inj hk).1

variable (𝓔 : Env)

/-- A leaderboard handler is done with Redis: it claimed nothing, or it applied all the
increments of its event. -/
def Flushed (t : ℕ) (m : Message) (w : World) : Prop :=
  w.store.committedBy t = [] ∨ w.store.committedBy t = [[]] ∨
  ∀ evt, m.value.unmarshalGiftAccepted = some evt → w.aofBy t = giftIncrements evt

def Write.backed : Write → Bool
  | .published _ _ => true
  | .reconciliation _ _ => true
  | .fanPoint r => r.reason ≠ .gift
  | _ => false

theorem opening_plain {d : DB} {u : ℕ} : ∀ x ∈ d.opening u, x.backed = false := by
  intro x hx
  unfold DB.opening at hx
  split at hx
  · rw [List.mem_singleton.mp hx]
    rfl
  · cases hx

theorem posting_plain {d : DB} {tx : WalletTx} {counter : String} {delta balance : ℤ} :
    ∀ x ∈ posting d tx counter delta balance, x.backed = false := by
  intro x hx
  rcases List.mem_append.mp hx with hx | hx
  · exact opening_plain x hx
  · simp only [List.mem_cons, List.not_mem_nil, or_false] at hx
    rcases hx with rfl | rfl | rfl | rfl <;> rfl

variable [Platform]

/-- A handler may fail after its dedupe row is committed: `COMMIT` or a Redis command returns
an error, or the process dies at a Redis command. -/
inductive Env.Unlucky (t : ℕ) : Prop where
  | commit {applied : Bool} {w w' : World} : 𝓔.permit t .commit (.fault applied) w →
      World.exec t .commit (.fault applied) w = some (.error .infra, w') → w'.HasClaimed t →
      Env.Unlucky t
  | redis {c : RedisCmd} {ch : Choice} {e : SqlErr} {w w' : World} : 𝓔.permit t (.redis c) ch w →
      World.exec t (.redis c) ch w = some (.error e, w') → w'.HasClaimed t → Env.Unlucky t
  | death {c : RedisCmd} {w : World} : 𝓔.crash t (.redis c) w → w.HasClaimed t → Env.Unlucky t

def Dead (t : ℕ) (w : World) : Prop :=
  match 𝓔.calls t with
  | .leaderboard m => Flushed t m w ∨ 𝓔.Unlucky t
  | _ => True

theorem dead_of_fresh {𝓔 : Env} {t : ℕ} {w : World} (h : w.store.committedBy t = []) :
    Dead 𝓔 t w := by
  unfold Dead
  split
  · exact .inl (.inl h)
  · trivial

def World.HasSent (t : ℕ) (rows : List OutboxRow) (w : World) : Prop :=
  rows.map (·.message) = (w.sentBy t).map some

def World.AllMarked (t : ℕ) (d : DB) (w : World) : Prop :=
  ∀ m ∈ w.sentBy t, ∃ r ∈ d.outboxEvents, r.message = some m ∧ r.publishedAt ≠ none

def Cmd.delivers : Cmd → Bool
  | .send _ => true
  | .sql (.updatePublished _ _) => true
  | .commit => true
  | _ => false

def Env.Failing (t : ℕ) : Prop :=
  ∃ c applied w, c.delivers = true ∧ 𝓔.permit t c (.fault applied) w

def Env.Losing (t : ℕ) : Prop := ∃ w, 𝓔.permit t .commit (.fault true) w

/-- What the writes of a transaction rest on: a relay has sent every row it marks and marks
every row it has sent, the two totals of a reconciliation were read one after the other, and
the rows that count towards a cap were counted, all while the transaction was open. -/
structure Backed (t : ℕ) (ws : List Write) (w : World) : Prop where
  sent : ∀ id at_, .published id at_ ∈ ws →
    ∃ r ∈ w.db.outboxEvents, r.eventID = id ∧ ∃ m ∈ w.sentBy t, r.message = some m
  marks : (𝓔.calls t).relays = true → w.AllMarked t (applyAll ws w.db)
  settled : ∀ id r, .reconciliation id r ∈ ws → ∃ h₁ h₂ n,
    r = reconcile ((dbAt 𝓔.start.db h₂).giftDebits id)
      (sumOf (·.chargedCoins) ((dbAt 𝓔.start.db h₁).acceptedOrders id)) n ∧
    h₁ <+: h₂ ∧ h₂ <+: w.store.binlog ∧ 𝓔.Since t h₁ w
  counted : ∀ r, .fanPoint r ∈ ws → r.reason ≠ .gift → ∃ h, 𝓔.Since t h w ∧
    (dbAt 𝓔.start.db h).fanPoints.countP r.alike < r.reason.cap

/-- The invariant every process may use. Only relays lock events that are committed. -/
structure Inv (w : World) : Prop where
  engine : Engine w
  legal : Legal 𝓔.calls 𝓔.start.db w.store.binlog
  db_eq : w.db = dbAt 𝓔.start.db w.store.binlog
  log : ∀ e ∈ w.log, ∃ r ∈ w.db.outboxEvents, r.message = some e.2
  locks : ∀ r ∈ w.db.outboxEvents, ∀ u, w.store.holder (.outbox r.eventID) = some u →
    (𝓔.calls u).relays = true

/-- The relay `t` read the row in a batch, still holds its lock and has sent exactly the rows
before it. -/
def Picked (t : ℕ) (r : OutboxRow) (w : World) : Prop :=
  ∃ u limit n rank sent todo, Inv 𝓔 u ∧ u.store.binlog <+: w.store.binlog ∧
    (𝓔.calls t).relays = true ∧ u.store.opened t ≠ none ∧
    𝓔.permit t (.sql (.selectOutboxBatch limit)) (.ok n rank) u ∧
    u.db.outboxBatch (u.store.busy t) rank limit = sent ++ r :: todo ∧
    w.store.holder (.outbox r.eventID) = some t ∧ w.HasSent t sent

/-- What a process promises about each of its commands. -/
structure Guar (t : ℕ) (w w' : World) : Prop where
  tables : (w'.store.binlog = w.store.binlog ∧ w'.db = w.db) ∨
    ∃ ws, w'.store.binlog = w.store.binlog ++ [(t, ws)] ∧ w'.db = applyAll ws w.db ∧
      Txn 𝓔.start.db w.store.binlog (𝓔.calls t) ws ∧ Backed 𝓔 t ws w
  log : w'.log = w.log ∨
    ∃ r ∈ w.db.outboxEvents, ∃ m, r.message = some m ∧ w'.log = w.log ++ [(t, m)] ∧
      Picked 𝓔 t r w
  aof : w'.aof = w.aof ∨ ∃ c, w'.aof = w.aof ++ [(t, c)] ∧ (𝓔.calls t).Pushes t w c
  marked : w'.marked = w.marked ∨
    ∃ mk, w'.marked = w.marked ++ [(t, mk)] ∧ (𝓔.calls t).Marks w.db mk
  locks : (𝓔.calls t).relays = true ∨ ∀ id, w'.store.holder (.outbox id) = some t →
    w.store.holder (.outbox id) = some t ∨ w.ids.event ≤ id
  ends : (𝓔.calls t).relays = true → w.store.opened t ≠ none → w'.store.opened t = none →
    w'.AllMarked t w'.db ∨ 𝓔.Failing t
  commits : w'.store.binlog = w.store.binlog ∨ w.store.committedBy t = []

structure Env.Rely (t : ℕ) (w w' : World) : Prop extends LiveRevenue.Rely t w w' where
  calm : 𝓔.Calm t w w'

theorem Env.Rely.refl (t : ℕ) (w : World) : 𝓔.Rely t w w := ⟨.refl t w, .refl 𝓔 t w⟩

theorem Env.Rely.trans {𝓔 : Env} {t : ℕ} {w w' w'' : World} (h : 𝓔.Rely t w w')
    (h' : 𝓔.Rely t w' w'') : 𝓔.Rely t w w'' :=
  ⟨h.toRely.trans h'.toRely, h.calm.trans h'.calm fun ho => by rwa [h.store.opened]⟩

def Env.Respects (t : ℕ) (w w' : World) : Prop :=
  ∀ u, u ≠ t → w.store.opened u ≠ none → ∀ ws, w'.store.binlog = w.store.binlog ++ [(t, ws)] →
    ¬ 𝓔.bars u ws

def Env.logic : Logic Cmd Cmd.Resp World where
  sem t c w r w' := ∃ ch, 𝓔.permit t c ch w ∧ World.exec t c ch w = some (r, w') ∧
    𝓔.Respects t w w'
  inv := Inv 𝓔
  rely := 𝓔.Rely
  guar := Guar 𝓔
  dies t c w := 𝓔.crash t c w → Dead 𝓔 t w
  rely_refl := .refl 𝓔
  rely_trans := .trans

def Unlocked (l : Lock) (d : DB) (w : World) : Prop :=
  ∃ k, k <:+ w.store.binlog ∧ w.db = dbAt d k ∧ ∀ e ∈ k, l ∉ e.2.flatMap Write.locks

/-- Process `t` has an open transaction with the writes `ws`, its first. For each lock in
`pins` it holds, the rows are those of the database noted with the lock. -/
structure Own (t : ℕ) (ws : List Write) (pins : List (Lock × DB)) (w : World) : Prop where
  opened : w.store.opened t = some ws
  committed : w.store.committedBy t = []
  pushed : w.aofBy t = []
  pinned : ∀ p ∈ pins, w.store.holder p.1 = some t ∧ p.1.Agree p.2 w.db ∧ p.2.Grows w.db
  unlocked : ∀ p ∈ pins, Unlocked p.1 p.2 w

/-- A world later than `w` in which `t` is where it was. -/
structure At (t : ℕ) (ws : List Write) (pins : List (Lock × DB)) (w v : World) : Prop where
  inv : Inv 𝓔 v
  later : Later t w v
  calm : 𝓔.Calm t w v
  own : Own t ws pins v

/-- Process `t` has no open transaction and has committed `cs`. -/
structure Done (t : ℕ) (cs : List (List Write)) (w : World) : Prop where
  closed : w.store.opened t = none
  committed : w.store.committedBy t = cs

section Stability

variable {𝓔} {t : ℕ} {w w' : World} {ws : List Write} {pins : List (Lock × DB)}
  {cs : List (List Write)}

theorem Rely.later (h : Rely t w w') : Later t w w' :=
  ⟨h.store.grows, h.binlog, h.log, h.sent, h.aof⟩

theorem Unlocked.rely {l : Lock} {d : DB} (h : Unlocked l d w) (hh : w.store.holder l = some t)
    (hr : Rely t w w') : Unlocked l d w' := by
  obtain ⟨k, hk, hd, hl⟩ := h
  obtain ⟨k', hb', hd', hl'⟩ := hr.store.foreign
  refine ⟨k ++ k', ?_, ?_, fun e he hm => ?_⟩
  · obtain ⟨h₁, hk⟩ := hk
    exact ⟨h₁, by rw [hb', ← hk, List.append_assoc]⟩
  · rw [World.db, hd', show w.store.db = dbAt d k from hd, dbAt_append]
    rfl
  · rcases List.mem_append.mp he with he | he
    · exact hl e he hm
    · obtain ⟨x, hx, hm⟩ := List.mem_flatMap.mp hm
      exact hl' e he x hx l hm hh

theorem Own.rely (h : Own t ws pins w) (hr : 𝓔.Rely t w w') : Own t ws pins w' where
  opened := hr.store.opened.trans h.opened
  committed := hr.store.committed.trans h.committed
  pushed := hr.aof.trans h.pushed
  pinned p hp := by
    obtain ⟨hh, ha, hg⟩ := h.pinned p hp
    exact ⟨(hr.store.holder p.1).mpr hh, Lock.agree_trans ha (hr.store.agree p.1 hh),
      hg.trans hr.store.grows⟩
  unlocked p hp := (h.unlocked p hp).rely (h.pinned p hp).1 hr.toRely

theorem Own.at (h : Own t ws pins w) (hr : 𝓔.Rely t w w') (hi : Inv 𝓔 w') :
    At 𝓔 t ws pins w w' := ⟨hi, hr.later, hr.calm, h.rely hr⟩

theorem At.trans {u v : World} {vs : List Write} {pins' : List (Lock × DB)}
    (h : At 𝓔 t ws pins w u) (h' : At 𝓔 t vs pins' u v) : At 𝓔 t vs pins' w v :=
  ⟨h'.inv, h.later.trans h'.later, h.calm.trans h'.calm fun _ => by simp [h.own.opened], h'.own⟩

theorem At.rely {u : World} (h : At 𝓔 t ws pins w u) (hr : 𝓔.Rely t u w') (hi : Inv 𝓔 w') :
    At 𝓔 t ws pins w w' := h.trans (h.own.at hr hi)

theorem Done.rely (h : Done t cs w) (hr : 𝓔.Rely t w w') : Done t cs w' :=
  ⟨hr.store.opened.trans h.closed, hr.store.committed.trans h.committed⟩

omit [Platform] in
theorem Done.unless_lost {applied : Bool} {u : World} (hp : 𝓔.permit t .commit (.fault applied) u)
    (h : Done t (if applied then [ws] else []) w) :
    w.store.committedBy t = [] ∨ 𝓔.Losing t := by
  cases applied with
  | false => exact .inl h.committed
  | true => exact .inr ⟨u, hp⟩

theorem At.since {u : World} (h : At 𝓔 t ws pins u w) (ho : u.store.opened t ≠ none) :
    𝓔.Since t u.store.binlog w := h.calm ho

/-- What a call may commit on the tables of a state, it may commit after its history. -/
theorem Inv.txn {P : DB → Type} {W : ∀ d, P d → List Write} {c : Call} (hi : Inv 𝓔 w)
    (h : ∀ p : P (dbAt 𝓔.start.db w.store.binlog), Txn 𝓔.start.db w.store.binlog c (W _ p))
    (p : P w.db) : Txn 𝓔.start.db w.store.binlog c (W _ p) := by
  have hd := hi.db_eq
  generalize w.db = d at p hd
  subst hd
  exact h p

theorem Inv.grows (h : Inv 𝓔 w) : 𝓔.start.db.Grows w.db := h.db_eq ▸ grows_dbAt _ _

theorem Guar.silent (hs : w'.store.binlog = w.store.binlog) (hd : w'.db = w.db)
    (hl : w'.log = w.log) (ha : w'.aof = w.aof) (hm : w'.marked = w.marked)
    (hh : ∀ l, w'.store.holder l = some t → w.store.holder l = some t)
    (ho : w'.store.opened t = none → w.store.opened t = none) : Guar 𝓔 t w w' :=
  ⟨.inl ⟨hs, hd⟩, .inl hl, .inl ha, .inl hm, .inr fun _ h => .inl (hh _ h),
    fun _ h h' => absurd (ho h') h, .inl hs⟩

theorem Guar.rollback (he : (𝓔.calls t).relays = true → w.AllMarked t w.db ∨ 𝓔.Failing t) :
    Guar 𝓔 t w (w.setStore (w.store.rollback t)) :=
  ⟨.inl ⟨rfl, rfl⟩, .inl rfl, .inl rfl, .inl rfl,
    .inr fun _ h => absurd h (Store.release_ne w.store t _), fun hr _ _ => he hr, .inl rfl⟩

theorem Backed.plain (hr : (𝓔.calls t).relays = false) (h : ∀ x ∈ ws, x.backed = false) :
    Backed 𝓔 t ws w where
  sent id at_ hm := by cases h _ hm
  marks hr' := by rw [hr] at hr'; cases hr'
  settled id r hm := by cases h _ hm
  counted r hm hr := by
    have := h _ hm
    simp [Write.backed, hr] at this

theorem Backed.cons {x : Write} (hr : (𝓔.calls t).relays = false) (hx : x.backed = false)
    (h : Backed 𝓔 t ws w) : Backed 𝓔 t (x :: ws) w where
  sent id at_ hm := by
    rcases List.mem_cons.mp hm with rfl | hm
    · cases hx
    · exact h.sent id at_ hm
  marks hr' := by rw [hr] at hr'; cases hr'
  settled id r hm := by
    rcases List.mem_cons.mp hm with rfl | hm
    · cases hx
    · exact h.settled id r hm
  counted r hm hr := by
    rcases List.mem_cons.mp hm with rfl | hm
    · simp [Write.backed, hr] at hx
    · exact h.counted r hm hr

end Stability

def World.effect (w : World) (t : ℕ) (ws : List Write) (s : Stmt) (rank : ℕ → ℕ) :
    Effect s.Res := s.run (applyAll ws w.db) w.ids (w.store.busy t) rank

theorem execSql_cases {t : ℕ} {w w' : World} {s : Stmt} {rank : ℕ → ℕ} {r : Except SqlErr s.Res}
    (hex : w.execSql t s rank = some (r, w')) :
    w.store.opened t = none ∧ r = .error .txDone ∧ w' = w ∨
    ∃ ws, w.store.opened t = some ws ∧ r = (w.effect t ws s rank).res ∧
      w' = { w with
        store := w.store.record t ws (w.effect t ws s rank).writes (w.effect t ws s rank).takes
        ids := (w.effect t ws s rank).ids } := by
  simp only [World.execSql] at hex
  split at hex
  · next ho =>
    cases hex
    exact .inl ⟨ho, rfl, rfl⟩
  · next ws ho =>
    split at hex
    · cases hex
    · cases hex
      exact .inr ⟨ws, ho, rfl, rfl⟩

inductive StoreStep (t : ℕ) (w : World) : Cmd → Store DB Write Lock → Prop where
  | same {c : Cmd} : StoreStep t w c w.store
  | begin : StoreStep t w .begin (w.store.begin t)
  | ended {c : Cmd} : c = .commit ∨ c = .rollback → StoreStep t w c (w.store.rollback t)
  | commit {ws : List Write} : w.store.opened t = some ws →
      StoreStep t w .commit (w.store.commit t ws)
  | sql {s : Stmt} {ws : List Write} {rank : ℕ → ℕ} : w.store.opened t = some ws →
      StoreStep t w (.sql s)
        (w.store.record t ws (w.effect t ws s rank).writes (w.effect t ws s rank).takes)
  | auto {s : Stmt} {rank : ℕ → ℕ} : StoreStep t w (.auto s)
      (w.store.autocommit t (s.run w.db w.ids (w.store.busy t) rank).writes)

theorem execAuto_storeStep {t : ℕ} {w w' : World} {s : Stmt} {rank : ℕ → ℕ}
    {r : Except SqlErr s.Res} (hex : w.execAuto t s rank = some (r, w')) :
    StoreStep t w (.auto s) w'.store := by
  simp only [World.execAuto] at hex
  split at hex
  · cases hex
  · split at hex
    · cases hex
      exact .same
    · cases hex
      exact .auto

theorem exec_storeStep {t : ℕ} {w w' : World} {c : Cmd} {ch : Choice} {r : c.Resp}
    (hex : World.exec t c ch w = some (r, w')) : StoreStep t w c w'.store := by
  cases c with
  | begin =>
    cases ch <;> cases hex
    · exact .begin
    · exact .same
  | commit =>
    cases exec_commit hex with
    | idle => exact .same
    | done ho => exact .commit ho
    | lost ho => exact .commit ho
    | undone => exact .ended (.inl rfl)
  | rollback =>
    cases hex
    exact .ended (.inr rfl)
  | sql s =>
    cases ch with
    | fault applied =>
      cases hex
      exact .same
    | ok n rank =>
      obtain ⟨-, -, rfl⟩ | ⟨ws, hws, -, rfl⟩ := execSql_cases hex
      · exact .same
      · exact .sql hws
  | auto s =>
    cases ch with
    | ok n rank => exact execAuto_storeStep hex
    | fault applied =>
      cases applied with
      | false =>
        cases hex
        exact .same
      | true =>
        obtain ⟨x, hx, he⟩ := Option.map_eq_some_iff.mp hex
        cases he
        exact execAuto_storeStep hx
  | now => cases ch <;> cases hex <;> exact .same
  | send m =>
    cases ch <;> cases hex
    · exact .same
    · split <;> exact .same
  | redis c => cases exec_redis hex <;> exact .same
  | mark m =>
    cases hex
    exact .same

def World.pins (w : World) {β : Type} (e : Effect β) : List (Lock × DB) :=
  (e.takes ++ e.writes.flatMap Write.locks).map fun l => (l, w.db)

inductive Fails (t : ℕ) (ws : List Write) (s : Stmt) (w : World) : SqlErr → Prop where
  | fault {applied : Bool} : 𝓔.permit t (.sql s) (.fault applied) w → Fails t ws s w .infra
  | error {e : SqlErr} {n : ℕ} {rank : ℕ → ℕ} : 𝓔.permit t (.sql s) (.ok n rank) w →
      (w.effect t ws s rank).res = .error e → Fails t ws s w e

section Rules

variable {𝓔} {ε : Type} {t : ℕ} {w : World} {ws : List Write} {pins : List (Lock × DB)}
  {E : ε → World → Prop}

theorem own_record {s : Stmt} {rank : ℕ → ℕ} (own : Own t ws pins w) :
    Own t (ws ++ (w.effect t ws s rank).writes) (pins ++ w.pins (w.effect t ws s rank))
      { w with
        store := w.store.record t ws (w.effect t ws s rank).writes (w.effect t ws s rank).takes
        ids := (w.effect t ws s rank).ids } where
  opened := Store.setOpened_self _ _ _
  committed := own.committed
  pushed := own.pushed
  pinned p hp := by
    rcases List.mem_append.mp hp with hp | hp
    · obtain ⟨hh, ha, hg⟩ := own.pinned p hp
      refine ⟨?_, ha, hg⟩
      simp only [Store.record]
      split
      · rfl
      · exact hh
    · obtain ⟨l, hl, rfl⟩ := List.mem_map.mp hp
      exact ⟨if_pos hl, Lock.agree_refl _ _, .refl _⟩
  unlocked p hp := by
    rcases List.mem_append.mp hp with hp | hp
    · exact own.unlocked p hp
    · obtain ⟨l, hl, rfl⟩ := List.mem_map.mp hp
      exact ⟨[], List.nil_suffix, rfl, fun _ h => by cases h⟩

theorem locks_record {s : Stmt} {rank : ℕ → ℕ} (hs : s.relays = true → (𝓔.calls t).relays = true) :
    (𝓔.calls t).relays = true ∨ ∀ id, (w.store.record t ws (w.effect t ws s rank).writes
      (w.effect t ws s rank).takes).holder (.outbox id) = some t →
      w.store.holder (.outbox id) = some t ∨ w.ids.event ≤ id := by
  cases hr : s.relays with
  | true => exact .inl (hs hr)
  | false =>
    refine .inr fun id hh => ?_
    simp only [Store.record] at hh
    split at hh
    · next hm => exact .inr (run_outbox_new hr hm).ge
    · exact .inl hh

/-- A statement inside the open transaction, its two results apart. -/
theorem runs_txTry {s : Stmt} {Q : Except SqlErr s.Res → World → Prop} (own : Own t ws pins w)
    (hs : s.relays = true → (𝓔.calls t).relays = true)
    (herr : ∀ e u v, At 𝓔 t ws pins w u → Fails 𝓔 t ws s u e → At 𝓔 t ws pins u v →
      Q (.error e) v)
    (hok : ∀ r n rank u v, At 𝓔 t ws pins w u → 𝓔.permit t (.sql s) (.ok n rank) u →
      (u.effect t ws s rank).res = .ok r →
      At 𝓔 t (ws ++ (u.effect t ws s rank).writes) (pins ++ u.pins (u.effect t ws s rank)) u v →
      Q (.ok r) v) :
    Runs 𝓔.logic t (txTry s) Q E w := by
  refine fun u hu hi => ⟨fun _ => dead_of_fresh (own.rely hu).committed, ?_⟩
  rintro r u' ⟨ch, hch, hex, -⟩
  have hau : At 𝓔 t ws pins w u := own.at hu hi
  cases ch with
  | fault applied =>
    cases hex
    exact ⟨.silent rfl rfl rfl rfl rfl (fun _ h => h) id, fun v hv hiv =>
      herr .infra u v hau (.fault hch) (hau.own.at hv hiv)⟩
  | ok n rank =>
    simp only [World.exec, World.execSql, hau.own.opened] at hex
    split at hex
    · cases hex
    · cases hex
      refine ⟨⟨.inl ⟨rfl, rfl⟩, .inl rfl, .inl rfl, .inl rfl, locks_record hs,
        fun _ _ h => by simp [Store.record] at h, .inl rfl⟩, fun v hv hiv => ?_⟩
      have hl : Later t u v := ⟨hv.later.grows, hv.binlog, hv.log, hv.sent, hv.aof⟩
      have hcalm : 𝓔.Calm t u v := fun _ => hv.calm (by simp [Store.record])
      have hav := (own_record hau.own).rely hv
      cases hres : (u.effect t ws s rank).res with
      | ok r => exact hres ▸ hok r n rank u v hau hch hres ⟨hiv, hl, hcalm, hav⟩
      | error e =>
        obtain ⟨hw, ht⟩ := run_error hres
        simp only [World.pins, World.effect, hw, ht, List.append_nil, List.flatMap_nil,
          List.map_nil] at hav
        exact hres ▸ herr e u v hau (.error hch hres) ⟨hiv, hl, hcalm, hav⟩

theorem runs_orReturn {s : Stmt} {f : SqlErr → ε} {Q : s.Res → World → Prop}
    (h : Runs 𝓔.logic t (txTry s) (fun r v => match r with
      | .ok a => Q a v
      | .error e => E (f e) v) E w) :
    Runs 𝓔.logic t (txDo f s) Q E w := by
  refine Runs.bind (Runs.mono (Runs.keep h) ?_ fun e v hi he => he v (.refl 𝓔 t v) hi)
  rintro (e | a) v _ hv
  · exact Runs.throw hv
  · exact Runs.pure hv

theorem runs_txDo {s : Stmt} {f : SqlErr → ε} {Q : s.Res → World → Prop} (own : Own t ws pins w)
    (hs : s.relays = true → (𝓔.calls t).relays = true)
    (herr : ∀ e u v, At 𝓔 t ws pins w u → Fails 𝓔 t ws s u e → At 𝓔 t ws pins u v → E (f e) v)
    (hok : ∀ r n rank u v, At 𝓔 t ws pins w u → 𝓔.permit t (.sql s) (.ok n rank) u →
      (u.effect t ws s rank).res = .ok r →
      At 𝓔 t (ws ++ (u.effect t ws s rank).writes) (pins ++ u.pins (u.effect t ws s rank)) u v →
      Q r v) :
    Runs 𝓔.logic t (txDo f s) Q E w := by
  refine runs_orReturn
    (runs_txTry own hs (fun e u v hu hf hv => ?_) fun r n rank u v hu ha hr hv => ?_)
  · exact herr e u v hu hf hv
  · exact hok r n rank u v hu ha hr hv

theorem runs_now {Q : ℕ → World → Prop} (own : Own t ws pins w)
    (h : ∀ n v, At 𝓔 t ws pins w v → Q n v) : Runs 𝓔.logic t timeNow Q E w := by
  refine fun u hu hi => ⟨fun _ => dead_of_fresh (own.rely hu).committed, ?_⟩
  rintro r u' ⟨ch, hch, hex, -⟩
  have hw : u' = u := by cases ch <;> cases hex <;> rfl
  subst hw
  exact ⟨.silent rfl rfl rfl rfl rfl (fun _ h => h) id,
    fun v hv hiv => h r v ((own.at hu hi).rely hv hiv)⟩

theorem Own.guar_commit (own : Own t ws pins w)
    (ht : Txn 𝓔.start.db w.store.binlog (𝓔.calls t) ws) (hs : Backed 𝓔 t ws w) :
    Guar 𝓔 t w (w.setStore (w.store.commit t ws)) :=
  ⟨.inr ⟨ws, rfl, rfl, ht, hs⟩, .inl rfl, .inl rfl, .inl rfl, .inr fun _ h =>
    absurd h (Store.release_ne w.store t _), fun hr _ _ => .inl (hs.marks hr), .inr own.committed⟩

theorem Own.done_commit {v : World} (own : Own t ws pins w)
    (hr : 𝓔.Rely t (w.setStore (w.store.commit t ws)) v) : Done t [ws] v := by
  refine ⟨hr.store.opened.trans (Store.setOpened_self _ _ _), hr.store.committed.trans ?_⟩
  have := Store.committedBy_append_self w.store t ws
  rw [own.committed] at this
  exact this

/-- A commit must be legal wherever it may happen. One that fails is rolled back, or it was made
and the answer is lost. -/
theorem runs_commitTx {f : SqlErr → ε} {Q : Unit → World → Prop} (own : Own t ws pins w)
    (htxn : ∀ u, At 𝓔 t ws pins w u →
      Txn 𝓔.start.db u.store.binlog (𝓔.calls t) ws ∧ Backed 𝓔 t ws u)
    (herr : ∀ applied u u' v, At 𝓔 t ws pins w u → 𝓔.permit t .commit (.fault applied) u →
      World.exec t .commit (.fault applied) u = some (.error .infra, u') → 𝓔.Rely t u' v →
      Inv 𝓔 v → Done t (if applied then [ws] else []) v → E (f .infra) v)
    (hok : ∀ u v, At 𝓔 t ws pins w u → Inv 𝓔 v → Later t u v → (applyAll ws u.db).Grows v.db →
      Done t [ws] v → Q () v) :
    Runs 𝓔.logic t (commitTx f) Q E w := by
  refine Runs.bind fun u hu hi => ⟨fun _ => dead_of_fresh (own.rely hu).committed, ?_⟩
  rintro r u' ⟨ch, hch, hex, -⟩
  have hau : At 𝓔 t ws pins w u := own.at hu hi
  obtain ⟨ht, hs⟩ := htxn u hau
  have hopen : ∀ {vs}, u.store.opened t = some vs → ws = vs := fun ho =>
    Option.some.inj (hau.own.opened.symm.trans ho)
  cases exec_commit hex with
  | idle ho =>
    rw [hau.own.opened] at ho
    cases ho
  | done ho =>
    obtain rfl := hopen ho
    refine ⟨hau.own.guar_commit ht hs, fun v hv _ => Runs.pure fun x hx hix => ?_⟩
    have hr := hv.trans hx
    exact hok u x hau hix ⟨(grows_applyAll ws u.db).trans hr.store.grows,
      (List.prefix_append _ _).trans hr.binlog, hr.log, hr.sent, hr.aof⟩ hr.store.grows
      (hau.own.done_commit hr)
  | lost ho =>
    obtain rfl := hopen ho
    refine ⟨hau.own.guar_commit ht hs, fun v hv _ => Runs.throw fun x hx hix => ?_⟩
    have hr := hv.trans hx
    exact herr true u _ x hau hch hex hr hix (hau.own.done_commit hr)
  | undone ho =>
    refine ⟨.rollback fun _ => .inr ⟨.commit, false, u, rfl, hch⟩,
      fun v hv _ => Runs.throw fun x hx hix => ?_⟩
    have hr := hv.trans hx
    exact herr false u _ x hau hch hex hr hix ⟨hr.store.opened.trans (Store.setOpened_self _ _ _),
      hr.store.committed.trans hau.own.committed⟩

theorem runs_commit_return {α : Type} {f : SqlErr → ε} {r : α} {Q : α → World → Prop}
    (own : Own t ws pins w)
    (herr : ∀ applied u u' v, At 𝓔 t ws pins w u → 𝓔.permit t .commit (.fault applied) u →
      World.exec t .commit (.fault applied) u = some (.error .infra, u') → 𝓔.Rely t u' v →
      Inv 𝓔 v → Done t (if applied then [ws] else []) v → E (f .infra) v)
    (hok : ∀ u, At 𝓔 t ws pins w u → ∃ vs, ws = vs ∧
      Txn 𝓔.start.db u.store.binlog (𝓔.calls t) vs ∧ Backed 𝓔 t vs u ∧
      ∀ v, Inv 𝓔 v → Later t u v → (applyAll vs u.db).Grows v.db → Done t [vs] v → Q r v) :
    Runs 𝓔.logic t (commitTx f >>= fun _ => pure r) Q E w := by
  refine Runs.bind (runs_commitTx own (fun u hu => ?_) herr ?_)
  · obtain ⟨vs, rfl, ht, hs, -⟩ := hok u hu
    exact ⟨ht, hs⟩
  · intro u v hu _ hl hg hd
    obtain ⟨vs, rfl, -, -, hq⟩ := hok u hu
    exact Runs.pure fun x hx hix => hq x hix (hl.trans hx.later) (hg.trans hx.store.grows)
      (hd.rely hx)

/-- A function that opens a transaction and rolls back whatever is left of it. -/
theorem safe_withTx {α : Type} {f : SqlErr → α} {body : GoBody α α} {Q : α → World → Prop}
    (hfresh : w.store.committedBy t = [] ∧ w.aofBy t = [])
    (hfault : ∀ applied u v, 𝓔.permit t .begin (.fault applied) u → Inv 𝓔 v → Later t w v →
      v.store.committedBy t = [] → v.aofBy t = [] → Q (f .infra) v)
    (hbody : ∀ v, At 𝓔 t [] [] w v → Runs 𝓔.logic t body Q Q v)
    (hdead : ∀ a v, Inv 𝓔 v → Q a v → Dead 𝓔 t v)
    (hends : (𝓔.calls t).relays = true → ∀ a v, Q a v → v.AllMarked t v.db ∨ 𝓔.Failing t)
    (hkeep : ∀ a v v', Inv 𝓔 v' → Later t v v' →
      v'.store.committedBy t = v.store.committedBy t → Q a v → Q a v') :
    Safe 𝓔.logic t Q (withTx f body) w := by
  intro u hu hi
  have hc : u.store.committedBy t = [] := hu.store.committed.trans hfresh.1
  have ha : u.aofBy t = [] := hu.aof.trans hfresh.2
  refine ⟨fun _ => dead_of_fresh hc, ?_⟩
  rintro r u' ⟨ch, hch, hex, -⟩
  cases ch with
  | fault applied =>
    cases hex
    exact ⟨.silent rfl rfl rfl rfl rfl (fun _ h => h) id, fun v hv hiv => hfault applied u v hch hiv
      (hu.later.trans hv.later) (hv.store.committed.trans hc) (hv.aof.trans ha)⟩
  | ok n rank =>
    cases hex
    refine ⟨.silent rfl rfl rfl rfl rfl (fun _ h => h) fun h => ?_, Safe.intro fun v hv hiv => ?_⟩
    · simp [World.setStore, Store.begin] at h
    have own : Own t [] [] v := ⟨hv.store.opened.trans (Store.setOpened_self _ _ _),
      hv.store.committed.trans hc, hv.aof.trans ha, by simp, by simp⟩
    have hl : Later t u v := ⟨hv.later.grows, hv.binlog, hv.log, hv.sent, hv.aof⟩
    have hcalm : 𝓔.Calm t u v := fun _ => hv.calm (by simp [World.setStore, Store.begin])
    refine Safe.bind (Safe.mono (Safe.keep (hbody v ⟨hiv, hu.later.trans hl,
      hu.calm.trans hcalm fun ho => by rwa [hu.store.opened], own⟩).toSafe) ?_)
    intro a x _ hq y hy hiy
    have hqy := hq y hy hiy
    refine ⟨fun _ => hdead a y hiy hqy, ?_⟩
    rintro _ y' ⟨_, _, hex, -⟩
    cases hex
    exact ⟨.rollback fun hr => hends hr a y hqy, fun z hz hiz =>
      hkeep a y z hiz ⟨hz.store.grows, hz.binlog, hz.log, hz.sent, hz.aof⟩ hz.store.committed hqy⟩

end Rules

end LiveRevenue
