import Mathlib.Algebra.Order.BigOperators.Group.List
import LiveRevenue.Proof.Scores
import LiveRevenue.Result.Chain

/-! # Scores of the leaderboard

Without rebuilds every score is the sum of what the handlers of the delivered messages
have pushed, as long as doubles hold it. It never exceeds what the delivered events are
worth. A handler that fails or dies between its dedupe row and its last Redis command
loses the rest for good: the redelivered message is taken for applied.
-/

namespace LiveRevenue

open Transact

def giftsOf (ms : List Message) : List LiveGiftAcceptedV1 :=
  ms.filterMap fun m => m.value.unmarshalGiftAccepted

/-- How the scores relate to what some events are worth. -/
structure Redis.Scores (ρ : Redis) (rel : ℤ → ℤ → Prop) (es : List LiveGiftAcceptedV1) : Prop where
  contributors : ∀ id viewer, rel (ρ.score (contributorKey id) (toString viewer))
    ((es.filter fun e => e.liveSessionID = id ∧ e.viewerID = viewer).map
      fun e => (e.chargedCoins : ℤ)).sum
  campaigns : ∀ id creator, rel (ρ.score (campaignKey id) (toString creator))
    ((es.filter fun e => e.campaignID = some id ∧ e.creatorID = creator).map
      fun e => (e.chargedCoins : ℤ)).sum
  matchScores : ∀ id creator, rel (ρ.score (matchScoreKey id) (creatorField creator))
    ((es.filter fun e => e.matchID = some id ∧ e.creatorID = creator).map
      fun e => (e.matchPoints : ℤ)).sum

/-- The sums of the events that go into sorted sets stay below 2^53. -/
structure Countable (es : List LiveGiftAcceptedV1) : Prop where
  contributors : ∀ id viewer, ((es.filter fun e => e.liveSessionID = id ∧ e.viewerID = viewer).map
    fun e => (e.chargedCoins : ℤ)).sum < 2 ^ 53
  campaigns : ∀ id creator, ((es.filter fun e => e.campaignID = some id ∧ e.creatorID = creator).map
    fun e => (e.chargedCoins : ℤ)).sum < 2 ^ 53

/-- The distinct messages for which a leaderboard handler has started. -/
structure Delivered (calls : ℕ → Call) (s : State) (ms : List Message) : Prop where
  distinct : (ms.map extractEventID).Nodup
  mem : ∀ m, m ∈ ms ↔ ∃ t, calls t = .leaderboard m ∧ s.threads t ≠ .idle

/-- Redis without the commands of the handlers of a message. -/
def World.redisWithout (calls : ℕ → Call) (w : World) (m : Message) : Redis :=
  Redis.empty.replay ((w.aof.filter fun e => calls e.1 ≠ .leaderboard m).map (·.2))

/-- What the message is worth is in each of its scores, once. -/
structure IncludedOnce (calls : ℕ → Call) (w : World) (m : Message) (evt : LiveGiftAcceptedV1) :
    Prop where
  contributor : w.redis.score (contributorKey evt.liveSessionID) (toString evt.viewerID) =
    (w.redisWithout calls m).score (contributorKey evt.liveSessionID) (toString evt.viewerID) +
      evt.chargedCoins
  campaign : ∀ c, evt.campaignID = some c →
    w.redis.score (campaignKey c) (toString evt.creatorID) =
      (w.redisWithout calls m).score (campaignKey c) (toString evt.creatorID) + evt.chargedCoins
  matchScores : ∀ k, evt.matchID = some k →
    w.redis.score (matchScoreKey k) (creatorField evt.creatorID) =
      (w.redisWithout calls m).score (matchScoreKey k) (creatorField evt.creatorID) +
        evt.matchPoints

section Sums

variable {es : List LiveGiftAcceptedV1} {ρ : Redis} {rel : ℤ → ℤ → Prop}

theorem Redis.Scores.of_adds
    (h : ∀ key member, rel (ρ.score key member) (es.map (·.adds key member)).sum) :
    ρ.Scores rel es where
  contributors id viewer := by
    have hsum := h (contributorKey id) (toString viewer)
    simp only [adds_contributor, List.sum_map_ite_zero] at hsum
    exact hsum
  campaigns id creator := by
    have hsum := h (campaignKey id) (toString creator)
    simp only [adds_campaign, List.sum_map_ite_zero] at hsum
    exact hsum
  matchScores id creator := by
    have hsum := h (matchScoreKey id) (creatorField creator)
    simp only [adds_match, List.sum_map_ite_zero] at hsum
    exact hsum

theorem Countable.adds_lt (h : Countable es) {key member : String} {n : ℤ}
    {evt : LiveGiftAcceptedV1} (hc : .zIncrBy key n member ∈ giftIncrements evt) :
    (es.map (·.adds key member)).sum < 2 ^ 53 := by
  have hkeys : key = contributorKey evt.liveSessionID ∧ member = toString evt.viewerID ∨
      ∃ c, key = campaignKey c ∧ member = toString evt.creatorID := by
    unfold giftIncrements at hc
    cases hk : evt.campaignID <;> cases hm : evt.matchID <;> simp [hk, hm] at hc <;> grind
  rcases hkeys with ⟨rfl, rfl⟩ | ⟨c, rfl, rfl⟩
  · simp only [adds_contributor, List.sum_map_ite_zero]
    exact h.contributors _ _
  · simp only [adds_campaign, List.sum_map_ite_zero]
    exact h.campaigns _ _

theorem sum_giftsOf (f : LiveGiftAcceptedV1 → ℤ) (ms : List Message) :
    ((giftsOf ms).map f).sum =
      (ms.map fun m => (m.value.unmarshalGiftAccepted.map f).getD 0).sum := by
  unfold giftsOf
  induction ms with
  | nil => rfl
  | cons m ms ih => cases hm : m.value.unmarshalGiftAccepted <;> simp [hm, ih]

theorem sum_le_of_prefix {xs ys : List RedisCmd} {f : RedisCmd → ℤ} (h : xs <+: ys)
    (hf : ∀ c ∈ ys, 0 ≤ f c) : (xs.map f).sum ≤ (ys.map f).sum := by
  obtain ⟨zs, rfl⟩ := h
  rw [List.map_append, List.sum_append]
  refine le_add_of_nonneg_right (List.sum_nonneg fun x hx => ?_)
  obtain ⟨c, hc, rfl⟩ := List.mem_map.mp hx
  exact hf c (List.mem_append_right xs hc)

end Sums

section General

variable [Platform] {calls : ℕ → Call} {w : World} {s : State}
  {K : State → Act Choice → State → Prop}
  {key member : String}

section Runs

variable (hs : Start w) (h : (system calls).Reach K (Pool.fresh w) s)
include hs h

theorem exists_delivered : ∃ ms, Delivered calls s ms := by
  classical
  have hi := (reach_good (.any calls w) hs Env.any_allows h).1
  have hstarted := (reach_delivery hs h).started
  refine ⟨(s.world.log.map (·.2)).dedup.filter fun m => ∃ t, calls t = .leaderboard m ∧
    s.threads t ≠ .idle, ?_, fun m => ?_⟩
  · refine List.Nodup.map_on (fun m hm m' hm' he => ?_) ((List.nodup_dedup _).filter _)
    exact hi.message_unique hs (List.mem_dedup.mp (List.mem_filter.mp hm).1)
      (List.mem_dedup.mp (List.mem_filter.mp hm').1) he
  · rw [List.mem_filter, List.mem_dedup, decide_eq_true_iff]
    refine ⟨fun hm => hm.2, fun hm => ⟨?_, hm⟩⟩
    obtain ⟨t, hc, ht⟩ := hm
    exact hstarted t m (by rw [hc]; rfl) ht

theorem reach_pusher {e : ℕ × RedisCmd} (hc : ∀ id, calls e.1 ≠ .rebuild id)
    (he : e ∈ s.world.aof) : ∃ m evt, calls e.1 = .leaderboard m ∧ s.threads e.1 ≠ .idle ∧
      m.value.unmarshalGiftAccepted = some evt ∧ e.2 ∈ giftIncrements evt := by
  have hp := (reach_delivery hs h).pushed e he
  generalize hcall : calls e.1 = c at hp
  cases c with
  | rebuild id => exact absurd hcall (hc id)
  | leaderboard m =>
    obtain ⟨⟨r, hr, -⟩, evt, hevt, hmem⟩ := hp
    exact ⟨m, evt, rfl, reach_not_idle hs h hr, hevt, hmem⟩
  | _ => cases hp

theorem reach_increments (hc : ∀ t id, calls t ≠ .rebuild id) :
    ∀ c ∈ s.world.aof.map (·.2), c.increments = true := by
  intro c hm
  obtain ⟨e, he, rfl⟩ := List.mem_map.mp hm
  obtain ⟨m, evt, -, -, -, hinc⟩ := reach_pusher hs h (hc e.1) he
  exact giftIncrements_increments _ hinc

theorem reach_adds_nonneg (hc : ∀ t id, calls t ≠ .rebuild id) :
    ∀ c ∈ s.world.aof.map (·.2), 0 ≤ c.adds key member := by
  intro c hm
  obtain ⟨e, he, rfl⟩ := List.mem_map.mp hm
  obtain ⟨m, evt, -, -, -, hinc⟩ := reach_pusher hs h (hc e.1) he
  exact giftIncrements_nonneg _ hinc

theorem reach_adds (hc : ∀ t id, calls t ≠ .rebuild id) {ms : List Message}
    (hms : Delivered calls s ms) : ((s.world.aof.map (·.2)).map (·.adds key member)).sum =
      (ms.map fun m => ((s.world.pushedFor calls m).map (·.adds key member)).sum).sum := by
  have hnodup : (ms.map Call.leaderboard).Nodup :=
    (List.Nodup.of_map _ hms.distinct).map fun m m' he => Call.leaderboard.inj he
  have hcover : ∀ e ∈ s.world.aof, calls e.1 ∈ ms.map Call.leaderboard := by
    intro e he
    obtain ⟨m, evt, hcall, hidle, -⟩ := reach_pusher hs h (hc e.1) he
    rw [hcall]
    exact List.mem_map_of_mem ((hms.mem m).mpr ⟨e.1, hcall, hidle⟩)
  rw [List.map_map, List.sum_map_fibers (fun e => calls e.1) _ hnodup hcover, List.map_map]
  simp only [World.pushedFor, List.map_map, Function.comp_def]

theorem reach_adds_le (hc : ∀ t id, calls t ≠ .rebuild id) {ms : List Message}
    (hms : Delivered calls s ms) : ((s.world.aof.map (·.2)).map (·.adds key member)).sum ≤
      ((giftsOf ms).map (·.adds key member)).sum := by
  rw [reach_adds hs h hc hms, sum_giftsOf]
  refine List.sum_le_sum fun m _ => ?_
  cases hevt : m.value.unmarshalGiftAccepted with
  | some evt => exact sum_le_of_prefix (reach_pushedFor hs h hevt) giftIncrements_nonneg
  | none => simp [reach_pushedFor_none hs h hevt]

theorem reach_score_sublist (hc : ∀ t id, calls t ≠ .rebuild id) {ms : List Message}
    (hms : Delivered calls s ms) (hcount : Countable (giftsOf ms)) {cs : List RedisCmd}
    (hcs : cs.Sublist (s.world.aof.map (·.2))) :
    (Redis.empty.replay cs).score key member = (cs.map (·.adds key member)).sum := by
  have hpos : ∀ c ∈ s.world.aof.map (·.2), 0 ≤ c.adds key member := reach_adds_nonneg hs h hc
  have hle : (cs.map (·.adds key member)).sum ≤
      ((s.world.aof.map (·.2)).map (·.adds key member)).sum := by
    refine (hcs.map _).sum_le_sum fun x hx => ?_
    obtain ⟨c, hc, rfl⟩ := List.mem_map.mp hx
    exact hpos c hc
  rw [Redis.score_replay (fun c hm => reach_increments hs h hc c (hcs.subset hm))
    (fun c hm => hpos c (hcs.subset hm)) le_rfl fun n hn => ?_, Redis.score_empty, zero_add]
  obtain ⟨e, he, hinc⟩ := List.mem_map.mp (hcs.subset hn)
  obtain ⟨m, evt, -, -, -, hmem⟩ := reach_pusher hs h (hc e.1) he
  rw [Redis.score_empty, zero_add]
  exact (hle.trans (reach_adds_le hs h hc hms)).trans_lt (hcount.adds_lt (hinc ▸ hmem))

theorem reach_score (hc : ∀ t id, calls t ≠ .rebuild id) {ms : List Message}
    (hms : Delivered calls s ms) (hcount : Countable (giftsOf ms)) :
    s.world.redis.score key member = ((s.world.aof.map (·.2)).map (·.adds key member)).sum :=
  reach_score_sublist hs h hc hms hcount (List.Sublist.refl _)

end Runs

theorem reach_adds_eq (hs : Start w) (h : (system calls).Reach Unbroken (Pool.fresh w) s)
    (hd : w.db.Unprojected) (hc : ∀ t id, calls t ≠ .rebuild id)
    (hidle : ∀ t m, calls t = .leaderboard m → (s.threads t).running = false) {ms : List Message}
    (hms : Delivered calls s ms) : ((s.world.aof.map (·.2)).map (·.adds key member)).sum =
      ((giftsOf (ms.filter fun m => s.world.db.Recorded leaderboardConsumer m)).map
        (·.adds key member)).sum := by
  rw [reach_adds hs h hc hms, sum_giftsOf, ← List.sum_map_ite_zero]
  refine congrArg List.sum (List.map_congr_left fun m hm => ?_)
  obtain ⟨t, hcall, ht⟩ := (hms.mem m).mp hm
  split
  · next hr =>
    cases hevt : m.value.unmarshalGiftAccepted with
    | none => simp [reach_pushedFor_none hs h hevt]
    | some evt =>
      have hlog := (reach_delivery hs h).started t m (by rw [hcall]; rfl) ht
      rw [reach_pushedFor_all hs h hd hlog hevt hr fun t hc => hidle t m hc]
      rfl
  · next hr => simp [reach_pushedFor_nil hs h fun t _ ht => hr (ht.recorded hs h)]

/-- Whatever fails and however often and wherever a message is delivered, no score exceeds what
the delivered events are worth. If no delivery fails after its dedupe row is committed and none is
at work, the scores are exactly what the delivered events with a dedupe row are worth. -/
theorem leaderboard_never_overcounts (calls : ℕ → Call) {w : World} (hs : Start w)
    (hd : w.db.Unprojected) (hc : ∀ t id, calls t ≠ .rebuild id) {s : State}
    (h : (system calls).Reach (fun _ _ _ => True) (Pool.fresh w) s) :
    ∃ ms, Delivered calls s ms ∧ (Countable (giftsOf ms) →
      s.world.redis.Scores (· ≤ ·) (giftsOf ms) ∧
      ((system calls).Reach Unbroken (Pool.fresh w) s →
        (∀ t m, calls t = .leaderboard m → (s.threads t).running = false) →
        s.world.redis.Scores (· = ·)
          (giftsOf (ms.filter fun m => s.world.db.Recorded leaderboardConsumer m)))) := by
  obtain ⟨ms, hms⟩ := exists_delivered hs h
  refine ⟨ms, hms, fun hcount => ⟨.of_adds fun key member => ?_, fun hup hidle =>
    .of_adds fun key member => ?_⟩⟩
  · rw [reach_score hs h hc hms hcount]
    exact reach_adds_le hs h hc hms
  · rw [reach_score hs h hc hms hcount]
    exact reach_adds_eq hs hup hd hc hidle hms

end General

section Witness

open Plain

def boardMessage : Message :=
  ⟨giftAcceptedTopic, "9001", .giftAccepted ⟨giftAcceptedTopic, 1, 2001, 1001, 9001, some 7001,
    some 8001, "ROSE", 3, 3, 3, 3, "g1"⟩, [("event_id", "2")]⟩

def giftAndBoards : ℕ → Call
  | 0 => .sendGift ⟨"g1", 2001, 1001, 9001, some 8001, "ROSE", 3, 0⟩
  | 2 => .leaderboard boardMessage
  | 3 => .leaderboard boardMessage
  | 4 => .leaderboard boardMessage
  | _ => .runOnce 10

theorem giftAndBoards_rebuild (t id : ℕ) : giftAndBoards t ≠ .rebuild id := by
  unfold giftAndBoards
  split <;> exact nofun

theorem giftAndBoards_handler {t : ℕ} {m : Message} (h : giftAndBoards t = .leaderboard m) :
    (t = 2 ∨ t = 3 ∨ t = 4) ∧ m = boardMessage := by
  unfold giftAndBoards at h
  split at h <;> cases h <;> simp

theorem migrated_unprojected : migrated.Unprojected := fun _ hr => by cases hr

def boardsIdle (s : State) : Bool :=
  !(s.threads 2).running && !(s.threads 3).running && !(s.threads 4).running

theorem boardsIdle_spec {s : State} (h : boardsIdle s = true) (t : ℕ) (m : Message)
    (hc : giftAndBoards t = .leaderboard m) : (s.threads t).running = false := by
  simp only [boardsIdle, Bool.and_eq_true, Bool.not_eq_true'] at h
  obtain ⟨rfl | rfl | rfl, -⟩ := giftAndBoards_handler hc
  · exact h.1.1
  · exact h.1.2
  · exact h.2

theorem countable_boardMessage : Countable (giftsOf [boardMessage]) := by
  constructor <;> intro id u <;> simp only [giftsOf, boardMessage, List.filterMap_cons,
    Payload.unmarshalGiftAccepted, List.filterMap_nil, List.filter_cons, List.filter_nil] <;>
    split <;> decide

theorem Delivered.countable_boards {s : State} {ms : List Message}
    (h : Delivered giftAndBoards s ms) : Countable (giftsOf ms) := by
  have hall : ∀ m ∈ ms, m = boardMessage := fun m hm => by
    obtain ⟨t, hc, -⟩ := (h.mem m).mp hm
    exact (giftAndBoards_handler hc).2
  have hnodup := List.Nodup.of_map _ h.distinct
  rcases ms with _ | ⟨m, _ | ⟨m', ms⟩⟩
  · constructor <;> simp [giftsOf]
  · rw [hall m List.mem_cons_self]
    exact countable_boardMessage
  · refine absurd ?_ (List.nodup_cons.mp hnodup).1
    rw [hall m List.mem_cons_self, hall m' (by simp)]
    exact List.mem_cons_self

/-- One handler dies before it claims the event, two others race for it. -/
theorem leaderboard_never_overcounts_race : ∃ s : State,
    s.world.redis.score (matchScoreKey 8001) (creatorField 1001) = 3 ∧
    ∃ ms, Delivered giftAndBoards s ms ∧ s.world.redis.Scores (· ≤ ·) (giftsOf ms) ∧
      s.world.redis.Scores (· = ·)
        (giftsOf (ms.filter fun m => s.world.db.Recorded leaderboardConsumer m)) := by
  obtain ⟨s, hr, hp⟩ := Machine.exists_reach (M := system giftAndBoards)
    (s := Pool.fresh (World.boot migrated)) (K := fun s a s' => decide (Unbroken s a s'))
    (p := fun s => decide (s.world.redis.score (matchScoreKey 8001) (creatorField 1001) = 3) &&
      boardsIdle s)
    (launch 0 21 5 ++ launch 1 9 6 ++ startAll [2, 3, 4] ++ resume 2 1 7 ++ kill 2 ++
      resume 4 1 7 ++ resume 3 6 8 ++ resume 4 5 9 ++ resume 3 3 8) (by decide +kernel)
  obtain ⟨hscore, hidle⟩ := Bool.and_eq_true_iff.mp hp
  obtain ⟨ms, hms, hall⟩ := leaderboard_never_overcounts giftAndBoards
    (Start.boot rfl rfl rfl rfl) migrated_unprojected giftAndBoards_rebuild
    (hr.mono fun _ _ _ _ => trivial)
  obtain ⟨hle, heq⟩ := hall hms.countable_boards
  exact ⟨s, of_decide_eq_true hscore, ms, hms, hle,
    heq (hr.mono fun _ _ _ hk => of_decide_eq_true hk) (boardsIdle_spec hidle)⟩

/-- The only delivery fails at `BEGIN`: nothing was claimed and nothing fails afterwards, but the
event was delivered and counts nowhere. -/
theorem leaderboard_unclaimed : ∃ s : State,
    (system giftAndBoards).Reach Unbroken (Pool.fresh (World.boot migrated)) s ∧
    s.world.db.consumerDedupe = [] ∧
    (∀ t m, giftAndBoards t = .leaderboard m → (s.threads t).running = false) ∧
    Delivered giftAndBoards s [boardMessage] ∧ Countable (giftsOf [boardMessage]) ∧
    ¬ s.world.redis.Scores (· = ·) (giftsOf [boardMessage]) := by
  obtain ⟨s, hr, hp⟩ := Machine.exists_reach (M := system giftAndBoards)
    (s := Pool.fresh (World.boot migrated)) (K := fun s a s' => decide (Unbroken s a s'))
    (p := fun s => decide (s.world.db.consumerDedupe = [] ∧
      s.world.redis.score (contributorKey 9001) (toString 2001) = 0 ∧
      (s.threads 2).result?.isSome) && boardsIdle s)
    (launch 0 21 5 ++ launch 1 9 6 ++ startAll [2] ++ failNext 2 false) (by decide +kernel)
  obtain ⟨hchecks, hidle⟩ := Bool.and_eq_true_iff.mp hp
  obtain ⟨hdedupe, hscore, hres⟩ := of_decide_eq_true hchecks
  refine ⟨s, hr.mono fun _ _ _ hk => of_decide_eq_true hk, hdedupe, boardsIdle_spec hidle,
    ⟨List.nodup_singleton _, fun m => ⟨fun hm => ?_, fun ⟨t, hc, _⟩ => ?_⟩⟩,
    countable_boardMessage, fun hsum => ?_⟩
  · refine ⟨2, by rw [List.mem_singleton.mp hm]; rfl, fun hth => ?_⟩
    rw [hth] at hres
    cases hres
  · exact List.mem_singleton.mpr (giftAndBoards_handler hc).2
  · have := hsum.contributors 9001 2001
    rw [hscore] at this
    exact absurd this (by decide)

end Witness

/-- Every message marked as applied counts, once no handler of it is at work. -/
def AcknowledgedCounts (calls : ℕ → Call) (s : State) : Prop :=
  ∀ e ∈ s.world.marked, e.2.group = leaderboardGroup → e.2.metadata = "applied" →
    (∀ t, calls t = .leaderboard e.2.msg → (s.threads t).running = false) →
    ∀ evt, e.2.msg.value.unmarshalGiftAccepted = some evt →
      IncludedOnce calls s.world e.2.msg evt

section Acknowledged

variable [Platform] {calls : ℕ → Call} {w : World} {s : State}
  {K : State → Act Choice → State → Prop}
  {m : Message} {evt : LiveGiftAcceptedV1}

section Counted

variable (hs : Start w) (h : (system calls).Reach K (Pool.fresh w) s)
  (hc : ∀ t id, calls t ≠ .rebuild id) {ms : List Message} (hms : Delivered calls s ms)
  (hcount : Countable (giftsOf ms))
include hs h hc hms hcount

/-- A score without a message and what was pushed for the message make up the score. -/
theorem reach_score_split {key member : String} :
    s.world.redis.score key member = (s.world.redisWithout calls m).score key member +
      ((s.world.pushedFor calls m).map (·.adds key member)).sum := by
  have hothers : ((s.world.aof.filter fun e => calls e.1 ≠ .leaderboard m).map (·.2)).Sublist
      (s.world.aof.map (·.2)) := List.filter_sublist.map _
  rw [reach_score hs h hc hms hcount, World.redisWithout,
    reach_score_sublist hs h hc hms hcount hothers, add_comm, World.pushedFor, ← List.sum_append,
    ← List.map_append, ← List.map_append]
  refine (List.Perm.sum_eq ?_).symm
  have hperm := List.filter_append_perm (fun e => decide (calls e.1 = .leaderboard m)) s.world.aof
  simp only [← decide_not] at hperm
  exact (hperm.map _).map _

theorem IncludedOnce.of_pushed (hp : s.world.pushedFor calls m = giftIncrements evt) :
    IncludedOnce calls s.world m evt := by
  have hadds : ∀ key member, s.world.redis.score key member =
      (s.world.redisWithout calls m).score key member + evt.adds key member := fun key member => by
    rw [reach_score_split hs h hc hms hcount, hp]
    rfl
  refine ⟨?_, fun c hk => ?_, fun k hk => ?_⟩
  · rw [hadds, adds_contributor, if_pos ⟨rfl, rfl⟩]
  · rw [hadds, adds_campaign, if_pos ⟨hk, rfl⟩]
  · rw [hadds, adds_match, if_pos ⟨hk, rfl⟩]

end Counted

theorem reach_applied (hs : Start w) (h : (system calls).Reach K (Pool.fresh w) s) {e : ℕ × Mark}
    (he : e ∈ s.world.marked) (hg : e.2.group = leaderboardGroup) (ha : e.2.metadata = "applied") :
    e.2.msg ∈ s.world.log.map (·.2) ∧ s.world.db.Recorded leaderboardConsumer e.2.msg := by
  have hdel := reach_delivery hs h
  have hmarks := hdel.marked e he
  generalize hc : calls e.1 = c at hmarks
  cases c with
  | leaderboard m =>
    obtain ⟨-, hmsg, -, hrec⟩ := hmarks
    rw [hmsg]
    exact ⟨hdel.started e.1 m (by rw [hc]; rfl) (hdel.markers e he), hrec ha⟩
  | points m => exact absurd (hmarks.1.symm.trans hg) (by decide)
  | settlement m => exact absurd (hmarks.1.symm.trans hg) (by decide)
  | _ => cases hmarks

/-- If no delivery fails after its dedupe row is committed, whatever else fails and however often a
message is delivered, an acknowledged gift counts exactly once. -/
theorem acknowledged_gifts_count (calls : ℕ → Call) {w : World} (hs : Start w)
    (hd : w.db.Unprojected) (hc : ∀ t id, calls t ≠ .rebuild id) {s : State}
    (h : (system calls).Reach Unbroken (Pool.fresh w) s) :
    ∃ ms, Delivered calls s ms ∧ (Countable (giftsOf ms) → AcknowledgedCounts calls s) := by
  obtain ⟨ms, hms⟩ := exists_delivered hs h
  refine ⟨ms, hms, fun hcount e he hg ha hidle evt hevt => ?_⟩
  obtain ⟨hlog, hrec⟩ := reach_applied hs h he hg ha
  exact .of_pushed hs h hc hms hcount (reach_pushedFor_all hs h hd hlog hevt hrec hidle)

end Acknowledged

section Witness

open Plain

/-- One handler gets an error when it inserts its row, the next applies the event, a third
finds it applied. -/
theorem acknowledged_gifts_count_retried : ∃ s : State, s.world.marked.length = 2 ∧
    s.world.redis.score (contributorKey 9001) (toString 2001) = 3 ∧
    AcknowledgedCounts giftAndBoards s := by
  obtain ⟨s, hr, hp⟩ := Machine.exists_reach (M := system giftAndBoards)
    (s := Pool.fresh (World.boot migrated)) (K := fun s a s' => decide (Unbroken s a s'))
    (p := fun s => decide (s.world.marked.length = 2 ∧
      s.world.redis.score (contributorKey 9001) (toString 2001) = 3))
    (launch 0 21 5 ++ launch 1 9 6 ++ startAll [2] ++ resume 2 2 7 ++ failNext 2 false ++
      resume 2 1 7 ++ launch 3 9 8 ++ launch 4 6 9) (by decide +kernel)
  obtain ⟨hmarked, hscore⟩ := of_decide_eq_true hp
  obtain ⟨ms, hms, hall⟩ := acknowledged_gifts_count giftAndBoards (Start.boot rfl rfl rfl rfl)
    migrated_unprojected giftAndBoards_rebuild (hr.mono fun _ _ _ hk => of_decide_eq_true hk)
  exact ⟨s, hmarked, hscore, hall hms.countable_boards⟩

/-- The handler dies between its dedupe row and Redis. The next one takes the event for applied
and acknowledges it; the gift counts nowhere. -/
theorem acknowledged_gift_lost : ∃ s : State,
    (system giftAndBoards).Reach (fun _ _ _ => True) (Pool.fresh (World.boot migrated)) s ∧
    s.world.aof = [] ∧ ¬ AcknowledgedCounts giftAndBoards s := by
  obtain ⟨s, hr, hp⟩ := Machine.exists_reach (M := system giftAndBoards)
    (s := Pool.fresh (World.boot migrated)) (K := fun _ _ _ => true)
    (p := fun s => decide (s.world.marked = [(3, ⟨leaderboardGroup, boardMessage, "applied"⟩)] ∧
      s.world.aof = []) && boardsIdle s)
    (launch 0 21 5 ++ launch 1 9 6 ++ launch 2 4 7 ++ kill 2 ++ launch 3 6 8) (by decide +kernel)
  obtain ⟨hchecks, hidle⟩ := Bool.and_eq_true_iff.mp hp
  obtain ⟨hmarked, haof⟩ := of_decide_eq_true hchecks
  refine ⟨s, hr.mono fun _ _ _ _ => trivial, haof, fun hcounts => ?_⟩
  have hincluded := (hcounts _ (hmarked ▸ List.mem_singleton_self _) rfl rfl
    (fun t hc => boardsIdle_spec hidle t _ hc) _ rfl).contributor
  simp only [World.redis, World.redisWithout, haof] at hincluded
  exact absurd hincluded (by decide)

end Witness

end LiveRevenue
