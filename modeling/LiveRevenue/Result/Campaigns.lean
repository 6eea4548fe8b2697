import LiveRevenue.Result.Rebuild

/-! # Three totals of a campaign

Redis counts the events as they come, a rebuild sums the orders of the campaign's
sessions, and MySQL sums the ledger of the points projector. Once both projectors have
applied every gift event, each event counts once in each: the three are the same sums
over the same orders.
-/

namespace LiveRevenue

open Transact

def DB.earners (d : DB) (c : ℕ) : List ℕ :=
  ((d.campaignPoints.filter fun r => r.campaignID = c).map (·.creatorID)).dedup

def DB.earned (d : DB) (c k : ℕ) : ℤ :=
  ((d.campaignPoints.filter fun r => r.campaignID = c ∧ r.creatorID = k).map
    fun r => (r.points : ℤ)).sum

/-- The sorted set of a campaign has its earners, each with what it has earned, and nobody else. -/
def Redis.Shows (ρ : Redis) (d : DB) (c : ℕ) : Prop :=
  ∀ member n, ρ (campaignKey c) member = some n ↔
    ∃ k ∈ d.earners c, member = toString k ∧ n = d.earned c k

/-- The rows are the earners of a campaign with what they have earned: all of them if there are
at most `n`, and otherwise the first `n`, by points and then by id. -/
structure DB.Ranks (d : DB) (c n : ℕ) (rows : List (ℕ × ℤ)) : Prop where
  earned : ∀ x ∈ rows, x.1 ∈ d.earners c ∧ x.2 = d.earned c x.1
  all : (d.earners c).length ≤ n → ∀ k ∈ d.earners c, (k, d.earned c k) ∈ rows
  count : n < (d.earners c).length → rows.length = n
  ordered : rows.Pairwise fun x y => y.2 < x.2 ∨ x.2 = y.2 ∧ x.1 < y.1
  first : ∀ x ∈ rows, ∀ k ∈ d.earners c, (k, d.earned c k) ∉ rows →
    d.earned c k < x.2 ∨ x.2 = d.earned c k ∧ x.1 < k

/-- Both projectors have applied every gift event: the rows are there and no handler of the
leaderboard is on its way from its row to Redis. -/
structure AppliedByBoth (calls : ℕ → Call) (s : State) : Prop where
  recorded : ∀ r ∈ s.world.db.outboxEvents, r.topic = giftAcceptedTopic → ∃ m, r.message = some m ∧
    s.world.db.Recorded leaderboardConsumer m ∧ s.world.db.Recorded pointsConsumer m
  finished : ∀ t m, calls t = .leaderboard m → (s.threads t).running = false

/-- Redis, what a rebuild of any session of the campaign makes of any Redis, and the report agree
with the ledger on the creators of the campaign and on their totals. -/
structure CampaignAgrees [Platform] (calls : ℕ → Call) (s : State) (c : ℕ) : Prop where
  redis : s.world.redis.Shows s.world.db c
  rebuilds : ∀ t l x, calls t = .rebuild l → s.world.db.liveSessions l = some x →
    x.campaignID = some c →
    (s.world.db.Rebuildable l x → ∃ s', (system calls).Reach (Only Choice.Ok t) s s' ∧
      (s'.threads t).result? = some (.handled (.ok ()))) ∧
    ∀ s', (system calls).Reach (Only (fun _ => True) t) s s' →
      (s'.threads t).result? = some (.handled (.ok ())) →
      ∃ cs, s'.world.aof.map (·.2) = s.world.aof.map (·.2) ++ cs ∧
        ∀ ρ : Redis, (ρ.replay cs).Shows s.world.db c
  reported : ∀ limit, ∃ rows, Service.getCampaignLeaderboard s.world.db c limit = .ok rows ∧
    s.world.db.Ranks c (if 1 ≤ limit ∧ limit ≤ 100 then limit.toNat else 20) rows

section Lists

theorem giftsOf_cons {m : Message} {ms : List Message} :
    giftsOf (m :: ms) = m.value.unmarshalGiftAccepted.toList ++ giftsOf ms := by
  unfold giftsOf
  cases hm : m.value.unmarshalGiftAccepted <;> simp [hm]

theorem flatMap_giftsOf {β : Type} {f : Message → List β} {g : LiveGiftAcceptedV1 → List β}
    {ms : List Message}
    (h : ∀ m ∈ ms, f m = m.value.unmarshalGiftAccepted.toList.flatMap g) :
    ms.flatMap f = (giftsOf ms).flatMap g := by
  induction ms with
  | nil => rfl
  | cons m ms ih =>
    rw [giftsOf_cons, List.flatMap_cons, List.flatMap_append, h m List.mem_cons_self,
      ih fun m' hm' => h m' (List.mem_cons_of_mem m hm')]

end Lists

section Ledger

variable {rows : List CampaignPoint} {os : List GiftOrder}

theorem ledger_sum (h : (rows.map fun r => (r.creatorID, r.points)).Perm
    (os.map fun o => (o.creatorID, o.chargedCoins))) (k : ℕ) :
    ((rows.filter fun r => r.creatorID = k).map fun r => (r.points : ℤ)).sum =
      sumOf (·.chargedCoins) (os.filter fun o => o.creatorID = k) := by
  have hsum := (((h.filter fun x => x.1 = k).map fun x => (x.2 : ℤ))).sum_eq
  simp only [List.filter_map, List.map_map, Function.comp_def] at hsum
  exact hsum

variable {d : DB} {c : ℕ} {ρ : Redis}

theorem mem_earners (h : ((d.campaignPoints.filter fun r => r.campaignID = c).map fun r =>
      (r.creatorID, r.points)).Perm
    ((d.campaignOrders c).map fun o => (o.creatorID, o.chargedCoins))) {k : ℕ} :
    k ∈ d.earners c ↔ ∃ o ∈ d.campaignOrders c, o.creatorID = k := by
  have hids := h.map (·.1)
  simp only [List.map_map, Function.comp_def] at hids
  rw [DB.earners, List.mem_dedup, hids.mem_iff, List.mem_map]

theorem earned_eq (h : ((d.campaignPoints.filter fun r => r.campaignID = c).map fun r =>
      (r.creatorID, r.points)).Perm
    ((d.campaignOrders c).map fun o => (o.creatorID, o.chargedCoins))) (k : ℕ) :
    d.earned c k =
      sumOf (·.chargedCoins) ((d.campaignOrders c).filter fun o => o.creatorID = k) := by
  rw [← ledger_sum h, List.filter_filter, DB.earned]
  simp only [Bool.decide_and, Bool.and_comm]

theorem Redis.Maps.shows
    (hρ : ρ.Maps (campaignKey c) toString (·.creatorID) (·.chargedCoins) (d.campaignOrders c))
    (h : ((d.campaignPoints.filter fun r => r.campaignID = c).map fun r =>
      (r.creatorID, r.points)).Perm
      ((d.campaignOrders c).map fun o => (o.creatorID, o.chargedCoins))) : ρ.Shows d c := by
  intro member n
  rw [hρ member n]
  constructor
  · rintro ⟨o, ho, rfl, rfl⟩
    exact ⟨o.creatorID, (mem_earners h).mpr ⟨o, ho, rfl⟩, rfl, (earned_eq h _).symm⟩
  · rintro ⟨k, hk, rfl, rfl⟩
    obtain ⟨o, ho, rfl⟩ := (mem_earners h).mp hk
    exact ⟨o, ho, rfl, earned_eq h _⟩

theorem campaignTotals_eq (d : DB) (c : ℕ) :
    Service.campaignTotals d c = (d.earners c).map fun k => (k, d.earned c k) := by
  unfold Service.campaignTotals DB.earners DB.earned
  simp only [List.filter_filter, Bool.decide_and, Bool.and_comm]

theorem mem_campaignTotals {x : ℕ × ℤ} :
    x ∈ Service.campaignTotals d c ↔ x.1 ∈ d.earners c ∧ x.2 = d.earned c x.1 := by
  rw [campaignTotals_eq, List.mem_map]
  constructor
  · rintro ⟨k, hk, rfl⟩
    exact ⟨hk, rfl⟩
  · rintro ⟨hk, he⟩
    exact ⟨x.1, hk, Prod.ext rfl he.symm⟩

theorem byScore_strict {x y : ℕ × ℤ} (h : Ranking.byScore id x y) (hne : x.1 ≠ y.1) :
    y.2 < x.2 ∨ x.2 = y.2 ∧ x.1 < y.1 := by
  rcases h with h | ⟨he, hle⟩
  · exact .inl h
  · exact .inr ⟨he, lt_of_le_of_ne hle hne⟩

theorem topByTotal_ranks (d : DB) (c n : ℕ) :
    d.Ranks c n (topByTotal n (Service.campaignTotals d c)) := by
  have hperm := List.perm_insertionSort (Ranking.byScore id) (Service.campaignTotals d c)
  have hsorted := List.pairwise_insertionSort (Ranking.byScore id) (Service.campaignTotals d c)
  have hlength : (Service.campaignTotals d c).length = (d.earners c).length := by
    rw [campaignTotals_eq, List.length_map]
  have hids : ((Service.campaignTotals d c).map (·.1)).Nodup := by
    rw [campaignTotals_eq, List.map_map]
    exact (List.map_id' _).symm ▸ List.nodup_dedup _
  change d.Ranks c n (((Service.campaignTotals d c).insertionSort (Ranking.byScore id)).take n)
  generalize (Service.campaignTotals d c).insertionSort (Ranking.byScore id) = sorted
    at hperm hsorted
  have hmem : ∀ x, x ∈ sorted ↔ x.1 ∈ d.earners c ∧ x.2 = d.earned c x.1 := fun x =>
    hperm.mem_iff.trans mem_campaignTotals
  have hstrict : sorted.Pairwise fun x y => y.2 < x.2 ∨ x.2 = y.2 ∧ x.1 < y.1 :=
    (hsorted.and (List.pairwise_map.mp ((hperm.map (·.1)).nodup_iff.mpr hids))).imp
      fun hxy => byScore_strict hxy.1 hxy.2
  constructor
  · intro x hx
    exact (hmem x).mp (List.mem_of_mem_take hx)
  · intro hn k hk
    rw [List.take_of_length_le (by rw [hperm.length_eq, hlength]; exact hn)]
    exact (hmem _).mpr ⟨hk, rfl⟩
  · intro hn
    rw [List.length_take, hperm.length_eq, hlength]
    exact min_eq_left hn.le
  · exact hstrict.sublist (List.take_sublist n sorted)
  · intro x hx k hk hno
    have hlater : (k, d.earned c k) ∈ sorted := (hmem _).mpr ⟨hk, rfl⟩
    exact Ranking.rel_of_mem_take (y := (k, d.earned c k)) hstrict hx hlater hno

theorem campaignLeaderboard_eq
    (h : ((d.campaignPoints.filter fun r => r.campaignID = c).map fun r =>
      (r.creatorID, r.points)).Perm
      ((d.campaignOrders c).map fun o => (o.creatorID, o.chargedCoins)))
    (hsums : CoinsExact (·.creatorID) (d.campaignOrders c)) (limit : ℤ) :
    Service.getCampaignLeaderboard d c limit =
      .ok (topByTotal (serviceLimit limit) (Service.campaignTotals d c)) := by
  refine if_pos (List.all_eq_true.mpr ?_)
  intro x hx
  obtain ⟨-, hn⟩ := mem_campaignTotals.mp
    ((List.mem_insertionSort _).mp (List.mem_of_mem_take hx))
  rw [earned_eq h] at hn
  have hpos := sumOf_nonneg (·.chargedCoins) ((d.campaignOrders c).filter (·.creatorID = x.1))
  have hlt : sumOf (·.chargedCoins) ((d.campaignOrders c).filter (·.creatorID = x.1)) < 2 ^ 53 :=
    hsums x.1
  simp only [fitsInt64, Bool.and_eq_true, decide_eq_true_eq]
  omega

theorem campaignLeaderboard_ranks
    (h : ((d.campaignPoints.filter fun r => r.campaignID = c).map fun r =>
      (r.creatorID, r.points)).Perm
      ((d.campaignOrders c).map fun o => (o.creatorID, o.chargedCoins)))
    (hsums : CoinsExact (·.creatorID) (d.campaignOrders c)) (limit : ℤ) :
    ∃ rows, Service.getCampaignLeaderboard d c limit = .ok rows ∧
      d.Ranks c (if 1 ≤ limit ∧ limit ≤ 100 then limit.toNat else 20) rows := by
  have hlimit : serviceLimit limit = if 1 ≤ limit ∧ limit ≤ 100 then limit.toNat else 20 := by
    unfold serviceLimit
    split <;> split <;> omega
  rw [← hlimit]
  exact ⟨_, campaignLeaderboard_eq h hsums limit, topByTotal_ranks d c _⟩

end Ledger

section Messages

def DB.giftMessages (d : DB) : List Message :=
  (d.outboxEvents.filter fun r => r.topic = giftAcceptedTopic).filterMap (·.message)

theorem DB.mem_giftMessages {d : DB} {m : Message} : m ∈ d.giftMessages ↔
    ∃ r ∈ d.outboxEvents, r.message = some m ∧ m.topic = giftAcceptedTopic := by
  simp only [DB.giftMessages, List.mem_filterMap, List.mem_filter, decide_eq_true_eq]
  constructor
  · rintro ⟨r, ⟨hr, ht⟩, hm⟩
    exact ⟨r, hr, hm, (message_topic hm).trans ht⟩
  · rintro ⟨r, hr, hm, ht⟩
    exact ⟨r, ⟨hr, (message_topic hm).symm.trans ht⟩, hm⟩

theorem DB.giftsOf_giftMessages {d : DB}
    (h : ∀ r ∈ d.outboxEvents, r.topic = giftAcceptedTopic → ∃ m, r.message = some m) :
    giftsOf d.giftMessages = d.gifts := by
  unfold giftsOf DB.giftMessages DB.gifts DB.payloads
  rw [List.filterMap_filterMap, List.filterMap_map]
  refine List.filterMap_congr fun r hr => ?_
  obtain ⟨hr, ht⟩ := List.mem_filter.mp hr
  obtain ⟨m, hm⟩ := h r hr (of_decide_eq_true ht)
  rw [hm, Option.bind_some, message_value hm]
  rfl

end Messages

section General

variable [Platform] {calls : ℕ → Call} {w : World} {s : State}
  {K : State → Act Choice → State → Prop}

omit [Platform] in
theorem AppliedByBoth.messages (h : AppliedByBoth calls s) : ∀ r ∈ s.world.db.outboxEvents,
    r.topic = giftAcceptedTopic → ∃ m, r.message = some m := by
  intro r hr ht
  obtain ⟨m, hm, -⟩ := h.recorded r hr ht
  exact ⟨m, hm⟩

omit [Platform] in
theorem AppliedByBoth.of_mem (h : AppliedByBoth calls s) {m : Message}
    (hm : m ∈ s.world.db.giftMessages) :
    s.world.db.Recorded leaderboardConsumer m ∧ s.world.db.Recorded pointsConsumer m := by
  obtain ⟨r, hr, hrm, ht⟩ := DB.mem_giftMessages.mp hm
  obtain ⟨m', hm', hrec⟩ := h.recorded r hr ((message_topic hrm).symm.trans ht)
  obtain rfl := Option.some.inj (hrm.symm.trans hm')
  exact hrec

section Runs

variable (hs : Start w) (hb : w.db.Blank) (h : (system calls).Reach K (Pool.fresh w) s)
include hs hb h

theorem reach_logged {r : OutboxRow} {m : Message} {consumer : String}
    (hr : r ∈ s.world.db.outboxEvents) (hm : r.message = some m)
    (hrec : s.world.db.Recorded consumer m) : m ∈ s.world.log.map (·.2) := by
  obtain ⟨hl, hd⟩ := reach_legal hs h
  have hi := (reach_good (.any calls w) hs Env.any_allows h).1
  obtain ⟨x, hx, hlock⟩ := hrec
  rw [hd, mem_dbAt (fun _ _ => applyAll_consumerDedupe), hb.consumerDedupe] at hx
  rcases hx with hx | ⟨⟨t, ws⟩, he, hx⟩
  · cases hx
  obtain ⟨h₁, h₂, -, -, htx⟩ := hl.at he
  obtain ⟨m', hcall, hid⟩ : ∃ m', (calls t).message? = some m' ∧
      extractEventID m' = extractEventID m := by
    generalize calls t = c at htx
    rcases (htx.of_dedupe hx).2 with ⟨m', rfl, hlock', -⟩ | ⟨m', rfl, hlock', -⟩
    · exact ⟨m', rfl, (Lock.dedupe.inj (hlock'.symm.trans hlock)).2⟩
    · exact ⟨m', rfl, (Lock.dedupe.inj (hlock'.symm.trans hlock)).2⟩
  have hm' : m' ∈ s.world.log.map (·.2) := reach_handled hs h he hcall
  obtain ⟨r', hr', hrm', hid'⟩ := hi.row_of_message hm'
  obtain rfl := hi.row_unique hs hr hr' (by rw [← hid', hid, hi.eventID_of_message hr hm])
  rw [hm] at hrm'
  rwa [Option.some.inj hrm']

omit hb in
theorem reach_giftPusher {e : ℕ × RedisCmd} (hc : ∀ id, calls e.1 ≠ .rebuild id)
    (he : e ∈ s.world.aof) : calls e.1 ∈ s.world.db.giftMessages.map Call.leaderboard := by
  have hdel := reach_delivery hs h
  obtain ⟨m, evt, hcall, hidle, -⟩ := reach_pusher hs h hc he
  have htopic := hdel.topics e.1 m (by rw [hcall]; rfl) hidle
  rw [hcall] at htopic ⊢
  obtain ⟨r, hr, hrm, -⟩ := (reach_good (.any calls w) hs Env.any_allows h).1.row_of_message
    (hdel.started e.1 m (by rw [hcall]; rfl) hidle)
  exact List.mem_map_of_mem (DB.mem_giftMessages.mpr ⟨r, hr, hrm, List.mem_singleton.mp htopic⟩)

omit hb in
theorem reach_giftMessages_nodup : (s.world.db.giftMessages.map extractEventID).Nodup := by
  have hi := (reach_good (.any calls w) hs Env.any_allows h).1
  have hids := hi.legal.eventIDs hs.eventIDs
  rw [← hi.db_eq] at hids
  rw [DB.giftMessages, List.filterMap_eq_flatMap_toList]
  refine List.Sublist.nodup (List.flatMap_sublist_map fun r hr => ?_)
    ((List.filter_sublist.map (·.eventID)).nodup hids)
  cases hm : r.message with
  | none => exact List.nil_sublist _
  | some m =>
    rw [Option.toList_some, List.map_singleton,
      hi.eventID_of_message (List.mem_filter.mp hr).1 hm]

theorem reach_ledger (hall : ∀ m ∈ s.world.db.giftMessages, s.world.db.Recorded pointsConsumer m) :
    s.world.db.campaignPoints.Perm (s.world.db.giftMessages.flatMap fun m =>
      m.value.unmarshalGiftAccepted.toList.flatMap (·.campaignPoints (extractEventID m))) := by
  obtain ⟨hl, hd⟩ := reach_legal hs h
  have hi := (reach_good (.any calls w) hs Env.any_allows h).1
  have hids := hl.pointIDs hb.fanPoints hb.campaignPoints
  rw [← hd] at hids
  refine (List.perm_ext_iff_of_nodup (List.Nodup.of_map _ hids.2)
    (List.Nodup.of_map (·.eventID) ?_)).mpr
    fun p => ?_
  · refine (reach_giftMessages_nodup hs h).sublist (List.flatMap_sublist_map fun m _ => ?_)
    cases m.value.unmarshalGiftAccepted with
    | none => exact List.nil_sublist _
    | some evt => cases hc : evt.campaignID <;> simp [LiveGiftAcceptedV1.campaignPoints, hc]
  simp only [List.mem_flatMap, Option.mem_toList]
  constructor
  · intro hp
    obtain ⟨m, evt, hcred, hmem⟩ := hl.credited_of_campaignPoint hb.campaignPoints (hd ▸ hp)
    obtain ⟨t, ws, he, hcall, htopic, hevt, -⟩ := hcred
    obtain ⟨r, hr, hrm, -⟩ := hi.row_of_message (reach_handled hs h he (by rw [hcall]; rfl))
    exact ⟨m, DB.mem_giftMessages.mpr ⟨r, hr, hrm, htopic⟩, evt, hevt, hmem⟩
  · rintro ⟨m, hm, evt, hevt, hmem⟩
    obtain ⟨r, hr, hrm, htopic⟩ := DB.mem_giftMessages.mp hm
    have hcred := reach_credited hs hb h (reach_logged hs hb h hr hrm (hall m hm)) htopic hevt
      (hall m hm)
    rw [hd]
    exact hcred.rows.2 p hmem

theorem reach_campaignRows (hmsg : ∀ r ∈ s.world.db.outboxEvents, r.topic = giftAcceptedTopic →
      ∃ m, r.message = some m)
    (hall : ∀ m ∈ s.world.db.giftMessages, s.world.db.Recorded pointsConsumer m) (c : ℕ) :
    ((s.world.db.campaignPoints.filter fun r => r.campaignID = c).map fun r =>
      (r.creatorID, r.points)).Perm
      ((s.world.db.campaignOrders c).map fun o => (o.creatorID, o.chargedCoins)) := by
  obtain ⟨hl, hd⟩ := reach_legal hs h
  have hcomplete : OutboxComplete s.world.db := hd ▸ hl.outboxComplete hb.outboxComplete
  have hledger := ((reach_ledger hs hb h hall).filter
    fun r => r.campaignID = c).map fun r => (r.creatorID, r.points)
  rw [List.filter_flatMap, List.map_flatMap] at hledger
  refine hledger.trans (List.Perm.of_eq ?_)
  rw [flatMap_giftsOf (g := fun e =>
    if e.campaignID = some c then [(e.creatorID, e.chargedCoins)] else []) fun m _ => ?_,
    DB.giftsOf_giftMessages hmsg, DB.campaignOrders_eq]
  · refine flatMap_gifts hcomplete.gifts ?_
    rintro o e ⟨x, _, _, hx, rfl⟩
    simp [hx]
  · cases m.value.unmarshalGiftAccepted with
    | none => rfl
    | some e =>
      cases hk : e.campaignID with
      | none => simp [LiveGiftAcceptedV1.campaignPoints, hk]
      | some k => by_cases hkc : k = c <;> simp [LiveGiftAcceptedV1.campaignPoints, hk, hkc]

theorem reach_campaignLedger (hall : AppliedByBoth calls s) (c : ℕ) :
    ((s.world.db.campaignPoints.filter fun r => r.campaignID = c).map fun r =>
      (r.creatorID, r.points)).Perm
      ((s.world.db.campaignOrders c).map fun o => (o.creatorID, o.chargedCoins)) :=
  reach_campaignRows hs hb h hall.messages (fun _ hm => (hall.of_mem hm).2) c

end Runs

/-- While no delivery fails after its row: once every gift event is recorded and no handler is at
work, Redis has each event once. -/
theorem reach_appliedOnce (hs : Start w) (hb : w.db.Blank)
    (h : (system calls).Reach Unbroken (Pool.fresh w) s)
    (hc : ∀ t id, calls t = .rebuild id → s.threads t = .idle) (hall : AppliedByBoth calls s) :
    s.world.db.AppliedOnce s.world.redis := by
  refine ⟨s.world.aof.map (·.2), ?_, rfl⟩
  have hnodup : (s.world.db.giftMessages.map Call.leaderboard).Nodup :=
    (List.Nodup.of_map _ (reach_giftMessages_nodup hs h)).map fun m m' he => Call.leaderboard.inj he
  have hcover : ∀ e ∈ s.world.aof, calls e.1 ∈ s.world.db.giftMessages.map Call.leaderboard :=
    fun e he => reach_giftPusher hs h
      (fun id hid => reach_pusher_not_idle hs h he (hc e.1 id hid)) he
  have hperm := (List.perm_fibers (fun e : ℕ × RedisCmd => calls e.1) hnodup hcover).map (·.2)
  rw [List.map_flatMap, List.flatMap_map] at hperm
  refine hperm.trans (List.Perm.of_eq ?_)
  rw [← DB.giftsOf_giftMessages hall.messages]
  refine flatMap_giftsOf fun m hm => ?_
  change s.world.pushedFor calls m = _
  obtain ⟨r, hr, hrm, htopic⟩ := DB.mem_giftMessages.mp hm
  cases hevt : m.value.unmarshalGiftAccepted with
  | none => exact reach_pushedFor_none hs h hevt
  | some evt =>
    have hrec := (hall.of_mem hm).1
    rw [reach_pushedFor_all hs h (fun r hr => by rw [hb.consumerDedupe] at hr; cases hr)
      (reach_logged hs hb h hr hrm hrec) hevt hrec fun t ht => hall.finished t m ht]
    simp

/-- However often and in whatever order the gift events are delivered, as long as no delivery
fails after its dedupe row: once both projectors have applied all of them, the three totals of
every campaign agree. -/
theorem campaign_totals_agree (calls : ℕ → Call) {w : World} (hs : Start w) (hb : w.db.Blank)
    {s : State} (h : (system calls).Reach Unbroken (Pool.fresh w) s)
    (hc : ∀ t id, calls t = .rebuild id → s.threads t = .idle) (hall : AppliedByBoth calls s)
    {c : ℕ} (hsums : CoinsExact (·.creatorID) (s.world.db.campaignOrders c)) :
    CampaignAgrees calls s c := by
  obtain ⟨hl, hd⟩ := reach_legal hs h
  have hcomplete : OutboxComplete s.world.db := hd ▸ hl.outboxComplete hb.outboxComplete
  have hledger := reach_campaignLedger hs hb h hall c
  have honce := reach_appliedOnce hs hb h hc hall
  constructor
  · exact (honce.campaigns hcomplete.gifts hsums).shows hledger
  · intro t l x ht hx hk
    constructor
    · exact exists_rebuilt ht (hc t l ht)
    · intro s' hr hres
      obtain ⟨os, x', -, hx', hw⟩ := reach_rebuilt ht (hc t l ht) ⟨.fault true, trivial⟩ hr hres
      obtain rfl := Option.some.inj (hx.symm.trans hx')
      refine ⟨rebuildCommands l os ++ campaignCommands s.world.db x.campaignID,
        by rw [hw]; simp [World.pushAll], fun ρ => ?_⟩
      rw [hk]
      exact Redis.Maps.shows (Redis.rebuild_campaign hsums) hledger
  · exact campaignLeaderboard_ranks hledger hsums

end General

section Witness

open Plain

def giftToBoth : ℕ → Call
  | 0 => .sendGift ⟨"g1", 2001, 1001, 9001, some 8001, "ROSE", 3, 0⟩
  | 2 => .leaderboard boardMessage
  | 3 => .leaderboard boardMessage
  | 4 => .points boardMessage
  | 5 => .points boardMessage
  | 6 => .rebuild 9001
  | _ => .runOnce 10

def appliedByBoth (s : State) : Bool :=
  (s.world.db.outboxEvents.all fun r => r.topic ≠ giftAcceptedTopic || r.message.any fun m =>
    decide (s.world.db.Recorded leaderboardConsumer m ∧ s.world.db.Recorded pointsConsumer m)) &&
  !(s.threads 2).running && !(s.threads 3).running

theorem appliedByBoth_spec {s : State} (h : appliedByBoth s = true) :
    AppliedByBoth giftToBoth s := by
  simp only [appliedByBoth, Bool.and_eq_true, Bool.not_eq_true', List.all_eq_true, Bool.or_eq_true,
    decide_eq_true_eq, Option.any_eq_true] at h
  obtain ⟨⟨hrec, h2⟩, h3⟩ := h
  refine ⟨fun r hr ht => (hrec r hr).resolve_left fun hne => hne ht, fun t m hc => ?_⟩
  unfold giftToBoth at hc
  split at hc <;> cases hc
  · exact h2
  · exact h3

theorem giftToBoth_rebuild {t id : ℕ} (h : giftToBoth t = .rebuild id) : t = 6 := by
  unfold giftToBoth at h
  split at h <;> cases h
  rfl

/-- Both projectors get the event twice. -/
theorem campaign_totals_agree_twice : ∃ s : State,
    Service.campaignTotals s.world.db 7001 = [(1001, 3)] ∧ CampaignAgrees giftToBoth s 7001 := by
  obtain ⟨s, hr, hp⟩ := Machine.exists_reach (M := system giftToBoth)
    (s := Pool.fresh (World.boot migrated)) (K := fun s a s' => decide (Unbroken s a s'))
    (p := fun s => decide (Service.campaignTotals s.world.db 7001 = [(1001, 3)] ∧
      (s.world.db.campaignOrders 7001).map (fun o => (o.creatorID, o.chargedCoins)) =
        [(1001, 3)]) &&
      idle 6 s && appliedByBoth s)
    (launch 0 21 5 ++ launch 1 9 6 ++ launch 4 8 7 ++ launch 2 9 8 ++ launch 3 6 8 ++ launch 5 6 9)
    (by decide +kernel)
  obtain ⟨hp, happlied⟩ := Bool.and_eq_true_iff.mp hp
  obtain ⟨hp, hidle⟩ := Bool.and_eq_true_iff.mp hp
  obtain ⟨htotals, horders⟩ := of_decide_eq_true hp
  refine ⟨s, htotals, campaign_totals_agree giftToBoth (Start.boot rfl rfl rfl rfl) migrated_blank
    (hr.mono fun _ _ _ hk => of_decide_eq_true hk) (fun t id ht => ?_) (appliedByBoth_spec happlied)
    fun k => ?_⟩
  · rw [giftToBoth_rebuild ht]
    exact idle_spec hidle
  · obtain ⟨o, ho, he⟩ := List.map_eq_singleton_iff.mp horders
    have hcharged : o.chargedCoins = 3 := (Prod.mk.inj he).2
    rw [ho]
    by_cases hk : o.creatorID = k <;> simp [sumOf, hk, hcharged]

end Witness

end LiveRevenue
