import Mathlib.Algebra.Order.BigOperators.Group.List
import LiveRevenue.Api.Reads
import LiveRevenue.Ranking
import LiveRevenue.Result.Outbox

/-! # Contributors read from Redis and from MySQL

Once every gift event of a session has been applied, Redis and MySQL know the same viewers
with the same totals. Both put higher totals first, but MySQL puts the smaller id first
among equal totals and Redis the member with the higher bytes. The two lists agree exactly
when no tie within the limit is broken differently.
-/

namespace LiveRevenue

open Transact

def DB.gifts (d : DB) : List LiveGiftAcceptedV1 :=
  (d.payloads giftAcceptedTopic).filterMap (·.unmarshalGiftAccepted)

/-- Each gift event of the session has been applied once to its contributors, and nothing else. -/
def World.ContributorsApplied (w : World) (id : ℕ) : Prop :=
  (w.commandsOn (contributorKey id)).Perm ((w.db.gifts.filter fun e => e.liveSessionID = id).map
    fun e => .zIncrBy (contributorKey id) e.chargedCoins (toString e.viewerID))

instance (w : World) (id : ℕ) : Decidable (w.ContributorsApplied id) :=
  inferInstanceAs (Decidable (List.Perm _ _))

def DB.contributors (d : DB) (id : ℕ) : List ℕ := ((d.acceptedOrders id).map (·.viewerID)).dedup

def DB.contributed (d : DB) (id viewer : ℕ) : ℤ :=
  sumOf (·.chargedCoins) ((d.acceptedOrders id).filter fun o => o.viewerID = viewer)

/-- How many contributors have spent more, or as much with a smaller id. -/
def DB.place (d : DB) (id viewer : ℕ) : ℕ :=
  (d.contributors id).countP fun u => d.contributed id viewer < d.contributed id u ∨
    (d.contributed id u = d.contributed id viewer ∧ u < viewer)

/-- Of two viewers who have spent the same, the one with the smaller id has the decimal text with
the higher bytes, at least if that viewer has one of the first `limit` places. -/
def DB.TiesAgree (d : DB) (id : ℕ) (limit : ℤ) : Prop :=
  ∀ u ∈ d.contributors id, ∀ v ∈ d.contributors id, u < v →
    d.contributed id u = d.contributed id v → d.place id u < limit →
    bytes (toString v) < bytes (toString u)

theorem DB.acceptedOrders_eq (d : DB) (id : ℕ) :
    d.acceptedOrders id = d.accepted.filter fun o => o.liveSessionID = id := by
  rw [DB.acceptedOrders, DB.accepted, List.filter_filter]
  exact List.filter_congr fun o _ => by simp

section Rankings

variable {w : World} {key : String} {rows : List (ℕ × ℤ)} {limit : ℤ}

def redisKey (id : ℕ) : (List ℕ)ᵒᵈ := OrderDual.toDual (bytes (toString id))

theorem redisKey_injective : Function.Injective redisKey := fun _ _ h =>
  decimal_inj.mp (bytes_inj (OrderDual.toDual_inj.mp h))

theorem insertionSort_zRevOrder (rows : List (ℕ × ℤ)) :
    (rows.map fun x => (toString x.1, x.2)).insertionSort zRevOrder =
      (rows.insertionSort (Ranking.byScore redisKey)).map fun x => (toString x.1, x.2) := by
  refine (List.map_insertionSort (Ranking.byScore redisKey) zRevOrder
    (fun x => (toString x.1, x.2)) rows fun a _ b _ => ?_).symm
  exact Iff.rfl

theorem World.ranking_eq (h : (w.entriesOf key).Perm (rows.map fun x => (toString x.1, x.2)))
    (hids : ∀ x ∈ rows, x.1 < 2 ^ 64) (hlimit : 1 ≤ limit) : w.ranking key limit =
      (rows.insertionSort (Ranking.byScore redisKey)).take limit.toNat := by
  have hbytes : Function.Injective fun m => OrderDual.toDual (bytes m) :=
    fun a b he => bytes_inj (OrderDual.toDual_inj.mp he)
  have hsorted : (w.entriesOf key).insertionSort zRevOrder =
      (rows.insertionSort (Ranking.byScore redisKey)).map fun x => (toString x.1, x.2) :=
    (Ranking.insertionSort_eq_of_perm hbytes h).trans (insertionSort_zRevOrder rows)
  have htake : (limit - 1 + 1).toNat = limit.toNat := by rw [sub_add_cancel]
  simp only [World.ranking, World.zRevRange, hsorted]
  rw [if_neg (by omega), htake, ← List.map_take, List.filterMap_map]
  refine (List.filterMap_congr fun x hx => ?_).trans List.filterMap_some
  have hx' : x ∈ rows := (List.mem_insertionSort _).mp (List.mem_of_mem_take hx)
  simp only [Function.comp_apply, parseUint_toString (hids x hx'), Option.map_some]

end Rankings

section Events

variable [Platform] {d : DB}

def DB.GiftOf (d : DB) (o : GiftOrder) (e : LiveGiftAcceptedV1) : Prop :=
  ∃ l giftID requestID, d.liveSessions o.liveSessionID = some l ∧ e = ⟨giftAcceptedTopic,
    o.giftOrderID, o.viewerID, o.creatorID, o.liveSessionID, l.campaignID, o.matchID, giftID,
    o.quantity, o.chargedCoins, o.matchPointsAdded, o.diamondReward, requestID⟩

theorem OutboxComplete.gifts (h : OutboxComplete d) : List.Forall₂ d.GiftOf d.accepted d.gifts := by
  have haccepted := h.accepted
  unfold DB.gifts
  generalize d.accepted = os, d.payloads giftAcceptedTopic = ps at haccepted
  induction haccepted with
  | nil => exact .nil
  | cons hab _ ih =>
    obtain ⟨l, giftID, requestID, hl, -, -, rfl⟩ := hab
    exact .cons ⟨l, giftID, requestID, hl, rfl⟩ ih

theorem OutboxComplete.session_gifts (h : OutboxComplete d) {γ : Type} {f : GiftOrder → γ}
    {g : LiveGiftAcceptedV1 → γ} (hfg : ∀ o e, d.GiftOf o e → f o = g e) (id : ℕ) :
    (d.acceptedOrders id).map f = (d.gifts.filter fun e => e.liveSessionID = id).map g := by
  rw [DB.acceptedOrders_eq]
  refine List.Forall₂.filter_map_eq h.gifts fun o e hoe => ⟨?_, hfg o e hoe⟩
  obtain ⟨l, _, _, -, rfl⟩ := hoe
  rfl

end Events

section Ties

variable {d : DB} {l : ℕ} {limit : ℤ}

def DB.contributorRows (d : DB) (l : ℕ) : List (ℕ × ℤ) :=
  (d.contributors l).map fun u => (u, d.contributed l u)

theorem DB.mem_contributorRows {u : ℕ} {n : ℤ} :
    (u, n) ∈ d.contributorRows l ↔ u ∈ d.contributors l ∧ d.contributed l u = n := by
  rw [DB.contributorRows, List.mem_map]
  constructor
  · rintro ⟨u, hu, he⟩
    cases he
    exact ⟨hu, rfl⟩
  · rintro ⟨hu, rfl⟩
    exact ⟨u, hu, rfl⟩

theorem DB.contributorRows_nodup (d : DB) (l : ℕ) : (d.contributorRows l).Nodup :=
  (List.nodup_dedup _).map fun _ _ h => (Prod.mk.inj h).1

theorem totalOrder_antisymm (a b : ℕ × ℤ) (h : Ranking.byScore id a b)
    (h' : Ranking.byScore id b a) : a = b :=
  Ranking.byScore_antisymm Function.injective_id a b h h'

theorem DB.place_eq (d : DB) (l u : ℕ) : d.place l u = (d.contributorRows l).countP fun y =>
    y ≠ (u, d.contributed l u) ∧ Ranking.byScore id y (u, d.contributed l u) := by
  rw [DB.contributorRows, List.countP_map, DB.place]
  refine List.countP_congr fun v _ => ?_
  simp only [Function.comp_apply, decide_eq_true_eq, Ranking.byScore, id, ne_eq, Prod.mk.injEq]
  constructor
  · rintro (h | ⟨h, hlt⟩)
    · exact ⟨fun he => absurd he.2 h.ne', .inl h⟩
    · exact ⟨fun he => absurd he.1 hlt.ne, .inr ⟨h, hlt.le⟩⟩
  · rintro ⟨hne, h | ⟨h, hle⟩⟩
    · exact .inl h
    · exact .inr ⟨h, lt_of_le_of_ne hle fun he => hne ⟨he, h⟩⟩

theorem DB.mem_take_iff_place {u : ℕ} (hu : u ∈ d.contributors l) (hlimit : 0 ≤ limit) :
    (u, d.contributed l u) ∈
      ((d.contributorRows l).insertionSort (Ranking.byScore id)).take limit.toNat ↔
      d.place l u < limit := by
  have hperm := List.perm_insertionSort (Ranking.byScore id) (d.contributorRows l)
  have hmem : (u, d.contributed l u) ∈ (d.contributorRows l).insertionSort (Ranking.byScore id) :=
    hperm.symm.subset (DB.mem_contributorRows.mpr ⟨hu, rfl⟩)
  rw [Ranking.mem_take_iff totalOrder_antisymm (List.pairwise_insertionSort _ _)
    (hperm.nodup_iff.mpr (d.contributorRows_nodup l)) hmem, hperm.countP_eq, ← d.place_eq]
  omega

/-- The first places of the two rankings agree as far as ties do. -/
theorem DB.take_eq_iff_tiesAgree (hlimit : 0 ≤ limit) :
    ((d.contributorRows l).insertionSort (Ranking.byScore redisKey)).take limit.toNat =
      ((d.contributorRows l).insertionSort (Ranking.byScore id)).take limit.toNat ↔
      d.TiesAgree l limit := by
  have hperm := List.perm_insertionSort (Ranking.byScore id) (d.contributorRows l)
  rw [eq_comm, Ranking.take_eq_take_iff totalOrder_antisymm
    (Ranking.byScore_antisymm redisKey_injective) (List.pairwise_insertionSort _ _)
    (List.pairwise_insertionSort _ _) (hperm.nodup_iff.mpr (d.contributorRows_nodup l))
    (hperm.trans (List.perm_insertionSort _ _).symm)]
  constructor
  · intro h u hu v hv huv heq hplace
    have hmem := hperm.symm.subset (DB.mem_contributorRows.mpr ⟨hv, rfl⟩)
    have hne : (u, d.contributed l u) ≠ (v, d.contributed l v) := fun he =>
      huv.ne (Prod.mk.inj he).1
    rcases h _ ((DB.mem_take_iff_place hu hlimit).mpr hplace) _ hmem hne (.inr ⟨heq, huv.le⟩)
      with hlt | ⟨-, hle⟩
    · exact absurd hlt heq.not_gt
    · exact lt_of_le_of_ne hle fun he => huv.ne' (redisKey_injective he)
  · rintro h ⟨u, x⟩ hx ⟨v, y⟩ hy hne (hlt | ⟨heq, hle⟩)
    · exact .inl hlt
    · obtain ⟨hu, rfl⟩ := DB.mem_contributorRows.mp (hperm.subset (List.mem_of_mem_take hx))
      obtain ⟨hv, rfl⟩ := DB.mem_contributorRows.mp (hperm.subset hy)
      have huv : u < v := lt_of_le_of_ne hle fun he => hne (he ▸ rfl)
      exact .inr ⟨heq, (h u hu v hv huv heq ((DB.mem_take_iff_place hu hlimit).mp hx)).le⟩

end Ties

section General

variable [Platform] {K : State → Act Choice → State → Prop} {w : World} {l : ℕ} {limit : ℤ}

theorem World.ContributorsApplied.maps (h : w.ContributorsApplied l) (hc : OutboxComplete w.db)
    (hsums : ∀ u ∈ w.db.contributors l, w.db.contributed l u < 2 ^ 53) :
    w.redis.Maps (contributorKey l) toString (·.viewerID) (·.chargedCoins)
      (w.db.acceptedOrders l) := by
  refine Redis.maps_of_increments (fun _ _ => decimal_inj.mp)
    (fun o => .zIncrBy (contributorKey l) o.chargedCoins (toString o.viewerID))
    (fun o => .inl rfl) (fun o ho _ => ?_) ?_
  · exact hsums o.viewerID (List.mem_dedup.mpr (List.mem_map_of_mem ho))
  rw [hc.session_gifts (fun o e hoe => ?_) l]
  · exact h
  · obtain ⟨s, _, _, -, rfl⟩ := hoe
    rfl

theorem World.ContributorsApplied.entriesOf (h : w.ContributorsApplied l)
    (hc : OutboxComplete w.db)
    (hsums : ∀ u ∈ w.db.contributors l, w.db.contributed l u < 2 ^ 53) :
    (w.entriesOf (contributorKey l)).Perm
      ((w.db.contributorRows l).map fun x => (toString x.1, x.2)) := by
  have hnodup : ((w.db.contributorRows l).map fun x => (toString x.1, x.2)).Nodup :=
    List.Nodup.of_map _ (groupBy_names fun _ _ => decimal_inj.mp)
  refine (List.perm_ext_iff_of_nodup (w.entriesOf_nodup _) hnodup).mpr fun z => ?_
  obtain ⟨m, n⟩ := z
  rw [World.mem_entriesOf, h.maps hc hsums m n]
  exact (mem_groupBy fun _ => rfl).symm

theorem service_contributors {d : DB} (h : ∀ u ∈ d.contributors l, d.contributed l u < 2 ^ 53)
    (h1 : 1 ≤ limit) (h100 : limit ≤ 100) : Service.getLiveContributors d l limit =
      .ok (((d.contributorRows l).insertionSort (Ranking.byScore id)).take limit.toNat) := by
  have hn : serviceLimit limit = limit.toNat := if_neg (by omega)
  have hfits : (topByTotal limit.toNat (d.contributorRows l)).all (fitsInt64 ·.2) = true := by
    refine List.all_eq_true.mpr fun x hx => ?_
    obtain ⟨hu, he⟩ := DB.mem_contributorRows.mp
      ((List.mem_insertionSort _).mp (List.mem_of_mem_take hx))
    have hlt := h x.1 hu
    have hpos : 0 ≤ d.contributed l x.1 := sumOf_nonneg _ _
    simp only [fitsInt64, Bool.and_eq_true, decide_eq_true_eq]
    omega
  rw [Service.getLiveContributors, hn]
  exact if_pos hfits

/-- Once the gift events of a session are applied, the two ways of reading its contributors give
the same list if and only if ties within the limit fall the same way. -/
theorem contributors_agree_iff (calls : ℕ → Call) {w : World} (hs : Start w)
    (hc : OutboxComplete w.db) {s : State} (h : (system calls).Reach K (Pool.fresh w) s) {l : ℕ}
    (happlied : s.world.ContributorsApplied l)
    (hids : ∀ u ∈ s.world.db.contributors l, u < 2 ^ 64)
    (hsums : ∀ u ∈ s.world.db.contributors l, s.world.db.contributed l u < 2 ^ 53)
    {limit : ℤ} (h1 : 1 ≤ limit) (h100 : limit ≤ 100) :
    Server.getLiveContributors s.world true l limit =
      Server.getLiveContributors s.world false l limit ↔ s.world.db.TiesAgree l limit := by
  obtain ⟨hl, hd⟩ := reach_legal hs h
  have hcomplete : OutboxComplete s.world.db := hd ▸ hl.outboxComplete hc
  have hredis := World.ranking_eq (happlied.entriesOf hcomplete hsums)
    (fun x hx => hids x.1 (DB.mem_contributorRows.mp hx).1) h1
  simp only [Server.getLiveContributors, if_true, Bool.false_eq_true, if_false]
  rw [hredis, service_contributors hsums h1 h100, Except.ok.injEq]
  exact DB.take_eq_iff_tiesAgree (by omega)

end General

section Witness

open Plain

def twoViewers (roses roses' : ℕ) : ℕ → Call
  | 0 => .sendGift ⟨"g1", 2001, 1001, 9001, none, "ROSE", roses, 0⟩
  | 1 => .sendGift ⟨"g2", 2002, 1001, 9001, none, "ROSE", roses', 0⟩
  | 3 => .leaderboard ⟨giftAcceptedTopic, "9001", .giftAccepted ⟨giftAcceptedTopic, 1, 2001, 1001,
      9001, some 7001, none, "ROSE", roses, roses, roses, roses, "g1"⟩, [("event_id", "2")]⟩
  | 4 => .leaderboard ⟨giftAcceptedTopic, "9001", .giftAccepted ⟨giftAcceptedTopic, 2, 2002, 1001,
      9001, some 7001, none, "ROSE", roses', roses', roses', roses', "g2"⟩, [("event_id", "4")]⟩
  | _ => .runOnce 10

def twoViewersInTurn : List (Act Choice) :=
  launch 0 20 5 ++ launch 1 20 5 ++ launch 2 13 6 ++ launch 3 8 7 ++ launch 4 8 8

/-- Different totals: both ways show the same list. -/
theorem contributors_agree_two : ∃ s : State, s.world.db.contributors 9001 = [2001, 2002] ∧
    Server.getLiveContributors s.world true 9001 2 =
      Server.getLiveContributors s.world false 9001 2 := by
  obtain ⟨s, hr, hp⟩ := Machine.exists_reach (M := system (twoViewers 3 5))
    (s := Pool.fresh (World.boot migrated)) (K := fun _ _ _ => true)
    (p := fun s => decide (s.world.ContributorsApplied 9001 ∧
      s.world.db.contributors 9001 = [2001, 2002] ∧ s.world.db.contributed 9001 2001 = 3 ∧
      s.world.db.contributed 9001 2002 = 5))
    twoViewersInTurn (by decide +kernel)
  obtain ⟨happlied, hviewers, h1, h2⟩ := of_decide_eq_true hp
  refine ⟨s, hviewers, (contributors_agree_iff (twoViewers 3 5) (Start.boot rfl rfl rfl rfl)
    migrated_announcing hr happlied ?_ ?_ (by decide) (by decide)).mpr ?_⟩
  · rw [hviewers]
    decide
  · rw [hviewers]
    simp [h1, h2]
  · intro u hu v hv huv heq
    rw [hviewers] at hu hv
    simp only [List.mem_cons, List.not_mem_nil, or_false] at hu hv
    rcases hu with rfl | rfl <;> rcases hv with rfl | rfl <;> simp_all

/-- The same number of roses: MySQL shows 2001 first, Redis 2002. -/
theorem contributors_disagree_on_ties : ∃ s : State,
    (system (twoViewers 3 3)).Reach (fun _ _ _ => True) (Pool.fresh (World.boot migrated)) s ∧
    s.world.ContributorsApplied 9001 ∧
    Server.getLiveContributors s.world true 9001 1 = .ok [(2002, 3)] ∧
    Server.getLiveContributors s.world false 9001 1 = .ok [(2001, 3)] := by
  obtain ⟨s, hr, hp⟩ := Machine.exists_reach (M := system (twoViewers 3 3))
    (s := Pool.fresh (World.boot migrated)) (K := fun _ _ _ => true)
    (p := fun s => decide (s.world.ContributorsApplied 9001 ∧
      Server.getLiveContributors s.world true 9001 1 = .ok [(2002, 3)] ∧
      Server.getLiveContributors s.world false 9001 1 = .ok [(2001, 3)]))
    twoViewersInTurn (by decide +kernel)
  exact ⟨s, hr.mono fun _ _ _ _ => trivial, of_decide_eq_true hp⟩

end Witness

end LiveRevenue
