import Mathlib.Data.List.Induction
import LiveRevenue.Proof.Rebuild
import LiveRevenue.Result.Closing
import LiveRevenue.Result.Contributors
import LiveRevenue.Result.GiftPolicy
import LiveRevenue.Result.Leaderboard
import LiveRevenue.Result.Points

/-! # Rebuilding the projection of a session

The orders are the source of truth. Whatever Redis has lost, a rebuild that succeeds
undisturbed leaves in the keys of its session what the orders say, and leaves the
other keys alone. The scores of a match without orders need no deleting: nobody can
have written them.
-/

namespace LiveRevenue

open Transact

/-- What Redis may hold after some commands: any of them may be lost, and any members at any
time. -/
inductive Redis.Remains : List RedisCmd → Redis → Prop where
  | empty : Remains [] Redis.empty
  | apply {cs : List RedisCmd} {ρ : Redis} (c : RedisCmd) : Remains cs ρ →
      Remains (cs ++ [c]) (c.apply ρ)
  | skip {cs : List RedisCmd} {ρ : Redis} (c : RedisCmd) : Remains cs ρ → Remains (cs ++ [c]) ρ
  | lose {cs : List RedisCmd} {ρ : Redis} (p : String → String → Bool) : Remains cs ρ →
      Remains cs fun key member => if p key member then none else ρ key member

/-- Redis after each gift event was applied once, in any order. -/
def DB.AppliedOnce (d : DB) (ρ : Redis) : Prop :=
  ∃ cs, cs.Perm (d.gifts.flatMap giftIncrements) ∧ ρ = Redis.empty.replay cs

def DB.HasMatch (d : DB) (l k : ℕ) : Prop := ∃ x, d.liveMatches k = some x ∧ x.liveSessionID = l

def DB.matchOrders (d : DB) (k : ℕ) : List GiftOrder :=
  d.accepted.filter fun o => o.matchID = some k

/-- The sums that a rebuild of a session in a campaign writes are small enough to be exact. -/
structure DB.Exact (d : DB) (l : ℕ) (campaign : Option ℕ) : Prop where
  contributors : CoinsExact (·.viewerID) (d.acceptedOrders l)
  matchScores : ∀ k, PointsExact ((d.acceptedOrders l).filter fun o => o.matchID = some k)
  campaigns : ∀ c, campaign = some c → CoinsExact (·.creatorID) (d.campaignOrders c)

theorem DB.Exact.of_totals {d : DB} {l : ℕ} {campaign : Option ℕ}
    (hc : sumOf (·.chargedCoins) d.giftOrders < 2 ^ 53)
    (hm : sumOf (·.matchPointsAdded) d.giftOrders < 2 ^ 63) : d.Exact l campaign where
  contributors := .of_sublist (.of_total hc) List.filter_sublist
  matchScores _ := .of_sublist (.of_total hm) (List.filter_sublist.trans List.filter_sublist)
  campaigns _ _ := .of_sublist (.of_total hc) List.filter_sublist

/-- The keys of a session in a campaign hold what the orders say; the others are as before. -/
structure Restored (d : DB) (l : ℕ) (campaign : Option ℕ) (ρ ρ' : Redis) : Prop where
  contributors : ρ'.Maps (contributorKey l) toString (·.viewerID) (·.chargedCoins)
    (d.acceptedOrders l)
  matchScores : ∀ k, d.HasMatch l k → ρ'.Maps (matchScoreKey k) creatorField (·.creatorID)
    (·.matchPointsAdded) (d.matchOrders k)
  campaigns : ∀ c, campaign = some c → ρ'.Maps (campaignKey c) toString (·.creatorID)
    (·.chargedCoins) (d.campaignOrders c)
  others : ∀ key, key ≠ contributorKey l → (∀ k, d.HasMatch l k → key ≠ matchScoreKey k) →
    (∀ c, campaign = some c → key ≠ campaignKey c) → ρ' key = ρ key
  unchanged : d.AppliedOnce ρ → ρ' = ρ

section Loss

variable {cs : List RedisCmd} {ρ : Redis} {key member : String}

theorem Redis.Remains.replay (cs : List RedisCmd) : Remains cs (Redis.empty.replay cs) := by
  induction cs using List.reverseRecOn with
  | nil => exact .empty
  | append_singleton cs c ih =>
    rw [Redis.replay_append]
    exact .apply c ih

theorem Redis.Remains.written (h : Remains cs ρ) (hm : ρ key member ≠ none) :
    ∃ c ∈ cs, c.key = key := by
  induction h with
  | empty => exact absurd rfl hm
  | apply c _ ih =>
    rcases RedisCmd.apply_member hm with hm | ⟨hk, -⟩
    · obtain ⟨c', hc', hk⟩ := ih hm
      exact ⟨c', List.mem_append_left _ hc', hk⟩
    · exact ⟨c, List.mem_append_right _ (List.mem_singleton_self c), hk⟩
  | skip c _ ih =>
    obtain ⟨c', hc', hk⟩ := ih hm
    exact ⟨c', List.mem_append_left _ hc', hk⟩
  | lose p _ ih =>
    refine ih fun hnone => hm ?_
    simp only [hnone, ite_self]

theorem Redis.replay_of_ne (h : ∀ c ∈ cs, c.key ≠ key) : ρ.replay cs key = ρ key := by
  rw [Redis.replay_key, List.filter_eq_nil_iff.mpr fun c hc => by simpa using h c hc]
  rfl

end Loss

section Refill

variable {ρ : Redis} {key : String} {xs : List (String × ℤ)}
  {fill : String → List (String × ℤ) → RedisCmd}

def refill (fill : String → List (String × ℤ) → RedisCmd) (key : String) (xs : List (String × ℤ)) :
    List RedisCmd :=
  [RedisCmd.del key] ++ if xs.length = 0 then [] else [fill key xs]

theorem mem_refill (hfill : ∀ key xs, (fill key xs).key = key) :
    ∀ c ∈ refill fill key xs, c.key = key := by
  intro c hc
  unfold refill at hc
  split at hc
  · rw [List.append_nil, List.mem_singleton] at hc
    rw [hc]
    rfl
  · rcases List.mem_pair.mp hc with rfl | rfl
    · rfl
    · exact hfill key xs

theorem rebuildCommands_eq (l : ℕ) (os : List GiftOrder) : rebuildCommands l os =
    refill .zAdd (contributorKey l) (contrib os) ++
    (matchIDs os).flatMap fun m => refill .hSet (matchScoreKey m) (matchFields os m) := rfl

theorem campaignCommands_some (d : DB) (c : ℕ) : campaignCommands d (some c) =
    refill .zAdd (campaignKey c)
      (campaignZ (groupSum (·.creatorID) (·.chargedCoins) (d.campaignOrders c))) := rfl

theorem Redis.replay_refills {f : ℕ → List (String × ℤ)} (hf : ∀ m, ((f m).map (·.1)).Nodup)
    {ms : List ℕ} {k : ℕ} {member : String} {n : ℤ} :
    ρ.replay (ms.flatMap fun m => refill .hSet (matchScoreKey m) (f m)) (matchScoreKey k) member =
      some n ↔ if k ∈ ms then (member, n) ∈ f k else ρ (matchScoreKey k) member = some n := by
  induction ms generalizing ρ with
  | nil => exact Iff.rfl
  | cons m ms ih =>
    rw [List.flatMap_cons, Redis.replay_append, ih]
    by_cases hms : k ∈ ms
    · rw [if_pos hms, if_pos (List.mem_cons_of_mem m hms)]
    rw [if_neg hms]
    by_cases hm : k = m
    · subst hm
      rw [if_pos List.mem_cons_self]
      exact Redis.replay_refill (fun _ => rfl) (hf k)
    · rw [if_neg (by simp [hm, hms]), Redis.replay_of_ne fun c hc => ?_]
      rw [mem_refill (fun _ _ => rfl) c hc]
      exact fun he => hm (matchScoreKey_inj.mp he).symm

theorem mem_matchIDs {os : List GiftOrder} {k : ℕ} :
    k ∈ matchIDs os ↔ ∃ o ∈ os, o.matchID = some k := by
  rw [matchIDs, List.mem_dedup, List.mem_filterMap]

end Refill

section Applied

variable {d : DB} {ρ : Redis} {key : String} {name : ℕ → String} {who val : GiftOrder → ℕ}

theorem flatMap_gifts {β : Type} {os : List GiftOrder} {es : List LiveGiftAcceptedV1}
    (h : List.Forall₂ d.GiftOf os es) {p : GiftOrder → Bool} {f : GiftOrder → β}
    {g : LiveGiftAcceptedV1 → List β}
    (hg : ∀ o e, d.GiftOf o e → g e = if p o then [f o] else []) :
    es.flatMap g = (os.filter p).map f := by
  induction h with
  | nil => rfl
  | @cons o e os es hoe _ ih =>
    rw [List.flatMap_cons, ih, hg o e hoe, List.filter_cons]
    split <;> simp

theorem DB.AppliedOnce.maps (h : d.AppliedOnce ρ)
    (hgifts : List.Forall₂ d.GiftOf d.accepted d.gifts) (hname : Function.Injective name)
    {p : GiftOrder → Bool} (inc : GiftOrder → RedisCmd)
    (hlt : ∀ o ∈ d.accepted.filter p, (∃ n m, inc o = .zIncrBy key n m) →
      sumOf val ((d.accepted.filter p).filter fun o' => who o' = who o) < 2 ^ 53)
    (hinc : ∀ o, (inc o).Adds key (name (who o)) (val o))
    (hon : ∀ o e, d.GiftOf o e →
      (giftIncrements e).filter (fun c => c.key = key) = if p o then [inc o] else []) :
    ρ.Maps key name who val (d.accepted.filter p) := by
  obtain ⟨cs, hcs, rfl⟩ := h
  refine Redis.maps_of_increments hname inc hinc hlt ((hcs.filter _).trans (List.Perm.of_eq ?_))
  rw [List.filter_flatMap]
  exact flatMap_gifts hgifts hon

theorem DB.GiftOf.onContributors {o : GiftOrder} {e : LiveGiftAcceptedV1}
    (h : d.GiftOf o e) (l : ℕ) :
    (giftIncrements e).filter (fun c => c.key = contributorKey l) = if o.liveSessionID = l then
      [.zIncrBy (contributorKey l) o.chargedCoins (toString o.viewerID)] else [] := by
  obtain ⟨s, _, _, -, rfl⟩ := h
  unfold giftIncrements
  cases s.campaignID <;> cases o.matchID <;> by_cases hl : o.liveSessionID = l <;>
    simp [RedisCmd.key, hl, contributorKey_ne_campaignKey.symm,
      contributorKey_ne_matchScoreKey.symm]

theorem DB.GiftOf.onMatch {o : GiftOrder} {e : LiveGiftAcceptedV1} (h : d.GiftOf o e) (k : ℕ) :
    (giftIncrements e).filter (fun c => c.key = matchScoreKey k) = if o.matchID = some k then
      [.hIncrBy (matchScoreKey k) (creatorField o.creatorID) o.matchPointsAdded] else [] := by
  obtain ⟨s, _, _, -, rfl⟩ := h
  unfold giftIncrements
  rcases hm : o.matchID with _ | m
  · cases s.campaignID <;> simp [RedisCmd.key]
  · cases s.campaignID <;> by_cases hk : m = k <;> simp [RedisCmd.key, hk]

theorem DB.campaignOrders_eq (d : DB) (c : ℕ) : d.campaignOrders c =
    d.accepted.filter fun o => (d.liveSessions o.liveSessionID).any (·.campaignID = some c) := by
  rw [DB.campaignOrders, DB.accepted, List.filter_filter]
  exact List.filter_congr fun o _ => by simp [Bool.and_comm]

variable (h : d.AppliedOnce ρ) (hgifts : List.Forall₂ d.GiftOf d.accepted d.gifts)
include h hgifts

theorem DB.AppliedOnce.contributors {l : ℕ} (hx : CoinsExact (·.viewerID) (d.acceptedOrders l)) :
    ρ.Maps (contributorKey l) toString (·.viewerID) (·.chargedCoins) (d.acceptedOrders l) := by
  rw [DB.acceptedOrders_eq] at hx ⊢
  refine h.maps hgifts (fun _ _ => decimal_inj.mp)
    (fun o => .zIncrBy (contributorKey l) o.chargedCoins (toString o.viewerID))
    (fun o _ _ => hx o.viewerID) (fun _ => .inl rfl)
      fun o e ho => by simpa using ho.onContributors l

theorem DB.AppliedOnce.matchScores (k : ℕ) : ρ.Maps (matchScoreKey k) creatorField (·.creatorID)
    (·.matchPointsAdded) (d.matchOrders k) := by
  refine h.maps hgifts (fun _ _ => creatorField_inj.mp)
    (fun o => .hIncrBy (matchScoreKey k) (creatorField o.creatorID) o.matchPointsAdded)
    (fun _ _ ⟨_, _, he⟩ => by cases he) (fun _ => .inr rfl)
      fun o e ho => by simpa using ho.onMatch k

theorem DB.AppliedOnce.campaigns {c : ℕ} (hx : CoinsExact (·.creatorID) (d.campaignOrders c)) :
    ρ.Maps (campaignKey c) toString (·.creatorID) (·.chargedCoins) (d.campaignOrders c) := by
  rw [DB.campaignOrders_eq] at hx ⊢
  refine h.maps hgifts (fun _ _ => decimal_inj.mp)
    (fun o => .zIncrBy (campaignKey c) o.chargedCoins (toString o.creatorID))
    (fun o _ _ => hx o.creatorID) (fun _ => .inl rfl) ?_
  rintro o e ⟨s, _, _, hs, rfl⟩
  unfold giftIncrements
  rw [hs]
  rcases hk : s.campaignID with _ | k
  · cases o.matchID <;> simp [RedisCmd.key, hk, campaignKey_ne_matchScoreKey.symm]
  · cases o.matchID <;> by_cases hc : k = c <;>
      simp [RedisCmd.key, hc, hk, campaignKey_ne_matchScoreKey.symm]

end Applied

section Restore

variable {d : DB} {l : ℕ} {campaign : Option ℕ} {os : List GiftOrder} {ρ : Redis}

def DB.MatchesOwned (d : DB) : Prop :=
  ∀ o ∈ d.accepted, ∀ k, o.matchID = some k → d.HasMatch o.liveSessionID k

theorem mem_campaignCommands {c : RedisCmd} (hc : c ∈ campaignCommands d campaign) :
    ∃ k, campaign = some k ∧ c.key = campaignKey k := by
  cases campaign with
  | none => cases hc
  | some k =>
    rw [campaignCommands_some] at hc
    exact ⟨k, rfl, mem_refill (fun _ _ => rfl) c hc⟩

theorem mem_matchCommands {c : RedisCmd} {ms : List ℕ} {f : ℕ → List (String × ℤ)}
    (hc : c ∈ ms.flatMap fun m => refill .hSet (matchScoreKey m) (f m)) :
    ∃ m ∈ ms, c.key = matchScoreKey m := by
  obtain ⟨m, hm, hc⟩ := List.mem_flatMap.mp hc
  exact ⟨m, hm, mem_refill (fun _ _ => rfl) c hc⟩

theorem DB.MatchesOwned.orders (h : d.MatchesOwned) {k : ℕ} (hk : d.HasMatch l k) :
    d.matchOrders k = (d.acceptedOrders l).filter fun o => o.matchID = some k := by
  rw [DB.acceptedOrders_eq, List.filter_filter, DB.matchOrders]
  refine List.filter_congr fun o ho => ?_
  by_cases hm : o.matchID = some k
  · obtain ⟨x, hx, hl⟩ := hk
    obtain ⟨x', hx', hl'⟩ := h o ho k hm
    obtain rfl := Option.some.inj (hx.symm.trans hx')
    simp [hm, ← hl', hl]
  · simp [hm]

def Redis.rebuild (ρ : Redis) (d : DB) (l : ℕ) (os : List GiftOrder) (campaign : Option ℕ) :
    Redis :=
  ρ.replay (rebuildCommands l os ++ campaignCommands d campaign)

theorem Redis.rebuild_eq : ρ.rebuild d l os campaign =
    ((ρ.replay (refill .zAdd (contributorKey l) (contrib os))).replay
    ((matchIDs os).flatMap fun m => refill .hSet (matchScoreKey m) (matchFields os m))).replay
    (campaignCommands d campaign) := by
  rw [Redis.rebuild, rebuildCommands_eq, Redis.replay_append, Redis.replay_append]

theorem Redis.rebuild_contributorKey {member : String} {n : ℤ} :
    ρ.rebuild d l os campaign (contributorKey l) member = some n ↔ (member, n) ∈ contrib os := by
  rw [Redis.rebuild_eq, Redis.replay_of_ne fun c hc => ?_, Redis.replay_of_ne fun c hc => ?_]
  · exact Redis.replay_refill (fun _ => rfl) (contrib_nodup os)
  · obtain ⟨m, -, hk⟩ := mem_matchCommands hc
    rw [hk]
    exact contributorKey_ne_matchScoreKey.symm
  · obtain ⟨k, -, hk⟩ := mem_campaignCommands hc
    rw [hk]
    exact contributorKey_ne_campaignKey.symm

theorem Redis.rebuild_contributors (hos : os.Perm (d.acceptedOrders l))
    (hx : CoinsExact (·.viewerID) (d.acceptedOrders l)) :
    (ρ.rebuild d l os campaign).Maps (contributorKey l) toString (·.viewerID) (·.chargedCoins)
      (d.acceptedOrders l) := by
  refine Redis.Maps.perm (fun member n => ?_) hos
  exact Redis.rebuild_contributorKey.trans (mem_contrib (hx.perm hos.symm))

theorem Redis.rebuild_ne_of_odd {member : String} {n : ℤ} (hn : 2 ^ 53 ≤ n) (hodd : Odd n) :
    ρ.rebuild d l os campaign (contributorKey l) member ≠ some n := by
  intro h
  obtain ⟨⟨k, y⟩, hk, he⟩ := List.mem_map.mp (Redis.rebuild_contributorKey.mp h)
  obtain ⟨k', -, hy⟩ := List.mem_map.mp hk
  cases he
  cases hy
  refine Binary64.sum_ne_of_odd (fun x hx => ?_) hn hodd rfl
  obtain ⟨o, -, rfl⟩ := List.mem_map.mp hx
  exact Int.natCast_nonneg _

theorem Redis.rebuild_matchScores (hos : os.Perm (d.acceptedOrders l)) {k : ℕ}
    (hx : PointsExact ((d.acceptedOrders l).filter fun o => o.matchID = some k))
    (hstale : ∀ member, ρ (matchScoreKey k) member ≠ none → ∃ o ∈ os, o.matchID = some k) :
    (ρ.rebuild d l os campaign).Maps (matchScoreKey k) creatorField (·.creatorID)
      (·.matchPointsAdded) ((d.acceptedOrders l).filter fun o => o.matchID = some k) := by
  refine Redis.Maps.perm (fun member n => ?_) (hos.filter _)
  rw [Redis.rebuild_eq, Redis.replay_of_ne fun c hc => ?_,
    Redis.replay_refills (matchFields_nodup os)]
  · split
    · exact mem_matchFields (hx.perm (hos.symm.filter _))
    · next hk =>
      -- no order names the match: the key is left alone and nothing is there
      have hno : ∀ o ∈ os, o.matchID ≠ some k := fun o ho hm => hk (mem_matchIDs.mpr ⟨o, ho, hm⟩)
      constructor
      · intro hn
        have hold : ρ (matchScoreKey k) member = some n := by
          rwa [Redis.replay_of_ne fun c hc => ?_] at hn
          rw [mem_refill (fun _ _ => rfl) c hc]
          exact contributorKey_ne_matchScoreKey
        obtain ⟨o, ho, hm⟩ := hstale member (by simp [hold])
        exact absurd hm (hno o ho)
      · rintro ⟨o, ho, -⟩
        obtain ⟨ho, hm⟩ := List.mem_filter.mp ho
        exact absurd (of_decide_eq_true hm) (hno o ho)
  · obtain ⟨c', -, hk⟩ := mem_campaignCommands hc
    rw [hk]
    exact campaignKey_ne_matchScoreKey

theorem Redis.rebuild_campaign {c : ℕ} (hx : CoinsExact (·.creatorID) (d.campaignOrders c)) :
    (ρ.rebuild d l os (some c)).Maps (campaignKey c) toString (·.creatorID) (·.chargedCoins)
      (d.campaignOrders c) := by
  intro member n
  rw [Redis.rebuild_eq, campaignCommands_some]
  exact (Redis.replay_refill (fun _ => rfl) (campaignZ_nodup _)).trans (mem_campaignZ hx)

theorem Redis.rebuild_other {key : String} (hl : key ≠ contributorKey l)
    (hm : ∀ o ∈ os, ∀ k, o.matchID = some k → key ≠ matchScoreKey k)
    (hc : ∀ c, campaign = some c → key ≠ campaignKey c) :
    ρ.rebuild d l os campaign key = ρ key := by
  rw [Redis.rebuild_eq, Redis.replay_of_ne fun x hx => ?_, Redis.replay_of_ne fun x hx => ?_,
    Redis.replay_of_ne fun x hx => ?_]
  · rw [mem_refill (fun _ _ => rfl) x hx]
    exact hl.symm
  · obtain ⟨m, hmem, hk⟩ := mem_matchCommands hx
    obtain ⟨o, ho, hom⟩ := mem_matchIDs.mp hmem
    rw [hk]
    exact (hm o ho m hom).symm
  · obtain ⟨c, hcamp, hk⟩ := mem_campaignCommands hx
    rw [hk]
    exact (hc c hcamp).symm

theorem restored (hos : os.Perm (d.acceptedOrders l)) (howned : d.MatchesOwned)
    (hgifts : List.Forall₂ d.GiftOf d.accepted d.gifts) (hx : d.Exact l campaign)
    (hstale : ∀ k member, ρ (matchScoreKey k) member ≠ none → d.matchOrders k ≠ []) :
    Restored d l campaign ρ (ρ.rebuild d l os campaign) := by
  have hmatches : ∀ k, d.HasMatch l k → (ρ.rebuild d l os campaign).Maps (matchScoreKey k)
      creatorField (·.creatorID) (·.matchPointsAdded) (d.matchOrders k) := by
    intro k hk
    rw [howned.orders hk]
    refine Redis.rebuild_matchScores hos (hx.matchScores k) fun member hm => ?_
    obtain ⟨o, ho⟩ := List.exists_mem_of_ne_nil _ (hstale k member hm)
    rw [howned.orders hk, List.mem_filter] at ho
    exact ⟨o, hos.symm.subset ho.1, of_decide_eq_true ho.2⟩
  have hcampaign : ∀ c, campaign = some c → (ρ.rebuild d l os campaign).Maps (campaignKey c)
      toString (·.creatorID) (·.chargedCoins) (d.campaignOrders c) := by
    rintro c rfl
    exact Redis.rebuild_campaign (hx.campaigns c rfl)
  have hothers : ∀ key, key ≠ contributorKey l → (∀ k, d.HasMatch l k → key ≠ matchScoreKey k) →
      (∀ c, campaign = some c → key ≠ campaignKey c) → ρ.rebuild d l os campaign key = ρ key := by
    intro key hl hm hc
    refine Redis.rebuild_other hl (fun o ho k hk => hm k ?_) hc
    have ho := hos.subset ho
    rw [DB.acceptedOrders_eq, List.mem_filter] at ho
    rw [← of_decide_eq_true ho.2]
    exact howned o ho.1 k hk
  have hcontrib : (ρ.rebuild d l os campaign).Maps (contributorKey l) toString (·.viewerID)
      (·.chargedCoins) (d.acceptedOrders l) := Redis.rebuild_contributors hos hx.contributors
  refine ⟨hcontrib, hmatches, hcampaign, hothers, fun honce => ?_⟩
  funext key
  by_cases hl : key = contributorKey l
  · rw [hl]
    exact hcontrib.eq (honce.contributors hgifts hx.contributors)
  by_cases hm : ∃ k, d.HasMatch l k ∧ key = matchScoreKey k
  · obtain ⟨k, hk, rfl⟩ := hm
    exact (hmatches k hk).eq (honce.matchScores hgifts k)
  by_cases hc : ∃ c, campaign = some c ∧ key = campaignKey c
  · obtain ⟨c, hcamp, rfl⟩ := hc
    exact (hcampaign c hcamp).eq (honce.campaigns hgifts (hx.campaigns c hcamp))
  · exact hothers key hl (fun k hk he => hm ⟨k, hk, he⟩) fun c hcamp he => hc ⟨c, hcamp, he⟩

end Restore

theorem matchID_of_giftIncrements {evt : LiveGiftAcceptedV1} {c : RedisCmd}
    (hc : c ∈ giftIncrements evt) {k : ℕ} (hk : c.key = matchScoreKey k) :
    evt.matchID = some k := by
  unfold giftIncrements at hc
  rw [List.mem_append, List.mem_append] at hc
  rcases hc with (hc | hc) | hc
  · rw [List.mem_singleton.mp hc] at hk
    exact absurd hk contributorKey_ne_matchScoreKey
  · split at hc
    · rw [List.mem_singleton.mp hc] at hk
      exact absurd hk campaignKey_ne_matchScoreKey
    · cases hc
  · split at hc
    · next hm =>
      rw [List.mem_singleton.mp hc] at hk
      rw [hm, matchScoreKey_inj.mp hk]
    · cases hc

section General

variable [Platform] {calls : ℕ → Call} {w : World} {s : State}
  {K : State → Act Choice → State → Prop}

theorem Txn.matchesOwned {d : DB} {h : History} {c : Call} {ws : List Write} (ht : Txn d h c ws) :
    ∀ o ∈ ws.filterMap Write.giftOrder?, o.status = .accepted → ∀ k, o.matchID = some k →
      (dbAt d h).HasMatch o.liveSessionID k := by
  intro o ho hacc k hk
  rcases ht.sales with ⟨req, p, rfl⟩ | ⟨req, p, rfl⟩ | ⟨hno, -⟩
  · rw [p.picks.2.2.2.1] at ho
    obtain rfl := List.mem_singleton.mp ho
    obtain ⟨x, hx, hl, -⟩ := p.match_ok k hk
    have hmatched := p.match_eq
    rw [hx, show req.matchID = some k from hk] at hmatched
    exact ⟨x, hmatched.symm, hl⟩
  · rw [p.picks.2.2.2.1] at ho
    obtain rfl := List.mem_singleton.mp ho
    cases hacc
  · rw [hno] at ho
    cases ho

theorem Legal.matchesOwned {d : DB} {h : History} (hl : Legal calls d h) (ho : d.giftOrders = []) :
    (dbAt d h).MatchesOwned := by
  induction hl with
  | nil =>
    intro o hm
    simp [DB.accepted, ho] at hm
  | snoc _ ht ih =>
    intro o hm k hk
    rw [dbAt_snoc, accepted_applyAll, List.mem_append] at hm
    rw [dbAt_snoc, DB.HasMatch, applyAll_liveMatches]
    rcases hm with hm | hm
    · exact ih o hm k hk
    · obtain ⟨hm, hacc⟩ := List.mem_filter.mp hm
      exact ht.matchesOwned o hm (of_decide_eq_true hacc) k hk

section Runs

variable (hs : Start w) (hb : w.db.Blank) (h : (system calls).Reach K (Pool.fresh w) s)
include hs hb h

theorem reach_matchOrders {e : ℕ × RedisCmd} (hc : ∀ id, calls e.1 ≠ .rebuild id)
    (he : e ∈ s.world.aof) {k : ℕ} (hk : e.2.key = matchScoreKey k) :
    s.world.db.matchOrders k ≠ [] := by
  obtain ⟨m, evt, hcall, hidle, hevt, hinc⟩ := reach_pusher hs h hc he
  obtain ⟨hl, hd⟩ := reach_legal hs h
  have hcomplete : OutboxComplete s.world.db := hd ▸ hl.outboxComplete hb.outboxComplete
  have hdel := reach_delivery hs h
  have hlog := hdel.started e.1 m (by rw [hcall]; rfl) hidle
  have htopic := hdel.topics e.1 m (by rw [hcall]; rfl) hidle
  rw [hcall] at htopic
  obtain ⟨o, ho⟩ := (reach_good (.any calls w) hs Env.any_allows h).1.giftEvent hcomplete hlog
    (List.mem_singleton.mp htopic) hevt
  obtain ⟨x, _, _, -, -, -, he⟩ := ho.announces
  have hmatch := matchID_of_giftIncrements hinc hk
  cases he
  exact List.ne_nil_of_mem (List.mem_filter.mpr ⟨ho.order, decide_eq_true hmatch⟩)

end Runs

/-- Whatever has failed before and whatever Redis has lost: a rebuild that succeeds while nobody
else acts leaves in the keys of its session what the orders say, and nothing else changes, as long
as the sums are exact. -/
theorem rebuild_restores (calls : ℕ → Call) {w : World} (hs : Start w) (hb : w.db.Blank) {s : State}
    (h : (system calls).Reach (fun _ _ _ => True) (Pool.fresh w) s) {t l : ℕ}
    (hc : calls t = .rebuild l) (hother : ∀ u, u ≠ t → ∀ id, calls u ≠ .rebuild id)
    (hidle : s.threads t = .idle) {x : LiveSession} (hx : s.world.db.liveSessions l = some x)
    (hexact : s.world.db.Exact l x.campaignID) {s' : State}
    (hr : (system calls).Reach (Only (fun _ => True) t) s s')
    (hres : (s'.threads t).result? = some (.handled (.ok ()))) :
    ∃ cs, s'.world.db = s.world.db ∧
      s'.world.aof.map (·.2) = s.world.aof.map (·.2) ++ cs ∧
      ∀ ρ, Redis.Remains (s.world.aof.map (·.2)) ρ →
        Restored s.world.db l x.campaignID ρ (ρ.replay cs) := by
  obtain ⟨os, x', hos, hx', hw⟩ := reach_rebuilt hc hidle ⟨.fault true, trivial⟩ hr hres
  obtain rfl := Option.some.inj (hx.symm.trans hx')
  obtain ⟨hl, hd⟩ := reach_legal hs h
  have hcomplete : OutboxComplete s.world.db := hd ▸ hl.outboxComplete hb.outboxComplete
  have howned : s.world.db.MatchesOwned := hd ▸ hl.matchesOwned hb.giftOrders
  -- the rebuild itself has written nothing before it started
  have hfresh : ∀ e ∈ s.world.aof, e.1 ≠ t := by
    rintro e he rfl
    exact reach_pusher_not_idle hs h he hidle
  refine ⟨rebuildCommands l os ++ campaignCommands s.world.db x.campaignID,
    by rw [hw]; rfl, by rw [hw]; simp [World.pushAll], fun ρ hρ => ?_⟩
  refine restored hos howned hcomplete.gifts hexact fun k member hm => ?_
  obtain ⟨c, hmem, hk⟩ := hρ.written hm
  obtain ⟨e, he, rfl⟩ := List.mem_map.mp hmem
  exact reach_matchOrders hs hb h (hother e.1 (hfresh e he)) he hk

end General

section Witness

open Plain

def giftAndRebuild : ℕ → Call
  | 0 => .sendGift ⟨"g1", 2001, 1001, 9001, some 8001, "ROSE", 3, 0⟩
  | 2 => .leaderboard boardMessage
  | 3 => .rebuild 9001
  | _ => .runOnce 10

theorem giftAndRebuild_other {u id : ℕ} (hu : u ≠ 3) : giftAndRebuild u ≠ .rebuild id := by
  unfold giftAndRebuild
  split
  · exact nofun
  · exact nofun
  · exact absurd rfl hu
  · exact nofun

def idle (t : ℕ) (s : State) : Bool :=
  match s.threads t with
  | .idle => true
  | _ => false

theorem idle_spec {t : ℕ} {s : State} (h : idle t s = true) : s.threads t = .idle := by
  unfold idle at h
  split at h
  · assumption
  · cases h

/-- The handler dies before its last command, then Redis is wiped: the rebuild restores the
scores. -/
theorem rebuild_restores_wiped : ∃ s s' : State, s.world.aof.length = 2 ∧
    s'.world.redis (matchScoreKey 8001) (creatorField 1001) = some 3 ∧
    ∃ cs, s'.world.aof.map (·.2) = s.world.aof.map (·.2) ++ cs ∧
      Restored s.world.db 9001 (some 7001) Redis.empty (Redis.empty.replay cs) := by
  obtain ⟨s, hr, hp⟩ := Machine.exists_reach (M := system giftAndRebuild)
    (s := Pool.fresh (World.boot migrated)) (K := fun _ _ _ => true)
    (p := fun s => decide (s.world.aof.length = 2 ∧
      s.world.db.liveSessions 9001 = some ⟨1001, some 7001, .opened, none⟩ ∧
      sumOf (·.chargedCoins) s.world.db.giftOrders < 2 ^ 53 ∧
      sumOf (·.matchPointsAdded) s.world.db.giftOrders < 2 ^ 63) && idle 3 s &&
      ((system giftAndRebuild).run (fun s a s' => decide (Only (fun _ => True) 3 s a s')) s
        (launch 3 9 8)).any fun s' : State =>
        decide ((s'.threads 3).result? = some (.handled (.ok ())) ∧
          s'.world.redis (matchScoreKey 8001) (creatorField 1001) = some 3))
    (launch 0 21 5 ++ launch 1 9 6 ++ launch 2 6 7 ++ kill 2) (by decide +kernel)
  obtain ⟨hp, hrun⟩ := Bool.and_eq_true_iff.mp hp
  obtain ⟨hp, hidle⟩ := Bool.and_eq_true_iff.mp hp
  obtain ⟨hlen, hx, hcoins, hpoints⟩ := of_decide_eq_true hp
  obtain ⟨s', hr', hp'⟩ := Machine.exists_reach (launch 3 9 8) hrun
  obtain ⟨hres, hscore⟩ := of_decide_eq_true hp'
  obtain ⟨cs, -, hcs, hall⟩ := rebuild_restores giftAndRebuild (Start.boot rfl rfl rfl rfl)
    migrated_blank (hr.mono fun _ _ _ _ => trivial) rfl
    (fun u hu id => giftAndRebuild_other hu) (idle_spec hidle) hx (.of_totals hcoins hpoints)
    (hr'.mono fun _ _ _ hk => of_decide_eq_true hk) hres
  refine ⟨s, s', hlen, hscore, cs, hcs, hall _ ?_⟩
  exact .lose (fun _ _ => true) (.replay _)

def yacht : Gift := ⟨"YACHT", 2 ^ 32 - 1, 0, 0, true, by decide, by decide, by decide⟩

/-- A viewer with many coins, and a gift at the highest price that can be charged. -/
def wealthy : DB :=
  { migrated with
    giftCatalog := [yacht]
    walletAccounts := fun u => if u = 2001 then some (2 ^ 60) else none }

def yachtRequest (t : ℕ) : GiftRequest :=
  ⟨"g" ++ toString t, 2001, 1002, 9002, none, "YACHT", 1, 0⟩

def yachtsAndRebuild : ℕ → Call := fun t =>
  if t = 2 ^ 21 + 1 then .rebuild 9002 else .sendGift (yachtRequest t)

/-- The first `k` gifts have been sent and accepted, one after the other. -/
structure YachtsSent (k : ℕ) (s : State) : Prop where
  reach : (system yachtsAndRebuild).Reach (fun _ _ _ => True) (Pool.fresh (World.boot wealthy)) s
  idle : ∀ t, k ≤ t → s.threads t = .idle
  unlocked : ∀ t, s.world.Unlocked t
  ids : s.world.ids = ⟨k + 1, k + 1, 2 * k + 1⟩
  balance : s.world.db.balance 2001 = 2 ^ 60 - k * (2 ^ 32 - 1)
  locks : s.world.db.giftOrders.map (·.lock) =
    (List.range k).map fun t => (yachtRequest t).storedKey
  orders : ∀ o ∈ s.world.db.giftOrders, o.liveSessionID = 9002 ∧ o.matchID = none ∧
    o.status = .accepted ∧ o.chargedCoins = 2 ^ 32 - 1

section Yachts

variable {k : ℕ} {s : State}

theorem yachtRequest_length (hk : k < 2 ^ 22) : (yachtRequest k).requestID.length ≤ 64 := by
  have hlen : k.repr.length ≤ 20 := (Nat.length_repr_le_iff (by decide)).mpr (hk.trans (by decide))
  change ("g" ++ k.repr).length ≤ 64
  rw [String.length_append]
  change 1 + k.repr.length ≤ 64
  omega

theorem yachtRequest_fits (hk : k < 2 ^ 22) :
    Varchar.refuses 64 (yachtRequest k).requestID = false := by
  rw [Bool.eq_false_iff]
  intro h
  exact absurd (Varchar.length_lt_of_refuses h) (yachtRequest_length hk).not_gt

theorem yachtRequest_storedKey (hk : k < 2 ^ 22) :
    (yachtRequest k).storedKey = .giftOrderKey 2001 ("g" ++ toString k) :=
  storedKey_eq (fun _ => Varchar.store_eq_self (yachtRequest_length hk)) (yachtRequest_fits hk)

theorem yachtRequest_valid (k : ℕ) : (yachtRequest k).Valid := by
  simp [GiftRequest.Valid, yachtRequest, isBlank, isSpace]

theorem YachtsSent.session (h : YachtsSent k s) :
    s.world.db.liveSessions = wealthy.liveSessions := by
  obtain ⟨hl, hd⟩ := reach_legal (Start.boot rfl rfl rfl rfl) h.reach
  rw [hd]
  refine hl.liveSessions fun t i => ?_
  unfold yachtsAndRebuild
  split <;> exact nofun

theorem YachtsSent.sells (h : YachtsSent k s) (hk : k ≤ 2 ^ 21) :
    s.world.db.Sells (yachtRequest k) yacht := by
  have hgrows := reach_grows (Start.boot rfl rfl rfl rfl) .refl h.reach
  have hbal := h.balance
  exact {
    session := ⟨⟨1002, none, .opened, none⟩, by rw [h.session]; rfl, rfl⟩
    gift := by rw [hgrows.giftCatalog]; rfl
    enabled := rfl
    creator := ⟨seedUser 27 "US" .normal, by rw [hgrows.users]; rfl,
      eligible_iff.mp (by decide +kernel)⟩
    matched := fun _ hm => by cases hm
    viewer := by rw [hgrows.users]; rfl
    positive := show 0 < (2 ^ 32 - 1) * 1 by decide
    charged := show (2 ^ 32 - 1) * 1 ≤ 2 ^ 32 - 1 by decide
    covered := by
      change ((2 ^ 32 - 1) * 1 : ℤ) ≤ s.world.db.balance 2001
      omega
    points := Nat.zero_le _
    diamonds := Nat.zero_le _ }

theorem YachtsSent.step (h : YachtsSent k s) (hk : k ≤ 2 ^ 21) : ∃ s', YachtsSent (k + 1) s' := by
  have hstart : Start (World.boot wealthy) := Start.boot rfl rfl rfl rfl
  have hnew : ∀ o ∈ s.world.db.giftOrders, o.lock ≠ (yachtRequest k).storedKey := by
    intro o ho he
    have hmem := List.mem_map_of_mem (f := GiftOrder.lock) ho
    rw [h.locks] at hmem
    obtain ⟨t, ht, hlock⟩ := List.mem_map.mp hmem
    rw [List.mem_range] at ht
    rw [he, yachtRequest_storedKey (by omega), yachtRequest_storedKey (by omega)] at hlock
    have := numbered_inj.mp (Lock.giftOrderKey.inj hlock).2
    omega
  have hkey : (yachtRequest k).key = (yachtRequest k).storedKey :=
    (yachtRequest_storedKey (by omega)).symm
  have hcall : yachtsAndRebuild k = .sendGift (yachtRequest k) := if_neg (by omega)
  have hcampaign : s.world.db.CampaignScans 9002 := by
    intro x hx c hc
    rw [h.session] at hx
    cases hx
    cases hc
  have hviewer : 2001 < 2 ^ 64 := by decide
  have hgiftID : Varchar.refuses 32 "YACHT" = false := by decide
  have hst : (yachtRequest k).Storable s.world.db s.world.ids := by
    rw [h.ids]
    exact ⟨yachtRequest_fits (by omega), hgiftID, hnew, by dsimp only; omega,
      by dsimp only; omega, by dsimp only; omega⟩
  obtain ⟨s', resp, hr, hsold, hids, hfree⟩ := exists_sold hcall (h.idle k le_rfl) (h.unlocked k)
    (reach_unsent hstart rfl h.reach (yachtRequest_valid k) hviewer hcampaign (hkey ▸ hnew))
    (yachtRequest_valid k) (h.sells hk) hst
  obtain ⟨o, ho, -, hlock, -, hsession, hmatch, hstatus, hcharged, -⟩ := hsold.order
  refine ⟨s', h.reach.trans (hr.mono fun _ _ _ _ => trivial), fun t ht => ?_, hfree, ?_, ?_, ?_, ?_⟩
  · rw [Machine.reach_only_threads hr (by omega)]
    exact h.idle t (by omega)
  · rw [hids, h.ids]
    rfl
  · have hbal := hsold.balance
    change s'.world.db.balance 2001 = s.world.db.balance 2001 - ((2 ^ 32 - 1) * 1 : ℤ) at hbal
    rw [hbal, h.balance]
    omega
  · rw [ho, List.map_append, h.locks, List.range_succ, List.map_append, List.map_singleton, hlock]
    rfl
  · intro x hx
    rw [ho, List.mem_append, List.mem_singleton] at hx
    rcases hx with hx | rfl
    · exact h.orders x hx
    · exact ⟨hsession, hmatch, hstatus, hcharged⟩

theorem exists_yachtsSent (hk : k ≤ 2 ^ 21 + 1) : ∃ s, YachtsSent k s := by
  induction k with
  | zero =>
    refine ⟨Pool.fresh (World.boot wealthy), .refl, fun _ _ => rfl, fun _ _ _ hl => ?_, rfl, rfl,
      rfl, fun _ ho => ?_⟩
    · cases hl
    · cases ho
  | succ k ih =>
    obtain ⟨s, hs⟩ := ih (by omega)
    exact hs.step (by omega)

theorem YachtsSent.accepted (h : YachtsSent k s) :
    s.world.db.acceptedOrders 9002 = s.world.db.giftOrders := by
  refine List.filter_eq_self.mpr fun o ho => ?_
  obtain ⟨hl, -, hst, -⟩ := h.orders o ho
  simp [hl, hst]

theorem YachtsSent.viewerID (h : YachtsSent k s) {o : GiftOrder}
    (ho : o ∈ s.world.db.giftOrders) : o.viewerID = 2001 := by
  have hmem := List.mem_map_of_mem (f := GiftOrder.lock) ho
  rw [h.locks] at hmem
  obtain ⟨t, -, hlock⟩ := List.mem_map.mp hmem
  exact (Lock.giftOrderKey.inj hlock).1.symm

theorem YachtsSent.length (h : YachtsSent k s) : s.world.db.giftOrders.length = k := by
  rw [← List.length_map GiftOrder.lock, h.locks, List.length_map, List.length_range]

theorem YachtsSent.sum (h : YachtsSent k s) :
    sumOf (·.chargedCoins) s.world.db.giftOrders = k * (2 ^ 32 - 1) := by
  have hall : s.world.db.giftOrders.map (fun o => (o.chargedCoins : ℤ)) =
      s.world.db.giftOrders.map fun _ => 2 ^ 32 - 1 :=
    List.map_congr_left fun o ho => by rw [(h.orders o ho).2.2.2]; rfl
  rw [sumOf, hall, List.map_const', List.sum_replicate, h.length, nsmul_eq_mul]

end Yachts

/-- A viewer who has sent 2^21 + 1 gifts of 2^32 - 1 coins has spent an odd number of coins above
2^53, which no double holds: the rebuild reports success and leaves another number. -/
theorem rebuild_rounds : ∃ s s' : State,
    (system yachtsAndRebuild).Reach (fun _ _ _ => True) (Pool.fresh (World.boot wealthy)) s ∧
    s.threads (2 ^ 21 + 1) = .idle ∧
    (system yachtsAndRebuild).Reach (Only Choice.Ok (2 ^ 21 + 1)) s s' ∧
    (s'.threads (2 ^ 21 + 1)).result? = some (.handled (.ok ())) ∧
    s.world.db.contributed 9002 2001 = (2 ^ 21 + 1) * (2 ^ 32 - 1) ∧
    s'.world.redis (contributorKey 9002) "2001" ≠ some ((2 ^ 21 + 1) * (2 ^ 32 - 1)) ∧
    ¬ Restored s.world.db 9002 none s.world.redis s'.world.redis := by
  obtain ⟨s, h⟩ := exists_yachtsSent (k := 2 ^ 21 + 1) le_rfl
  have hcall : yachtsAndRebuild (2 ^ 21 + 1) = .rebuild 9002 := if_pos rfl
  have hidle := h.idle (2 ^ 21 + 1) le_rfl
  have hfits : s.world.db.Rebuildable 9002 ⟨1002, none, .opened, none⟩ := by
    refine ⟨by rw [h.session]; rfl, fun o ho k hk => ?_, fun c hc => ?_, fun c hc => ?_⟩
    · rw [h.accepted] at ho
      rw [(h.orders o ho).2.1] at hk
      cases hk
    · cases hc
    · cases hc
  obtain ⟨s', hr, hres⟩ := exists_rebuilt hcall hidle hfits
  have hsum : s.world.db.contributed 9002 2001 = (2 ^ 21 + 1) * (2 ^ 32 - 1) := by
    rw [DB.contributed, h.accepted, List.filter_eq_self.mpr fun o ho => by simp [h.viewerID ho],
      h.sum]
    rfl
  have hne : s'.world.redis (contributorKey 9002) "2001" ≠
      some ((2 ^ 21 + 1) * (2 ^ 32 - 1)) := by
    obtain ⟨os, x, -, -, hw⟩ := reach_rebuilt hcall hidle ⟨.ok 0 id, trivial⟩ hr hres
    rw [hw, World.redis_pushAll]
    exact Redis.rebuild_ne_of_odd (by decide) (by decide)
  refine ⟨s, s', h.reach, hidle, hr, hres, hsum, hne, fun hrest => hne ?_⟩
  -- the claimed content would have the exact sum
  have hpos : 0 < s.world.db.giftOrders.length := by
    rw [h.length]
    decide
  obtain ⟨o, ho⟩ := List.exists_mem_of_length_pos hpos
  refine (hrest.contributors "2001" _).mpr ⟨o, by rw [h.accepted]; exact ho, ?_, ?_⟩
  · change "2001" = toString o.viewerID
    rw [h.viewerID ho]
    rfl
  · change _ = s.world.db.contributed 9002 o.viewerID
    rw [h.viewerID ho, hsum]

end Witness

end LiveRevenue
