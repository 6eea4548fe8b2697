import Mathlib.Algebra.BigOperators.Group.List.Basic
import LiveRevenue.Projector.Leaderboard

/-! # What Redis holds

Redis is the replay of the commands it has applied. A log of increments alone makes
every score the sum of what was added there, as long as a double holds it; a key is only
touched by commands that name it.
-/

namespace LiveRevenue

namespace RedisCmd

def adds (key member : String) : RedisCmd → ℤ
  | .zIncrBy k n m => if k = key ∧ m = member then n else 0
  | .hIncrBy k f n => if k = key ∧ f = member then n else 0
  | _ => 0

def members : RedisCmd → List String
  | .zIncrBy _ _ member => [member]
  | .hIncrBy _ field _ => [field]
  | .del _ => []
  | .zAdd _ members => members.map (·.1)
  | .hSet _ fields => fields.map (·.1)

def increments : RedisCmd → Bool
  | .zIncrBy _ _ _ => true
  | .hIncrBy _ _ _ => true
  | _ => false

end RedisCmd

def World.commandsOn (w : World) (key : String) : List RedisCmd :=
  (w.aof.map (·.2)).filter fun c => c.key = key

/-- What a key holds, member by member. -/
def World.entriesOf (w : World) (key : String) : List (String × ℤ) :=
  ((w.commandsOn key).flatMap (·.members)).dedup.filterMap fun m => (w.redis key m).map (m, ·)

def LiveGiftAcceptedV1.adds (evt : LiveGiftAcceptedV1) (key member : String) : ℤ :=
  ((giftIncrements evt).map (·.adds key member)).sum

section Replay

variable {ρ : Redis} {key member : String} {cs cs' : List RedisCmd} {c : RedisCmd}

@[simp] theorem Redis.score_empty : Redis.empty.score key member = 0 := rfl

theorem Redis.replay_append : ρ.replay (cs ++ cs') = (ρ.replay cs).replay cs' :=
  List.foldl_append

theorem Redis.score_put {k m : String} {n : ℤ} :
    (ρ.put k m n).score key member = if key = k ∧ member = m then n else ρ.score key member := by
  unfold Redis.score Redis.put
  split <;> rfl

theorem RedisCmd.score_apply (hc : c.increments = true)
    (hexact : ∀ n, c = .zIncrBy key n member → Binary64.add (ρ.score key member) n =
      ρ.score key member + n) :
    (c.apply ρ).score key member = ρ.score key member + c.adds key member := by
  cases c with
  | zIncrBy k n m =>
    simp only [apply, adds, Redis.score_put, @eq_comm _ key, @eq_comm _ member]
    split
    · next h =>
      obtain ⟨rfl, rfl⟩ := h
      exact hexact n rfl
    · rw [add_zero]
  | hIncrBy k f n =>
    simp only [apply, adds, Redis.score_put, @eq_comm _ key, @eq_comm _ member]
    split
    · next h => rw [h.1, h.2]
    · rw [add_zero]
  | _ => cases hc

theorem Redis.score_replay (hcs : ∀ c ∈ cs, c.increments = true)
    (hpos : ∀ c ∈ cs, 0 ≤ c.adds key member) (h0 : 0 ≤ ρ.score key member)
    (hlt : ∀ n, .zIncrBy key n member ∈ cs →
      ρ.score key member + (cs.map (·.adds key member)).sum < 2 ^ 53) :
    (ρ.replay cs).score key member = ρ.score key member + (cs.map (·.adds key member)).sum := by
  induction cs generalizing ρ with
  | nil => simp [replay]
  | cons c cs ih =>
    rw [List.forall_mem_cons] at hcs hpos
    have hrest : 0 ≤ (cs.map (·.adds key member)).sum := List.sum_nonneg fun x hx => by
      obtain ⟨c', hc', rfl⟩ := List.mem_map.mp hx
      exact hpos.2 c' hc'
    rw [List.map_cons, List.sum_cons] at hlt ⊢
    have hstep : (c.apply ρ).score key member = ρ.score key member + c.adds key member := by
      refine RedisCmd.score_apply hcs.1 ?_
      rintro n rfl
      have hn : (RedisCmd.zIncrBy key n member).adds key member = n := if_pos ⟨rfl, rfl⟩
      have hsum := hlt n List.mem_cons_self
      rw [hn] at hsum hpos
      exact Binary64.add_of_lt h0 hpos.1 (by omega)
    change ((c.apply ρ).replay cs).score key member = _
    rw [ih hcs.2 hpos.2 (by omega) fun n hn => ?_, hstep, add_assoc]
    have hsum := hlt n (List.mem_cons_of_mem c hn)
    omega

theorem Redis.putAll_of_ne {k : String} {xs : List (String × ℤ)} (h : key ≠ k) :
    ρ.putAll k xs key = ρ key := by
  induction xs generalizing ρ with
  | nil => rfl
  | cons x xs ih =>
    have hput : (ρ.put k x.1 x.2).putAll k xs key = ρ.put k x.1 x.2 key := ih
    exact hput.trans (funext fun m => if_neg fun he => h he.1)

theorem Redis.putAll_congr {ρ' : Redis} {k : String} {xs : List (String × ℤ)} (h : ρ key = ρ' key) :
    ρ.putAll k xs key = ρ'.putAll k xs key := by
  induction xs generalizing ρ ρ' with
  | nil => exact h
  | cons x xs ih =>
    refine ih (funext fun m => ?_)
    simp only [Redis.put, h]

theorem RedisCmd.apply_of_ne (h : c.key ≠ key) : c.apply ρ key = ρ key := by
  cases c with
  | zIncrBy k n m => exact funext fun x => if_neg fun he => h he.1.symm
  | hIncrBy k f n => exact funext fun x => if_neg fun he => h he.1.symm
  | del k => exact funext fun x => if_neg fun he => h he.symm
  | zAdd k ms => exact Redis.putAll_of_ne (Ne.symm h)
  | hSet k fs => exact Redis.putAll_of_ne (Ne.symm h)

theorem RedisCmd.apply_congr {ρ' : Redis} (h : ρ key = ρ' key) :
    c.apply ρ key = c.apply ρ' key := by
  by_cases hk : c.key = key
  · cases c with
    | zIncrBy k n m =>
      obtain rfl := hk
      funext x
      simp only [apply, Redis.put, Redis.score, RedisCmd.key] at h ⊢
      rw [h]
    | hIncrBy k f n =>
      obtain rfl := hk
      funext x
      simp only [apply, Redis.put, Redis.score, RedisCmd.key] at h ⊢
      rw [h]
    | del k =>
      funext x
      simp only [apply, Redis.erase, h]
    | zAdd k ms => exact Redis.putAll_congr h
    | hSet k fs => exact Redis.putAll_congr h
  · rw [apply_of_ne hk, apply_of_ne hk, h]

theorem Redis.replay_congr {ρ' : Redis} (h : ρ key = ρ' key) :
    ρ.replay cs key = ρ'.replay cs key := by
  induction cs generalizing ρ ρ' with
  | nil => exact h
  | cons c cs ih => exact ih (RedisCmd.apply_congr h)

theorem Redis.replay_key :
    ρ.replay cs key = ρ.replay (cs.filter fun c => c.key = key) key := by
  induction cs generalizing ρ with
  | nil => rfl
  | cons c cs ih =>
    by_cases hk : c.key = key
    · rw [List.filter_cons_of_pos (by simpa using hk)]
      exact ih
    · rw [List.filter_cons_of_neg (by simpa using hk), ← ih]
      exact Redis.replay_congr (RedisCmd.apply_of_ne hk)

theorem Redis.putAll_member {k : String} {xs : List (String × ℤ)}
    (h : ρ.putAll k xs key member ≠ none) : ρ key member ≠ none ∨ member ∈ xs.map (·.1) := by
  induction xs generalizing ρ with
  | nil => exact .inl h
  | cons x xs ih =>
    have hcases : ρ.put k x.1 x.2 key member ≠ none ∨ member ∈ xs.map (·.1) := ih h
    rcases hcases with hne | hmem
    · by_cases hm : member = x.1
      · exact .inr (hm ▸ List.mem_cons_self)
      · exact .inl (by simpa only [Redis.put, hm, and_false, if_false] using hne)
    · exact .inr (List.mem_cons_of_mem _ hmem)

theorem RedisCmd.apply_member (h : c.apply ρ key member ≠ none) :
    ρ key member ≠ none ∨ c.key = key ∧ member ∈ c.members := by
  by_cases hk : c.key = key
  · cases c with
    | zIncrBy k n m =>
      by_cases hm : member = m
      · exact .inr ⟨hk, hm ▸ List.mem_cons_self⟩
      · exact .inl (by simpa only [apply, Redis.put, hm, and_false, if_false] using h)
    | hIncrBy k f n =>
      by_cases hm : member = f
      · exact .inr ⟨hk, hm ▸ List.mem_cons_self⟩
      · exact .inl (by simpa only [apply, Redis.put, hm, and_false, if_false] using h)
    | del k => exact absurd (if_pos hk.symm) h
    | zAdd k ms => exact (Redis.putAll_member h).imp_right fun hm => ⟨hk, hm⟩
    | hSet k fs => exact (Redis.putAll_member h).imp_right fun hm => ⟨hk, hm⟩
  · rw [apply_of_ne hk] at h
    exact .inl h

theorem Redis.replay_member (h : ρ.replay cs key member ≠ none) :
    ρ key member ≠ none ∨ ∃ c ∈ cs, c.key = key ∧ member ∈ c.members := by
  induction cs generalizing ρ with
  | nil => exact .inl h
  | cons c cs ih =>
    have hcases : c.apply ρ key member ≠ none ∨ ∃ c ∈ cs, c.key = key ∧ member ∈ c.members := ih h
    rcases hcases with hne | ⟨c', hc', hx⟩
    · exact (RedisCmd.apply_member hne).imp_right fun hx => ⟨c, List.mem_cons_self, hx⟩
    · exact .inr ⟨c', List.mem_cons_of_mem c hc', hx⟩

theorem Redis.put_ne_none {k m : String} {n : ℤ}
    (h : ρ key member ≠ none ∨ k = key ∧ member ∈ [m]) : ρ.put k m n key member ≠ none := by
  unfold Redis.put
  split
  · exact Option.some_ne_none n
  · next hne =>
    exact h.resolve_right fun hx => hne ⟨hx.1.symm, List.mem_singleton.mp hx.2⟩

theorem Redis.replay_ne_none (hcs : ∀ c ∈ cs, c.increments = true)
    (h : ρ key member ≠ none ∨ ∃ c ∈ cs, c.key = key ∧ member ∈ c.members) :
    ρ.replay cs key member ≠ none := by
  induction cs generalizing ρ with
  | nil => exact h.resolve_right (by simp)
  | cons c cs ih =>
    have hstep : (ρ key member ≠ none ∨ c.key = key ∧ member ∈ c.members) →
        c.apply ρ key member ≠ none := by
      intro hx
      have hc := hcs c List.mem_cons_self
      cases c with
      | zIncrBy k n m => exact Redis.put_ne_none hx
      | hIncrBy k f n => exact Redis.put_ne_none hx
      | _ => cases hc
    refine ih (fun x hx => hcs x (List.mem_cons_of_mem c hx)) ?_
    rcases h with hne | ⟨c', hc', hx⟩
    · exact .inl (hstep (.inl hne))
    · rcases List.mem_cons.mp hc' with rfl | hc'
      · exact .inl (hstep (.inr hx))
      · exact .inr ⟨c', hc', hx⟩

theorem World.redis_eq (w : World) (key : String) :
    w.redis key = Redis.empty.replay (w.commandsOn key) key := Redis.replay_key

theorem World.mem_entriesOf {w : World} {key member : String} {n : ℤ} :
    (member, n) ∈ w.entriesOf key ↔ w.redis key member = some n := by
  unfold World.entriesOf
  rw [List.mem_filterMap]
  constructor
  · rintro ⟨m, -, hm⟩
    obtain ⟨x, hx, he⟩ := Option.map_eq_some_iff.mp hm
    cases he
    exact hx
  · intro h
    refine ⟨member, List.mem_dedup.mpr ?_, by rw [h]; rfl⟩
    have hne : Redis.empty.replay (w.commandsOn key) key member ≠ none := by
      rw [← World.redis_eq, h]
      exact Option.some_ne_none n
    obtain ⟨c, hc, -, hm⟩ := (Redis.replay_member hne).resolve_left fun he => he rfl
    exact List.mem_flatMap.mpr ⟨c, hc, hm⟩

theorem World.entriesOf_nodup (w : World) (key : String) : (w.entriesOf key).Nodup := by
  refine (List.nodup_dedup _).filterMap fun m m' x hx hx' => ?_
  obtain ⟨n, -, rfl⟩ := Option.map_eq_some_iff.mp hx
  obtain ⟨n', -, he⟩ := Option.map_eq_some_iff.mp hx'
  exact (congrArg Prod.fst he).symm

end Replay

section Keys

variable {a b : ℕ}

theorem numbered_inj {p : String} : p ++ toString a = p ++ toString b ↔ a = b :=
  ⟨fun h => decimal_inj.mp ((String.append_right_inj p).mp h), fun h => h ▸ rfl⟩

@[simp] theorem contributorKey_inj : contributorKey a = contributorKey b ↔ a = b := numbered_inj
@[simp] theorem campaignKey_inj : campaignKey a = campaignKey b ↔ a = b := numbered_inj
@[simp] theorem matchScoreKey_inj : matchScoreKey a = matchScoreKey b ↔ a = b := numbered_inj

@[simp] theorem creatorField_inj : creatorField a = creatorField b ↔ a = b := by
  unfold creatorField
  rw [String.append_left_inj, numbered_inj]

theorem append_ne_append {p q x y : String} {n : ℕ} (h : p.toList.take n ≠ q.toList.take n)
    (hp : n ≤ p.length) (hq : n ≤ q.length) : p ++ x ≠ q ++ y := by
  intro he
  have hl := congrArg (fun s => s.toList.take n) he
  simp only [String.toList_append] at hl
  rw [List.take_append_of_le_length hp, List.take_append_of_le_length hq] at hl
  exact h hl

@[simp] theorem contributorKey_ne_campaignKey : contributorKey a ≠ campaignKey b :=
  append_ne_append (n := 5) (by decide) (by decide) (by decide)

@[simp] theorem contributorKey_ne_matchScoreKey : contributorKey a ≠ matchScoreKey b :=
  append_ne_append (n := 1) (by decide) (by decide) (by decide)

@[simp] theorem campaignKey_ne_matchScoreKey : campaignKey a ≠ matchScoreKey b :=
  append_ne_append (n := 1) (by decide) (by decide) (by decide)

end Keys

/-- The key maps exactly the ids of the orders, by name, to their sums over the orders. -/
def Redis.Maps (ρ : Redis) (key : String) (name : ℕ → String) (who val : GiftOrder → ℕ)
    (os : List GiftOrder) : Prop :=
  ∀ member n, ρ key member = some n ↔
    ∃ o ∈ os, member = name (who o) ∧ n = sumOf val (os.filter fun o' => who o' = who o)

section Maps

variable {ρ ρ' : Redis} {key : String} {name : ℕ → String} {who val : GiftOrder → ℕ}
  {os os' : List GiftOrder} {cs : List RedisCmd}

theorem sumOf_perm (h : os.Perm os') : sumOf val os = sumOf val os' := (h.map _).sum_eq

theorem Redis.Maps.perm (h : ρ.Maps key name who val os) (hp : os.Perm os') :
    ρ.Maps key name who val os' := by
  intro member n
  rw [h member n]
  constructor
  · rintro ⟨o, ho, hm, hn⟩
    exact ⟨o, hp.subset ho, hm, hn.trans (sumOf_perm (hp.filter _))⟩
  · rintro ⟨o, ho, hm, hn⟩
    exact ⟨o, hp.symm.subset ho, hm, hn.trans (sumOf_perm (hp.filter _)).symm⟩

theorem Redis.Maps.eq (h : ρ.Maps key name who val os) (h' : ρ'.Maps key name who val os) :
    ρ key = ρ' key := by
  funext member
  cases hm : ρ' key member with
  | some n => exact (h member n).mpr ((h' member n).mp hm)
  | none =>
    cases hm' : ρ key member with
    | none => rfl
    | some n =>
      rw [(h' member n).mpr ((h member n).mp hm')] at hm
      cases hm

theorem groupBy_names {total : List GiftOrder → ℤ} (hname : Function.Injective name) :
    (((groupBy who total os).map fun x => (name x.1, x.2)).map (·.1)).Nodup := by
  unfold groupBy
  rw [List.map_map, List.map_map]
  exact (List.nodup_dedup _).map fun _ _ h => hname h

theorem mem_groupBy {total : List GiftOrder → ℤ} {member : String} {n : ℤ}
    (htotal : ∀ k, total (os.filter fun o => who o = k) = sumOf val
    (os.filter fun o => who o = k)) :
    (member, n) ∈ (groupBy who total os).map (fun x => (name x.1, x.2)) ↔
      ∃ o ∈ os, member = name (who o) ∧ n = sumOf val (os.filter fun o' => who o' = who o) := by
  unfold groupBy
  rw [List.map_map, List.mem_map]
  constructor
  · rintro ⟨k, hk, he⟩
    obtain ⟨o, ho, rfl⟩ := List.mem_map.mp (List.mem_dedup.mp hk)
    obtain ⟨rfl, rfl⟩ := Prod.mk.inj he
    exact ⟨o, ho, rfl, htotal _⟩
  · rintro ⟨o, ho, rfl, rfl⟩
    exact ⟨who o, List.mem_dedup.mpr (List.mem_map_of_mem ho), Prod.ext rfl (htotal _)⟩

theorem floatCoins_eq (h : sumOf (·.chargedCoins) os < 2 ^ 53) :
    floatCoins os = sumOf (·.chargedCoins) os := by
  refine Binary64.sum_eq (fun x hx => ?_) h
  obtain ⟨o, -, rfl⟩ := List.mem_map.mp hx
  exact Int.natCast_nonneg _

theorem int64Points_eq (h : sumOf (·.matchPointsAdded) os < 2 ^ 63) :
    int64Points os = sumOf (·.matchPointsAdded) os := by
  have hfold : ∀ a : ℤ, 0 ≤ a → a + sumOf (·.matchPointsAdded) os < 2 ^ 63 →
      os.foldl (fun n o => wrap64 (n + o.matchPointsAdded)) a =
        a + sumOf (·.matchPointsAdded) os := by
    clear h
    induction os with
    | nil => simp [sumOf]
    | cons o os ih =>
      intro a ha hlt
      have hrest := sumOf_nonneg (·.matchPointsAdded) os
      have hcons : sumOf (·.matchPointsAdded) (o :: os) =
          o.matchPointsAdded + sumOf (·.matchPointsAdded) os := by simp [sumOf]
      rw [hcons] at hlt ⊢
      rw [List.foldl_cons, wrap64_of_bounds (by omega) (by omega), ih _ (by omega) (by omega),
        add_assoc]
  rw [int64Points, hfold 0 le_rfl (by omega), zero_add]

/-- The coins of each group stay below 2^53. -/
def CoinsExact (who : GiftOrder → ℕ) (os : List GiftOrder) : Prop :=
  ∀ k, sumOf (·.chargedCoins) (os.filter fun o => who o = k) < 2 ^ 53

def PointsExact (os : List GiftOrder) : Prop :=
  ∀ k, sumOf (·.matchPointsAdded) (os.filter fun o => o.creatorID = k) < 2 ^ 63

theorem CoinsExact.of_sublist (h : CoinsExact who os') (hs : os.Sublist os') : CoinsExact who os :=
  fun k => (sumOf_sublist (hs.filter _)).trans_lt (h k)

theorem PointsExact.of_sublist (h : PointsExact os') (hs : os.Sublist os') : PointsExact os :=
  fun k => (sumOf_sublist (hs.filter _)).trans_lt (h k)

theorem CoinsExact.of_total (h : sumOf (·.chargedCoins) os < 2 ^ 53) : CoinsExact who os :=
  fun _ => (sumOf_sublist List.filter_sublist).trans_lt h

theorem PointsExact.of_total (h : sumOf (·.matchPointsAdded) os < 2 ^ 63) : PointsExact os :=
  fun _ => (sumOf_sublist List.filter_sublist).trans_lt h

theorem CoinsExact.perm (h : CoinsExact who os) (hp : os.Perm os') : CoinsExact who os' := by
  intro k
  rw [← sumOf_perm (hp.filter _)]
  exact h k

theorem PointsExact.perm (h : PointsExact os) (hp : os.Perm os') : PointsExact os' := by
  intro k
  rw [← sumOf_perm (hp.filter _)]
  exact h k

theorem mem_contrib (h : CoinsExact (·.viewerID) os) {member : String} {n : ℤ} :
    (member, n) ∈ contrib os ↔ ∃ o ∈ os, member = toString o.viewerID ∧
      n = sumOf (·.chargedCoins) (os.filter fun o' => o'.viewerID = o.viewerID) :=
  mem_groupBy fun k => floatCoins_eq (h k)

theorem mem_matchFields {m : ℕ} (h : PointsExact (os.filter fun o => o.matchID = some m))
    {member : String} {n : ℤ} : (member, n) ∈ matchFields os m ↔
      ∃ o ∈ os.filter fun o => o.matchID = some m, member = creatorField o.creatorID ∧
        n = sumOf (·.matchPointsAdded) ((os.filter fun o => o.matchID = some m).filter
          fun o' => o'.creatorID = o.creatorID) :=
  mem_groupBy fun k => int64Points_eq (h k)

theorem campaignZ_eq (h : CoinsExact (·.creatorID) os) :
    campaignZ (groupSum (·.creatorID) (·.chargedCoins) os) =
      (groupSum (·.creatorID) (·.chargedCoins) os).map fun x => (toString x.1, x.2) := by
  refine List.map_congr_left fun x hx => ?_
  obtain ⟨k, -, rfl⟩ := List.mem_map.mp hx
  exact Prod.ext rfl (Binary64.round_of_lt (sumOf_nonneg _ _) (h k))

theorem mem_campaignZ (h : CoinsExact (·.creatorID) os) {member : String} {n : ℤ} :
    (member, n) ∈ campaignZ (groupSum (·.creatorID) (·.chargedCoins) os) ↔
      ∃ o ∈ os, member = toString o.creatorID ∧
        n = sumOf (·.chargedCoins) (os.filter fun o' => o'.creatorID = o.creatorID) := by
  rw [campaignZ_eq h]
  exact mem_groupBy fun _ => rfl

theorem contrib_nodup (os : List GiftOrder) : ((contrib os).map (·.1)).Nodup :=
  groupBy_names fun _ _ => decimal_inj.mp

theorem matchFields_nodup (os : List GiftOrder) (m : ℕ) : ((matchFields os m).map (·.1)).Nodup :=
  groupBy_names fun _ _ => creatorField_inj.mp

theorem campaignZ_nodup (os : List GiftOrder) :
    ((campaignZ (groupSum (·.creatorID) (·.chargedCoins) os)).map (·.1)).Nodup := by
  have hnames : (((groupBy (·.creatorID) (sumOf (·.chargedCoins)) os).map
      fun x => (toString x.1, x.2)).map (·.1)).Nodup := groupBy_names fun _ _ => decimal_inj.mp
  rw [List.map_map] at hnames
  rw [campaignZ, List.map_map]
  exact hnames

def RedisCmd.Adds (c : RedisCmd) (key member : String) (n : ℤ) : Prop :=
  c = .zIncrBy key n member ∨ c = .hIncrBy key member n

theorem RedisCmd.Adds.spec {c : RedisCmd} {member : String} {n : ℤ} (h : c.Adds key member n) :
    c.increments = true ∧ c.key = key ∧ c.members = [member] ∧
      ∀ m, c.adds key m = if member = m then n else 0 := by
  rcases h with rfl | rfl <;> exact ⟨rfl, rfl, rfl, fun m => by simp [adds]⟩

section Increments

variable (hname : Function.Injective name) (inc : GiftOrder → RedisCmd)
  (hinc : ∀ o, (inc o).Adds key (name (who o)) (val o))
include hinc

include hname in
theorem sum_adds_increments (k : ℕ) : ((os.map inc).map (·.adds key (name k))).sum =
    sumOf val (os.filter fun o => who o = k) := by
  induction os with
  | nil => rfl
  | cons o os ih =>
    rw [List.map_cons, List.map_cons, List.sum_cons, ih, List.filter_cons, (hinc o).spec.2.2.2]
    by_cases hk : who o = k
    · simp [hk, sumOf]
    · simp [hk, hname.ne hk]

variable (hlt : ∀ o ∈ os, (∃ n m, inc o = .zIncrBy key n m) →
    sumOf val (os.filter fun o' => who o' = who o) < 2 ^ 53)
  (h : (cs.filter fun c => c.key = key).Perm (os.map inc))
include h

theorem increments_of_perm : ∀ c ∈ cs.filter fun c => c.key = key, c.increments = true := by
  intro c hc
  obtain ⟨o, -, rfl⟩ := List.mem_map.mp (h.subset hc)
  exact (hinc o).spec.1

theorem Redis.replay_increments_ne_none {member : String} :
    Redis.empty.replay cs key member ≠ none ↔ ∃ o ∈ os, member = name (who o) := by
  rw [Redis.replay_key]
  constructor
  · intro hne
    obtain ⟨c, hc, -, hm⟩ := (Redis.replay_member hne).resolve_left fun he => he rfl
    obtain ⟨o, ho, rfl⟩ := List.mem_map.mp (h.subset hc)
    rw [(hinc o).spec.2.2.1] at hm
    exact ⟨o, ho, List.mem_singleton.mp hm⟩
  · rintro ⟨o, ho, rfl⟩
    refine Redis.replay_ne_none (increments_of_perm inc hinc h)
      (.inr ⟨inc o, h.symm.subset (List.mem_map_of_mem ho), ?_⟩)
    rw [(hinc o).spec.2.2.1]
    exact ⟨(hinc o).spec.2.1, List.mem_singleton_self _⟩

include hname hlt

theorem Redis.score_increments (k : ℕ) : (Redis.empty.replay cs).score key (name k) =
    sumOf val (os.filter fun o => who o = k) := by
  have hsums : ∀ k, ((cs.filter fun c => c.key = key).map (·.adds key (name k))).sum =
      sumOf val (os.filter fun o => who o = k) := fun k => by
    rw [(h.map _).sum_eq, sum_adds_increments hname inc hinc]
  rw [Redis.score, Redis.replay_key]
  change Redis.score _ key (name k) = _
  rw [Redis.score_replay (increments_of_perm inc hinc h) (fun c hc => ?_) le_rfl
    (fun n hn => ?_), Redis.score_empty, zero_add, hsums]
  · obtain ⟨o, -, rfl⟩ := List.mem_map.mp (h.subset hc)
    rw [(hinc o).spec.2.2.2]
    split <;> omega
  · -- only a set adds floats, and its sums stay below the bound
    obtain ⟨o, ho, he⟩ := List.mem_map.mp (h.subset hn)
    have hm := (hinc o).spec.2.2.1
    rw [he] at hm
    obtain rfl : k = who o := hname (List.singleton_inj.mp hm)
    rw [Redis.score_empty, zero_add, hsums]
    exact hlt o ho ⟨n, _, he⟩

/-- A key to which one increment for each order was applied, in any order, holds their sums, as far
as it can. -/
theorem Redis.maps_of_increments : (Redis.empty.replay cs).Maps key name who val os := by
  have hmem : ∀ member, Redis.empty.replay cs key member ≠ none ↔
      ∃ o ∈ os, member = name (who o) := fun _ => Redis.replay_increments_ne_none inc hinc h
  intro member n
  constructor
  · intro hn
    obtain ⟨o, ho, rfl⟩ := (hmem member).mp (by simp [hn])
    have hsum := Redis.score_increments hname inc hinc hlt h (who o)
    rw [Redis.score, hn] at hsum
    exact ⟨o, ho, rfl, hsum⟩
  · rintro ⟨o, ho, rfl, rfl⟩
    obtain ⟨n, hn⟩ := Option.ne_none_iff_exists'.mp ((hmem _).mpr ⟨o, ho, rfl⟩)
    have hsum := Redis.score_increments hname inc hinc hlt h (who o)
    rw [Redis.score, hn] at hsum
    rw [hn, ← hsum]
    rfl

end Increments

theorem Redis.putAll_eq_some {xs : List (String × ℤ)} (hxs : (xs.map (·.1)).Nodup)
    {member : String} {n : ℤ} : ρ.putAll key xs key member = some n ↔
      (member, n) ∈ xs ∨ member ∉ xs.map (·.1) ∧ ρ key member = some n := by
  induction xs generalizing ρ with
  | nil =>
    change ρ key member = some n ↔ _
    simp
  | cons x xs ih =>
    rw [List.map_cons, List.nodup_cons] at hxs
    have hrest : (ρ.put key x.1 x.2).putAll key xs key member = some n ↔
        (member, n) ∈ xs ∨ member ∉ xs.map (·.1) ∧ ρ.put key x.1 x.2 key member = some n := ih hxs.2
    refine hrest.trans ?_
    by_cases hx : member = x.1
    · -- the member is written here and not again
      subst hx
      have hnew : (x.1, n) ∉ xs := fun hm => hxs.1 (List.mem_map.mpr ⟨_, hm, rfl⟩)
      simp [Redis.put, hxs.1, hnew, Prod.ext_iff, eq_comm]
    · have hne : (member, n) ≠ x := fun he => hx (congrArg Prod.fst he)
      simp [Redis.put, hx, hne]

/-- A set or hash that was deleted and then filled holds what it was filled with. -/
theorem Redis.replay_refill {xs : List (String × ℤ)} {fill : RedisCmd}
    (hfill : ∀ ρ : Redis, fill.apply ρ = ρ.putAll key xs) (hxs : (xs.map (·.1)).Nodup)
    {member : String} {n : ℤ} :
    ρ.replay ([RedisCmd.del key] ++ if xs.length = 0 then [] else [fill]) key member = some n ↔
      (member, n) ∈ xs := by
  have hput : ∀ ρ : Redis, ρ key = (fun _ => none) →
      (ρ.putAll key xs key member = some n ↔ (member, n) ∈ xs) := fun ρ hρ => by
    simp [Redis.putAll_eq_some hxs, hρ]
  have hgone : (RedisCmd.del key).apply ρ key = fun _ => none := funext fun m => if_pos rfl
  split
  · next hnil =>
    rw [List.length_eq_zero_iff] at hnil
    subst hnil
    exact hput _ hgone
  · change fill.apply ((RedisCmd.del key).apply ρ) key member = some n ↔ _
    rw [hfill]
    exact hput _ hgone

end Maps

theorem rebuildCommands_overwrite {id : ℕ} {os : List GiftOrder} :
    ∀ c ∈ rebuildCommands id os, c.increments = false := by
  intro c hc
  unfold rebuildCommands at hc
  rcases List.mem_append.mp hc with hc | hc
  · split at hc <;> simp at hc <;> grind [RedisCmd.increments]
  · obtain ⟨m, -, hc⟩ := List.mem_flatMap.mp hc
    split at hc <;> simp at hc <;> grind [RedisCmd.increments]

section Events

variable {evt : LiveGiftAcceptedV1}

theorem giftIncrements_increments : ∀ c ∈ giftIncrements evt, c.increments = true := by
  intro c hc
  unfold giftIncrements at hc
  cases hk : evt.campaignID <;> cases hm : evt.matchID <;> simp [hk, hm] at hc <;>
    grind [RedisCmd.increments]

theorem giftIncrements_nonneg {key member : String} :
    ∀ c ∈ giftIncrements evt, 0 ≤ c.adds key member := by
  intro c hc
  unfold giftIncrements at hc
  cases hk : evt.campaignID <;> cases hm : evt.matchID <;> simp [hk, hm] at hc <;>
    grind [RedisCmd.adds]

theorem adds_contributor {id viewer : ℕ} : evt.adds (contributorKey id) (toString viewer) =
    if evt.liveSessionID = id ∧ evt.viewerID = viewer then (evt.chargedCoins : ℤ) else 0 := by
  unfold LiveGiftAcceptedV1.adds giftIncrements
  cases evt.campaignID <;> cases evt.matchID <;>
    simp [RedisCmd.adds, contributorKey_ne_campaignKey.symm, contributorKey_ne_matchScoreKey.symm]

theorem adds_campaign {id creator : ℕ} : evt.adds (campaignKey id) (toString creator) =
    if evt.campaignID = some id ∧ evt.creatorID = creator then (evt.chargedCoins : ℤ) else 0 := by
  unfold LiveGiftAcceptedV1.adds giftIncrements
  cases evt.campaignID <;> cases evt.matchID <;>
    simp [RedisCmd.adds, campaignKey_ne_matchScoreKey.symm]

theorem adds_match {id creator : ℕ} : evt.adds (matchScoreKey id) (creatorField creator) =
    if evt.matchID = some id ∧ evt.creatorID = creator then (evt.matchPoints : ℤ) else 0 := by
  unfold LiveGiftAcceptedV1.adds giftIncrements
  cases evt.campaignID <;> cases evt.matchID <;> simp [RedisCmd.adds]

end Events

end LiveRevenue
