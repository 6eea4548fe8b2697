import LiveRevenue.Result.Campaigns

/-! # Rebuilds among the event stream

A rebuild overwrites what the handlers have added up. It is invisible if it reads the
orders of its session when all their events are in Redis, and if no event of the session
reaches Redis from there until the rebuild ends: then each key holds what the handlers
alone would have put there, or is empty and about to be filled with just that. Otherwise a
gift may count twice or not at all. The sums must be small enough for a double: above
that, adding up and summing anew round differently.
-/

namespace LiveRevenue

open Transact

def Call.isRebuild : Call → Bool
  | .rebuild _ => true
  | _ => false

def World.unrebuilt (calls : ℕ → Call) (w : World) : Redis :=
  Redis.empty.replay ((w.aof.filter fun e => (calls e.1).isRebuild = false).map (·.2))

/-- Every gift event of the session has been applied: handlers have executed all its Redis
commands. -/
def AllApplied (calls : ℕ → Call) (l : ℕ) (s : State) : Prop :=
  ∀ r ∈ s.world.db.outboxEvents, r.topic = giftAcceptedTopic →
    ∀ evt, r.payload.unmarshalGiftAccepted = some evt → evt.liveSessionID = l →
      ∃ m, r.message = some m ∧ s.world.pushedFor calls m = giftIncrements evt

/-- A rebuild of the session has read the orders and has not ended. -/
def Rebuilding (calls : ℕ → Call) (l : ℕ) (s : State) : Prop :=
  ∃ t c, calls t = .rebuild l ∧ (s.threads t).next? = some c ∧ c ≠ .auto (.selectAcceptedOrders l)

/-- Nothing fails, a rebuild of the session reads the orders only when all their events have been
applied, and no handler of an event of the session executes a Redis command from there until the
rebuild ends. -/
structure KeepsApart (calls : ℕ → Call) (l : ℕ) (s : State) (a : Act Choice) (_ : State) :
    Prop where
  calm : broken? s a = none
  reads : calls a.process = .rebuild l →
    (s.threads a.process).next? = some (.auto (.selectAcceptedOrders l)) → AllApplied calls l s
  pushes : ∀ m evt c, calls a.process = .leaderboard m → m.value.unmarshalGiftAccepted = some evt →
    evt.liveSessionID = l → (s.threads a.process).next? = some (.redis c) → ¬ Rebuilding calls l s

def DB.SessionKey (d : DB) (l : ℕ) (key : String) : Prop :=
  key = contributorKey l ∨ ∃ k, d.HasMatch l k ∧ key = matchScoreKey k

section Programs

variable {l : ℕ} {cs : List RedisCmd} {c : RedisCmd} {T : String → Prop}

def rebuildCampaign (l : ℕ) : GoBody (Except Err Unit) (Except Err Unit) := do
  match ← dbDo retFail (.selectCampaign l) with
  | none => pure (.ok ())
  | some c => do
    redisDo retFail (.del (campaignKey c))
    let rows ← dbDo retFail (.sumCampaignCharges c)
    if (campaignZ rows).length = 0 then pure (.ok ())
    else do
      redisDo retFail (.zAdd (campaignKey c) (campaignZ rows))
      pure (.ok ())

def rebuildRest (l : ℕ) (cs : List RedisCmd) : Go Outcome :=
  (Body.run do
    redisAll retFail cs
    rebuildCampaign l).bind fun r => .ret (.handled r)

def rebuildWith (l : ℕ) (r : Except SqlErr (List GiftOrder)) : Go Outcome :=
  (Body.run do
    let os ← orReturn retFail r
    orReturn retFail (scanOrders os)
    redisAll retFail (rebuildCommands l os)
    rebuildCampaign l).bind fun r => .ret (.handled r)

def rebuildNext (l : ℕ) (cs : List RedisCmd) : Except SqlErr Unit → Go Outcome
  | .ok _ => rebuildRest l cs
  | .error e => .ret (.handled (retFail e))

theorem rebuildWith_cases (l : ℕ) (r : Except SqlErr (List GiftOrder)) :
    (∃ o, rebuildWith l r = .ret o) ∨
      ∃ os, r = .ok os ∧ rebuildWith l r = rebuildRest l (rebuildCommands l os) := by
  cases r with
  | error e => exact .inl ⟨_, rfl⟩
  | ok os =>
    cases hscan : scanOrders os with
    | error e =>
      refine .inl ⟨.handled (retFail e), ?_⟩
      change Prog.bind (Body.run (orReturn retFail (scanOrders os) >>= _)) _ = _
      rw [hscan]
      rfl
    | ok _ =>
      refine .inr ⟨os, rfl, ?_⟩
      change Prog.bind (Body.run (orReturn retFail (scanOrders os) >>= _)) _ = _
      rw [hscan]
      rfl

theorem rebuildRest_cons : rebuildRest l (c :: cs) = .op (.redis c) (rebuildNext l cs) := by
  refine congrArg (Prog.op _) (funext fun r => ?_)
  cases r <;> rfl

def Avoids (T : String → Prop) (p : Go Outcome) : Prop :=
  p.All fun c _ => ∀ rc, c = .redis rc → ¬ T rc.key

theorem avoids_rebuildCampaign (hT : ∀ k, ¬ T (campaignKey k)) : Avoids T (rebuildRest l []) := by
  refine ⟨nofun, fun r => ?_⟩
  rcases r with e | _ | c
  · trivial
  · trivial
  refine ⟨fun rc hrc => by cases hrc; exact hT c, fun r => ?_⟩
  rcases r with e | _
  · trivial
  refine ⟨nofun, fun r => ?_⟩
  rcases r with e | rows
  · trivial
  change Avoids T (Prog.bind (Body.run (if (campaignZ rows).length = 0 then _ else _)) _)
  split
  · trivial
  · refine ⟨fun rc hrc => by cases hrc; exact hT c, fun r => ?_⟩
    cases r <;> trivial

theorem avoids_rebuildRest (hT : ∀ k, ¬ T (campaignKey k)) (hcs : ∀ c ∈ cs, ¬ T c.key) :
    Avoids T (rebuildRest l cs) := by
  induction cs with
  | nil => exact avoids_rebuildCampaign hT
  | cons c cs ih =>
    rw [rebuildRest_cons]
    refine ⟨fun rc hrc => ?_, fun r => ?_⟩
    · cases hrc
      exact hcs c List.mem_cons_self
    · cases r with
      | error e => trivial
      | ok _ => exact ih fun c' hc' => hcs c' (List.mem_cons_of_mem c hc')

theorem rebuild_program [Platform] :
    (Call.rebuild l).program = .op (.auto (.selectAcceptedOrders l)) (rebuildWith l) := by
  refine congrArg (Prog.op _) (funext fun r => ?_)
  cases r <;> rfl

end Programs

section Refills

variable {T : String → Prop} {H H' : Redis} {cs : List RedisCmd} {key : String}
  {xs : List (String × ℤ)}

def RedisCmd.Fills (H : Redis) (c : RedisCmd) : Prop :=
  ∀ ρ : Redis, ρ c.key = (fun _ => none) ∨ ρ c.key = H c.key → c.apply ρ c.key = H c.key

/-- Commands that empty keys in `T`, each filled again at once with what `H` has there. -/
inductive Refills (T : String → Prop) (H : Redis) : List RedisCmd → Prop where
  | nil : Refills T H []
  | clear {key : String} {cs : List RedisCmd} : T key → (H key = fun _ => none) → Refills T H cs →
      Refills T H (.del key :: cs)
  | refresh {fill : RedisCmd} {cs : List RedisCmd} : T fill.key → fill.Fills H → Refills T H cs →
      Refills T H (.del fill.key :: fill :: cs)

theorem RedisCmd.Fills.congr {c : RedisCmd} (h : c.Fills H) (hH : H' c.key = H c.key) :
    c.Fills H' := by
  intro ρ hρ
  rw [hH] at hρ ⊢
  exact h ρ hρ

theorem Refills.congr (h : Refills T H cs) (hH : ∀ key, T key → H' key = H key) :
    Refills T H' cs := by
  induction h with
  | nil => exact .nil
  | clear ht hnone _ ih => exact .clear ht ((hH _ ht).trans hnone) ih
  | refresh ht hfill _ ih => exact .refresh ht (hfill.congr (hH _ ht)) ih

theorem Refills.append_refill {fill : String → List (String × ℤ) → RedisCmd}
    (hkey : (fill key xs).key = key) (hfill : ∀ ρ, (fill key xs).apply ρ = ρ.putAll key xs)
    (ht : T key) (hxs : (xs.map (·.1)).Nodup)
    (hH : ∀ member n, H key member = some n ↔ (member, n) ∈ xs) (h : Refills T H cs) :
    Refills T H (refill fill key xs ++ cs) := by
  unfold refill
  split
  · next hnil =>
    refine .clear ht (funext fun member => Option.eq_none_iff_forall_ne_some.mpr fun n hn => ?_) h
    rw [List.length_eq_zero_iff.mp hnil] at hH
    cases (hH member n).mp hn
  have hfills : (fill key xs).Fills H := by
    intro ρ hρ
    rw [hkey] at hρ ⊢
    funext member
    refine Option.ext fun n => ?_
    rw [hfill, Redis.putAll_eq_some hxs, hH]
    rcases hρ with hρ | hρ
    · simp [hρ]
    · rw [hρ, hH]
      exact ⟨fun hm => hm.elim (fun hm => hm) fun hm => hm.2, .inl⟩
  have := Refills.refresh (T := T) (hkey.symm ▸ ht) hfills h
  rwa [hkey] at this

theorem refills_rebuildCommands {l : ℕ} {os : List GiftOrder} (hl : T (contributorKey l))
    (hcoins : CoinsExact (·.viewerID) os)
    (hpoints : ∀ k, PointsExact (os.filter fun o => o.matchID = some k))
    (hcontrib : H.Maps (contributorKey l) toString (·.viewerID) (·.chargedCoins) os)
    (hmatches : ∀ k ∈ matchIDs os, T (matchScoreKey k) ∧ H.Maps (matchScoreKey k) creatorField
      (·.creatorID) (·.matchPointsAdded) (os.filter fun o => o.matchID = some k)) :
    Refills T H (rebuildCommands l os) := by
  rw [rebuildCommands_eq]
  refine .append_refill rfl (fun _ => rfl) hl (contrib_nodup os)
    (fun member n => (hcontrib member n).trans (mem_contrib hcoins).symm) ?_
  generalize matchIDs os = ms at hmatches
  induction ms with
  | nil => exact .nil
  | cons k ms ih =>
    rw [List.flatMap_cons]
    obtain ⟨ht, hmaps⟩ := hmatches k List.mem_cons_self
    exact .append_refill rfl (fun _ => rfl) ht (matchFields_nodup os k)
      (fun member n => (hmaps member n).trans (mem_matchFields (hpoints k)).symm)
      (ih fun k' hk' => hmatches k' (List.mem_cons_of_mem k hk'))

end Refills

section Phases

variable [Platform] {T : String → Prop} {H H' : Redis} {l : ℕ} {p : Go Outcome}

/-- Where a rebuild may stand: before its query, within its refills, or past all keys in `T`. -/
inductive RebuildAt (T : String → Prop) (H : Redis) (l : ℕ) : Go Outcome → Prop where
  | start : RebuildAt T H l (Call.rebuild l).program
  | refills {cs : List RedisCmd} : Refills T H cs → RebuildAt T H l (rebuildRest l cs)
  | fills {c : RedisCmd} {cs : List RedisCmd} : T c.key → c.Fills H → Refills T H cs →
      RebuildAt T H l (rebuildRest l (c :: cs))
  | away {p : Go Outcome} : Avoids T p → RebuildAt T H l p

theorem RebuildAt.congr (h : RebuildAt T H l p) (hH : ∀ key, T key → H' key = H key) :
    RebuildAt T H' l p := by
  cases h with
  | start => exact .start
  | refills hcs => exact .refills (hcs.congr hH)
  | fills ht hfill hcs => exact .fills ht (hfill.congr (hH _ ht)) (hcs.congr hH)
  | away hp => exact .away hp

theorem RebuildAt.of_outside (hT : ∀ k, ¬ T (campaignKey k)) (h : RebuildAt T H l p)
    (hnext : ∀ c, p.next? = some c → c = .auto (.selectAcceptedOrders l)) : RebuildAt T H' l p := by
  cases h with
  | start => exact .start
  | @refills cs _ =>
    cases cs with
    | nil => exact .away (avoids_rebuildCampaign hT)
    | cons c cs =>
      rw [rebuildRest_cons] at hnext
      cases hnext _ rfl
  | fills _ _ _ =>
    rw [rebuildRest_cons] at hnext
    cases hnext _ rfl
  | away hp => exact .away hp

theorem RebuildAt.query {c : Cmd} {k : c.Resp → Go Outcome} (hT : ∀ k, ¬ T (campaignKey k))
    (h : RebuildAt T H l (.op c k)) (hc : ∀ rc, c ≠ .redis rc) :
    Prog.op c k = (Call.rebuild l).program ∨ ∀ r, Avoids T (k r) := by
  generalize hp : Prog.op c k = p at h
  cases h with
  | start => exact .inl rfl
  | @refills cs _ =>
    cases cs with
    | nil =>
      have hav := avoids_rebuildCampaign (l := l) hT
      rw [← hp] at hav
      exact .inr hav.2
    | cons c cs =>
      rw [rebuildRest_cons] at hp
      cases hp
      exact absurd rfl (hc c)
  | fills _ _ _ =>
    rw [rebuildRest_cons] at hp
    cases hp
    exact absurd rfl (hc _)
  | away hav =>
    rw [← hp] at hav
    exact .inr hav.2

/-- A Redis command of a rebuild on a key in `T`, empty or as in `H`, makes it as in `H`, or
empties it for the next command. -/
theorem RebuildAt.command {c : RedisCmd} {k : Except SqlErr Unit → Go Outcome}
    (h : RebuildAt T H l (.op (.redis c) k)) : RebuildAt T H l (k (.ok ())) ∧ (T c.key →
      ∀ ρ : Redis, ρ c.key = H c.key ∨ (ρ c.key = fun _ => none) → c.apply ρ c.key = H c.key ∨
        (c.apply ρ c.key = fun _ => none) ∧
          ∃ c', (k (.ok ())).next? = some (.redis c') ∧ c'.key = c.key) := by
  generalize hp : (Prog.op (.redis c) k : Go Outcome) = p at h
  have hgone : ∀ {key : String} {ρ : Redis}, (RedisCmd.del key).apply ρ key = fun _ => none :=
    funext fun _ => if_pos rfl
  cases h with
  | start =>
    rw [rebuild_program] at hp
    cases hp
  | refills hcs =>
    cases hcs with
    | nil => cases hp
    | clear ht hnone hcs =>
      rw [rebuildRest_cons] at hp
      cases hp
      exact ⟨.refills hcs, fun _ ρ _ => .inl (hgone.trans hnone.symm)⟩
    | @refresh fill _ ht hfill hcs =>
      rw [rebuildRest_cons] at hp
      cases hp
      refine ⟨.fills ht hfill hcs, fun _ ρ _ => .inr ⟨hgone, fill, ?_, rfl⟩⟩
      change (rebuildRest l _).next? = _
      rw [rebuildRest_cons]
      rfl
  | fills ht hfill hcs =>
    rw [rebuildRest_cons] at hp
    cases hp
    exact ⟨.refills hcs, fun _ ρ hρ => .inl (hfill ρ hρ.symm)⟩
  | away hav =>
    rw [← hp] at hav
    exact ⟨.away (hav.2 _), fun ht => absurd ht (hav.1 c rfl)⟩

end Phases

section Applied

variable [Platform] {calls : ℕ → Call} {w : World} {s : State}
  {K : State → Act Choice → State → Prop}
  {l : ℕ} {key : String}

section Runs

variable (hs : Start w) (hb : w.db.Blank) (h : (system calls).Reach K (Pool.fresh w) s)
include hs hb h

omit hb in
theorem reach_hasMatch {k : ℕ} : s.world.db.HasMatch l k ↔ w.db.HasMatch l k := by
  unfold DB.HasMatch
  rw [(reach_grows hs .refl h).liveMatches]
  rfl

theorem reach_sessionKey {r : OutboxRow} (hr : r ∈ s.world.db.outboxEvents)
    (ht : r.topic = giftAcceptedTopic) {evt : LiveGiftAcceptedV1}
    (hevt : r.payload.unmarshalGiftAccepted = some evt) {c : RedisCmd} (hc : c ∈ giftIncrements evt)
    (hkey : w.db.SessionKey l c.key) : evt.liveSessionID = l := by
  obtain ⟨hl, hd⟩ := reach_legal hs h
  have hcomplete : OutboxComplete s.world.db := hd ▸ hl.outboxComplete hb.outboxComplete
  have howned : s.world.db.MatchesOwned := hd ▸ hl.matchesOwned hb.giftOrders
  have hp : r.payload ∈ s.world.db.payloads giftAcceptedTopic :=
    List.mem_map_of_mem (List.mem_filter.mpr ⟨hr, decide_eq_true ht⟩)
  obtain ⟨o, ho, x, _, _, hx, -, -, he⟩ :=
    List.Forall₂.exists_of_mem_right hcomplete.accepted hp
  rw [he] at hevt
  have hgift : s.world.db.GiftOf o evt := ⟨x, _, _, hx, (Option.some.inj hevt).symm⟩
  obtain rfl := Option.some.inj hevt
  rcases hkey with hkey | ⟨k, hk, hkey⟩
  · have hm : c ∈ (giftIncrements _).filter fun c => c.key = contributorKey l :=
      List.mem_filter.mpr ⟨hc, decide_eq_true hkey⟩
    rw [hgift.onContributors l] at hm
    split at hm
    · assumption
    · cases hm
  · obtain ⟨y, hy, hyl⟩ := howned o ho k (matchID_of_giftIncrements hc hkey)
    obtain ⟨y', hy', hyl'⟩ := (reach_hasMatch hs h).mpr hk
    obtain rfl := Option.some.inj (hy.symm.trans hy')
    exact hyl.symm.trans hyl'

omit hb in
/-- Whatever is not by a rebuild is by the handler of some gift event. -/
theorem reach_unrebuilt_perm :
    ((s.world.aof.filter fun e => (calls e.1).isRebuild = false).map (·.2)).Perm
      (s.world.db.giftMessages.flatMap (s.world.pushedFor calls)) := by
  have hnodup : (s.world.db.giftMessages.map Call.leaderboard).Nodup :=
    (List.Nodup.of_map _ (reach_giftMessages_nodup hs h)).map fun m m' he => Call.leaderboard.inj he
  have hcover : ∀ e ∈ s.world.aof.filter fun e => (calls e.1).isRebuild = false,
      calls e.1 ∈ s.world.db.giftMessages.map Call.leaderboard := by
    intro e he
    obtain ⟨he, hc⟩ := List.mem_filter.mp he
    refine reach_giftPusher hs h (fun id hid => ?_) he
    rw [hid] at hc
    cases hc
  have hperm := (List.perm_fibers (fun e : ℕ × RedisCmd => calls e.1) hnodup hcover).map (·.2)
  rw [List.map_flatMap, List.flatMap_map] at hperm
  refine hperm.trans (List.Perm.of_eq (List.flatMap_congr fun m _ => ?_))
  rw [List.filter_filter, World.pushedFor]
  refine congrArg (List.map _) (List.filter_congr fun e _ => ?_)
  by_cases hc : calls e.1 = .leaderboard m
  · simp [hc, Call.isRebuild]
  · simp [hc]

omit hb in
theorem reach_pushedFor_on {m : Message} {evt : LiveGiftAcceptedV1}
    (hevt : m.value.unmarshalGiftAccepted = some evt)
    (happlied : (∃ c ∈ giftIncrements evt, c.key = key) →
      s.world.pushedFor calls m = giftIncrements evt) :
    (s.world.pushedFor calls m).filter (fun c => c.key = key) =
      (giftIncrements evt).filter fun c => c.key = key := by
  by_cases hc : ∃ c ∈ giftIncrements evt, c.key = key
  · rw [happlied hc]
  · have hnone : (giftIncrements evt).filter (fun c => c.key = key) = [] :=
      List.filter_eq_nil_iff.mpr fun c hm hk => hc ⟨c, hm, of_decide_eq_true hk⟩
    have hsub := (reach_pushedFor hs h hevt).sublist.filter fun c => c.key = key
    rw [hnone] at hsub
    rw [List.sublist_nil.mp hsub, hnone]

theorem reach_unrebuilt_maps {name : ℕ → String} {who val : GiftOrder → ℕ}
    (hname : Function.Injective name) {p : GiftOrder → Bool} (inc : GiftOrder → RedisCmd)
    (hinc : ∀ o, (inc o).Adds key (name (who o)) (val o))
    (hlt : ∀ o ∈ s.world.db.accepted.filter p, (∃ n m, inc o = .zIncrBy key n m) →
      sumOf val ((s.world.db.accepted.filter p).filter fun o' => who o' = who o) < 2 ^ 53)
    (hon : ∀ o e, s.world.db.GiftOf o e →
      (giftIncrements e).filter (fun c => c.key = key) = if p o then [inc o] else [])
    (happlied : ∀ m ∈ s.world.db.giftMessages, ∀ evt, m.value.unmarshalGiftAccepted = some evt →
      (∃ c ∈ giftIncrements evt, c.key = key) → s.world.pushedFor calls m = giftIncrements evt) :
    (s.world.unrebuilt calls).Maps key name who val (s.world.db.accepted.filter p) := by
  have hi := (reach_good (.any calls w) hs Env.any_allows h).1
  obtain ⟨hl, hd⟩ := reach_legal hs h
  have hcomplete : OutboxComplete s.world.db := hd ▸ hl.outboxComplete hb.outboxComplete
  refine Redis.maps_of_increments hname inc hinc hlt ?_
  refine ((reach_unrebuilt_perm hs h).filter _).trans (List.Perm.of_eq ?_)
  rw [List.filter_flatMap, ← flatMap_gifts hcomplete.gifts hon, ← DB.giftsOf_giftMessages
    fun r hr _ => Option.ne_none_iff_exists'.mp (hi.message_ne_none hr)]
  refine flatMap_giftsOf fun m hm => ?_
  cases hevt : m.value.unmarshalGiftAccepted with
  | none => simp [reach_pushedFor_none hs h hevt]
  | some evt => simpa using reach_pushedFor_on hs h hevt (happlied m hm evt hevt)

/-- Where every event of a session has been applied, its keys are what the orders say, as far as
the handlers are concerned. -/
theorem reach_unrebuilt (hx : CoinsExact (·.viewerID) (s.world.db.acceptedOrders l))
    (happlied : AllApplied calls l s) :
    (s.world.unrebuilt calls).Maps (contributorKey l) toString (·.viewerID) (·.chargedCoins)
      (s.world.db.acceptedOrders l) ∧
    ∀ k, w.db.HasMatch l k → (s.world.unrebuilt calls).Maps (matchScoreKey k) creatorField
      (·.creatorID) (·.matchPointsAdded) (s.world.db.matchOrders k) := by
  have hall : ∀ {key}, w.db.SessionKey l key → ∀ m ∈ s.world.db.giftMessages, ∀ evt,
      m.value.unmarshalGiftAccepted = some evt → (∃ c ∈ giftIncrements evt, c.key = key) →
      s.world.pushedFor calls m = giftIncrements evt := by
    rintro key hkey m hm evt hevt ⟨c, hc, rfl⟩
    obtain ⟨r, hr, hrm, ht⟩ := DB.mem_giftMessages.mp hm
    rw [message_value hrm] at hevt
    rw [message_topic hrm] at ht
    obtain ⟨m', hm', hpush⟩ :=
      happlied r hr ht evt hevt (reach_sessionKey hs hb h hr ht hevt hc hkey)
    obtain rfl := Option.some.inj (hrm.symm.trans hm')
    exact hpush
  constructor
  · rw [DB.acceptedOrders_eq] at hx ⊢
    exact reach_unrebuilt_maps hs hb h (fun _ _ => decimal_inj.mp)
      (fun o => .zIncrBy (contributorKey l) o.chargedCoins (toString o.viewerID))
        (fun _ => .inl rfl)
      (fun o _ _ => hx o.viewerID) (fun o e ho => by simpa using ho.onContributors l)
      (hall (.inl rfl))
  · intro k hk
    exact reach_unrebuilt_maps hs hb h (fun _ _ => creatorField_inj.mp)
      (fun o => .hIncrBy (matchScoreKey k) (creatorField o.creatorID) o.matchPointsAdded)
      (fun _ => .inr rfl) (fun _ _ ⟨_, _, he⟩ => by cases he)
      (fun o e ho => by simpa using ho.onMatch k) (hall (.inr ⟨k, hk, rfl⟩))

theorem reach_sessionPusher {e : ℕ × RedisCmd} (hc : ∀ id, calls e.1 ≠ .rebuild id)
    (he : e ∈ s.world.aof) (hkey : w.db.SessionKey l e.2.key) : ∃ m evt,
      calls e.1 = .leaderboard m ∧ m.value.unmarshalGiftAccepted = some evt ∧
      evt.liveSessionID = l := by
  obtain ⟨m, evt, hcall, -, hevt, hmem⟩ := reach_pusher hs h hc he
  obtain ⟨m', hm', hcall'⟩ := List.mem_map.mp (reach_giftPusher hs h hc he)
  obtain rfl := Call.leaderboard.inj (hcall'.trans hcall)
  obtain ⟨r, hr, hrm, ht⟩ := DB.mem_giftMessages.mp hm'
  refine ⟨m', evt, hcall, hevt, ?_⟩
  rw [message_value hrm] at hevt
  rw [message_topic hrm] at ht
  exact reach_sessionKey hs hb h hr ht hevt hmem hkey

end Runs

end Applied

section Invariant

def Pending (calls : ℕ → Call) (l : ℕ) (s : State) (key : String) : Prop :=
  ∃ t c, calls t = .rebuild l ∧ (s.threads t).next? = some (.redis c) ∧ c.key = key

variable [Platform] {calls : ℕ → Call} {w : World} {s : State} {T : String → Prop} {l t : ℕ}
  {c : RedisCmd}

/-- The keys in `T` hold what the handlers have put there, or are empty and about to be filled. -/
structure Transparent (calls : ℕ → Call) (T : String → Prop) (l : ℕ) (s : State) : Prop where
  rebuilds : ∀ t, calls t = .rebuild l → ∀ p, s.threads t = .live p →
    RebuildAt T (s.world.unrebuilt calls) l p
  others : ∀ t l', calls t = .rebuild l' → l' ≠ l → ∀ p, s.threads t = .live p →
    p = (Call.rebuild l').program ∨ Avoids T p
  content : ∀ key, T key → s.world.redis key = s.world.unrebuilt calls key ∨
    (s.world.redis key = fun _ => none) ∧ Pending calls l s key

omit [Platform] in
theorem World.redis_addAof : (w.addAof t c).redis = c.apply w.redis := by
  simp [World.redis, World.addAof, Redis.replay]

omit [Platform] in
theorem World.unrebuilt_rebuild {l' : ℕ} (hc : calls t = .rebuild l') :
    (w.addAof t c).unrebuilt calls = w.unrebuilt calls := by
  simp [World.unrebuilt, World.addAof, hc, Call.isRebuild]

omit [Platform] in
theorem World.unrebuilt_handler {m : Message} (hc : calls t = .leaderboard m) :
    (w.addAof t c).unrebuilt calls = c.apply (w.unrebuilt calls) := by
  simp [World.unrebuilt, World.addAof, hc, Call.isRebuild, Redis.replay]

omit [Platform] in
theorem World.unrebuilt_of_ne {key : String} (hk : c.key ≠ key) :
    (w.addAof t c).unrebuilt calls key = w.unrebuilt calls key := by
  cases hc : (calls t).isRebuild with
  | true => simp [World.unrebuilt, World.addAof, hc]
  | false =>
    have happly : (w.addAof t c).unrebuilt calls = c.apply (w.unrebuilt calls) := by
      simp [World.unrebuilt, World.addAof, hc, Redis.replay]
    rw [happly]
    exact RedisCmd.apply_of_ne hk

theorem exec_aof {c : Cmd} {ch : Choice} {r : c.Resp} {w' : World}
    (hex : World.exec t c ch w = some (r, w')) (hc : ∀ rc, c ≠ .redis rc) : w'.aof = w.aof := by
  have hsql : ∀ {s : Stmt} {rank : ℕ → ℕ} {x}, w.execSql t s rank = some x → x.2.aof = w.aof := by
    intro s rank x hx
    unfold World.execSql at hx
    split at hx
    · cases hx
      rfl
    · dsimp only at hx
      split at hx <;> cases hx
      rfl
  have hauto : ∀ {s : Stmt} {rank : ℕ → ℕ} {x}, w.execAuto t s rank = some x → x.2.aof = w.aof := by
    intro s rank x hx
    unfold World.execAuto at hx
    dsimp only at hx
    split at hx
    · cases hx
    · split at hx <;> cases hx <;> rfl
  cases c with
  | redis c => exact absurd rfl (hc c)
  | sql s => cases ch with
    | ok n rank => exact hsql hex
    | fault applied => cases hex; rfl
  | auto s => cases ch with
    | ok n rank => exact hauto hex
    | fault applied =>
      simp only [World.exec] at hex
      split at hex
      · obtain ⟨x, hx, he⟩ := Option.map_eq_some_iff.mp hex
        cases he
        exact hauto hx
      · cases hex; rfl
  | commit => cases exec_commit hex <;> rfl
  | send m => cases ch with
    | ok n rank => cases hex; rfl
    | fault applied => cases hex; cases applied <;> rfl
  | rollback => cases hex; rfl
  | mark m => cases hex; rfl
  | _ => cases ch <;> cases hex <;> rfl

/-- A process moves: the others must stand where they stood as far as Redis goes. -/
theorem Transparent.setThread (h : Transparent calls T l s) {p : Go Outcome} {w' : World}
    (hkeep : ∀ u, calls u = .rebuild l → ∀ q, s.threads u = .live q →
      RebuildAt T (s.world.unrebuilt calls) l q → RebuildAt T (w'.unrebuilt calls) l q)
    (hown : calls t = .rebuild l → RebuildAt T (w'.unrebuilt calls) l p)
    (hother : ∀ l', calls t = .rebuild l' → l' ≠ l → p = (Call.rebuild l').program ∨ Avoids T p)
    (hcontent : ∀ key, T key → w'.redis key = w'.unrebuilt calls key ∨
      (w'.redis key = fun _ => none) ∧ Pending calls l (s.setThread t (.live p) w') key) :
    Transparent calls T l (s.setThread t (.live p) w') where
  rebuilds u hc q hq := by
    by_cases hut : u = t
    · subst hut
      rw [Pool.setThread_self] at hq
      cases hq
      exact hown hc
    · rw [Pool.setThread_of_ne hut] at hq
      exact hkeep u hc q hq (h.rebuilds u hc q hq)
  others u l' hc hne q hq := by
    by_cases hut : u = t
    · subst hut
      rw [Pool.setThread_self] at hq
      cases hq
      exact hother l' hc hne
    · rw [Pool.setThread_of_ne hut] at hq
      exact h.others u l' hc hne q hq
  content := hcontent

omit [Platform] in
theorem Pending.setThread {key : String} {p : Go Outcome} {w' : World} (h : Pending calls l s key)
    (hne : ∀ c, calls t = .rebuild l → (s.threads t).next? = some (.redis c) → c.key ≠ key) :
    Pending calls l (s.setThread t (.live p) w') key := by
  obtain ⟨u, c, hc, hnext, hkey⟩ := h
  refine ⟨u, c, hc, ?_, hkey⟩
  rw [Pool.setThread_of_ne fun hut => ?_]
  · exact hnext
  · subst hut
    exact hne c hc hnext hkey

theorem Transparent.quiet (h : Transparent calls T l s) {p : Go Outcome} {w' : World}
    (haof : w'.aof = s.world.aof) (hnext : ∀ c, (s.threads t).next? ≠ some (.redis c))
    (hown : calls t = .rebuild l → RebuildAt T (s.world.unrebuilt calls) l p)
    (hother : ∀ l', calls t = .rebuild l' → l' ≠ l → p = (Call.rebuild l').program ∨ Avoids T p) :
    Transparent calls T l (s.setThread t (.live p) w') := by
  have hH : w'.unrebuilt calls = s.world.unrebuilt calls := by
    rw [World.unrebuilt, haof]
    rfl
  have hρ : w'.redis = s.world.redis := by
    rw [World.redis, haof]
    rfl
  refine h.setThread (fun _ _ _ _ hat => hH ▸ hat) (hH ▸ hown) hother fun key hkey => ?_
  rw [hH, hρ]
  exact (h.content key hkey).imp_right fun hc =>
    ⟨hc.1, hc.2.setThread fun c _ hn => absurd hn (hnext c)⟩

theorem Transparent.push_away (h : Transparent calls T l s) {p : Go Outcome} (hc : ¬ T c.key)
    (hnext : (s.threads t).next? = some (.redis c))
    (hown : calls t = .rebuild l → RebuildAt T (s.world.unrebuilt calls) l p)
    (hother : ∀ l', calls t = .rebuild l' → l' ≠ l → p = (Call.rebuild l').program ∨ Avoids T p) :
    Transparent calls T l (s.setThread t (.live p) (s.world.addAof t c)) := by
  have hne : ∀ key, T key → c.key ≠ key := fun key hkey he => hc (he ▸ hkey)
  have hH : ∀ key, T key → (s.world.addAof t c).unrebuilt calls key = s.world.unrebuilt calls key :=
    fun key hkey => World.unrebuilt_of_ne (hne key hkey)
  refine h.setThread (fun _ _ _ _ hat => hat.congr hH) (fun ht => (hown ht).congr hH) hother
    fun key hkey => ?_
  rw [hH key hkey, World.redis_addAof, RedisCmd.apply_of_ne (hne key hkey)]
  refine (h.content key hkey).imp_right fun hempty =>
    ⟨hempty.1, hempty.2.setThread fun c' _ hn => ?_⟩
  cases hnext.symm.trans hn
  exact hne key hkey

theorem Transparent.push_handler (h : Transparent calls T l s) {p : Go Outcome} {m : Message}
    (hT : ∀ k, ¬ T (campaignKey k)) (hcall : calls t = .leaderboard m)
    (hno : ¬ Rebuilding calls l s) :
    Transparent calls T l (s.setThread t (.live p) (s.world.addAof t c)) := by
  have hnot : ∀ l', calls t ≠ .rebuild l' := fun l' hc => by
    rw [hcall] at hc
    cases hc
  refine h.setThread (fun u hu q hq hat => ?_) (fun hc => absurd hc (hnot l))
    (fun l' hc => absurd hc (hnot l')) fun key hkey => .inl ?_
  · refine hat.of_outside hT fun c hnext => ?_
    by_contra hne
    exact hno ⟨u, c, hu, by rw [hq]; exact hnext, hne⟩
  · rw [World.redis_addAof, World.unrebuilt_handler hcall]
    refine RedisCmd.apply_congr ((h.content key hkey).resolve_right ?_)
    rintro ⟨-, u, c, hu, hnext, -⟩
    exact hno ⟨u, .redis c, hu, hnext, nofun⟩

theorem Transparent.push_rebuild (h : Transparent calls T l s) {p : Go Outcome}
    (hcall : calls t = .rebuild l) (hnext : (s.threads t).next? = some (.redis c))
    (hat : RebuildAt T (s.world.unrebuilt calls) l p)
    (hkey : T c.key → c.apply s.world.redis c.key = s.world.unrebuilt calls c.key ∨
      (c.apply s.world.redis c.key = fun _ => none) ∧
        ∃ c', p.next? = some (.redis c') ∧ c'.key = c.key) :
    Transparent calls T l (s.setThread t (.live p) (s.world.addAof t c)) := by
  have hH : (s.world.addAof t c).unrebuilt calls = s.world.unrebuilt calls :=
    World.unrebuilt_rebuild hcall
  refine h.setThread (fun _ _ _ _ hat => hH ▸ hat) (fun _ => hH ▸ hat) (fun l' hc hne => ?_)
    fun key ht => ?_
  · exact absurd (Call.rebuild.inj (hc.symm.trans hcall)) hne
  rw [hH, World.redis_addAof]
  by_cases hk : c.key = key
  · subst hk
    refine (hkey ht).imp_right fun hempty => ⟨hempty.1, ?_⟩
    obtain ⟨c', hc', hk'⟩ := hempty.2
    exact ⟨t, c', hcall, by rw [Pool.setThread_self]; exact hc', hk'⟩
  · rw [RedisCmd.apply_of_ne hk]
    refine (h.content key ht).imp_right fun hempty => ⟨hempty.1, hempty.2.setThread ?_⟩
    intro c' _ hn
    cases hnext.symm.trans hn
    exact hk

end Invariant

section General

variable [Platform] {calls : ℕ → Call} {w : World} {s : State} {l : ℕ}

omit [Platform] in
theorem DB.not_sessionKey_campaign {d : DB} (k : ℕ) : ¬ d.SessionKey l (campaignKey k) := by
  rintro (h | ⟨k', -, h⟩)
  · exact contributorKey_ne_campaignKey h.symm
  · exact campaignKey_ne_matchScoreKey h

theorem reach_query {K : State → Act Choice → State → Prop} (hs : Start w) (hb : w.db.Blank)
    (h : (system calls).Reach K (Pool.fresh w) s) {t : ℕ} {rank : ℕ → ℕ} {os : List GiftOrder}
    {w' : World} (hex : s.world.execAuto t (.selectAcceptedOrders l) rank = some (.ok os, w')) :
    os.Perm (s.world.db.acceptedOrders l) ∧ ∀ k ∈ matchIDs os, w.db.HasMatch l k := by
  rw [execAuto_of_reads rfl rfl] at hex
  cases hex
  have hos : (List.insertionSort _ (s.world.db.acceptedOrders l)).Perm _ := List.perm_insertionSort
    (fun a b : GiftOrder => rank a.giftOrderID ≤ rank b.giftOrderID) _
  refine ⟨hos, fun k hk => ?_⟩
  obtain ⟨o, ho, hm⟩ := mem_matchIDs.mp hk
  obtain ⟨hacc, rfl⟩ := DB.mem_acceptedOrders.mp (hos.subset ho)
  obtain ⟨hl, hd⟩ := reach_legal hs h
  have howned : s.world.db.MatchesOwned := hd ▸ hl.matchesOwned hb.giftOrders
  exact (reach_hasMatch hs h).mp (howned o hacc k hm)

omit [Platform] in
theorem avoids_rebuildCommands {d : DB} {l' : ℕ} {os : List GiftOrder} (hne : l' ≠ l)
    (hos : ∀ k ∈ matchIDs os, d.HasMatch l' k) :
    Avoids (d.SessionKey l) (rebuildRest l' (rebuildCommands l' os)) := by
  refine avoids_rebuildRest DB.not_sessionKey_campaign fun c hc => ?_
  rw [rebuildCommands_eq, List.mem_append] at hc
  rcases hc with hc | hc
  · rw [mem_refill (fun _ _ => rfl) c hc]
    rintro (h | ⟨k, -, h⟩)
    · exact hne (contributorKey_inj.mp h)
    · exact contributorKey_ne_matchScoreKey h
  · obtain ⟨m, hm, hk⟩ := mem_matchCommands hc
    rw [hk]
    rintro (h | ⟨k, ⟨x, hx, hxl⟩, h⟩)
    · exact contributorKey_ne_matchScoreKey h.symm
    · obtain ⟨y, hy, hyl⟩ := hos m hm
      rw [matchScoreKey_inj.mp h, hx] at hy
      obtain rfl := Option.some.inj hy
      exact hne (hyl.symm.trans hxl)

theorem reach_refills {K : State → Act Choice → State → Prop} (hs : Start w) (hb : w.db.Blank)
    (h : (system calls).Reach K (Pool.fresh w) s) (hx : s.world.db.Exact l none)
    (happlied : AllApplied calls l s)
    {os : List GiftOrder} (hos : os.Perm (s.world.db.acceptedOrders l))
    (hmatches : ∀ k ∈ matchIDs os, w.db.HasMatch l k) :
    Refills (w.db.SessionKey l) (s.world.unrebuilt calls) (rebuildCommands l os) := by
  obtain ⟨hl, hd⟩ := reach_legal hs h
  have howned : s.world.db.MatchesOwned := hd ▸ hl.matchesOwned hb.giftOrders
  obtain ⟨hcontrib, hscores⟩ := reach_unrebuilt hs hb h hx.contributors happlied
  refine refills_rebuildCommands (.inl rfl) (hx.contributors.perm hos.symm)
    (fun k => (hx.matchScores k).perm (hos.symm.filter _)) (hcontrib.perm hos.symm) fun k hk => ?_
  have hkey := hmatches k hk
  refine ⟨.inr ⟨k, hkey, rfl⟩, (hscores k hkey).perm ?_⟩
  rw [howned.orders ((reach_hasMatch hs h).mpr hkey)]
  exact hos.symm.filter _

section Steps

variable (hs : Start w) (hb : w.db.Blank)
  (h : (system calls).Reach (KeepsApart calls l) (Pool.fresh w) s)
  (ht : Transparent calls (w.db.SessionKey l) l s) {t n : ℕ} {rank : ℕ → ℕ}
include hs hb h ht

theorem Transparent.run_query {c : Cmd} {k : c.Resp → Go Outcome} {r : c.Resp} {w' : World}
    (hth : s.threads t = .live (.op c k)) (hex : World.exec t c (.ok n rank) s.world = some (r, w'))
    (hk : KeepsApart calls l s (.run t (.ok n rank)) (s.setThread t (.live (k r)) w'))
    (hx : s.world.db.Exact l none) (hc : ∀ rc, c ≠ .redis rc) :
    Transparent calls (w.db.SessionKey l) l (s.setThread t (.live (k r)) w') := by
  have hnext : (s.threads t).next? = some c := by
    rw [hth]
    rfl
  refine ht.quiet (exec_aof hex hc) (fun c' hc' => ?_) (fun hcall => ?_) fun l' hcall hne => .inr ?_
  · exact hc c' (Option.some.inj (hnext.symm.trans hc'))
  · rcases (ht.rebuilds t hcall _ hth).query DB.not_sessionKey_campaign hc with hp | hav
    · rw [rebuild_program] at hp
      cases hp
      rcases rebuildWith_cases l r with ⟨o, ho⟩ | ⟨os, rfl, ho⟩
      · rw [ho]
        exact .away trivial
      · rw [ho]
        obtain ⟨hos, hmatches⟩ := reach_query hs hb h hex
        exact .refills (reach_refills hs hb h hx (hk.reads hcall hnext) hos hmatches)
    · exact .away (hav r)
  · rcases ht.others t l' hcall hne _ hth with hp | hav
    · rw [rebuild_program] at hp
      cases hp
      rcases rebuildWith_cases l' r with ⟨o, ho⟩ | ⟨os, rfl, ho⟩
      · rw [ho]
        trivial
      · rw [ho]
        exact avoids_rebuildCommands hne (reach_query hs hb h hex).2
    · exact hav.2 r

theorem Transparent.run_redis {c : RedisCmd} {k : Except SqlErr Unit → Go Outcome}
    (hth : s.threads t = .live (.op (.redis c) k))
    (hk : KeepsApart calls l s (.run t (.ok n rank))
      (s.setThread t (.live (k (.ok ()))) (s.world.addAof t c)))
    (h' : (system calls).Reach (KeepsApart calls l) (Pool.fresh w)
      (s.setThread t (.live (k (.ok ()))) (s.world.addAof t c))) :
    Transparent calls (w.db.SessionKey l) l
      (s.setThread t (.live (k (.ok ()))) (s.world.addAof t c)) := by
  have hnext : (s.threads t).next? = some (.redis c) := by
    rw [hth]
    rfl
  by_cases hreb : ∃ l', calls t = .rebuild l'
  · obtain ⟨l', hcall⟩ := hreb
    by_cases hl : l' = l
    · subst hl
      obtain ⟨hat, hkey⟩ := (ht.rebuilds t hcall _ hth).command
      exact ht.push_rebuild hcall hnext hat fun hc => hkey hc _
        ((ht.content c.key hc).imp_right And.left)
    · rcases ht.others t l' hcall hl _ hth with hp | hav
      · rw [rebuild_program] at hp
        cases hp
      · exact ht.push_away (hav.1 c rfl) hnext
          (fun hc => absurd (Call.rebuild.inj (hcall.symm.trans hc)) hl) fun _ _ _ => .inr (hav.2 _)
  · have hnot : ∀ id, calls t ≠ .rebuild id := fun id hc => hreb ⟨id, hc⟩
    by_cases hkey : w.db.SessionKey l c.key
    · obtain ⟨m, evt, hcall, hevt, hl⟩ := reach_sessionPusher (e := (t, c)) hs hb h' hnot
        (List.mem_append_right _ (List.mem_singleton_self _)) hkey
      exact ht.push_handler DB.not_sessionKey_campaign hcall (hk.pushes m evt c hcall hevt hl hnext)
    · exact ht.push_away hkey hnext (fun hc => absurd hc (hnot l)) fun l' hc => absurd hc (hnot l')

end Steps

omit [Platform] in
theorem DB.Exact.of_grows {d d' : DB} (hg : d.Grows d') (hx : d'.Exact l none) :
    d.Exact l none := by
  have hsub : (d.acceptedOrders l).Sublist (d'.acceptedOrders l) := hg.giftOrders.sublist.filter _
  constructor
  · exact hx.contributors.of_sublist hsub
  · intro k
    exact (hx.matchScores k).of_sublist (hsub.filter _)
  · rintro c ⟨⟩

theorem reach_transparent (hs : Start w) (hb : w.db.Blank)
    (h : (system calls).Reach (KeepsApart calls l) (Pool.fresh w) s)
    (hx : s.world.db.Exact l none) : Transparent calls (w.db.SessionKey l) l s := by
  -- the bound on the final sums is carried back along the run: orders only get more
  refine h.induct
    (P := fun s => s.world.db.Exact l none → Transparent calls (w.db.SessionKey l) l s)
    (fun _ => ⟨fun t _ p hp => (by cases hp), fun t _ _ _ p hp => (by cases hp),
      fun key _ => .inl ?_⟩) ?_ hx
  · simp [World.redis, World.unrebuilt, Pool.fresh, hs.aof]
  intro s a s' hr ih hstep hk hx'
  have hr' := hr.tail hstep hk
  have hx : s.world.db.Exact l none := hx'.of_grows (reach_grows hs hr (.tail .refl hstep hk))
  have ih := ih hx
  rcases a with t | ⟨t, ch⟩ | t
  · obtain ⟨hidle, -, rfl⟩ := Machine.step_start hstep
    refine ih.quiet rfl (fun c hc => ?_) (fun hc => ?_) fun l' hc _ => .inl ?_
    · rw [hidle] at hc
      cases hc
    · change RebuildAt _ _ l (calls t).program
      rw [hc]
      exact .start
    · change (calls t).program = _
      rw [hc]
  · obtain ⟨c, k, r, w', hth, hex, rfl⟩ := Machine.step_run hstep
    cases ch with
    | fault applied => cases hk.calm
    | ok n rank =>
      cases c with
      | redis c =>
        have hex : World.exec t (.redis c) (.ok n rank) s.world = some (r, w') := hex
        cases exec_redis hex with
        | applied _ => exact ih.run_redis hs hb hr hth hk hr'
        | refused ho =>
          have hcalm := hk.calm
          simp [broken?, hth, Thread.next?, Prog.next?, World.refuses, ho] at hcalm
      | _ => exact ih.run_query hs hb hr hth hex hk hx fun rc hrc => by cases hrc
  · cases hk.calm

/-- The contributors and the match scores of the session are the sums over its ACCEPTED orders. -/
structure Redis.Counts (ρ : Redis) (d : DB) (l : ℕ) : Prop where
  contributors : ρ.Maps (contributorKey l) toString (·.viewerID) (·.chargedCoins)
    (d.acceptedOrders l)
  matchScores : ∀ k, d.HasMatch l k → ρ.Maps (matchScoreKey k) creatorField (·.creatorID)
    (·.matchPointsAdded) (d.matchOrders k)

/-- Wherever the rebuilds of a session and the handlers of its events keep apart: once every event
of the session has been applied and no rebuild of it is at work, its scores are what the orders
say, if their sums are small enough to be exact. -/
theorem rebuild_transparent (calls : ℕ → Call) {w : World} (hs : Start w) (hb : w.db.Blank) {l : ℕ}
    {s : State} (h : (system calls).Reach (KeepsApart calls l) (Pool.fresh w) s)
    (hexact : s.world.db.Exact l none) (happlied : AllApplied calls l s)
    (hdone : ¬ Rebuilding calls l s) : s.world.redis.Counts s.world.db l := by
  have hcontent : ∀ key, w.db.SessionKey l key →
      s.world.redis key = s.world.unrebuilt calls key := by
    intro key hkey
    refine ((reach_transparent hs hb h hexact).content key hkey).resolve_right ?_
    rintro ⟨-, t, c, hcall, hnext, -⟩
    exact hdone ⟨t, .redis c, hcall, hnext, nofun⟩
  obtain ⟨hcontrib, hscores⟩ := reach_unrebuilt hs hb h hexact.contributors happlied
  constructor
  · intro member n
    rw [hcontent _ (.inl rfl)]
    exact hcontrib member n
  · intro k hk member n
    have hk := (reach_hasMatch hs h).mp hk
    rw [hcontent _ (.inr ⟨k, hk, rfl⟩)]
    exact hscores k hk member n

end General

section Witness

open Plain

def giftApplied (s : State) : Bool :=
  s.world.db.outboxEvents.all fun r =>
    r.topic ≠ giftAcceptedTopic || r.message = some boardMessage &&
    decide (s.world.pushedFor giftAndRebuild boardMessage =
      (boardMessage.value.unmarshalGiftAccepted.toList.flatMap giftIncrements))

theorem giftApplied_spec {s : State} (h : giftApplied s = true) :
    AllApplied giftAndRebuild 9001 s := by
  intro r hr ht evt hevt _
  have hrow := List.all_eq_true.mp h r hr
  simp only [ht, ne_eq, not_true_eq_false, decide_false, Bool.false_or, Bool.and_eq_true,
    decide_eq_true_eq] at hrow
  obtain ⟨hm, hpush⟩ := hrow
  rw [← message_value hm] at hevt
  refine ⟨_, hm, hpush.trans ?_⟩
  rw [hevt]
  simp

theorem giftAndRebuild_handler {t : ℕ} {m : Message} (h : giftAndRebuild t = .leaderboard m) :
    t = 2 := by
  unfold giftAndRebuild at h
  split at h <;> cases h
  rfl

/-- The rebuild is started when the event has been applied. -/
theorem rebuild_transparent_applied : ∃ s : State,
    (s.threads 3).result? = some (.handled (.ok ())) ∧
    s.world.redis.score (contributorKey 9001) (toString 2001) = 3 ∧
    s.world.redis.Counts s.world.db 9001 := by
  obtain ⟨s, hr, hp⟩ := Machine.exists_reach (M := system giftAndRebuild)
    (s := Pool.fresh (World.boot migrated))
    (K := fun s a _ => decide (broken? s a = none ∧ (a.process = 3 → giftApplied s) ∧
      (a.process = 2 → idle 3 s)))
    (p := fun s => decide ((s.threads 3).result? = some (.handled (.ok ())) ∧
      s.world.redis.score (contributorKey 9001) (toString 2001) = 3 ∧ giftApplied s ∧
      sumOf (·.chargedCoins) s.world.db.giftOrders < 2 ^ 53 ∧
      sumOf (·.matchPointsAdded) s.world.db.giftOrders < 2 ^ 63))
    (launch 0 21 5 ++ launch 1 9 6 ++ launch 2 9 7 ++ launch 3 9 8) (by decide +kernel)
  obtain ⟨hres, hscore, happlied, hcoins, hpoints⟩ := of_decide_eq_true hp
  have h3 : ∀ {t id}, giftAndRebuild t = .rebuild id → t = 3 := by
    intro t id hc
    by_contra hne
    exact giftAndRebuild_other hne hc
  refine ⟨s, hres, hscore, rebuild_transparent giftAndRebuild (Start.boot rfl rfl rfl rfl)
    migrated_blank (hr.mono fun s a s' hk => ?_) (.of_totals hcoins hpoints)
    (giftApplied_spec happlied) ?_⟩
  · obtain ⟨hcalm, hreads, hpushes⟩ := of_decide_eq_true hk
    refine ⟨hcalm, fun hc _ => giftApplied_spec (hreads (h3 hc)), fun m evt c hc _ _ _ => ?_⟩
    rintro ⟨t, c, hcall, hnext, -⟩
    rw [h3 hcall, idle_spec (hpushes (giftAndRebuild_handler hc))] at hnext
    cases hnext
  · rintro ⟨t, c, hcall, hnext, -⟩
    rw [h3 hcall] at hnext
    cases hth : s.threads 3 with
    | idle =>
      rw [hth] at hnext
      cases hnext
    | dead =>
      rw [hth] at hnext
      cases hnext
    | live p =>
      rw [hth] at hnext hres
      cases p with
      | ret o => cases hnext
      | op c k => cases hres

/-- The rebuild counts the order before its event is relayed and applied: the gift counts twice. -/
theorem rebuild_counts_twice : ∃ s : State,
    (system giftAndRebuild).Reach (fun s a _ => broken? s a = none)
      (Pool.fresh (World.boot migrated)) s ∧
    AllApplied giftAndRebuild 9001 s ∧ (∀ t, (s.threads t).running = false) ∧
    s.world.redis.score (contributorKey 9001) (toString 2001) = 6 ∧
    s.world.db.contributed 9001 2001 = 3 ∧ ¬ s.world.redis.Counts s.world.db 9001 := by
  obtain ⟨s, hr, hp⟩ := Machine.exists_reach (M := system giftAndRebuild)
    (s := Pool.fresh (World.boot migrated))
    (K := fun s a _ => decide (broken? s a = none ∧ a.process < 4))
    (p := fun s => decide (giftApplied s ∧ (∀ t ∈ List.range 4, (s.threads t).running = false) ∧
      s.world.redis (contributorKey 9001) (toString 2001) = some 6 ∧
      s.world.db.contributed 9001 2001 = 3))
    (launch 0 21 5 ++ launch 3 9 6 ++ launch 1 9 7 ++ launch 2 9 8) (by decide +kernel)
  obtain ⟨happlied, hdone, hredis, horders⟩ := of_decide_eq_true hp
  refine ⟨s, hr.mono fun _ _ _ hk => (of_decide_eq_true hk).1, giftApplied_spec happlied,
    fun t => ?_, by rw [Redis.score, hredis]; rfl, horders, fun hcounts => ?_⟩
  · by_cases ht : t < 4
    · exact hdone t (List.mem_range.mpr ht)
    · have hidle : s.threads t = .idle := by
        refine (hr.untouched fun _ a _ hk => ?_).trans rfl
        have : a.process < 4 := (of_decide_eq_true hk).2
        omega
      rw [hidle]
      rfl
  · obtain ⟨o, -, hviewer, hsum⟩ := (hcounts.contributors _ _).mp hredis
    rw [← decimal_inj.mp hviewer] at hsum
    rw [DB.contributed, ← hsum] at horders
    cases horders

end Witness

end LiveRevenue
