import LiveRevenue.Proof.Outside
import LiveRevenue.Spec.Redis

/-! # The leaderboard handler and the rebuild

A handler that claims an event pushes the increments of that event, in order and
nothing else. It stops short of the last one only if Redis fails or it dies there.
-/

namespace LiveRevenue

open Transact

variable {𝓔 : Env} {t : ℕ} {w : World} {m : Message}

theorem Flushed.of_later {w' : World} (h : Flushed t m w) (ha : w'.aofBy t = w.aofBy t)
    (hc : w'.store.committedBy t = w.store.committedBy t) : Flushed t m w' := by
  unfold Flushed at h ⊢
  rw [ha, hc]
  exact h

/-- The ids and sums that a rebuild scans fit. -/
structure DB.Rebuildable (d : DB) (id : ℕ) (l : LiveSession) : Prop where
  session : d.liveSessions id = some l
  matchIDs : ∀ o ∈ d.acceptedOrders id, ∀ k, o.matchID = some k → k < 2 ^ 63
  campaignID : ∀ c, l.campaignID = some c → c < 2 ^ 63
  sums : ∀ c, l.campaignID = some c →
    ∀ x ∈ groupSum (·.creatorID) (·.chargedCoins) (d.campaignOrders c), fitsInt64 x.2 = true

theorem DB.Rebuildable.scanOrders {d : DB} {id : ℕ} {l : LiveSession} (h : d.Rebuildable id l)
    {os : List GiftOrder} (hos : os.Perm (d.acceptedOrders id)) :
    LiveRevenue.scanOrders os = .ok () := by
  refine if_pos (List.all_eq_true.mpr fun o ho => ?_)
  cases hm : o.matchID with
  | none => rfl
  | some k => exact decide_eq_true (h.matchIDs o (hos.subset ho) k hm)

theorem scanOrders_ok {os : List GiftOrder} (h : LiveRevenue.scanOrders os = .ok ()) :
    ∀ o ∈ os, ∀ k, o.matchID = some k → k < 2 ^ 63 := by
  unfold LiveRevenue.scanOrders at h
  split at h
  · next hall =>
    intro o ho k hk
    have hfits := List.all_eq_true.mp hall o ho
    rw [hk] at hfits
    exact of_decide_eq_true hfits
  · cases h

theorem DB.Grows.campaignOrders {d d' : DB} (hg : d.Grows d') (c : ℕ) :
    List.Sublist (d.campaignOrders c) (d'.campaignOrders c) := by
  have hsame : ∀ id, (d'.liveSessions id).any (·.campaignID = some c) =
      (d.liveSessions id).any (·.campaignID = some c) := fun id => by
    have hany : ∀ x : Option LiveSession,
        x.any (·.campaignID = some c) = (x.map (·.fixed)).any (·.2 = some c) := fun x => by
      cases x <;> rfl
    rw [hany, hany, hg.sessionFixed id]
  simp only [DB.campaignOrders, hsame]
  exact (hg.giftOrders.filter _).sublist

theorem DB.Rebuildable.of_grows {d d' : DB} {id : ℕ} {l' : LiveSession} (hg : d.Grows d')
    (h : d'.Rebuildable id l') : ∃ l, d.Rebuildable id l ∧ l.campaignID = l'.campaignID := by
  have hfixed := hg.sessionFixed id
  rw [h.session, Option.map_some] at hfixed
  obtain ⟨l, hl, he⟩ := Option.map_eq_some_iff.mp hfixed.symm
  have hcamp : l.campaignID = l'.campaignID := (Prod.mk.inj he).2
  refine ⟨l, ⟨hl, fun o ho => h.matchIDs o ((hg.giftOrders.filter _).subset ho),
    fun c hc => h.campaignID c (hcamp ▸ hc), fun c hc x hx => ?_⟩, hcamp⟩
  obtain ⟨k, hk, rfl⟩ := List.mem_map.mp hx
  have hsub := hg.campaignOrders c
  have hk' : k ∈ ((d'.campaignOrders c).map (·.creatorID)).dedup :=
    List.mem_dedup.mpr ((hsub.map _).subset (List.mem_dedup.mp hk))
  have hfits := h.sums c (hcamp ▸ hc) _ (List.mem_map_of_mem hk')
  have hle : sumOf (·.chargedCoins) ((d.campaignOrders c).filter fun o => o.creatorID = k) ≤
      sumOf (·.chargedCoins) ((d'.campaignOrders c).filter fun o => o.creatorID = k) :=
    sumOf_sublist (hsub.filter _)
  have hpos := sumOf_nonneg (·.chargedCoins) ((d.campaignOrders c).filter fun o => o.creatorID = k)
  simp only [fitsInt64, Bool.and_eq_true, decide_eq_true_eq] at hfits ⊢
  omega

variable [Platform]

def LeaderboardPost (𝓔 : Env) (t : ℕ) (m : Message) (r : Except Err Unit) (w : World) : Prop :=
  (Flushed t m w ∨ 𝓔.Unlucky t) ∧ (r = .ok () → w.db.Recorded leaderboardConsumer m)

theorem dead_leaderboard (hc : 𝓔.calls t = .leaderboard m) (h : Flushed t m w ∨ 𝓔.Unlucky t) :
    Dead 𝓔 t w := by
  unfold Dead
  rw [hc]
  exact h

theorem Inv.recorded (hi : Inv 𝓔 w) (h : Claimed t m w) : w.db.Recorded leaderboardConsumer m := by
  obtain ⟨r, hr, hk⟩ := h
  obtain ⟨h₁, hg⟩ := exists_grows_of_mem (d := 𝓔.start.db)
    (Store.mem_committedBy.mp (hr ▸ List.mem_singleton_self _))
  rw [← hi.db_eq] at hg
  exact ⟨r, hg.consumerDedupe.subset (by simp [Write.apply]), hk⟩

section Apply

variable {evt : LiveGiftAcceptedV1}

/-- The Redis part of `ApplyAcceptedGift`, with the commands `pushed` behind it. -/
theorem runs_increments (hc : 𝓔.calls t = .leaderboard m)
    (hevt : m.value.unmarshalGiftAccepted = some evt) {pushed todo : List RedisCmd}
    (hall : giftIncrements evt = pushed ++ todo) (hclaim : Claimed t m w)
    (haof : w.aofBy t = pushed) :
    Runs 𝓔.logic t (redisAll retFail todo)
      (fun _ v => Claimed t m v ∧ v.aofBy t = giftIncrements evt) (LeaderboardPost 𝓔 t m) w := by
  have hclaimed : ∀ v, v.store.committedBy t = w.store.committedBy t → Claimed t m v := by
    intro v hv
    obtain ⟨r, hr, hk⟩ := hclaim
    exact ⟨r, hv.trans hr, hk⟩
  induction todo generalizing pushed w with
  | nil =>
    rw [List.append_nil] at hall
    exact Runs.pure fun v hv _ =>
      ⟨hclaimed v hv.store.committed, (hv.aof.trans haof).trans hall.symm⟩
  | cons c cs ih =>
    refine Runs.bind (runs_redis (fun u hu _ hcrash => ?_) (fun u hu _ => ?_)
      (fun ch e u u' v hp hex hu' _ _ => ?_) fun v _ hcv hav => ?_)
    · exact dead_leaderboard hc
        (.inr (.death hcrash (hclaimed u hu.store.committed).hasClaimed))
    · rw [hc]
      refine ⟨hclaimed u hu.store.committed, evt, hevt, cs, ?_⟩
      rw [hu.aof, haof, hall]
      simp
    · exact ⟨.inr (.redis hp hex (hclaimed u' hu').hasClaimed), fun h => by cases h⟩
    · refine ih (by simpa [haof] using hall) (hclaimed v hcv) hav fun x hx => ?_
      exact hclaimed x (hx.trans hcv)

theorem Inv.leaderboard {u : World} (hi : Inv 𝓔 u) (hc : 𝓔.calls t = .leaderboard m)
    (hid : extractEventID m ≠ 0) (hevt : m.value.unmarshalGiftAccepted = some evt)
    (p : Deduped leaderboardConsumer (extractEventID m) u.db) :
    Txn 𝓔.start.db u.store.binlog (𝓔.calls t) [.dedupe p.row] := by
  rw [hc]
  exact hi.txn (P := Deduped leaderboardConsumer (extractEventID m))
    (W := fun _ p => [.dedupe p.row]) (fun p => .leaderboard p hid hevt) p

theorem safe_applyAcceptedGift (hc : 𝓔.calls t = .leaderboard m) (hid : extractEventID m ≠ 0)
    (hevt : m.value.unmarshalGiftAccepted = some evt)
    (hfresh : w.store.committedBy t = [] ∧ w.aofBy t = []) :
    Safe 𝓔.logic t (LeaderboardPost 𝓔 t m) (applyAcceptedGift (extractEventID m) evt) w := by
  have hnone : ∀ {v : World} {e : Err}, v.store.committedBy t = [] →
      LeaderboardPost 𝓔 t m (.error e) v := fun h => ⟨.inl (.inl h), fun h => by cases h⟩
  refine safe_withTx hfresh (fun _ _ _ _ _ _ hcv _ => hnone hcv) (fun v hv => ?_)
    (fun r v _ h => dead_leaderboard hc h.1) (by rw [hc]; nofun) fun r v v' _ hl hcv h => ?_
  · refine Runs.bind (runs_now hv.own fun appliedAt v hv => ?_)
    refine Runs.bind (runs_insertDedupe hv.own (fun e u v hu hf hv => ?_) fun d v hnew hv => ?_)
    · dsimp only
      split
      · next hdup =>
        have hrec : u.db.Recorded leaderboardConsumer m := by
          obtain rfl := eq_dupKey hdup
          cases hf with
          | error _ he => exact run_insertDedupe_dup he
        refine runs_commit_return hv.own (fun applied _ _ _ _ _ _ _ _ hd => ?_)
          fun x hx => ⟨[], rfl, .nothing _, .plain (by rw [hc]; rfl) (by simp),
            fun y _ hl _ hd => ?_⟩
        · cases applied with
          | false => exact hnone hd.committed
          | true => exact ⟨.inl (.inr (.inl hd.committed)), fun h => by cases h⟩
        exact ⟨.inl (.inr (.inl hd.committed)), fun _ =>
          hrec.mono ((hv.later.grows.trans hx.later.grows).trans hl.grows)⟩
      · exact Runs.pure fun x hx hi => hnone (hv.rely hx hi).own.committed
    · refine Runs.bind (runs_commitTx hv.own (fun x hx => ?_)
        (fun applied _ u' v _ hp hex hv _ hd => ?_) fun x y hx hi hl hg hd => ?_)
      · exact ⟨hx.inv.leaderboard hc hid hevt ⟨appliedAt, hx.own.newDedupe (by simp) hnew⟩,
          .plain (by rw [hc]; rfl) (by simp [Write.backed])⟩
      · cases applied with
        | false => exact hnone hd.committed
        | true =>
          have hclaim : Claimed t m u' := ⟨_, hv.store.committed.symm.trans hd.committed, rfl⟩
          exact ⟨.inr (.commit hp hex hclaim.hasClaimed), fun h => by cases h⟩
      · refine Runs.seq (runs_increments hc hevt rfl ⟨_, hd.committed, rfl⟩
          (hl.aof.trans hx.own.pushed)) fun _ z _ hz => ?_
        obtain ⟨⟨r, hr, hk⟩, hall⟩ := hz
        refine Runs.pure fun x hx hi => ⟨.inl (.inr (.inr fun evt' he => ?_)), fun _ =>
          hi.recorded ⟨r, hx.store.committed.trans hr, hk⟩⟩
        rw [hevt] at he
        cases he
        exact hx.aof.trans hall
  · refine ⟨h.1.imp_left fun hf => hf.of_later hl.aof hcv, fun hr => (h.2 hr).mono hl.grows⟩

end Apply

theorem safe_leaderboardHandle (hc : 𝓔.calls t = .leaderboard m)
    (hfresh : w.store.committedBy t = [] ∧ w.aofBy t = []) :
    Safe 𝓔.logic t (fun _ => Dead 𝓔 t) (leaderboardHandle m) w := by
  have hskip : ∀ {metadata}, metadata ≠ "applied" →
      (metadata = "missing_event_id" → extractEventID m = 0) → Safe 𝓔.logic t (fun _ => Dead 𝓔 t)
      (markDone leaderboardGroup metadata m) w := fun {_} hne hzero => by
    have hdead : ∀ v, 𝓔.Rely t w v → Inv 𝓔 v → Dead 𝓔 t v := fun v hv _ =>
      dead_of_fresh (hv.store.committed.trans hfresh.1)
    refine safe_markDone hdead (fun u _ _ => ?_) hdead
    rw [hc]
    exact ⟨rfl, rfl, hzero, fun h => absurd h hne⟩
  unfold leaderboardHandle
  dsimp only
  split
  · next h0 => exact hskip (by decide) fun _ => h0
  next hid =>
  split
  · exact hskip (by decide) fun h => absurd h (by decide)
  next evt hevt =>
  refine Safe.bind (Safe.mono (Safe.keep (safe_applyAcceptedGift hc hid hevt hfresh))
    fun r v hi h => ?_)
  have hdead : ∀ u, 𝓔.Rely t v u → Inv 𝓔 u → Dead 𝓔 t u := fun u hu hiu =>
    dead_leaderboard hc (h u hu hiu).1
  cases r with
  | error e => exact hdead
  | ok _ =>
    refine safe_markDone hdead (fun u hu hiu => ?_) hdead
    rw [hc]
    exact ⟨rfl, rfl, fun h => absurd (show "applied" = "missing_event_id" from h) (by decide),
      fun _ => (h u hu hiu).2 rfl⟩

section Rebuild

theorem run_selectCampaign {d : DB} {id : ℕ} {ids : Ids} {busy : Lock → Bool} {rank : ℕ → ℕ}
    {c : Option ℕ} (h : ((Stmt.selectCampaign id).run d ids busy rank).res = .ok c) :
    ∃ l, d.liveSessions id = some l ∧ l.campaignID = c ∧
    ∀ n, l.campaignID = some n → n < 2 ^ 63 := by
  simp only [Stmt.run] at h
  split at h
  · next l hl =>
    refine ⟨l, hl, ?_⟩
    dsimp only at h
    rcases scanNullInt64_cases l.campaignID with ⟨hlt, hok⟩ | ⟨-, herr⟩
    · exact ⟨Except.ok.inj (hok.symm.trans h), hlt⟩
    · cases herr.symm.trans h
  · cases h

theorem DB.Rebuildable.selectCampaign {d : DB} {id : ℕ} {l : LiveSession} (h : d.Rebuildable id l)
    {ids : Ids} {busy : Lock → Bool} {rank : ℕ → ℕ} :
    ((Stmt.selectCampaign id).run d ids busy rank).res = .ok l.campaignID := by
  simp only [Stmt.run, h.session]
  cases hc : l.campaignID with
  | none => rfl
  | some c => exact if_pos (h.campaignID c hc)

theorem run_sumCampaignCharges {d : DB} {c : ℕ} {ids : Ids} {busy : Lock → Bool} {rank : ℕ → ℕ}
    {rows : List (ℕ × ℤ)} (h : ((Stmt.sumCampaignCharges c).run d ids busy rank).res = .ok rows) :
    rows = groupSum (·.creatorID) (·.chargedCoins) (d.campaignOrders c) ∧
      ∀ x ∈ rows, fitsInt64 x.2 = true := by
  simp only [Stmt.run] at h
  split at h
  · next hall =>
    cases h
    exact ⟨rfl, List.all_eq_true.mp hall⟩
  · cases h

theorem DB.Rebuildable.sumCampaignCharges {d : DB} {id c : ℕ} {l : LiveSession}
    (h : d.Rebuildable id l) (hc : l.campaignID = some c) {ids : Ids} {busy : Lock → Bool}
    {rank : ℕ → ℕ} : ((Stmt.sumCampaignCharges c).run d ids busy rank).res =
      .ok (groupSum (·.creatorID) (·.chargedCoins) (d.campaignOrders c)) :=
  if_pos (List.all_eq_true.mpr (h.sums c hc))

def RebuildPost (𝓔 : Env) (t id : ℕ) (r : Except Err Unit) (w : World) : Prop :=
  r ≠ .ok () → (∃ c applied u, 𝓔.permit t c (.fault applied) u) ∨ ∀ l, ¬ w.db.Rebuildable id l

theorem ReadFails.rebuild {s : Stmt} {id : ℕ} {e : Err} (h : ReadFails 𝓔 t s w)
    (hs : ∀ (u : World) rank l l', u.db.Rebuildable id l → w.db.liveSessions id = some l' →
      l.campaignID = l'.campaignID → ∃ r, (s.run u.db u.ids (u.store.busy t) rank).res = .ok r) :
    RebuildPost 𝓔 t id (.error e) w := by
  intro _
  cases h with
  | fault hp => exact .inl ⟨_, _, _, hp⟩
  | error hg he =>
    refine .inr fun l' hl' => ?_
    obtain ⟨l, hl, hcamp⟩ := hl'.of_grows hg
    obtain ⟨r, hr⟩ := hs _ _ l l' hl hl'.session hcamp
    cases he.symm.trans hr

section Calls

variable {id : ℕ} (hc : 𝓔.calls t = .rebuild id)
include hc

theorem dead_rebuild (v : World) : Dead 𝓔 t v := by
  unfold Dead
  rw [hc]
  trivial

theorem runs_rebuild_redis {c : RedisCmd} (hinc : c.increments = false) :
    Runs 𝓔.logic t (redisDo retFail c : GoBody (Except Err Unit) Unit) (fun _ _ => True)
      (RebuildPost 𝓔 t id) w := by
  refine runs_redis (fun u _ _ _ => dead_rebuild hc u) (fun u _ _ => by rw [hc]; trivial)
    (fun ch e u u' v hp hex _ _ _ _ => ?_) fun _ _ _ _ => trivial
  -- what overwrites is never refused
  cases exec_redis hex with
  | refused ho => cases c <;> cases hinc <;> cases ho
  | lost => exact .inl ⟨_, _, _, hp⟩
  | unsent => exact .inl ⟨_, _, _, hp⟩

theorem runs_rebuild_redisAll {cs : List RedisCmd} (hinc : ∀ c ∈ cs, c.increments = false) :
    Runs 𝓔.logic t (redisAll retFail cs : GoBody (Except Err Unit) Unit) (fun _ _ => True)
      (RebuildPost 𝓔 t id) w := by
  induction cs generalizing w with
  | nil => exact Runs.pure fun _ _ _ => trivial
  | cons c cs ih =>
    rw [List.forall_mem_cons] at hinc
    exact Runs.seq (runs_rebuild_redis hc hinc.1) fun _ _ _ _ => ih hinc.2

theorem safe_rebuild : Safe 𝓔.logic t (RebuildPost 𝓔 t id) (rebuildLiveSession id) w := by
  have hdead := dead_rebuild hc
  have hpure : ∀ {v}, Runs 𝓔.logic t (pure (.ok ()) : GoBody (Except Err Unit) (Except Err Unit))
      (RebuildPost 𝓔 t id) (RebuildPost 𝓔 t id) v := Runs.pure fun _ _ _ hne => absurd rfl hne
  refine Runs.toSafe (Runs.bind (runs_dbRead rfl (fun u _ _ => hdead u)
    (fun e v _ _ hf => hf.rebuild fun u rank _ _ _ _ _ => ⟨_, rfl⟩)
    fun os rank u v _ _ hos huv _ => ?_))
  refine Runs.bind ?_
  cases hscan : scanOrders os with
  | error e =>
    refine Runs.throw fun x hx _ _ => .inr fun l' hl' => ?_
    obtain ⟨l, hl, -⟩ := hl'.of_grows (huv.store.grows.trans hx.store.grows)
    cases hos
    rw [hl.scanOrders (List.perm_insertionSort _ _)] at hscan
    cases hscan
  | ok _ =>
    refine Runs.pure fun v _ _ =>
      Runs.seq (runs_rebuild_redisAll hc rebuildCommands_overwrite) fun _ v _ _ => ?_
    refine Runs.bind (runs_dbRead rfl (fun u _ _ => hdead u)
      (fun e v _ _ hf => hf.rebuild fun u rank l _ hl _ _ => ⟨_, hl.selectCampaign⟩)
      fun c _ u v _ hi hcamp _ _ => ?_)
    cases c with
    | none => exact hpure
    | some c =>
      refine Runs.seq (runs_rebuild_redis hc rfl) fun _ v _ _ => ?_
      refine Runs.bind (runs_dbRead rfl (fun u _ _ => hdead u) (fun e v _ hiv hf =>
        hf.rebuild fun u' rank l l' hl hl' he => ⟨_, hl.sumCampaignCharges (he.trans ?_)⟩)
        fun rows _ _ v _ _ _ _ _ => ?_)
      · -- the session has kept the campaign that was read
        obtain ⟨lu, hlu, hcu, -⟩ := run_selectCampaign hcamp
        have hfixed := (hiv.grows.sessionFixed id).trans (hi.grows.sessionFixed id).symm
        rw [hl', hlu] at hfixed
        exact (Prod.mk.inj (Option.some.inj hfixed)).2.trans hcu
      split
      · exact hpure
      · exact Runs.seq (runs_rebuild_redis hc rfl) fun _ v _ _ => hpure

end Calls

end Rebuild

end LiveRevenue
