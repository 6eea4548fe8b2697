import LiveRevenue.Proof.Outside

/-! # The points handler

The dedupe row and the ledger rows of an event are one transaction, so that an
acknowledged event has both or, past a cap, needs only the first.
-/

namespace LiveRevenue

open Transact

variable [Platform] {𝓔 : Env} {t : ℕ} {w : World} {m : Message}

/-- Why applying a message may end in an error: an infrastructure error, a row the ledger does
not take, or an event id that is in a ledger without having been recorded. -/
inductive PointsFails (𝓔 : Env) (t : ℕ) (m : Message) : Prop where
  | fault {c : Cmd} {applied : Bool} {u : World} :
      𝓔.permit t c (.fault applied) u → PointsFails 𝓔 t m
  | unpayable {r : FanPoint} : m.point = some r → ¬ 𝓔.start.db.Payable r → PointsFails 𝓔 t m
  | taken {u : World} : Inv 𝓔 u → ¬ u.db.Recorded pointsConsumer m →
      (∃ r ∈ u.db.fanPoints, r.eventID = extractEventID m) ∨
        (∃ r ∈ u.db.campaignPoints, r.eventID = extractEventID m) → PointsFails 𝓔 t m

def PointsPost (𝓔 : Env) (t : ℕ) (m : Message) (r : Except Err Unit) (w : World) : Prop :=
  match r with
  | .ok _ => w.db.Recorded pointsConsumer m
  | .error _ => PointsFails 𝓔 t m

theorem PointsPost.mono {w' : World} {r : Except Err Unit} (h : PointsPost 𝓔 t m r w)
    (hg : w.db.Grows w'.db) : PointsPost 𝓔 t m r w' := by
  cases r with
  | ok _ => exact DB.Recorded.mono h hg
  | error _ => exact h

theorem Inv.points {u : World} {ws : List Write} (hi : Inv 𝓔 u) (hc : 𝓔.calls t = .points m)
    (hid : extractEventID m ≠ 0) (p : Deduped pointsConsumer (extractEventID m) u.db)
    (hp : Points m (extractEventID m) u.db ws) :
    Txn 𝓔.start.db u.store.binlog (𝓔.calls t) (.dedupe p.row :: ws) := by
  rw [hc]
  exact hi.txn
    (P := fun d => { _p : Deduped pointsConsumer (extractEventID m) d //
      Points m (extractEventID m) d ws })
    (W := fun _ p => .dedupe p.1.row :: ws) (fun p => .points p.1 hid p.2) ⟨p, hp⟩

section Body

variable {pins : List (Lock × DB)} {appliedAt : ℕ} {d : DB} {ws : List Write}

theorem runs_unlessDuplicate {k : GoBody (Except Err Unit) (Except Err Unit)}
    (hc : 𝓔.calls t = .points m) (own : Own t [] [] w)
    (hk : ∀ appliedAt d v,
      (∀ r ∈ d.consumerDedupe, r.lock ≠ .dedupe pointsConsumer (extractEventID m)) →
      At 𝓔 t [.dedupe ⟨pointsConsumer, extractEventID m, appliedAt⟩]
        [(.dedupe pointsConsumer (extractEventID m), d)] w v →
      Runs 𝓔.logic t k (PointsPost 𝓔 t m) (PointsPost 𝓔 t m) v) :
    Runs 𝓔.logic t (unlessDuplicate (extractEventID m) k) (PointsPost 𝓔 t m) (PointsPost 𝓔 t m)
      w := by
  unfold unlessDuplicate
  refine Runs.bind (runs_now own fun appliedAt v hv => ?_)
  have hw := hv
  refine Runs.bind (runs_insertDedupe hv.own (fun e u v hu hf hv => ?_) fun d v hnew hv => ?_)
  · dsimp only
    split
    · next hdup =>
      have hrec : u.db.Recorded pointsConsumer m := by
        obtain rfl := eq_dupKey hdup
        cases hf with
        | error _ he => exact run_insertDedupe_dup he
      refine runs_commit_return hv.own (fun _ _ _ _ _ hp _ _ _ _ => .fault hp)
        fun x hx => ⟨[], rfl, .nothing _, .plain (by rw [hc]; rfl) (by simp), fun y _ hl _ _ => ?_⟩
      exact DB.Recorded.mono hrec ((hv.later.grows.trans hx.later.grows).trans hl.grows)
    · next hdup =>
      refine Runs.pure fun _ _ _ => ?_
      cases hf with
      | fault hp => exact .fault hp
      | error _ he =>
        rw [run_insertDedupe_error he] at hdup
        exact absurd rfl hdup
  · exact hk appliedAt d v hnew (hw.trans hv)

theorem runs_commit_points (hc : 𝓔.calls t = .points m) (hid : extractEventID m ≠ 0)
    (hnew : ∀ r ∈ d.consumerDedupe, r.lock ≠ .dedupe pointsConsumer (extractEventID m))
    (hp : (Lock.dedupe pointsConsumer (extractEventID m), d) ∈ pins)
    (own : Own t (.dedupe ⟨pointsConsumer, extractEventID m, appliedAt⟩ :: ws) pins w)
    (hpoints : ∀ x, At 𝓔 t (.dedupe ⟨pointsConsumer, extractEventID m, appliedAt⟩ :: ws) pins w x →
      Points m (extractEventID m) x.db ws ∧ Backed 𝓔 t ws x) :
    Runs 𝓔.logic t (commitTx retFail >>= fun _ => pure (.ok ())) (PointsPost 𝓔 t m)
      (PointsPost 𝓔 t m) w := by
  refine runs_commit_return own (fun _ _ _ _ _ hp _ _ _ _ => .fault hp) fun x hx => ?_
  let p : Deduped pointsConsumer (extractEventID m) x.db := ⟨appliedAt, hx.own.newDedupe hp hnew⟩
  refine ⟨.dedupe p.row :: ws, rfl, hx.inv.points hc hid p (hpoints x hx).1,
    (hpoints x hx).2.cons (by rw [hc]; rfl) rfl, fun v _ _ hg _ =>
      ⟨p.row, hg.consumerDedupe.subset ?_, rfl⟩⟩
  simp [Write.apply]

theorem safe_points_withTx {k : GoBody (Except Err Unit) (Except Err Unit)}
    (hc : 𝓔.calls t = .points m) (hfresh : w.store.committedBy t = [] ∧ w.aofBy t = [])
    (hk : ∀ appliedAt d v,
      (∀ r ∈ d.consumerDedupe, r.lock ≠ .dedupe pointsConsumer (extractEventID m)) →
      Own t [.dedupe ⟨pointsConsumer, extractEventID m, appliedAt⟩]
        [(.dedupe pointsConsumer (extractEventID m), d)] v →
      Runs 𝓔.logic t k (PointsPost 𝓔 t m) (PointsPost 𝓔 t m) v) :
    Safe 𝓔.logic t (PointsPost 𝓔 t m)
    (withTx retFail (unlessDuplicate (extractEventID m) k)) w := by
  refine safe_withTx hfresh (fun _ _ _ hp _ _ _ _ => .fault hp)
    (fun v hv => runs_unlessDuplicate hc hv.own fun n d v hnew hv => hk n d v hnew hv.own)
    (fun r v _ _ => ?_) (by rw [hc]; nofun) fun r v v' _ hl _ h => h.mono hl.grows
  unfold Dead
  rw [hc]
  trivial

theorem points_failed {u v : World} {x : FanPoint} {e : SqlErr} (hrow : m.point = some x)
    (hx : x.eventID = extractEventID m) (hws : ws.filterMap Write.fanPoint? = [])
    (hnew : ∀ r ∈ d.consumerDedupe, r.lock ≠ .dedupe pointsConsumer (extractEventID m))
    (hp : (Lock.dedupe pointsConsumer (extractEventID m), d) ∈ pins)
    (hu : At 𝓔 t ws pins w u) (hf : Fails 𝓔 t ws (.insertFanPoint x) u e) :
    PointsPost 𝓔 t m (retFail e) v := by
  cases hf with
  | fault h => exact .fault h
  | error _ he =>
    rcases run_insertFanPoint_error he with hpay | ⟨y, hy, hid⟩
    · exact .unpayable hrow fun h => hpay (hu.inv.payable.mpr h)
    · rw [applyAll_fanPoints, hws, List.append_nil] at hy
      refine .taken hu.inv ?_ (.inl ⟨y, hy, hid.trans hx⟩)
      rintro ⟨r, hr, hk⟩
      exact hu.own.newDedupe hp hnew r hr hk

theorem safe_applyGift {evt : LiveGiftAcceptedV1} (hc : 𝓔.calls t = .points m)
    (hid : extractEventID m ≠ 0) (htopic : m.topic = giftAcceptedTopic)
    (hevt : m.value.unmarshalGiftAccepted = some evt)
    (hfresh : w.store.committedBy t = [] ∧ w.aofBy t = []) :
    Safe 𝓔.logic t (PointsPost 𝓔 t m) (applyGift (extractEventID m) evt) w := by
  have hrow : m.point = some (evt.fanPoint (extractEventID m)) := by
    rw [Message.point, if_pos htopic, hevt]
    rfl
  refine safe_points_withTx hc hfresh fun appliedAt d v hnew own => ?_
  refine Runs.bind (runs_insertFanPoint own (fun e u v hu hf _ => ?_) fun d₁ v hfan hpay hv => ?_)
  · exact points_failed hrow rfl rfl hnew (by simp) hu hf
  have hgift : ∀ {ws pins x}, At 𝓔 t ws pins v x → (Lock.fanPoint (extractEventID m), d₁) ∈ pins →
      (evt.campaignID ≠ none → ∀ r ∈ x.db.campaignPoints, r.eventID ≠ extractEventID m) →
      Points m (extractEventID m) x.db _ := fun hx hp hcamp =>
    .gift htopic hevt (hx.own.newFanPoint hp hfan) hcamp (hx.inv.grows.payable.mpr hpay)
  split
  · next c hcamp =>
    refine Runs.bind (runs_insertCampaignPoint hv.own (fun e u v hu hf _ => ?_)
      fun d₂ v hcp hv' => ?_)
    · cases hf with
      | fault h => exact .fault h
      | error _ he =>
        have huser : u.db.users evt.creatorID ≠ none := by
          rw [hu.inv.grows.users]
          exact hpay.2.2.1
        obtain ⟨y, hy, hyid⟩ := run_insertCampaignPoint_error hpay.1
          (by rwa [applyAll_users]) he
        refine .taken hu.inv ?_ (.inr ⟨y, by simpa [Write.apply] using hy, hyid⟩)
        rintro ⟨r, hr, hk⟩
        exact hu.own.newDedupe (by simp) hnew r hr hk
    refine runs_commit_points hc hid hnew (by simp) hv'.own fun x hx => ?_
    have := hgift (hv'.trans hx) (by simp) fun _ => hx.own.newCampaignPoint (by simp) hcp
    rw [hcamp] at this
    exact ⟨this, .plain (by rw [hc]; rfl) (by simp [Write.backed])⟩
  · next hcamp =>
    refine runs_commit_points hc hid hnew (by simp) hv.own fun x hx => ?_
    have := hgift hx (by simp) fun h => absurd hcamp h
    rw [hcamp] at this
    exact ⟨this, .plain (by rw [hc]; rfl) (by simp [Write.backed])⟩

theorem safe_applyCapped {viewerID creatorID liveSessionID : ℕ} {reason : PointReason}
    (hc : 𝓔.calls t = .points m) (hid : extractEventID m ≠ 0) (htopic : m.topic ≠ giftAcceptedTopic)
    (hrow : m.cappedPoint =
      some ⟨extractEventID m, viewerID, creatorID, liveSessionID, 1, reason⟩)
    (hfresh : w.store.committedBy t = [] ∧ w.aofBy t = []) :
    Safe 𝓔.logic t (PointsPost 𝓔 t m)
      (applyCapped (extractEventID m) viewerID creatorID liveSessionID reason reason.cap) w := by
  have hpoint : m.point = _ := (if_neg htopic).trans hrow
  refine safe_points_withTx hc hfresh fun appliedAt d v hnew own => ?_
  refine Runs.bind (runs_read rfl own (fun e u v _ hf _ => ?_) fun r rank u v hu hr hv => ?_)
  · cases hf with
    | fault h => exact .fault h
    | error _ he => cases he
  -- the rows were counted in `u`, inside the transaction
  have hcount : u.db.fanPoints.countP (FanPoint.alike
      ⟨extractEventID m, viewerID, creatorID, liveSessionID, 1, reason⟩) = r := Except.ok.inj hr
  split
  · next hcap =>
    refine runs_commit_points hc hid hnew (by simp) hv.own fun x hx =>
      ⟨.capped htopic hrow ?_, .plain (by rw [hc]; rfl) (by simp)⟩
    calc reason.cap ≤ u.db.fanPoints.countP _ := hcount ▸ hcap
      _ ≤ x.db.fanPoints.countP _ :=
        (hv.later.grows.trans hx.later.grows).fanPoints.sublist.countP_le
  next hcap =>
  have huv := hv
  refine Runs.bind
    (runs_insertFanPoint hv.own (fun e u v hu hf _ => ?_) fun d₁ v hfan hpay hv => ?_)
  · exact points_failed hpoint rfl rfl hnew (by simp) hu hf
  refine runs_commit_points hc hid hnew (by simp) hv.own fun x hx =>
    ⟨.counted htopic hrow (hx.own.newFanPoint (by simp) hfan) (hx.inv.grows.payable.mpr hpay),
      by simp, by rw [hc]; nofun, by simp, ?_⟩
  rintro r' hr' -
  obtain rfl := Write.fanPoint.inj (List.mem_singleton.mp hr')
  refine ⟨u.store.binlog, ((huv.trans hv).trans hx).since (by simp [hu.own.opened]), ?_⟩
  rw [← hu.inv.db_eq]
  exact lt_of_eq_of_lt hcount (not_le.mp hcap)

end Body

theorem safe_pointsApply {p : Go (Except Err Unit)} (hc : 𝓔.calls t = .points m)
    (htopic : m.topic ∈ pointsTopics) (hid : extractEventID m ≠ 0)
    (hfresh : w.store.committedBy t = [] ∧ w.aofBy t = [])
    (hp : pointsApply m (extractEventID m) = some p) : Safe 𝓔.logic t (PointsPost 𝓔 t m) p w := by
  unfold pointsApply at hp
  split at hp
  · next htop =>
    obtain ⟨evt, hevt, rfl⟩ := Option.map_eq_some_iff.mp hp
    exact safe_applyGift hc hid htop hevt hfresh
  next hgift =>
  split at hp
  · next hcomment =>
    obtain ⟨evt, hevt, rfl⟩ := Option.map_eq_some_iff.mp hp
    refine safe_applyCapped hc hid hgift ?_ hfresh
    rw [Message.cappedPoint, if_pos hcomment, hevt]
    rfl
  next hcomment =>
  split at hp
  · next hwatch =>
    obtain ⟨evt, hevt, rfl⟩ := Option.map_eq_some_iff.mp hp
    refine safe_applyCapped hc hid hgift ?_ hfresh
    rw [Message.cappedPoint, if_neg hcomment, if_pos hwatch, hevt]
    rfl
  · next hwatch => simp [pointsTopics, hgift, hcomment, hwatch] at htopic

def PointsHandled (𝓔 : Env) (t : ℕ) (m : Message) (r : Except Err Unit) (w : World) : Prop :=
  match r with
  | .ok _ => extractEventID m = 0 ∨ pointsApply m (extractEventID m) = none ∨
      w.db.Recorded pointsConsumer m
  | .error _ => PointsFails 𝓔 t m

theorem safe_pointsHandle (hc : 𝓔.calls t = .points m) (htopic : m.topic ∈ pointsTopics)
    (hfresh : w.store.committedBy t = [] ∧ w.aofBy t = []) :
    Safe 𝓔.logic t (PointsHandled 𝓔 t m) (pointsHandle m) w := by
  have hdead : ∀ v, Dead 𝓔 t v := fun v => by
    unfold Dead
    rw [hc]
    trivial
  have hmark : ∀ {metadata v}, (metadata = "missing_event_id" → extractEventID m = 0) →
      (∀ u, 𝓔.Rely t v u → Inv 𝓔 u → PointsHandled 𝓔 t m (.ok ()) u) →
      Safe 𝓔.logic t (PointsHandled 𝓔 t m) (markDone pointsGroup metadata m) v := fun {_ _} hz h =>
    safe_markDone (fun v _ _ => hdead v)
      (fun u hu hi => by rw [hc]; exact ⟨rfl, rfl, hz, h u hu hi⟩) h
  unfold pointsHandle
  dsimp only
  split
  · next h0 => exact hmark (fun _ => h0) fun _ _ _ => .inl h0
  next hid =>
  split
  · next hnone => exact hmark (fun h => absurd h (by decide)) fun _ _ _ => .inr (.inl hnone)
  next p hp =>
  refine Safe.bind (Safe.mono (Safe.keep (safe_pointsApply hc htopic hid hfresh hp))
    fun r v hi h => ?_)
  cases r with
  | error e => exact fun u hu hiu => h u hu hiu
  | ok _ =>
    exact hmark (fun h => absurd h (by decide)) fun u hu hiu => .inr (.inr (h u hu hiu))

end LiveRevenue
