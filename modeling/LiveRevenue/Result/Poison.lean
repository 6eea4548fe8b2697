import LiveRevenue.Proof.Solo
import LiveRevenue.Result.Caps
import LiveRevenue.Result.Points

/-! # Events that cannot be applied

A handler that fails is called again with the same message, and its partition waits.
Without infrastructure errors the only reason to fail is a ledger row that the schema
refuses: one whose points do not fit their column or that refers to a viewer, creator
or session that does not exist. Neither is checked where the event is written.
-/

namespace LiveRevenue

open Transact

/-- Process `t` gets no infrastructure error and does not die. -/
def Unfailing (t : ℕ) (_ : State) (a : Act Choice) (_ : State) : Prop := failing? a ≠ some t

instance {t : ℕ} {s : State} {a : Act Choice} {s' : State} : Decidable (Unfailing t s a s') :=
  inferInstanceAs (Decidable (failing? a ≠ some t))

theorem only_unfailing {t : ℕ} (s : State) (a : Act Choice) (s' : State)
    (h : Only Choice.Ok t s a s') : Unfailing t s a s' := by
  rcases a with u | ⟨u, ch⟩ | u
  · simp [Unfailing, failing?]
  · cases ch with
    | ok _ _ => simp [Unfailing, failing?]
    | fault _ => exact h.2.elim
  · exact h.elim

def Env.unfailing (calls : ℕ → Call) (w : World) (t : ℕ) : Env where
  calls := calls
  start := w
  permit u _ ch _ := failing? (.run u ch) ≠ some t
  crash _ _ _ := True
  bars _ _ := False

theorem Env.unfailing_allows {calls : ℕ → Call} {w : World} {t : ℕ} (s : State) (a : Act Choice)
    (s' : State) (h : Unfailing t s a s') : (Env.unfailing calls w t).Allows s a s' := by
  cases a with
  | start u => trivial
  | run u ch => exact ⟨fun _ _ => h, fun _ _ _ _ _ hb => hb⟩
  | crash u => exact fun _ _ => trivial

def Call.activity : Call → Option (ℕ × ℕ × ℕ × PointReason)
  | .enqueueComment req => some (req.viewerID, req.creatorID, req.liveSessionID, .comment)
  | .enqueueWatchMinutes req => some (req.viewerID, req.creatorID, req.liveSessionID, .watchMinute)
  | _ => none

/-- The viewer, the creator and the session exist. -/
def DB.Attributable (d : DB) (viewerID creatorID liveSessionID : ℕ) : Prop :=
  d.users viewerID ≠ none ∧ d.users creatorID ≠ none ∧ d.liveSessions liveSessionID ≠ none

instance {d : DB} {viewerID creatorID liveSessionID : ℕ} :
    Decidable (d.Attributable viewerID creatorID liveSessionID) :=
  inferInstanceAs (Decidable (_ ∧ _))

theorem pointsApply_of_point [Platform] {m : Message} {r : FanPoint} (h : m.point = some r)
    (eventID : ℕ) : pointsApply m eventID ≠ none := by
  unfold Message.point Message.cappedPoint at h
  unfold pointsApply
  intro hn
  split at hn
  · next ht =>
    rw [if_pos ht, Option.map_eq_none_iff.mp hn] at h
    cases h
  next hg =>
  rw [if_neg hg] at h
  split at hn
  · next ht =>
    rw [if_pos ht, Option.map_eq_none_iff.mp hn] at h
    cases h
  next hc =>
  rw [if_neg hc] at h
  split at hn
  · next ht =>
    rw [if_pos ht, Option.map_eq_none_iff.mp hn] at h
    cases h
  · cases hn

section Histories

variable [Platform] {d : DB} {h : History} {c : Call} {ws : List Write}

theorem Txn.deduped_of_point (ht : Txn d h c ws) {id : ℕ}
    (hid : (∃ p ∈ ws.filterMap Write.fanPoint?, p.eventID = id) ∨
      ∃ p ∈ ws.filterMap Write.campaignPoint?, p.eventID = id) :
    ∃ r ∈ ws.filterMap Write.dedupe?, r.lock = .dedupe pointsConsumer id := by
  cases ht with
  | @points m vs p _ hp =>
    refine ⟨p.row, by simp, ?_⟩
    cases hp with
    | gift =>
      rcases hid with ⟨x, hx, rfl⟩ | ⟨x, hx, rfl⟩
      · obtain rfl : x = _ := by simpa [List.filterMap_cons] using hx
        rfl
      · obtain ⟨k, -, rfl⟩ : ∃ k, _ ∧ _ = x := by
          simpa [List.filterMap_cons, List.filterMap_map, Function.comp_def] using hx
        rfl
    | capped => simp [List.filterMap_cons] at hid
    | counted _ hrow =>
      obtain rfl : _ = id := by simpa [List.filterMap_cons] using hid
      rw [(cappedPoint_spec hrow).1]
      rfl
  | _ => simp at hid

theorem Legal.recorded_of_point {calls : ℕ → Call} (hl : Legal calls d h) (hb : d.Blank) {id : ℕ}
    (hid : (∃ p ∈ (dbAt d h).fanPoints, p.eventID = id) ∨
      ∃ p ∈ (dbAt d h).campaignPoints, p.eventID = id) :
    ∃ r ∈ (dbAt d h).consumerDedupe, r.lock = .dedupe pointsConsumer id := by
  have hentry : ∃ e ∈ h, (∃ p ∈ e.2.filterMap Write.fanPoint?, p.eventID = id) ∨
      ∃ p ∈ e.2.filterMap Write.campaignPoint?, p.eventID = id := by
    rcases hid with ⟨p, hp, hid⟩ | ⟨p, hp, hid⟩
    · rw [mem_dbAt (fun _ _ => applyAll_fanPoints), hb.fanPoints] at hp
      rcases hp with hp | ⟨e, he, hp⟩
      · cases hp
      · exact ⟨e, he, .inl ⟨p, hp, hid⟩⟩
    · rw [mem_dbAt (fun _ _ => applyAll_campaignPoints), hb.campaignPoints] at hp
      rcases hp with hp | ⟨e, he, hp⟩
      · cases hp
      · exact ⟨e, he, .inr ⟨p, hp, hid⟩⟩
  obtain ⟨e, he, hid⟩ := hentry
  obtain ⟨_, _, -, -, ht⟩ := hl.at he
  obtain ⟨r, hr, hlock⟩ := ht.deduped_of_point hid
  exact ⟨r, (mem_dbAt (fun _ _ => applyAll_consumerDedupe)).mpr (.inr ⟨e, he, hr⟩), hlock⟩

end Histories

theorem reach_recorded_payable [Platform] {calls : ℕ → Call} {w : World} {s : State} {m : Message}
    {K : State → Act Choice → State → Prop} (hs : Start w) (hb : w.db.Blank)
    (h : (system calls).Reach K (Pool.fresh w) s) (hlog : m ∈ s.world.log.map (·.2))
    (hrec : s.world.db.Recorded pointsConsumer m) {r : FanPoint} (hr : m.point = some r) :
    w.db.Payable r ∨
      r.reason ≠ .gift ∧ r.reason.cap ≤ s.world.db.fanPoints.countP r.alike := by
  have hd := (reach_legal hs h).2
  obtain ⟨u, _, ws, h₁, h₂, hbin, -, hp⟩ := reach_pointsApplied hs hb h hlog hrec
  have hpay : ∀ {x}, (dbAt w.db h₁).Payable x → w.db.Payable x :=
    fun hx => (grows_dbAt w.db h₁).payable.mp hx
  cases hp with
  | @gift evt ht hevt _ _ hx =>
    rw [Message.point, if_pos ht, hevt] at hr
    obtain rfl := Option.some.inj hr
    exact .inl (hpay hx)
  | capped ht hrow hcap =>
    rw [Message.point, if_neg ht, hrow] at hr
    obtain rfl := Option.some.inj hr
    refine .inr ⟨(cappedPoint_spec hrow).2.1, hcap.trans ?_⟩
    rw [hd, hbin, dbAt_append]
    exact (grows_dbAt _ _).fanPoints.sublist.countP_le
  | counted ht hrow _ hx =>
    rw [Message.point, if_neg ht, hrow] at hr
    obtain rfl := Option.some.inj hr
    exact .inl (hpay hx)

section Runs

variable [Platform] {calls : ℕ → Call} {w : World} {s : State} {t : ℕ} {m : Message}
  (hs : Start w) (hb : w.db.Blank) (h : (system calls).Reach (Unfailing t) (Pool.fresh w) s)
  (hc : calls t = .points m)
include hs h hc

theorem reach_pointsHandled {o : Outcome} (ho : (s.threads t).result? = some o) :
    ∃ res, o = .handled res ∧ PointsHandled (.unfailing calls w t) t m res s.world := by
  have hfin := (reach_good (.unfailing calls w t) hs Env.unfailing_allows h).result ho
  rw [show (Env.unfailing calls w t).calls t = .points m from hc] at hfin
  cases hfin with
  | points hp => exact ⟨_, rfl, hp⟩

include hb

/-- A handler without infrastructure errors fails only on a row the ledger refuses. -/
theorem reach_points_ok {r : FanPoint} (hr : m.point = some r) (hpay : w.db.Payable r) {o : Outcome}
    (ho : (s.threads t).result? = some o) : o = .handled (.ok ()) := by
  obtain ⟨res, rfl, hp⟩ := reach_pointsHandled hs h hc ho
  cases res with
  | ok _ => rfl
  | error e =>
    cases hp with
    | fault hf => exact absurd rfl hf
    | unpayable hr' hn =>
      obtain rfl := Option.some.inj (hr.symm.trans hr')
      exact absurd hpay hn
    | taken hi hn hid =>
      have hl := hi.legal
      rw [hi.db_eq] at hid hn
      exact absurd (hl.recorded_of_point hb hid) hn

theorem reach_points_payable {r : FanPoint} (hr : m.point = some r)
    (ho : (s.threads t).result? = some (.handled (.ok ()))) :
    w.db.Payable r ∨
      r.reason ≠ .gift ∧ r.reason.cap ≤ s.world.db.fanPoints.countP r.alike := by
  have hi := (reach_good (.any calls w) hs Env.any_allows h).1
  have hlog : m ∈ s.world.log.map (·.2) := by
    refine (reach_delivery hs h).started t m (by rw [hc]; rfl) fun hidle => ?_
    rw [hidle] at ho
    cases ho
  obtain ⟨_, he, hp⟩ := reach_pointsHandled hs h hc ho
  cases he
  rcases hp with hzero | hnone | hrec
  · obtain ⟨row, hrow, -, hid⟩ := hi.row_of_message hlog
    have hpos := (hi.engine.below.outboxEvents row hrow).1
    omega
  · exact absurd hnone (pointsApply_of_point hr _)
  · exact reach_recorded_payable hs hb h hlog hrec hr

omit hs hb hc in
theorem reach_alive : s.threads t ≠ .dead := by
  refine h.induct (P := fun s => s.threads t ≠ .dead) (by simp [Pool.fresh]) ?_
  intro x a x' _ halive hstep hk
  -- only a crash of `t` itself kills it
  have hset : ∀ {u : ℕ} {th : Thread Cmd Cmd.Resp Outcome} {v : World}, (u = t → th ≠ .dead) →
      (x.setThread u th v).threads t ≠ .dead := fun {u th v} hth => by
    by_cases hu : t = u
    · subst hu
      rw [Pool.setThread_self]
      exact hth rfl
    · rwa [Pool.setThread_of_ne hu]
  cases a with
  | start u =>
    obtain ⟨-, -, rfl⟩ := Machine.step_start hstep
    exact hset fun _ => by simp
  | run u ch =>
    obtain ⟨c, k, r, v, -, -, rfl⟩ := Machine.step_run hstep
    exact hset fun _ => by simp
  | crash u =>
    obtain ⟨c, k, -, rfl⟩ := Machine.step_crash hstep
    exact hset fun hu => absurd (congrArg some hu) hk

omit hb hc in
theorem reach_ends (hclear : s.world.Undisturbed t) (hready : (calls t).ready s.world = true) :
    ∃ s' o, (system calls).Reach (Unfailing t) s s' ∧ (s'.threads t).result? = some o := by
  obtain ⟨s', o, hr, ho⟩ := reach_finishes hs h hclear hready (reach_alive h)
  exact ⟨s', o, hr.mono only_unfailing, ho⟩

end Runs

section Ingested

variable [Platform] {d : DB} {h : History} {ws : List Write} {c : Call}
  {r : OutboxRow} {m : Message}
  {viewerID creatorID liveSessionID : ℕ} {reason : PointReason}

theorem Emits.activity_point (he : Emits d h ws r c)
    (ha : c.activity = some (viewerID, creatorID, liveSessionID, reason))
    (hm : r.message = some m) :
    m.point = some ⟨extractEventID m, viewerID, creatorID, liveSessionID, 1, reason⟩ := by
  have ht := message_topic hm
  have hv := message_value hm
  cases he with
  | commented p _ hr =>
    cases ha
    obtain ⟨htopic, -, hpayload, -⟩ := p.row hr
    rw [htopic] at ht
    rw [List.mem_singleton.mp hpayload] at hv
    rw [Message.point, if_neg (by rw [ht]; decide), Message.cappedPoint, if_pos ht, hv]
    rfl
  | watched p _ hr =>
    cases ha
    obtain ⟨htopic, -, hpayload, -⟩ := p.row hr
    obtain ⟨i, -, hpayload⟩ := List.mem_map.mp hpayload
    rw [htopic] at ht
    rw [← hpayload] at hv
    rw [Message.point, if_neg (by rw [ht]; decide), Message.cappedPoint,
      if_neg (by rw [ht]; decide), if_pos ht, hv]
    rfl
  | _ => cases ha

/-- The event of a comment or a watched minute is applied, in every run without infrastructure
errors of its handler, if the ids in it exist, and otherwise only past the cap. -/
theorem ingested_events_apply (calls : ℕ → Call) {w : World} (hs : Start w) (hb : w.db.Blank)
    {s : State} {t : ℕ} (h : (system calls).Reach (Unfailing t) (Pool.fresh w) s)
    {u : ℕ} (hu : (u, ws) ∈ s.world.store.binlog)
    (ha : (calls u).activity = some (viewerID, creatorID, liveSessionID, reason))
    (hr : .outbox r ∈ ws) (hm : r.message = some m) (hc : calls t = .points m) :
    (∀ o, (s.threads t).result? = some o →
      (w.db.Attributable viewerID creatorID liveSessionID → o = .handled (.ok ())) ∧
      (o = .handled (.ok ()) → w.db.Attributable viewerID creatorID liveSessionID ∨
        reason.cap ≤ s.world.db.pointCount viewerID liveSessionID reason)) ∧
    (s.world.Undisturbed t → (calls t).ready s.world = true →
      ∃ s' o, (system calls).Reach (Unfailing t) s s' ∧ (s'.threads t).result? = some o) := by
  obtain ⟨_, _, -, -, ht⟩ := (reach_legal hs h).1.at hu
  have hpoint := (ht.of_outbox (List.mem_filterMap.mpr ⟨_, hr, rfl⟩)).activity_point ha hm
  refine ⟨fun o ho => ⟨fun hx => ?_, ?_⟩, fun hclear hready => ?_⟩
  · exact reach_points_ok hs hb h hc hpoint ⟨Nat.one_lt_two_pow (by decide), hx⟩ ho
  · rintro rfl
    rcases reach_points_payable hs hb h hc hpoint ho with hx | ⟨-, hcap⟩
    · exact .inl hx.2
    · exact .inr hcap
  · exact reach_ends hs h hclear hready

end Ingested

section IngestedWitness

open Plain

/-- A comment of a known viewer is counted. -/
theorem ingested_events_apply_comment : ∃ s : State, s.world.db.pointCount 2001 9001 .comment = 1 ∧
    (s.threads 2).result? = some (.handled (.ok ())) := by
  obtain ⟨s, hr, hp⟩ := Machine.exists_reach (M := system (comments 1))
    (s := Pool.fresh (World.boot migrated)) (K := fun s a s' => decide (Unfailing 2 s a s'))
    (p := fun s => decide (s.world.db.pointCount 2001 9001 .comment = 1 ∧
      (0, [.outbox ⟨1, commentTopic, "9001", .comment ⟨"c", 2001, 1001, 9001⟩, none, 4⟩]) ∈
        s.world.store.binlog ∧ (s.threads 2).result?.isSome))
    (ingest 1 ++ launch 2 8 6) (by decide +kernel)
  obtain ⟨hcount, hlog, hsome⟩ := of_decide_eq_true hp
  obtain ⟨o, ho⟩ := Option.isSome_iff_exists.mp hsome
  have hok := ((ingested_events_apply (comments 1) (Start.boot rfl rfl rfl rfl) migrated_blank
    (hr.mono fun _ _ _ hk => of_decide_eq_true hk) hlog rfl List.mem_cons_self rfl rfl).1 o ho).1
    (by decide)
  exact ⟨s, hcount, hok ▸ ho⟩

def strangerComment : ℕ → Call
  | 0 => .enqueueComment ⟨"c", 9999, 1001, 9001⟩
  | 1 => .runOnce 100
  | _ => .points ⟨commentTopic, "9001", .comment ⟨"c", 9999, 1001, 9001⟩, [("event_id", "1")]⟩

/-- The comment is accepted; without any infrastructure error, its event fails however often it
is delivered. -/
theorem stranger_comment_blocks : ∃ s : State,
    (system strangerComment).Reach (fun _ a _ => failing? a = none)
      (Pool.fresh (World.boot migrated)) s ∧
    (s.threads 0).result? = some (.commented none) ∧
    (s.threads 2).result? = some (.handled (.error (.sql .foreignKey))) ∧
    (s.threads 3).result? = some (.handled (.error (.sql .foreignKey))) := by
  obtain ⟨s, hr, hp⟩ := Machine.exists_reach (M := system strangerComment)
    (s := Pool.fresh (World.boot migrated)) (K := fun _ a _ => decide (failing? a = none))
    (p := fun s => decide ((s.threads 0).result? = some (.commented none) ∧
      (s.threads 2).result? = some (.handled (.error (.sql .foreignKey))) ∧
      (s.threads 3).result? = some (.handled (.error (.sql .foreignKey)))))
    (ingest 1 ++ launch 2 6 6 ++ launch 3 6 7) (by decide +kernel)
  exact ⟨s, hr.mono fun _ _ _ hk => of_decide_eq_true hk, of_decide_eq_true hp⟩

end IngestedWitness

section Gifts

variable [Platform] {d : DB} {h : History} {ws : List Write} {r : OutboxRow} {m : Message}
  {req : GiftRequest}

theorem Emits.gift_point (he : Emits d h ws r (.sendGift req)) (ht : r.topic = giftAcceptedTopic)
    (hm : r.message = some m) {g : Gift} (hg : d.giftCatalog.find? (fun x =>
      Platform.collate x.giftID = Platform.collate req.giftID) = some g) :
    ∃ p, m.point = some p ∧ p.reason = .gift ∧
      (d.Payable p ↔ wrap64 (g.coinPrice * req.quantity) < 2 ^ 31) := by
  have hgrows := grows_dbAt d h
  cases he with
  | rejected p _ hr =>
    rw [hr] at ht
    exact absurd ht (by decide : giftRejectedTopic ≠ giftAcceptedTopic)
  | debited p _ hr =>
    rw [hr] at ht
    exact absurd ht (by decide : walletTopic ≠ giftAcceptedTopic)
  | accepted p _ hr =>
    have htopic := (message_topic hm).trans ht
    have hvalue := message_value hm
    rw [hr] at hvalue
    refine ⟨_, by rw [Message.point, if_pos htopic, hvalue]; rfl, rfl, ?_⟩
    have hgift : p.gift = g := by
      have hfind := p.gift_eq
      rw [hgrows.giftCatalog, hg] at hfind
      exact (Option.some.inj hfind).symm
    have hpos := p.charged_pos
    obtain ⟨c, hcreator, -⟩ := p.creator
    rw [← hgrows.payable, ← hgift, ← p.charged_eq]
    constructor
    · intro hpay
      have hlt : p.amounts.charged.toNat < 2 ^ 31 := hpay.1
      omega
    · intro hlt
      refine ⟨?_, p.viewer, ?_, ?_⟩
      · change p.amounts.charged.toNat < 2 ^ 31
        omega
      · change (dbAt d h).users req.creatorID ≠ none
        rw [hcreator]
        exact Option.some_ne_none c
      · change (dbAt d h).liveSessions req.liveSessionID ≠ none
        rw [p.session_eq]
        exact Option.some_ne_none _

/-- The event of an accepted gift is applied, in every run without infrastructure errors of its
handler, exactly if the price paid fits the points column. -/
theorem gift_events_apply (calls : ℕ → Call) {w : World} (hs : Start w) (hb : w.db.Blank)
    {s : State} {t : ℕ} (h : (system calls).Reach (Unfailing t) (Pool.fresh w) s)
    {u : ℕ} (hu : (u, ws) ∈ s.world.store.binlog) (hcall : calls u = .sendGift req)
    (hr : .outbox r ∈ ws) (htopic : r.topic = giftAcceptedTopic) (hm : r.message = some m)
    (hc : calls t = .points m) {g : Gift} (hg : w.db.giftCatalog.find? (fun x =>
      Platform.collate x.giftID = Platform.collate req.giftID) = some g) :
    (∀ o, (s.threads t).result? = some o →
      (o = .handled (.ok ()) ↔ wrap64 (g.coinPrice * req.quantity) < 2 ^ 31)) ∧
    (s.world.Undisturbed t → (calls t).ready s.world = true →
      ∃ s' o, (system calls).Reach (Unfailing t) s s' ∧ (s'.threads t).result? = some o) := by
  obtain ⟨_, _, -, -, ht⟩ := (reach_legal hs h).1.at hu
  rw [hcall] at ht
  obtain ⟨p, hpoint, hreason, hpay⟩ :=
    (ht.of_outbox (List.mem_filterMap.mpr ⟨_, hr, rfl⟩)).gift_point htopic hm hg
  refine ⟨fun o ho => ?_, reach_ends hs h⟩
  rw [← hpay]
  constructor
  · rintro rfl
    rcases reach_points_payable hs hb h hc hpoint ho with hx | ⟨hne, -⟩
    · exact hx
    · exact absurd hreason hne
  · intro hx
    exact reach_points_ok hs hb h hc hpoint hx ho

end Gifts

section GiftsWitness

open Plain

theorem gift_events_apply_roses : ∃ s : State, s.world.db.fanPoints.length = 1 ∧
    (s.threads 2).result? = some (.handled (.ok ())) := by
  obtain ⟨s, hr, hp⟩ := Machine.exists_reach (M := system giftAndPoints)
    (s := Pool.fresh (World.boot migrated)) (K := fun s a s' => decide (Unfailing 2 s a s'))
    (p := fun s => decide (s.world.db.fanPoints.length = 1 ∧ (∃ e ∈ s.world.store.binlog, e.1 = 0 ∧
      .outbox ⟨2, giftAcceptedTopic, "9001", giftMessage.value, none, 5⟩ ∈ e.2) ∧
      (s.threads 2).result?.isSome))
    (launch 0 20 5 ++ launch 1 9 6 ++ launch 2 8 7) (by decide +kernel)
  obtain ⟨hrows, ⟨⟨u, ws⟩, hlog, rfl, hevent⟩, hsome⟩ := of_decide_eq_true hp
  obtain ⟨o, ho⟩ := Option.isSome_iff_exists.mp hsome
  have hok := ((gift_events_apply giftAndPoints (Start.boot rfl rfl rfl rfl) migrated_blank
    (hr.mono fun _ _ _ hk => of_decide_eq_true hk) hlog rfl hevent rfl rfl rfl
    (g := ⟨"ROSE", 1, 1, 1, true, by decide, by decide, by decide⟩) rfl).1 o ho).mpr
    (by rw [wrap64_of_bounds] <;> decide)
  exact ⟨s, hrows, hok ▸ ho⟩

theorem price_lt_coins : 2 ^ 31 < 2 ^ 32 := by decide

def preciousGift : DB :=
  { migrated with
    giftCatalog := [⟨"PLANET", 2 ^ 31, 1, 1, true, price_lt_coins, one_lt_uint32, one_lt_uint32⟩]
    walletAccounts := fun u => if u = 2001 then some (2 ^ 31) else none }

def preciousGiftSent : ℕ → Call
  | 0 => .sendGift ⟨"g1", 2001, 1001, 9001, none, "PLANET", 1, 0⟩
  | 1 => .runOnce 100
  | _ => .points ⟨giftAcceptedTopic, "9001", .giftAccepted ⟨giftAcceptedTopic, 1, 2001, 1001, 9001,
      some 7001, none, "PLANET", 1, 2 ^ 31, 1, 1, "g1"⟩, [("event_id", "2")]⟩

/-- The viewer is charged; without any infrastructure error, the event of the gift fails however
often it is delivered. -/
theorem precious_gift_blocks : ∃ s : State,
    (system preciousGiftSent).Reach (fun _ a _ => failing? a = none)
      (Pool.fresh (World.boot preciousGift)) s ∧
    s.world.db.walletAccounts 2001 = some 0 ∧
    (s.threads 2).result? = some (.handled (.error (.sql .outOfRange))) ∧
    (s.threads 3).result? = some (.handled (.error (.sql .outOfRange))) := by
  obtain ⟨s, hr, hp⟩ := Machine.exists_reach (M := system preciousGiftSent)
    (s := Pool.fresh (World.boot preciousGift)) (K := fun _ a _ => decide (failing? a = none))
    (p := fun s => decide (s.world.db.walletAccounts 2001 = some 0 ∧
      (s.threads 2).result? = some (.handled (.error (.sql .outOfRange))) ∧
      (s.threads 3).result? = some (.handled (.error (.sql .outOfRange)))))
    (launch 0 20 5 ++ launch 1 9 6 ++ launch 2 5 7 ++ launch 3 5 8) (by decide +kernel)
  exact ⟨s, hr.mono fun _ _ _ hk => of_decide_eq_true hk, of_decide_eq_true hp⟩

end GiftsWitness

end LiveRevenue
