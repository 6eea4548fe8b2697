import LiveRevenue.Proof.Delivery
import LiveRevenue.Result.Chain

/-! # Gift points, exactly once from end to end

An accepted order, its event and the event's message determine one another; the dedupe
row and the ledger rows of a message are one transaction. So each GIFT row stands for
one accepted order, and an acknowledged order has its rows.
-/

namespace LiveRevenue

open Transact

structure DB.GiftEvent (d : DB) (eventID : ℕ) (evt : LiveGiftAcceptedV1) (o : GiftOrder) :
    Prop where
  row : ∃ r ∈ d.outboxEvents, r.eventID = eventID ∧ r.topic = giftAcceptedTopic ∧
    r.payload = .giftAccepted evt
  order : o ∈ d.accepted
  announces : d.AnnouncesGift Varchar.Cut o (.giftAccepted evt)

/-- GIFT rows stand for accepted orders, through the event id and one to one; the campaign rows
are those of the same events. -/
structure GiftPointsExact (d : DB) : Prop where
  orders : ∀ p ∈ d.fanPoints, p.reason = .gift → ∃ evt o, d.GiftEvent p.eventID evt o ∧
    p = ⟨p.eventID, o.viewerID, o.creatorID, o.liveSessionID, o.chargedCoins, .gift⟩
  injective : ∀ p ∈ d.fanPoints, ∀ p' ∈ d.fanPoints, ∀ evt evt' o, p.reason = .gift →
    p'.reason = .gift → d.GiftEvent p.eventID evt o → d.GiftEvent p'.eventID evt' o → p = p'
  unique : (d.fanPoints.map (·.eventID)).Nodup
  campaigns : ∀ c, c ∈ d.campaignPoints ↔ ∃ p ∈ d.fanPoints, p.reason = .gift ∧ ∃ evt o k,
    d.GiftEvent p.eventID evt o ∧ evt.campaignID = some k ∧
    c = ⟨p.eventID, k, o.creatorID, o.chargedCoins⟩
  campaignsUnique : (d.campaignPoints.map (·.eventID)).Nodup

/-- An acknowledged order has its row. -/
def GiftPointsComplete (s : State) : Prop :=
  ∀ e ∈ s.world.marked, e.2.group = pointsGroup → ∀ r ∈ s.world.db.outboxEvents,
    r.message = some e.2.msg → ∀ evt o, s.world.db.GiftEvent r.eventID evt o →
      ∃ p ∈ s.world.db.fanPoints, p.reason = .gift ∧ p.eventID = r.eventID

/-- Tables without anything that a run of the system adds. -/
structure DB.Blank (d : DB) : Prop extends d.Unused where
  consumerDedupe : d.consumerDedupe = []
  fanPoints : d.fanPoints = []
  campaignPoints : d.campaignPoints = []

inductive Credits (d : DB) (ws : List Write) : Call → Prop where
  | nothing {c : Call} : ws.filterMap Write.fanPoint? = [] →
      ws.filterMap Write.campaignPoint? = [] → Credits d ws c
  | gift {m : Message} {evt : LiveGiftAcceptedV1} : m.topic = giftAcceptedTopic →
      m.value.unmarshalGiftAccepted = some evt →
      (∀ r ∈ d.fanPoints, r.eventID ≠ extractEventID m) →
      (evt.campaignID ≠ none → ∀ r ∈ d.campaignPoints, r.eventID ≠ extractEventID m) →
      ws.filterMap Write.fanPoint? = [evt.fanPoint (extractEventID m)] →
      ws.filterMap Write.campaignPoint? = evt.campaignPoints (extractEventID m) →
      Credits d ws (.points m)
  | capped {m : Message} {r : FanPoint} : m.cappedPoint = some r →
      (∀ r ∈ d.fanPoints, r.eventID ≠ extractEventID m) →
      ws.filterMap Write.fanPoint? = [r] → ws.filterMap Write.campaignPoint? = [] →
      Credits d ws (.points m)

theorem cappedPoint_spec {m : Message} {r : FanPoint} (h : m.cappedPoint = some r) :
    r.eventID = extractEventID m ∧ r.reason ≠ .gift ∧ r.points = 1 := by
  unfold Message.cappedPoint at h
  split at h
  · obtain ⟨evt, -, rfl⟩ := Option.map_eq_some_iff.mp h
    exact ⟨rfl, by simp, rfl⟩
  · split at h
    · obtain ⟨evt, -, rfl⟩ := Option.map_eq_some_iff.mp h
      exact ⟨rfl, by simp, rfl⟩
    · cases h

theorem Credits.new {d : DB} {ws : List Write} {c : Call} (hc : Credits d ws c) :
    ((ws.filterMap Write.fanPoint?).length ≤ 1 ∧ ∀ r' ∈ d.fanPoints,
      ∀ r ∈ ws.filterMap Write.fanPoint?, r'.eventID ≠ r.eventID) ∧
    (ws.filterMap Write.campaignPoint?).length ≤ 1 ∧ ∀ r' ∈ d.campaignPoints,
      ∀ r ∈ ws.filterMap Write.campaignPoint?, r'.eventID ≠ r.eventID := by
  cases hc with
  | nothing hf hk => simp [hf, hk]
  | @gift m evt _ _ hfan hcamp hf hk =>
    rw [hf, hk]
    refine ⟨⟨le_rfl, fun r' hr' r hr => ?_⟩, ?_, fun r' hr' r hr => ?_⟩
    · rw [List.mem_singleton.mp hr]
      exact hfan r' hr'
    · cases hcampaign : evt.campaignID <;> simp [LiveGiftAcceptedV1.campaignPoints, hcampaign]
    · obtain ⟨k, hk, rfl⟩ := List.mem_map.mp hr
      exact hcamp (by rintro hnone; simp [hnone] at hk) r' hr'
  | capped hrow hfan hf hk =>
    rw [hf, hk]
    refine ⟨⟨le_rfl, fun r' hr' r hr => ?_⟩, by simp, by simp⟩
    rw [List.mem_singleton.mp hr, (cappedPoint_spec hrow).1]
    exact hfan r' hr'

def Payload.giftOrderID : Payload → ℕ
  | .giftAccepted e => e.giftOrderID
  | _ => 0

theorem DB.AnnouncesGift.event {d : DB} {o : GiftOrder} {evt : LiveGiftAcceptedV1}
    (h : d.AnnouncesGift Varchar.Cut o (.giftAccepted evt)) : evt.giftOrderID = o.giftOrderID ∧
      evt.viewerID = o.viewerID ∧ evt.creatorID = o.creatorID ∧
      evt.liveSessionID = o.liveSessionID ∧ evt.chargedCoins = o.chargedCoins := by
  obtain ⟨s, _, _, -, -, -, he⟩ := h
  cases he
  exact ⟨rfl, rfl, rfl, rfl, rfl⟩

theorem giftOrderIDs_of_announced {d : DB} {os : List GiftOrder} {ps : List Payload}
    (h : List.Forall₂ (d.AnnouncesGift Varchar.Cut) os ps) :
    ps.map (·.giftOrderID) = os.map (·.giftOrderID) := by
  refine (List.Forall₂.map_eq h fun o p ha => ?_).symm
  obtain ⟨s, _, _, -, -, -, rfl⟩ := ha
  rfl

section General

variable [Platform] {d : DB} {h : History} {c : Call} {ws : List Write}

theorem Txn.credits (ht : Txn d h c ws) : Credits (dbAt d h) ws c := by
  cases ht with
  | @points m vs p _ hp =>
    cases hp with
    | @gift evt htopic hevt hfan hcamp _ =>
      refine .gift htopic hevt hfan hcamp ?_ ?_
      · simp [List.filterMap_cons, LiveGiftAcceptedV1.fanPoint]
      · simp [List.filterMap_cons, List.filterMap_map, Function.comp_def,
          LiveGiftAcceptedV1.campaignPoints]
    | capped => exact .nothing (by simp [List.filterMap_cons]) (by simp [List.filterMap_cons])
    | counted _ hrow hfan =>
      exact .capped hrow hfan (by simp [List.filterMap_cons]) (by simp [List.filterMap_cons])
  | _ => exact .nothing (by simp) (by simp)

def GiftCredited (calls : ℕ → Call) (h : History) (m : Message) (evt : LiveGiftAcceptedV1) : Prop :=
  ∃ t ws, (t, ws) ∈ h ∧ calls t = .points m ∧ m.topic = giftAcceptedTopic ∧
    m.value.unmarshalGiftAccepted = some evt ∧
    ws.filterMap Write.fanPoint? = [evt.fanPoint (extractEventID m)] ∧
    ws.filterMap Write.campaignPoint? = evt.campaignPoints (extractEventID m)

section Histories

variable {calls : ℕ → Call} (hl : Legal calls d h)
include hl

theorem Legal.pointIDs (hf : d.fanPoints = []) (hk : d.campaignPoints = []) :
    ((dbAt d h).fanPoints.map (·.eventID)).Nodup ∧
      ((dbAt d h).campaignPoints.map (·.eventID)).Nodup := by
  induction hl with
  | nil => simp [hf, hk]
  | snoc _ ht ih =>
    obtain ⟨⟨hlen, hnew⟩, hlen', hnew'⟩ := ht.credits.new
    rw [dbAt_snoc, applyAll_fanPoints, applyAll_campaignPoints]
    exact ⟨List.nodup_map_append ih.1 (List.nodup_map_of_length_le_one _ hlen) hnew,
      List.nodup_map_append ih.2 (List.nodup_map_of_length_le_one _ hlen') hnew'⟩

theorem Legal.credited_of_fanPoint (hf : d.fanPoints = []) {p : FanPoint}
    (hp : p ∈ (dbAt d h).fanPoints) (hr : p.reason = .gift) :
    ∃ m evt, GiftCredited calls h m evt ∧ p = evt.fanPoint (extractEventID m) := by
  rcases (mem_dbAt (fun _ _ => applyAll_fanPoints)).mp hp with hp | ⟨⟨t, ws⟩, he, hp⟩
  · rw [hf] at hp
    cases hp
  obtain ⟨h₁, h₂, -, -, ht⟩ := hl.at he
  generalize hc : calls t = c at ht
  cases ht.credits with
  | nothing hnone => simp [hnone] at hp
  | @gift m evt htopic hevt _ _ hfan hcamp =>
    refine ⟨m, evt, ⟨t, ws, he, hc, htopic, hevt, hfan, hcamp⟩, ?_⟩
    simpa [hfan] using hp
  | @capped m r hrow _ hfan =>
    obtain rfl : p = r := by simpa [hfan] using hp
    exact absurd hr (cappedPoint_spec hrow).2.1

theorem Legal.credited_of_campaignPoint (hk : d.campaignPoints = []) {p : CampaignPoint}
    (hp : p ∈ (dbAt d h).campaignPoints) :
    ∃ m evt, GiftCredited calls h m evt ∧ p ∈ evt.campaignPoints (extractEventID m) := by
  rcases (mem_dbAt (fun _ _ => applyAll_campaignPoints)).mp hp with hp | ⟨⟨t, ws⟩, he, hp⟩
  · rw [hk] at hp
    cases hp
  obtain ⟨h₁, h₂, -, -, ht⟩ := hl.at he
  generalize hc : calls t = c at ht
  cases ht.credits with
  | nothing _ hnone => simp [hnone] at hp
  | @gift m evt htopic hevt _ _ hfan hcamp =>
    exact ⟨m, evt, ⟨t, ws, he, hc, htopic, hevt, hfan, hcamp⟩, hcamp ▸ hp⟩
  | capped _ _ _ hnone => simp [hnone] at hp

omit hl in
theorem GiftCredited.rows {m : Message} {evt : LiveGiftAcceptedV1}
    (hc : GiftCredited calls h m evt) :
    evt.fanPoint (extractEventID m) ∈ (dbAt d h).fanPoints ∧
      ∀ p ∈ evt.campaignPoints (extractEventID m), p ∈ (dbAt d h).campaignPoints := by
  obtain ⟨t, ws, he, -, -, -, hfan, hcamp⟩ := hc
  refine ⟨(mem_dbAt (fun _ _ => applyAll_fanPoints)).mpr (.inr ⟨_, he, ?_⟩), fun p hp =>
    (mem_dbAt (fun _ _ => applyAll_campaignPoints)).mpr (.inr ⟨_, he, ?_⟩)⟩
  · simp [hfan]
  · rwa [hcamp]

end Histories

section Events

variable {d : DB} {id id' : ℕ} {evt evt' : LiveGiftAcceptedV1} {o o' : GiftOrder}

theorem OutboxComplete.giftEvent_id (hc : OutboxComplete d) (h : d.GiftEvent id evt o)
    (h' : d.GiftEvent id' evt' o) : id = id' := by
  obtain ⟨r, hr, rfl, ht, hp⟩ := h.row
  obtain ⟨r', hr', rfl, ht', hp'⟩ := h'.row
  have hnodup : ((d.outboxEvents.filter fun r => r.topic = giftAcceptedTopic).map
      fun r => r.payload.giftOrderID).Nodup := by
    have hids := giftOrderIDs_of_announced hc.accepted
    rw [DB.payloads, List.map_map] at hids
    change List.Nodup (List.map (Payload.giftOrderID ∘ OutboxRow.payload) _)
    rw [hids]
    exact (List.filter_sublist.map _).nodup hc.orderIDs
  rw [List.inj_on_of_nodup_map hnodup (List.mem_filter.mpr ⟨hr, by simp [ht]⟩)
    (List.mem_filter.mpr ⟨hr', by simp [ht']⟩)]
  rw [hp, hp']
  exact h.announces.event.1.trans h'.announces.event.1.symm

theorem OutboxComplete.giftEvent_order (hc : OutboxComplete d)
    (hids : (d.outboxEvents.map (·.eventID)).Nodup) (h : d.GiftEvent id evt o)
    (h' : d.GiftEvent id evt' o') : evt = evt' ∧ o = o' := by
  obtain ⟨r, hr, hid, -, hp⟩ := h.row
  obtain ⟨r', hr', hid', -, hp'⟩ := h'.row
  obtain rfl := List.inj_on_of_nodup_map hids hr hr' (hid.trans hid'.symm)
  rw [hp] at hp'
  cases hp'
  refine ⟨rfl, List.inj_on_of_nodup_map hc.orderIDs (List.mem_filter.mp h.order).1
    (List.mem_filter.mp h'.order).1 ?_⟩
  exact h.announces.event.1.symm.trans h'.announces.event.1

theorem Inv.giftEvent {𝓔 : Env} {w : World} (hi : Inv 𝓔 w) (hc : OutboxComplete w.db) {m : Message}
    (hm : m ∈ w.log.map (·.2)) (ht : m.topic = giftAcceptedTopic)
    (hevt : m.value.unmarshalGiftAccepted = some evt) :
    ∃ o, w.db.GiftEvent (extractEventID m) evt o := by
  obtain ⟨r, hr, hrm, hid⟩ := hi.row_of_message hm
  obtain ⟨s, -, rfl⟩ := Option.map_eq_some_iff.mp hrm
  have hp : r.payload ∈ w.db.payloads giftAcceptedTopic :=
    List.mem_map_of_mem (List.mem_filter.mpr ⟨hr, decide_eq_true ht⟩)
  obtain ⟨o, ho, s, _, _, hs, hgid, hrid, he⟩ :=
    List.Forall₂.exists_of_mem_right hc.accepted hp
  change r.payload.unmarshalGiftAccepted = some evt at hevt
  rw [he] at hevt
  obtain rfl := Option.some.inj hevt
  exact ⟨o, ⟨r, hr, hid.symm, ht, he⟩, ho, s, _, _, hs, hgid, hrid, rfl⟩

end Events

end General

section Runs

variable [Platform] {calls : ℕ → Call} {w : World} {s : State}
  {K : State → Act Choice → State → Prop}
  (hs : Start w) (hb : w.db.Blank) (h : (system calls).Reach K (Pool.fresh w) s)
include hs hb h

theorem reach_giftEvent {m : Message} {evt : LiveGiftAcceptedV1}
    (hc : GiftCredited calls s.world.store.binlog m evt) :
    ∃ o, s.world.db.GiftEvent (extractEventID m) evt o := by
  obtain ⟨t, ws, he, hcall, htopic, hevt, -⟩ := hc
  obtain ⟨hl, hd⟩ := reach_legal hs h
  have hcomplete : OutboxComplete s.world.db := hd ▸ hl.outboxComplete hb.outboxComplete
  have hm : m ∈ s.world.log.map (·.2) := reach_handled hs h he (by rw [hcall]; rfl)
  exact (reach_good (.any calls w) hs Env.any_allows h).1.giftEvent hcomplete hm htopic hevt

theorem reach_giftPoints : GiftPointsExact s.world.db := by
  obtain ⟨hl, hd⟩ := reach_legal hs h
  have hcomplete : OutboxComplete s.world.db := hd ▸ hl.outboxComplete hb.outboxComplete
  have hids : (s.world.db.outboxEvents.map (·.eventID)).Nodup := hd ▸ hl.eventIDs hs.eventIDs
  have hrow : ∀ p ∈ s.world.db.fanPoints, p.reason = .gift → ∃ m evt,
      GiftCredited calls s.world.store.binlog m evt ∧ p = evt.fanPoint (extractEventID m) :=
    fun p hp hr => hl.credited_of_fanPoint hb.fanPoints (hd ▸ hp) hr
  have hpoints := hl.pointIDs hb.fanPoints hb.campaignPoints
  rw [← hd] at hpoints
  refine ⟨fun p hp hr => ?_, fun p hp p' hp' evt evt' o _ _ he he' => ?_, hpoints.1, fun c => ?_,
    hpoints.2⟩
  · obtain ⟨m, evt, hc, rfl⟩ := hrow p hp hr
    obtain ⟨o, ho⟩ := reach_giftEvent hs hb h hc
    obtain ⟨-, hv, hcr, hse, hch⟩ := ho.announces.event
    refine ⟨evt, o, ho, ?_⟩
    rw [← hv, ← hcr, ← hse, ← hch]
    rfl
  · exact List.inj_on_of_nodup_map hpoints.1 hp hp' (hcomplete.giftEvent_id he he')
  · constructor
    · intro hc
      obtain ⟨m, evt, hcred, hm⟩ := hl.credited_of_campaignPoint hb.campaignPoints (hd ▸ hc)
      obtain ⟨o, ho⟩ := reach_giftEvent hs hb h hcred
      obtain ⟨-, -, hcr, -, hch⟩ := ho.announces.event
      obtain ⟨k, hk, rfl⟩ := List.mem_map.mp hm
      refine ⟨_, hd ▸ hcred.rows.1, rfl, evt, o, k, ho, Option.mem_toList.mp hk, ?_⟩
      rw [← hcr, ← hch]
      rfl
    · rintro ⟨p, hp, hr, evt, o, k, ho, hk, rfl⟩
      obtain ⟨m, evt', hcred, rfl⟩ := hrow p hp hr
      obtain ⟨o', ho'⟩ := reach_giftEvent hs hb h hcred
      obtain ⟨rfl, rfl⟩ := hcomplete.giftEvent_order hids ho ho'
      obtain ⟨-, -, hcr, -, hch⟩ := ho.announces.event
      rw [← hcr, ← hch, hd]
      exact hcred.rows.2 _ (List.mem_map.mpr ⟨k, by simp [hk], rfl⟩)

theorem reach_pointsApplied {m : Message} (hm : m ∈ s.world.log.map (·.2))
    (hr : s.world.db.Recorded pointsConsumer m) :
    ∃ t r ws h₁ h₂, s.world.store.binlog = h₁ ++ (t, .dedupe r :: ws) :: h₂ ∧ calls t = .points m ∧
      Points m (extractEventID m) (dbAt w.db h₁) ws := by
  obtain ⟨hl, hd⟩ := reach_legal hs h
  have hi := (reach_good (.any calls w) hs Env.any_allows h).1
  obtain ⟨r, hr, hlock⟩ := hr
  rw [hd, mem_dbAt (fun _ _ => applyAll_consumerDedupe), hb.consumerDedupe] at hr
  rcases hr with hr | ⟨⟨t, ws⟩, he, hr⟩
  · cases hr
  obtain ⟨h₁, h₂, hbin, -, htx⟩ := hl.at he
  generalize hcall : calls t = c at htx
  rcases (htx.of_dedupe hr).2 with ⟨m', -, hlock', -⟩ | ⟨m', rfl, hlock', vs, hp, rfl⟩
  · rw [hlock] at hlock'
    exact absurd (Lock.dedupe.inj hlock').1 (by decide)
  -- the row was inserted for the same message
  have hm' : m' ∈ s.world.log.map (·.2) := reach_handled hs h he (by rw [hcall]; rfl)
  rw [hlock] at hlock'
  obtain rfl := hi.message_unique hs hm hm' (Lock.dedupe.inj hlock').2
  exact ⟨t, r, vs, h₁, h₂, hbin, hcall, hp⟩

theorem reach_credited {m : Message} {evt : LiveGiftAcceptedV1} (hm : m ∈ s.world.log.map (·.2))
    (ht : m.topic = giftAcceptedTopic) (hevt : m.value.unmarshalGiftAccepted = some evt)
    (hr : s.world.db.Recorded pointsConsumer m) :
    GiftCredited calls s.world.store.binlog m evt := by
  obtain ⟨t, r, ws, h₁, h₂, hbin, hcall, hp⟩ := reach_pointsApplied hs hb h hm hr
  cases hp with
  | capped hne => exact absurd ht hne
  | counted hne => exact absurd ht hne
  | gift _ hevt' =>
    obtain rfl := Option.some.inj (hevt.symm.trans hevt')
    refine ⟨t, _, hbin ▸ List.mem_append_right _ List.mem_cons_self, hcall, ht, hevt, ?_, ?_⟩
    · simp [List.filterMap_cons, LiveGiftAcceptedV1.fanPoint]
    · simp [List.filterMap_cons, List.filterMap_map, Function.comp_def,
        LiveGiftAcceptedV1.campaignPoints]

theorem reach_giftPointsComplete : GiftPointsComplete s := by
  intro ⟨t, mk⟩ he hgroup r hr hmsg evt o hevent
  obtain ⟨hl, hd⟩ := reach_legal hs h
  have hi := (reach_good (.any calls w) hs Env.any_allows h).1
  obtain ⟨h1, -⟩ := hi.engine.below.outboxEvents r hr
  have hid : extractEventID mk.msg = r.eventID := hi.eventID_of_message hr hmsg
  -- the message is that of the gift event
  obtain ⟨r', hr', hid', htopic, hpayload⟩ := hevent.row
  obtain rfl := hi.row_unique hs hr' hr hid'
  obtain ⟨num, -, hmsg'⟩ := Option.map_eq_some_iff.mp hmsg
  have ht : mk.msg.topic = giftAcceptedTopic := by rw [← hmsg', ← htopic]
  have hv : mk.msg.value = .giftAccepted evt := by rw [← hmsg', ← hpayload]
  obtain ⟨hmark, hlog⟩ : s.world.db.Recorded pointsConsumer mk.msg ∧
      mk.msg ∈ s.world.log.map (·.2) := by
    have hmarks : (calls t).Marks s.world.db mk := (reach_delivery hs h).marked _ he
    have hstarted := (reach_delivery hs h).started t
    generalize calls t = c at hmarks hstarted
    cases c with
    | points m =>
      obtain ⟨-, rfl, -, hzero | hnone | hrec⟩ := hmarks
      · omega
      · simp [pointsApply, ht, hv, Payload.unmarshalGiftAccepted] at hnone
      · exact ⟨hrec, hstarted _ rfl ((reach_delivery hs h).markers _ he)⟩
    | leaderboard m => exact absurd (hmarks.1.symm.trans hgroup) (by decide)
    | settlement m => exact absurd (hmarks.1.symm.trans hgroup) (by decide)
    | _ => cases hmarks
  have hcred := reach_credited hs hb h hlog ht (by rw [hv]; rfl) hmark
  exact ⟨_, hd ▸ hcred.rows.1, rfl, hid⟩

omit hs hb h in
/-- Whatever fails and however often a message is delivered: GIFT rows and accepted orders
correspond, and acknowledged orders have their rows. -/
theorem gift_points_exactly_once (calls : ℕ → Call) {w : World} (hs : Start w) (hb : w.db.Blank)
    {s : State} (h : (system calls).Reach (fun _ _ _ => True) (Pool.fresh w) s) :
    GiftPointsExact s.world.db ∧ GiftPointsComplete s :=
  ⟨reach_giftPoints hs hb h, reach_giftPointsComplete hs hb h⟩

end Runs

section Witness

open Plain

def giftMessage : Message :=
  ⟨giftAcceptedTopic, "9001",
    .giftAccepted
      ⟨giftAcceptedTopic, 1, 2001, 1001, 9001, some 7001, none, "ROSE", 3, 3, 3, 3, "g1"⟩,
    [("event_id", "2")]⟩

def giftAndPoints : ℕ → Call
  | 0 => .sendGift ⟨"g1", 2001, 1001, 9001, none, "ROSE", 3, 0⟩
  | 1 => .runOnce 10
  | _ => .points giftMessage

theorem migrated_blank : migrated.Blank :=
  ⟨migrated_unused, rfl, rfl, rfl⟩

/-- Two consumers handle the event at once and both acknowledge it. -/
theorem gift_points_exactly_once_twice : ∃ s : State, s.world.marked.length = 2 ∧
    s.world.db.fanPoints.length = 1 ∧ s.world.db.campaignPoints.length = 1 ∧
    GiftPointsExact s.world.db ∧ GiftPointsComplete s := by
  obtain ⟨s, hr, hp⟩ := Machine.exists_reach (M := system giftAndPoints)
    (s := Pool.fresh (World.boot migrated)) (K := fun _ _ _ => true)
    (p := fun s => decide (s.world.marked.length = 2 ∧ s.world.db.fanPoints.length = 1 ∧
      s.world.db.campaignPoints.length = 1))
    (launch 0 20 5 ++ launch 1 9 6 ++ startAll [2, 3] ++ resume 3 2 7 ++ resume 2 8 7 ++
      resume 3 4 8) (by decide +kernel)
  obtain ⟨h1, h2, h3⟩ := of_decide_eq_true hp
  exact ⟨s, h1, h2, h3, gift_points_exactly_once giftAndPoints (Start.boot rfl rfl rfl rfl)
    migrated_blank (hr.mono fun _ _ _ _ => trivial)⟩

end Witness

end LiveRevenue
