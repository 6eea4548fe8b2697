import LiveRevenue.Result.Campaigns
import LiveRevenue.Result.Closing
import LiveRevenue.Result.Offsets
import LiveRevenue.Result.Relay

/-! # Caught up

When the relay has published every event and a group has committed every partition of its
topics to the end, what the group maintains is complete: the points ledgers hold each
accepted order once, and every closed session is settled. This does not depend on how
often events were delivered or what failed on the way.
-/

namespace LiveRevenue

open Transact

/-- Nothing waits to be published and nothing published waits for the group. -/
structure Cluster.CaughtUp (place : String → String → ℕ) (k : Cluster) (g : Group) : Prop where
  published : ∀ r ∈ k.pool.world.db.outboxEvents, r.publishedAt ≠ none
  consumed : ∀ p, p.topic ∈ g.topics →
    (k.pool.world.partition place p).length ≤ k.committed g p

theorem Cluster.caughtUp_iff {place : String → String → ℕ} {k : Cluster} {g : Group} :
    k.CaughtUp place g ↔ (∀ r ∈ k.pool.world.db.outboxEvents, r.publishedAt ≠ none) ∧
      ∀ m ∈ k.pool.world.log.map (·.2), m.topic ∈ g.topics →
        (k.pool.world.partition place ⟨m.topic, place m.topic m.key⟩).length ≤
          k.committed g ⟨m.topic, place m.topic m.key⟩ := by
  constructor
  · rintro ⟨hpub, hcon⟩
    exact ⟨hpub, fun m _ ht => hcon _ ht⟩
  · rintro ⟨hpub, hcon⟩
    refine ⟨hpub, fun p hp => ?_⟩
    cases hl : k.pool.world.partition place p with
    | nil => exact Nat.zero_le _
    | cons m ms =>
      obtain ⟨hm, ht, hn⟩ :=
        mem_partition.mp (hl ▸ List.mem_cons_self : m ∈ k.pool.world.partition place p)
      obtain rfl : (⟨m.topic, place m.topic m.key⟩ : Partition) = p := by rw [hn, ht]
      rw [← hl]
      exact hcon m hm hp

instance {place : String → String → ℕ} {k : Cluster} {g : Group} : Decidable (k.CaughtUp place g) :=
  decidable_of_iff _ Cluster.caughtUp_iff.symm

section General

variable [Platform] {place : String → String → ℕ} {calls : ℕ → Call} {w : World} {k : Cluster}

theorem reach_markedSent {K : State → Act Choice → State → Prop} {s : State} (hs : Start w)
    (hw : ∀ r ∈ w.db.outboxEvents, r.publishedAt = none)
    (h : (system calls).Reach K (Pool.fresh w) s) : s.world.MarkedSent :=
  ((Env.any calls w).sound hs Env.any_allows).reach_keeps hs.inv hs.fresh
    (fun r hr hp => absurd (hw r hr) hp) (fun hi hp hg => hg.markedSent hs hi hp) (fun hp => hp) h

theorem Cluster.CaughtUp.handled {g : Group} (hc : k.CaughtUp place g) (hs : Start w)
    (hw : ∀ r ∈ w.db.outboxEvents, r.publishedAt = none)
    (h : Steps (Cluster.step place calls) (.fresh w) k) {r : OutboxRow}
    (hr : r ∈ k.pool.world.db.outboxEvents) (ht : r.topic ∈ g.topics) :
    ∃ m, r.message = some m ∧ Handled calls k.pool g m := by
  obtain ⟨m, hlog, hm⟩ := reach_markedSent hs hw (Cluster.reach_pool h) r hr (hc.published r hr)
  have htopic : m.topic = r.topic := message_topic hm
  obtain ⟨o, ho⟩ := List.getElem?_of_mem
    (mem_partition.mpr ⟨hlog, rfl, rfl⟩ :
      m ∈ k.pool.world.partition place ⟨m.topic, place m.topic m.key⟩)
  have hlt := (List.getElem?_eq_some_iff.mp ho).1
  have hle := hc.consumed ⟨m.topic, place m.topic m.key⟩ (htopic ▸ ht)
  exact ⟨m, hm, ((Cluster.ok h).committed g _).handled (by omega) ho⟩

section Points

variable {s : State} {K : State → Act Choice → State → Prop} (hs : Start w) (hb : w.db.Blank)
  (h : (system calls).Reach K (Pool.fresh w) s)
  (hall : ∀ m ∈ s.world.db.giftMessages, s.world.db.Recorded pointsConsumer m)
include hs hb h hall

theorem reach_fanLedger : (s.world.db.fanPoints.filter fun p => p.reason = .gift).Perm
    (s.world.db.giftMessages.flatMap fun m =>
      m.value.unmarshalGiftAccepted.toList.map (·.fanPoint (extractEventID m))) := by
  obtain ⟨hl, hd⟩ := reach_legal hs h
  have hi := (reach_good (.any calls w) hs Env.any_allows h).1
  have hids := hl.pointIDs hb.fanPoints hb.campaignPoints
  rw [← hd] at hids
  apply (List.perm_ext_iff_of_nodup ((List.Nodup.of_map _ hids.1).filter _)
    (List.Nodup.of_map (·.eventID) ?_)).mpr
  · intro p
    simp only [List.mem_filter, decide_eq_true_eq, List.mem_flatMap, List.mem_map,
      Option.mem_toList]
    constructor
    · rintro ⟨hp, hreason⟩
      obtain ⟨m, evt, hcred, rfl⟩ := hl.credited_of_fanPoint hb.fanPoints (hd ▸ hp) hreason
      obtain ⟨t, ws, he, hcall, htopic, hevt, -⟩ := hcred
      obtain ⟨r, hr, hrm, -⟩ := hi.row_of_message (reach_handled hs h he (by rw [hcall]; rfl))
      exact ⟨m, DB.mem_giftMessages.mpr ⟨r, hr, hrm, htopic⟩, evt, hevt, rfl⟩
    · rintro ⟨m, hm, evt, hevt, rfl⟩
      obtain ⟨r, hr, hrm, htopic⟩ := DB.mem_giftMessages.mp hm
      have hcred := reach_credited hs hb h (reach_logged hs hb h hr hrm (hall m hm)) htopic hevt
        (hall m hm)
      rw [hd]
      exact ⟨hcred.rows.1, rfl⟩
  · refine List.Sublist.nodup (List.flatMap_sublist_map fun m _ => ?_)
      (reach_giftMessages_nodup hs h)
    cases m.value.unmarshalGiftAccepted with
    | none => exact List.nil_sublist _
    | some evt => exact List.Sublist.refl _

theorem reach_fanRows (hmsg : ∀ r ∈ s.world.db.outboxEvents, r.topic = giftAcceptedTopic →
      ∃ m, r.message = some m) :
    ((s.world.db.fanPoints.filter fun p => p.reason = .gift).map fun p =>
      (p.viewerID, p.creatorID, p.liveSessionID, p.points)).Perm
      (s.world.db.accepted.map fun o =>
        (o.viewerID, o.creatorID, o.liveSessionID, o.chargedCoins)) := by
  obtain ⟨hl, hd⟩ := reach_legal hs h
  have hcomplete : OutboxComplete s.world.db := hd ▸ hl.outboxComplete hb.outboxComplete
  have hledger := (reach_fanLedger hs hb h hall).map fun p : FanPoint =>
    (p.viewerID, p.creatorID, p.liveSessionID, p.points)
  rw [List.map_flatMap] at hledger
  apply hledger.trans
  apply List.Perm.of_eq
  rw [flatMap_giftsOf (g := fun e => [(e.viewerID, e.creatorID, e.liveSessionID, e.chargedCoins)])
    fun m _ => ?_, DB.giftsOf_giftMessages hmsg, flatMap_gifts hcomplete.gifts (p := fun _ => true)
    (f := fun o => (o.viewerID, o.creatorID, o.liveSessionID, o.chargedCoins)), List.filter_true]
  · rintro o e ⟨x, _, _, -, rfl⟩
    rfl
  · cases m.value.unmarshalGiftAccepted <;> rfl

end Points

/-- Once the points projector is caught up, the GIFT rows of the fan ledger are the accepted
orders and the rows of each campaign are the accepted orders of its sessions, each once. -/
theorem caught_up_points (place : String → String → ℕ) (calls : ℕ → Call) (hs : Start w)
    (hb : w.db.Blank) (h : Steps (Cluster.step place calls) (.fresh w) k)
    (hc : k.CaughtUp place .points) :
    ((k.pool.world.db.fanPoints.filter fun p => p.reason = .gift).map fun p =>
      (p.viewerID, p.creatorID, p.liveSessionID, p.points)).Perm
      (k.pool.world.db.accepted.map fun o =>
        (o.viewerID, o.creatorID, o.liveSessionID, o.chargedCoins)) ∧
    ∀ c, ((k.pool.world.db.campaignPoints.filter fun r => r.campaignID = c).map fun r =>
      (r.creatorID, r.points)).Perm
      ((k.pool.world.db.campaignOrders c).map fun o => (o.creatorID, o.chargedCoins)) := by
  have hreach := Cluster.reach_pool h
  obtain ⟨hl, hd⟩ := reach_legal hs hreach
  have hcomplete : OutboxComplete k.pool.world.db := hd ▸ hl.outboxComplete hb.outboxComplete
  have hhandled : ∀ r ∈ k.pool.world.db.outboxEvents, r.topic = giftAcceptedTopic →
      ∃ m, r.message = some m ∧ Handled calls k.pool .points m := fun r hr ht =>
    hc.handled hs (by simp [hb.outboxEvents]) h hr (by simp [ht, Group.topics, pointsTopics])
  have hmsg : ∀ r ∈ k.pool.world.db.outboxEvents, r.topic = giftAcceptedTopic →
      ∃ m, r.message = some m := fun r hr ht => (hhandled r hr ht).imp fun _ hm => hm.1
  have hall : ∀ m ∈ k.pool.world.db.giftMessages,
      k.pool.world.db.Recorded pointsConsumer m := by
    intro m hm
    obtain ⟨r, hr, hrm, ht⟩ := DB.mem_giftMessages.mp hm
    obtain ⟨m', hrm', hh⟩ := hhandled r hr ((message_topic hrm).symm.trans ht)
    obtain rfl := Option.some.inj (hrm.symm.trans hrm')
    refine reach_done hs hreach hh fun hnone => ?_
    -- gift events unmarshal, since they are the payloads of accepted orders
    have hp : r.payload ∈ k.pool.world.db.payloads giftAcceptedTopic :=
      List.mem_map_of_mem
        (List.mem_filter.mpr ⟨hr, decide_eq_true ((message_topic hrm).symm.trans ht)⟩)
    obtain ⟨o, -, x, _, _, -, -, -, he⟩ := List.Forall₂.exists_of_mem_right hcomplete.accepted hp
    rw [pointsApply, if_pos ht, message_value hrm, he] at hnone
    cases hnone
  exact ⟨reach_fanRows hs hb hreach hall hmsg, reach_campaignRows hs hb hreach hmsg hall⟩

/-- Once the settlement worker is caught up, every session that has been closed is settled and
reconciled. -/
theorem caught_up_settlements (place : String → String → ℕ) (calls : ℕ → Call) (hs : Start w)
    (hb : w.db.Blank) (h : Steps (Cluster.step place calls) (.fresh w) k)
    (hc : k.CaughtUp place .settlement) {id : ℕ} (ho : w.db.HasStatus id .opened)
    (hclosed : k.pool.world.db.HasStatus id .closed) :
    k.pool.world.db.streamSettlements id ≠ none ∧ k.pool.world.db.reconciliations id ≠ none := by
  have hreach := Cluster.reach_pool h
  obtain ⟨hl, hd⟩ := reach_legal hs hreach
  have hevents : k.pool.world.db.closeEvents id = 1 := by
    rw [hd] at hclosed ⊢
    exact (hl.closeEvents ho (by simp [DB.closeEvents, DB.payloads, hb.outboxEvents])).1 hclosed
  obtain ⟨p, hp, hid⟩ :=
    List.countP_pos_iff.mp (by rw [← DB.closeEvents, hevents]; exact Nat.one_pos)
  obtain ⟨r, hr, rfl⟩ := List.mem_map.mp hp
  obtain ⟨hr, ht⟩ := List.mem_filter.mp hr
  obtain ⟨m, hm, hh⟩ := hc.handled hs (by simp [hb.outboxEvents]) h hr
    (by simpa [Group.topics] using ht)
  cases hevt : r.payload.unmarshalSessionClosed with
  | none => simp [hevt] at hid
  | some evt =>
    obtain rfl : evt.liveSessionID = id := by simpa [hevt] using hid
    exact reach_done hs hreach hh evt (by rw [message_value hm]; exact hevt)

end General

section Witness

open Plain

/-- A gift, the relay, and a consumer that dies in the middle of the event before another one
takes over. -/
theorem caught_up_points_gift : ∃ k : Cluster, k.pool.world.db.accepted.length = 1 ∧
    ((k.pool.world.db.fanPoints.filter fun p => p.reason = .gift).map fun p =>
      (p.viewerID, p.creatorID, p.liveSessionID, p.points)).Perm
      (k.pool.world.db.accepted.map fun o =>
        (o.viewerID, o.creatorID, o.liveSessionID, o.chargedCoins)) := by
  obtain ⟨k, hk, hp⟩ := Steps.exists_of_runAll (f := Cluster.step onePartition giftAndPoints)
    (s := .fresh (World.boot migrated))
    (p := fun k => decide (k.pool.world.db.accepted.length = 1 ∧ k.CaughtUp onePartition .points))
    ((launch 0 20 5 ++ launch 1 9 6).map Op.act ++
      [Op.claim 0 .points ⟨giftAcceptedTopic, 0⟩, Op.deliver 0 2] ++
      (resume 2 4 7 ++ kill 2).map Op.act ++
      [Op.leave 0, Op.claim 0 .points ⟨giftAcceptedTopic, 0⟩, Op.deliver 0 3] ++
      (resume 3 8 8).map Op.act ++ [Op.advance 0, Op.commit 0]) (by decide +kernel)
  obtain ⟨h1, h2⟩ := of_decide_eq_true hp
  exact ⟨k, h1, (caught_up_points onePartition giftAndPoints (Start.boot rfl rfl rfl rfl)
    migrated_blank hk h2).1⟩

/-- A session is closed and the worker handles the event. -/
theorem caught_up_settlements_close : ∃ k : Cluster, k.pool.world.db.HasStatus 9001 .closed ∧
    k.pool.world.db.streamSettlements 9001 ≠ none ∧
    k.pool.world.db.reconciliations 9001 ≠ none := by
  obtain ⟨k, hk, hp⟩ := Steps.exists_of_runAll (f := Cluster.step onePartition (giftAndClose "1"))
    (s := .fresh (World.boot migrated))
    (p := fun k => decide (k.pool.world.db.HasStatus 9001 .closed ∧
      k.CaughtUp onePartition .settlement))
    ((launch 1 8 5 ++ launch 2 7 6).map Op.act ++
      [Op.claim 0 .settlement ⟨sessionClosedTopic, 0⟩, Op.deliver 0 3] ++
      (resume 3 13 7).map Op.act ++ [Op.advance 0, Op.commit 0]) (by decide +kernel)
  obtain ⟨h1, h2⟩ := of_decide_eq_true hp
  exact ⟨k, h1, caught_up_settlements onePartition (giftAndClose "1") (Start.boot rfl rfl rfl rfl)
    migrated_blank hk h2 rfl h1⟩

end Witness

end LiveRevenue
