import Mathlib.Data.List.Chain
import Mathlib.Data.List.Perm.Subperm
import LiveRevenue.Result.Chain
import LiveRevenue.Result.Relay

/-! # Wallet events are published in balance order

The wallet lock makes the transactions of a viewer commit one after the other, so an
event is visible to the relay only when all earlier ones of its viewer are. A batch is
sorted by `created_at`, nobody else locks committed events, and a relay stops at the
first row it cannot send: the first publications follow the commits.
-/

namespace LiveRevenue

open Transact

theorem mem_batch_before {d : DB} {busy : Lock → Bool} {rank : ℕ → ℕ} {limit : ℕ}
    {sent todo : List OutboxRow} {r x : OutboxRow}
    (hb : d.outboxBatch busy rank limit = sent ++ r :: todo) (hx : x ∈ d.outboxEvents)
    (hp : x.publishedAt = none) (hfree : busy (.outbox x.eventID) = false)
    (hlt : x.createdAt < r.createdAt) : x ∈ sent := by
  let le : OutboxRow → OutboxRow → Prop := fun a b => a.createdAt < b.createdAt ∨
    (a.createdAt = b.createdAt ∧ rank a.eventID ≤ rank b.eventID)
  have : Std.Total le := ⟨fun a b => by simp only [le]; omega⟩
  have : IsTrans OutboxRow le := ⟨fun a b c => by simp only [le]; omega⟩
  let rows := (d.outboxEvents.filter fun r =>
    r.publishedAt = none ∧ busy (.outbox r.eventID) = false).insertionSort le
  have hrows : rows = sent ++ r :: (todo ++ rows.drop limit) := by
    rw [← List.cons_append, ← List.append_assoc, ← hb]
    exact (List.take_append_drop limit rows).symm
  have hmem : x ∈ rows :=
    (List.mem_insertionSort _).mpr (List.mem_filter.mpr ⟨hx, by simp [hp, hfree]⟩)
  have hsorted : rows.Pairwise le := List.pairwise_insertionSort le _
  rw [hrows] at hmem hsorted
  rcases List.mem_append.mp hmem with hs | hs
  · exact hs
  · have hle := (List.pairwise_cons.mp (List.pairwise_append.mp hsorted).2.1).1
    rcases List.mem_cons.mp hs with rfl | hs
    · omega
    · have := hle x hs
      simp only [le] at this
      omega

def walletPosted? (v : ℕ) (topic : String) : Payload → Option WalletTransactionPostedV1
  | .walletPosted e => if topic = walletTopic ∧ e.actorUserID = v then some e else none
  | _ => none

def OutboxRow.walletPosted? (v : ℕ) (r : OutboxRow) : Option WalletTransactionPostedV1 :=
  LiveRevenue.walletPosted? v r.topic r.payload

def Message.walletPosted? (v : ℕ) (m : Message) : Option WalletTransactionPostedV1 :=
  LiveRevenue.walletPosted? v m.topic m.value

/-- The wallet events of a viewer in the order in which each was first published. -/
def World.firstPublications (w : World) (v : ℕ) : List WalletTransactionPostedV1 :=
  (w.log.map (·.2)).eraseDups.filterMap (·.walletPosted? v)

def Continues (a b : WalletTransactionPostedV1) : Prop :=
  b.balanceAfter = a.balanceAfter + b.deltaCoins

instance : DecidableRel Continues := fun a b =>
  inferInstanceAs (Decidable (b.balanceAfter = a.balanceAfter + b.deltaCoins))

def DB.walletRows (d : DB) (v : ℕ) : List OutboxRow :=
  d.outboxEvents.filter fun r => (r.walletPosted? v).isSome

/-- Later transactions of a viewer store later timestamps. -/
def DB.Stamped (d : DB) : Prop := ∀ v, ((d.walletRows v).map (·.createdAt)).Pairwise (· < ·)

/-- No two relays have a transaction open. -/
def OneRelay (calls : ℕ → Call) (w : World) : Prop :=
  ∀ t u, (calls t).relays = true → (calls u).relays = true → w.store.opened t ≠ none →
    w.store.opened u ≠ none → t = u

def DB.walletMessages (d : DB) (v : ℕ) : List Message := (d.walletRows v).filterMap (·.message)

def World.firstSent (w : World) (v : ℕ) : List Message :=
  (w.log.map (·.2)).eraseDups.filter fun m => (m.walletPosted? v).isSome

def World.InOrder (w : World) : Prop := ∀ v, w.firstSent v <+: w.db.walletMessages v

theorem walletPosted_message {r : OutboxRow} {m : Message} (h : r.message = some m) (v : ℕ) :
    m.walletPosted? v = r.walletPosted? v := by
  obtain ⟨s, -, rfl⟩ := Option.map_eq_some_iff.mp h
  rfl

theorem walletMessages_inserted (d : DB) (v : ℕ) : d.walletMessages v =
    ((d.outboxEvents.map (·.inserted)).filter fun r => (r.walletPosted? v).isSome).filterMap
      (·.message) := by
  rw [DB.walletMessages, DB.walletRows, List.filter_map, List.filterMap_map]
  rfl

theorem walletMessages_mono {d d' : DB} (v : ℕ)
    (h : d.outboxEvents.map (·.inserted) <+: d'.outboxEvents.map (·.inserted)) :
    d.walletMessages v <+: d'.walletMessages v := by
  rw [walletMessages_inserted, walletMessages_inserted]
  exact (h.filter _).filterMap _

theorem mem_firstSent {w : World} {v : ℕ} {m : Message} :
    m ∈ w.firstSent v ↔ m ∈ w.log.map (·.2) ∧ (m.walletPosted? v).isSome = true := by
  rw [World.firstSent, List.mem_filter, List.mem_eraseDups]

theorem walletMessages_split {d : DB} {v : ℕ} {r : OutboxRow} {m : Message}
    {before after : List OutboxRow} (hrows : d.outboxEvents = before ++ r :: after)
    (hm : r.message = some m) (hv : (r.walletPosted? v).isSome = true) :
    d.walletMessages v =
      (before.filter fun r => (r.walletPosted? v).isSome).filterMap (·.message) ++
        m :: (after.filter fun r => (r.walletPosted? v).isSome).filterMap (·.message) := by
  rw [DB.walletMessages, DB.walletRows, hrows, List.filter_append, List.filter_cons, if_pos hv,
    List.filterMap_append, List.filterMap_cons, hm]

theorem filterMap_message {β : Type} {f : Message → Option β} {g : OutboxRow → Option β}
    (hfg : ∀ r m, r.message = some m → extractEventID m = r.eventID → f m = g r)
    {rs : List OutboxRow} (hrs : ∀ r ∈ rs, 1 ≤ r.eventID ∧ r.eventID < 2 ^ 64) :
    (rs.filterMap (·.message)).filterMap f = rs.filterMap g := by
  rw [List.filterMap_filterMap]
  refine List.filterMap_congr fun r hr => ?_
  have hm := r.message_eq (hrs r hr).2
  rw [hm]
  exact hfg r _ hm (eventID_of_message (hrs r hr).2 hm)

def DB.walletEvents (d : DB) (v : ℕ) : List WalletTransactionPostedV1 :=
  (d.payloads walletTopic).filterMap (walletPosted? v walletTopic)

theorem walletRows_events (d : DB) (v : ℕ) :
    (d.walletRows v).filterMap (·.walletPosted? v) = d.walletEvents v := by
  rw [DB.walletRows, DB.walletEvents, DB.payloads, List.filterMap_filter, List.filterMap_map,
    List.filterMap_filter]
  refine List.filterMap_congr fun r _ => ?_
  by_cases ht : r.topic = walletTopic
  · simp only [ht, decide_true, if_true, Function.comp_apply, OutboxRow.walletPosted?]
    split
    · rfl
    · next h => exact (Option.not_isSome_iff_eq_none.mp h).symm
  · have hnone : r.walletPosted? v = none := by
      rw [OutboxRow.walletPosted?]
      unfold LiveRevenue.walletPosted?
      split <;> simp [ht]
    simp [hnone, ht]

theorem walletEvents_txIDs {d : DB} {xs : List WalletTx} {ps : List Payload}
    (h : List.Forall₂ (d.AnnouncesTx Varchar.Cut) xs ps) (v : ℕ) :
    (ps.filterMap (walletPosted? v walletTopic)).map (·.txID) =
      (xs.filter fun x => x.actorUserID = v).map (·.txID) := by
  induction h with
  | nil => rfl
  | @cons x p xs ps hr _ ih =>
    obtain ⟨_, delta, balance, -, rfl, -⟩ := hr
    by_cases hx : x.actorUserID = v
    · simp [walletPosted?, hx, ih]
    · simp [walletPosted?, hx, ih]

theorem running_succ {opening d : DB} {u k : ℕ} {x : WalletTx} (hx : (d.txsOf u)[k]? = some x) :
    opening.running d u (k + 1) = opening.running d u k + d.delta x := by
  rw [DB.running, DB.running, List.take_add_one, hx]
  simp [Int.add_assoc]

theorem mem_walletEvents {d : DB} {v : ℕ} {e : WalletTransactionPostedV1}
    (h : e ∈ d.walletEvents v) : .walletPosted e ∈ d.payloads walletTopic := by
  obtain ⟨p, hp, he⟩ := List.mem_filterMap.mp h
  unfold walletPosted? at he
  split at he
  · split at he
    · cases he
      exact hp
    · cases he
  · cases he

theorem DB.Stamped.earlier {d d' : DB} (h : d'.Stamped)
    (hd : d.outboxEvents.map (·.inserted) <+: d'.outboxEvents.map (·.inserted)) : d.Stamped := by
  have hrows : ∀ (d : DB) v, (d.walletRows v).map (·.createdAt) = ((d.outboxEvents.map
      (·.inserted)).filter fun r => (r.walletPosted? v).isSome).map (·.createdAt) := fun d v => by
    rw [DB.walletRows, List.filter_map, List.map_map]
    rfl
  intro v
  have hv := h v
  rw [hrows] at hv ⊢
  exact hv.sublist ((hd.filter _).map _).sublist

def Env.publishing (calls : ℕ → Call) (w : World) : Env :=
  ⟨calls, w, fun _ _ _ v => OneRelay calls v, fun _ _ _ => True, fun _ _ => False⟩

theorem Env.publishing_allows {calls : ℕ → Call} {w : World} (s : State)
    (a : Act Choice) (s' : State) (h : OneRelay calls s.world ∧ s'.world.db.Stamped) :
    (Env.publishing calls w).Allows s a s' := by
  cases a with
  | start t => trivial
  | run t ch => exact ⟨fun _ _ => h.1, fun _ _ _ _ _ h => h⟩
  | crash t => exact fun _ _ => trivial

section General

variable [Platform] {𝓔 : Env} {t : ℕ} {w w' : World}

theorem Inv.not_busy (hi : Inv 𝓔 w) (hone : OneRelay 𝓔.calls w) (ht : (𝓔.calls t).relays = true)
    (ho : w.store.opened t ≠ none) {r : OutboxRow} (hr : r ∈ w.db.outboxEvents) :
    w.store.busy t (.outbox r.eventID) = false := by
  rw [Store.not_busy_iff]
  intro u hu
  exact hone u t (hi.locks r hr u hu) ht (hi.engine.owned _ u hu) ho

/-- What stands before a row in the outbox and is older has been sent when the row is. -/
theorem Picked.sent_before (hs : Start 𝓔.start)
    (hone : ∀ t c ch u, 𝓔.permit t c ch u → OneRelay 𝓔.calls u) (hi : Inv 𝓔 w)
    (hw : w.MarkedSent) {r x : OutboxRow} (hp : Picked 𝓔 t r w) {before after : List OutboxRow}
    (hrows : w.db.outboxEvents = before ++ r :: after) (hx : x ∈ before)
    (hlt : x.createdAt < r.createdAt) {m : Message} (hm : x.message = some m) :
    m ∈ w.log.map (·.2) := by
  obtain ⟨u, limit, n, rank, sent, todo, hiu, hle, hrel, ho, hperm, hbatch, -, hsent⟩ := hp
  have hids := hi.legal.eventIDs hs.eventIDs
  rw [← hi.db_eq] at hids
  -- when the batch was read, both rows were there
  have hr : r ∈ u.db.outboxEvents := by
    have hids' := hiu.legal.eventIDs hs.eventIDs
    rw [← hiu.db_eq] at hids'
    exact ((outboxBatch_spec hids').1 r (by rw [hbatch]; simp)).1
  have hins : u.db.outboxEvents.map (·.inserted) <+: w.db.outboxEvents.map (·.inserted) := by
    rw [hiu.db_eq, hi.db_eq]
    exact dbAt_inserted hle
  obtain ⟨y, hy, hyx⟩ : ∃ y ∈ u.db.outboxEvents, y.inserted = x.inserted := by
    have hnodup : (w.db.outboxEvents.map (·.inserted)).Nodup := by
      refine List.Nodup.of_map (·.eventID) ?_
      rwa [List.map_map]
    rw [hrows, List.map_append, List.map_cons] at hins hnodup
    exact List.mem_map.mp (List.subset_of_prefix_cons hins (List.mem_map_of_mem hr) hnodup
      (List.mem_map_of_mem hx))
  have hym : y.message = some m := (message_congr hyx).trans hm
  by_cases hpub : y.publishedAt = none
  · have hmem := mem_batch_before hbatch hy hpub (hiu.not_busy (hone _ _ _ _ hperm) hrel ho hy)
      ((OutboxRow.eq_of_inserted hyx).2.2.2.2 ▸ hlt)
    obtain ⟨m', hm', he⟩ := hsent.sent hmem
    obtain rfl := Option.some.inj (hym.symm.trans he)
    exact World.mem_log_of_sentBy hm'
  · -- the row was already marked
    have hg : u.db.Grows w.db := by
      rw [hiu.db_eq, hi.db_eq]
      exact dbAt_grows hle
    obtain ⟨z, hz, hzy, hzp⟩ := hg.outboxEvents y hy
    obtain ⟨m', hm', he⟩ := hw z hz (hzp hpub)
    obtain rfl := Option.some.inj (hym.symm.trans ((message_congr hzy).symm.trans he))
    exact hm'

theorem Inv.walletRows_ids (hi : Inv 𝓔 w) (v : ℕ) :
    ∀ r ∈ w.db.walletRows v, 1 ≤ r.eventID ∧ r.eventID < 2 ^ 64 := by
  intro r hr
  obtain ⟨h1, -, h2⟩ := hi.engine.below.outboxEvents r (List.mem_filter.mp hr).1
  exact ⟨h1, h2⟩

theorem Inv.walletMessages_nodup (hs : Start 𝓔.start) (hi : Inv 𝓔 w) (v : ℕ) :
    (w.db.walletMessages v).Nodup := by
  have hids := hi.legal.eventIDs hs.eventIDs
  rw [← hi.db_eq] at hids
  -- messages of different rows carry different ids
  have hmap : (w.db.walletMessages v).map extractEventID = (w.db.walletRows v).map (·.eventID) := by
    have h := filterMap_message (f := fun m => some (extractEventID m))
      (g := fun r => some r.eventID) (fun r m _ he => congrArg some he) (hi.walletRows_ids v)
    simp only [List.filterMap_eq_map'] at h
    exact h
  refine List.Nodup.of_map extractEventID ?_
  rw [hmap]
  exact (List.filter_sublist.map _).nodup hids

theorem Guar.inserted (hg : Guar 𝓔 t w w') :
    w.db.outboxEvents.map (·.inserted) <+: w'.db.outboxEvents.map (·.inserted) := by
  rcases hg.tables with ⟨-, hd⟩ | ⟨ws, -, hd, -⟩
  · exact hd ▸ List.prefix_rfl
  · rw [hd, applyAll_inserted]
    exact List.prefix_append _ _

theorem Guar.inOrder (hs : Start 𝓔.start)
    (hone : ∀ t c ch u, 𝓔.permit t c ch u → OneRelay 𝓔.calls u) (hi : Inv 𝓔 w) (hw : w.MarkedSent)
    (hstamp : w.db.Stamped) (hp : w.InOrder) (hg : Guar 𝓔 t w w') : w'.InOrder := by
  intro v
  refine List.IsPrefix.trans ?_ (walletMessages_mono v hg.inserted)
  rcases hg.log with hl | ⟨r, hr, m, hm, hl, hpick⟩
  · rw [World.firstSent, hl]
    exact hp v
  have hsent : w'.firstSent v = w.firstSent v ++
      if m ∈ w.log.map (·.2) then [] else [m].filter fun m => (m.walletPosted? v).isSome := by
    rw [World.firstSent, hl, List.map_append, List.map_singleton, List.eraseDups_snoc,
      List.filter_append]
    split <;> rfl
  rw [hsent]
  by_cases hmem : m ∈ w.log.map (·.2)
  · rw [if_pos hmem, List.append_nil]
    exact hp v
  by_cases hv : (m.walletPosted? v).isSome = true
  · rw [if_neg hmem, List.filter_singleton, hv, cond_true]
    have hrv : (r.walletPosted? v).isSome = true := by rwa [← walletPosted_message hm]
    obtain ⟨before, after, hrows⟩ := List.append_of_mem hr
    have hsplit := walletMessages_split hrows hm hrv
    have hprefix := hp v
    have hnodup := hi.walletMessages_nodup hs v
    rw [hsplit] at hprefix hnodup ⊢
    rw [List.eq_of_prefix_cons hprefix (fun h => hmem (mem_firstSent.mp h).1) ?_
      (List.nodup_append.mp hnodup).1]
    · simp
    · -- everything before the row was sent before
      intro y hy
      obtain ⟨x, hx, hxm⟩ := List.mem_filterMap.mp hy
      obtain ⟨hxb, hxv⟩ := List.mem_filter.mp hx
      refine mem_firstSent.mpr ⟨hpick.sent_before hs hone hi hw hrows hxb ?_ hxm, ?_⟩
      · have hst := hstamp v
        rw [DB.walletRows, hrows, List.filter_append, List.filter_cons, if_pos hrv, List.map_append,
          List.pairwise_append] at hst
        exact hst.2.2 _ (List.mem_map_of_mem hx) _ (by simp)
      · rwa [walletPosted_message hxm]
  · rw [if_neg hmem, List.filter_singleton, Bool.eq_false_iff.mpr hv, cond_false, List.append_nil]
    exact hp v

theorem World.InOrder.events (hp : w.InOrder) (hi : Inv 𝓔 w) (v : ℕ) :
    w.firstPublications v <+: w.db.walletEvents v := by
  have hfirst : w.firstPublications v = (w.firstSent v).filterMap (·.walletPosted? v) := by
    rw [World.firstPublications, World.firstSent, List.filterMap_filter]
    refine List.filterMap_congr fun m _ => ?_
    split
    · rfl
    · next h => exact Option.not_isSome_iff_eq_none.mp h
  rw [hfirst, ← walletRows_events, ← filterMap_message (fun r m hm _ => walletPosted_message hm v)
    (hi.walletRows_ids v)]
  exact (hp v).filterMap _

theorem BalanceChain.events {opening d : DB} (hc : BalanceChain opening d) (ho : OutboxComplete d)
    (v : ℕ) : (d.walletEvents v).IsChain Continues := by
  have hids : (d.walletEvents v).map (·.txID) = (d.txsOf v).map (·.txID) :=
    walletEvents_txIDs ho.wallet v
  -- an event and the transaction at the same position
  have hpos : ∀ k e, (d.walletEvents v)[k]? = some e → ∃ x requestID, (d.txsOf v)[k]? = some x ∧
      e = d.posted x requestID (opening.running d v (k + 1)) := by
    intro k e he
    have hk : ((d.txsOf v).map (·.txID))[k]? = some e.txID := by
      rw [← hids, List.getElem?_map, he]
      rfl
    rw [List.getElem?_map] at hk
    obtain ⟨x, hx, hid⟩ := Option.map_eq_some_iff.mp hk
    obtain ⟨requestID, -, hevent⟩ := hc.event v k x hx
    exact ⟨x, requestID, hx,
      (hevent e).mp ⟨mem_walletEvents (List.mem_of_getElem? he), hid.symm⟩⟩
  rw [List.isChain_iff_getElem]
  intro i hi
  obtain ⟨x, _, hx, he⟩ := hpos i _ (List.getElem?_eq_getElem (by omega))
  obtain ⟨y, _, hy, he'⟩ := hpos (i + 1) _ (List.getElem?_eq_getElem hi)
  rw [he, he']
  exact running_succ hy

/-- With one relay at a time and increasing timestamps the first publications of a viewer's wallet
events are those of the first transactions, in order. As long as the sums fit an `int64`, each
event continues the balance of the one before it. -/
theorem wallet_events_in_order (calls : ℕ → Call) {w : World} (hs : Start w) (hu : w.db.Unused)
    {s : State} (h : (system calls).Reach (fun s _ s' => OneRelay calls s.world ∧
      s'.world.db.Stamped) (Pool.fresh w) s) (v : ℕ) :
    ((s.world.firstPublications v).map (·.txID)).Pairwise (· < ·) ∧
    (s.world.firstPublications v).map (·.txID) <+: (s.world.db.txsOf v).map (·.txID) ∧
    ((∀ u, 0 ≤ w.db.balance u) → (system calls).Reach
      (fun _ _ s' => ∀ u, w.db.balance u + s'.world.db.coins u < 2 ^ 63) (Pool.fresh w) s →
      (s.world.firstPublications v).IsChain Continues) := by
  have hS := (Env.publishing calls w).sound hs
    (K := fun s _ s' => OneRelay calls s.world ∧ s'.world.db.Stamped) Env.publishing_allows
  have hi := (hS.reach hs.inv hs.fresh h).1
  have horder : s.world.MarkedSent ∧ s.world.InOrder := by
    refine hS.reach_induct (P := fun s => s.world.MarkedSent ∧ s.world.InOrder) hs.inv hs.fresh ?_
      (fun _ hp _ _ _ => hp) (fun hg hp _ _ hk hgu => ?_) (fun _ hp _ _ => hp) h
    · refine ⟨fun r hr => ?_, fun v => ?_⟩
      · rw [show (Pool.fresh (Env.publishing calls w).start).world.db.outboxEvents = [] from
          hu.outboxEvents] at hr
        cases hr
      · rw [World.firstSent, show (Pool.fresh (Env.publishing calls w).start).world.log = [] from
          hs.log]
        exact List.nil_prefix
    · exact ⟨hgu.markedSent hs hg.1 hp.1, hgu.inOrder hs (fun _ _ _ _ hu => hu) hg.1 hp.1
        (hk.2.earlier hgu.inserted) hp.2⟩
  obtain ⟨hl, hd⟩ := reach_legal hs h
  have hcomplete : OutboxComplete s.world.db := hd ▸ hl.outboxComplete hu.outboxComplete
  have hevents := horder.2.events hi v
  have hprefix : (s.world.firstPublications v).map (·.txID) <+:
      (s.world.db.txsOf v).map (·.txID) := by
    rw [DB.txsOf, ← walletEvents_txIDs hcomplete.wallet v]
    exact hevents.map _
  refine ⟨?_, hprefix, fun hn hfit => ?_⟩
  · have hsorted := hl.txsSorted hu.walletTxs v
    rw [← hd] at hsorted
    exact hsorted.sublist hprefix.sublist
  · have hchain := (balanceChain_of_reach hs hu hn hfit).events hcomplete v
    obtain ⟨later, hlater⟩ := hevents
    rw [← hlater] at hchain
    exact hchain.left_of_append

end General

section Witness

open Plain

def walletAndRelays : ℕ → Call
  | 1 => .sendGift ⟨"g1", 2001, 1001, 9001, none, "ROSE", 3, 0⟩
  | 2 => .runOnce 1
  | 3 => .runOnce 10
  | n => .recharge ⟨"r1", 2001, if n = 0 then 100 else 50, "card"⟩

theorem walletAndRelays_relays (t : ℕ) (h : (walletAndRelays t).relays = true) : t = 2 ∨ t = 3 := by
  unfold walletAndRelays at h
  split at h
  · cases h
  · exact .inl rfl
  · exact .inr rfl
  · cases h

theorem oneRelay_of_closed {calls : ℕ → Call} (hrel : ∀ t, (calls t).relays = true → t = 2 ∨ t = 3)
    {w : World} (h : w.store.opened 2 = none ∨ w.store.opened 3 = none) : OneRelay calls w := by
  intro t u ht hu hto huo
  rcases hrel t ht with rfl | rfl <;> rcases hrel u hu with rfl | rfl
  · rfl
  · exact absurd h (by simp [hto, huo])
  · exact absurd h (by simp [hto, huo])
  · rfl

theorem stamped_of_pairwise {d : DB}
    (h : ((d.outboxEvents.filter fun r => r.topic = walletTopic).map
      (·.createdAt)).Pairwise (· < ·)) : d.Stamped := by
  intro v
  refine h.sublist (List.Sublist.map _ ?_)
  rw [DB.walletRows]
  refine List.monotone_filter_right _ fun r hr => ?_
  unfold OutboxRow.walletPosted? walletPosted? at hr
  split at hr
  · split at hr
    · next ht => exact decide_eq_true ht.1
    · cases hr
  · cases hr

/-- A relay sends the recharge and dies; after the gift another relay sends both. -/
theorem wallet_events_in_order_resent : ∃ s : State, (s.world.firstPublications 2001).length = 2 ∧
    ((s.world.firstPublications 2001).map (·.txID)).Pairwise (· < ·) ∧
    (s.world.firstPublications 2001).map (·.txID) <+: (s.world.db.txsOf 2001).map (·.txID) ∧
    (s.world.firstPublications 2001).IsChain Continues := by
  obtain ⟨s, hr, hp⟩ := Machine.exists_reach (M := system walletAndRelays)
    (s := Pool.fresh (World.boot migrated))
    (K := fun s _ s' => decide ((s.world.store.opened 2 = none ∨ s.world.store.opened 3 = none) ∧
      ((s'.world.db.outboxEvents.filter fun r => r.topic = walletTopic).map
        (·.createdAt)).Pairwise (· < ·) ∧
      (s'.world.db.walletEntries.map fun e => max e.amount 0).sum < 2 ^ 62))
    (p := fun s => decide ((s.world.firstPublications 2001).length = 2))
    (startAll [0, 1, 2] ++ resume 0 15 5 ++ resume 2 4 6 ++ kill 2 ++ resume 1 20 7 ++
      launch 3 11 8) (by decide +kernel)
  have horder := wallet_events_in_order walletAndRelays (Start.boot rfl rfl rfl rfl) migrated_unused
    (hr.mono fun _ _ _ hk => ?_) 2001
  · exact ⟨s, of_decide_eq_true hp, horder.1, horder.2.1, horder.2.2
      (fun u => (migrated_balance u).1)
        (hr.mono fun _ _ _ hk => coins_fit (of_decide_eq_true hk).2.2)⟩
  · obtain ⟨h1, h2, -⟩ := of_decide_eq_true hk
    exact ⟨oneRelay_of_closed walletAndRelays_relays h1, stamped_of_pairwise h2⟩

def nearlyBrimful : DB :=
  { migrated with
    walletAccounts := Function.update migrated.walletAccounts 2001 (some (2 ^ 63 - 2)) }

def twoCoinsAndRelays : ℕ → Call
  | 2 => .runOnce 1
  | 3 => .runOnce 10
  | n => .recharge ⟨if n = 0 then "r1" else "r2", 2001, 1, "card"⟩

/-- The second recharge wraps the balance around, and so does its event. -/
theorem wallet_events_wrap : nearlyBrimful.Unused ∧ ∃ s : State,
    (system twoCoinsAndRelays).Reach (fun s _ s' => OneRelay twoCoinsAndRelays s.world ∧
      s'.world.db.Stamped) (Pool.fresh (World.boot nearlyBrimful)) s ∧
    ¬ (s.world.firstPublications 2001).IsChain Continues := by
  have hrel : ∀ t, (twoCoinsAndRelays t).relays = true → t = 2 ∨ t = 3 := by
    intro t ht
    unfold twoCoinsAndRelays at ht
    split at ht
    · exact .inl rfl
    · exact .inr rfl
    · cases ht
  obtain ⟨s, hr, hp⟩ := Machine.exists_reach (M := system twoCoinsAndRelays)
    (s := Pool.fresh (World.boot nearlyBrimful))
    (K := fun s _ s' => decide ((s.world.store.opened 2 = none ∨ s.world.store.opened 3 = none) ∧
      ((s'.world.db.outboxEvents.filter fun r => r.topic = walletTopic).map
        (·.createdAt)).Pairwise (· < ·)))
    (p := fun s => decide (¬ (s.world.firstPublications 2001).IsChain Continues))
    (startAll [0, 1] ++ resume 0 15 5 ++ resume 1 15 6 ++ launch 3 9 8) (by decide +kernel)
  refine ⟨⟨rfl, rfl, rfl, rfl, rfl⟩, s, hr.mono fun _ _ _ hk => ?_, of_decide_eq_true hp⟩
  obtain ⟨h1, h2⟩ := of_decide_eq_true hk
  exact ⟨oneRelay_of_closed hrel h1, stamped_of_pairwise h2⟩

end Witness

end LiveRevenue
