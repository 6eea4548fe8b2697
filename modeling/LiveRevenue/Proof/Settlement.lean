import LiveRevenue.Proof.Outside

/-! # Closing and settling commit legal transactions

A settlement's totals come from the histories its two reads saw, which both are
beginnings of the history it is appended to.
-/

namespace LiveRevenue

open Transact

inductive CloseRefused (id : ℕ) (d : DB) : AppError → Prop where
  | internal {message : String} : CloseRefused id d ⟨500, "INTERNAL_ERROR", message⟩
  | invalid : id = 0 → CloseRefused id d errValidation
  | notFound : d.liveSessions id = none →
      CloseRefused id d ⟨404, "LIVE_SESSION_NOT_FOUND", "live session not found"⟩
  | closed : (∃ s, d.liveSessions id = some s ∧ s.status = .closed) →
      CloseRefused id d ⟨409, "LIVE_SESSION_CLOSED", "live session already closed"⟩

theorem CloseRefused.mono {id : ℕ} {d d' : DB} {e : AppError} (hg : d.Grows d')
    (h : CloseRefused id d e) : CloseRefused id d' e := by
  cases h with
  | internal => exact .internal
  | invalid h => exact .invalid h
  | notFound h =>
    have hfix := hg.sessionFixed id
    rw [h, Option.map_none, Option.map_eq_none_iff] at hfix
    exact .notFound hfix
  | closed h =>
    obtain ⟨s, hs, hc⟩ := h
    exact .closed (hg.sessionClosed id s hs hc)

variable [Platform] {𝓔 : Env} {t : ℕ}

/-- A close that answers without an error has made the one transition, any other none; after an
internal error it is not known, since the answer to `COMMIT` may have got lost. -/
def ClosePost (t liveSessionID : ℕ) (r : Option AppError) (w : World) : Prop :=
  match r with
  | none => ∃ d, ∃ p : Closed liveSessionID d, w.store.committedBy t = [p.writes]
  | some e => (w.store.committedBy t = [] ∨ e.code = "INTERNAL_ERROR") ∧
      CloseRefused liveSessionID w.db e

theorem Inv.closed {u : World} {id : ℕ} (hi : Inv 𝓔 u) (hc : 𝓔.calls t = .closeLiveSession id)
    (p : Closed id u.db) : Txn 𝓔.start.db u.store.binlog (𝓔.calls t) p.writes := by
  rw [hc]
  exact hi.txn (P := Closed id) (W := fun _ p => p.writes) .closed p

section Close

variable {w : World} {id : ℕ}

theorem runs_closeTx {closedAtMs : ℕ} (hc : 𝓔.calls t = .closeLiveSession id)
    (own : Own t [] [] w) :
    Runs 𝓔.logic t (closeTx id closedAtMs) (ClosePost t id) (ClosePost t id) w := by
  unfold closeTx
  refine Runs.bind (runs_now own fun closedAt v hv => ?_)
  refine Runs.bind
    (runs_txDo hv.own nofun (fun e u v hu hf hv => ⟨.inl hv.own.committed, .internal⟩)
    fun r _ rank u v hu _ hr hv => ?_)
  rcases run_closeSession hr with ⟨rfl, hclosed, hw⟩ | ⟨hne, ⟨session, hs, ho⟩, hw⟩
  · have huv := hv.later.grows
    have hv := hu.read hv hw
    refine Runs.bind
      (runs_read rfl hv.own (fun e u v hu hf hv => ⟨.inl hv.own.committed, .internal⟩)
      fun r rank x v hx hr hv => ?_)
    have hr : r = (x.db.liveSessions id).map (·.status) := (Except.ok.inj hr).symm
    -- the session was not OPEN when the update ran, and has not been reopened since
    have hstill : ∀ status, r = some status → ∃ s, x.db.liveSessions id = some s ∧
        s.status = .closed ∧ status = .closed := by
      intro status hst
      rw [hr] at hst
      obtain ⟨s', hs', rfl⟩ := Option.map_eq_some_iff.mp hst
      have hg : u.db.Grows x.db := huv.trans hx.later.grows
      have hfix := hg.sessionFixed id
      rw [hs', Option.map_some, eq_comm] at hfix
      obtain ⟨l, hl, -⟩ := Option.map_eq_some_iff.mp hfix
      obtain ⟨l', hl', hc'⟩ := hg.sessionClosed id l hl (hclosed l hl)
      rw [hs', Option.some.injEq] at hl'
      exact ⟨s', hs', hl' ▸ hc', hl' ▸ hc'⟩
    cases r with
    | none =>
      refine Runs.pure fun y hy hi => ⟨.inl (hv.rely hy hi).own.committed, .mono
        (hv.rely hy hi).later.grows (.notFound ?_)⟩
      exact Option.map_eq_none_iff.mp hr.symm
    | some status =>
      obtain ⟨s', hs', hc', rfl⟩ := hstill status rfl
      exact Runs.pure fun y hy hi => ⟨.inl (hv.rely hy hi).own.committed, .mono
        (hv.rely hy hi).later.grows (.closed ⟨s', hs', hc'⟩)⟩
  · have hv := hu.after hv hw [.session id] (by
      simp only [World.effect, applyAll_nil] at hw ⊢
      simp [hw, Write.locks])
    rw [if_neg hne]
    refine Runs.bind (runs_now hv.own fun eventAt v hv => ?_)
    refine Runs.bind (runs_insertOutbox hv.own
      (fun e u v hu hf hv => ⟨.inl hv.own.committed, .internal⟩) fun eid d v hev _ hv => ?_)
    refine runs_commit_return hv.own
      (fun _ _ _ _ _ _ _ _ _ _ => ⟨.inr rfl, .internal⟩) fun x hx => ?_
    have hsession : x.db.liveSessions id = u.db.liveSessions id := hx.own.session (by simp)
    let p : Closed id x.db := ⟨session, closedAt, closedAtMs, eid, eventAt, hsession.trans hs, ho,
      hx.own.newEvent (by simp) hev⟩
    exact ⟨p.writes, rfl, hx.inv.closed hc p,
      .plain (by rw [hc]; rfl) (by simp [Closed.writes, Write.backed]),
      fun v _ _ _ hd => ⟨x.db, p, hd.committed⟩⟩

theorem safe_closeLiveSession (hc : 𝓔.calls t = .closeLiveSession id)
    (hfresh : w.store.committedBy t = [] ∧ w.aofBy t = []) :
    Safe 𝓔.logic t (ClosePost t id) (closeLiveSession id) w := by
  unfold closeLiveSession
  split
  · next h0 => exact fun v hv _ => ⟨.inl (hv.store.committed.trans hfresh.1), .invalid h0⟩
  intro u hu hi
  refine ⟨fun _ => dead_of_fresh (hu.store.committed.trans hfresh.1), ?_⟩
  rintro r u' ⟨ch, _, hex, -⟩
  have hw : u' = u := by cases ch <;> cases hex <;> rfl
  subst hw
  refine ⟨.silent rfl rfl rfl rfl rfl (fun _ h => h) fun h => h, ?_⟩
  refine safe_withTx ⟨hu.store.committed.trans hfresh.1, hu.aof.trans hfresh.2⟩
    (fun a u v ha _ _ hcv _ => ⟨.inl hcv, .internal⟩) (fun v hv => runs_closeTx hc hv.own)
    (fun r v _ _ => ?_) (by rw [hc]; nofun) fun r v v' _ hl hcv h => ?_
  · unfold Dead
    rw [hc]
    trivial
  · cases r with
    | none =>
      obtain ⟨d, p, hp⟩ := h
      exact ⟨d, p, hcv.trans hp⟩
    | some e => exact ⟨h.1.imp_left hcv.trans, h.2.mono hl.grows⟩

end Close

section Settle

variable {w : World} {id : ℕ}

theorem DB.giftDebits_settlement (d : DB) (r : StreamSettlement) :
    (applyAll ([] ++ [Write.settlement id r]) d).giftDebits id = d.giftDebits id := rfl

structure SettlementResponse.Shows (resp : SettlementResponse) (row : StreamSettlement)
    (check : Reconciliation) : Prop where
  grossCoinSpend : resp.grossCoinSpend = row.grossCoinSpend
  acceptedGiftCount : resp.acceptedGiftCount = row.acceptedGiftCount
  diamondRewardTotal : resp.diamondRewardTotal = row.diamondRewardTotal
  reconciliationStatus : resp.reconciliationStatus = check.status
  walletGiftDebitTotal : resp.walletGiftDebitTotal = check.walletGiftDebitTotal
  giftOrderCoinTotal : resp.giftOrderCoinTotal = check.giftOrderCoinTotal
  mismatchCount : resp.mismatchCount = check.mismatchCount
  reconciliationDetails : resp.reconciliationDetails = check.details

/-- The response shows the two rows of a session as they were together in the tables. -/
def ShowsRows (𝓔 : Env) (id : ℕ) (resp : SettlementResponse) (w : World) : Prop :=
  ∃ u row check, Inv 𝓔 u ∧ u.store.binlog <+: w.store.binlog ∧
    u.db.streamSettlements id = some row ∧ u.db.reconciliations id = some check ∧
      resp.Shows row check

theorem ShowsRows.mono {w' : World} {resp : SettlementResponse} (h : ShowsRows 𝓔 id resp w)
    (hb : w.store.binlog <+: w'.store.binlog) : ShowsRows 𝓔 id resp w' := by
  obtain ⟨u, row, check, hi, hu, hrows⟩ := h
  exact ⟨u, row, check, hi, hu.trans hb, hrows⟩

theorem run_selectSettlement {d : DB} {ids : Ids} {busy : Lock → Bool} {rank : ℕ → ℕ}
    {x : StreamSettlement × Reconciliation}
    (h : ((Stmt.selectSettlement id).run d ids busy rank).res = .ok (some x)) :
    d.streamSettlements id = some x.1 ∧ d.reconciliations id = some x.2 := by
  simp only [Stmt.run, Except.ok.injEq] at h
  split at h
  · next row check hrow hcheck =>
    obtain rfl := Option.some.inj h
    exact ⟨hrow, hcheck⟩
  · cases h

theorem safe_getSettlement (hdead : ∀ v, Dead 𝓔 t v) :
    Safe 𝓔.logic t (fun r v => ∀ resp, r = .ok resp → ShowsRows 𝓔 id resp v)
      (getSettlement id) w := by
  have hfail : ∀ {r : Ret SettlementResponse} {v}, (∀ resp, r ≠ .ok resp) →
      ∀ resp, r = .ok resp → ShowsRows 𝓔 id resp v := fun hne resp he => absurd he (hne resp)
  unfold getSettlement
  refine Runs.toSafe (Runs.bind (runs_dbRead rfl (fun v _ _ => hdead v)
    (fun _ _ _ _ _ => hfail (by simp [retErr])) fun r _ u v _ hi hr huv _ => ?_))
  cases r with
  | none => exact Runs.pure fun _ _ _ => hfail (by simp)
  | some x =>
    obtain ⟨hrow, hcheck⟩ := run_selectSettlement hr
    refine Runs.bind (runs_dbRead rfl (fun v _ _ => hdead v)
      (fun _ _ _ _ _ => hfail (by simp [retErr]))
      fun _ _ a b ha _ _ hb _ => Runs.pure fun c hc _ resp he => ?_)
    cases he
    have hbin := ((huv.binlog.trans ha.binlog).trans hb.binlog).trans hc.binlog
    exact ⟨u, x.1, x.2, hi, hbin, hrow, hcheck, rfl, rfl, rfl, rfl, rfl, rfl, rfl, rfl⟩

def SettlePost (𝓔 : Env) (id : ℕ) (r : Except Err SettlementResponse) (w : World) : Prop :=
  ∀ resp, r = .ok resp → ShowsRows 𝓔 id resp w

theorem SettlePost.error {e : Err} : SettlePost 𝓔 id (.error e) w := by
  intro resp h
  cases h

theorem runs_settlementTx (hrel : (𝓔.calls t).relays = false) (hdead : ∀ v, Dead 𝓔 t v)
    (hc : ∀ h, ∀ p : Settled id 𝓔.start.db h, w.store.binlog <+: p.read →
      Txn 𝓔.start.db h (𝓔.calls t) p.writes) (own : Own t [] [] w) :
    Runs 𝓔.logic t (settlementTx id) (SettlePost 𝓔 id) (SettlePost 𝓔 id) w := by
  unfold settlementTx
  refine Runs.bind (runs_read rfl own (fun _ _ _ _ _ _ => .error) fun _ _ u v hu _ hv => ?_)
  have hbin := hu.later.binlog.trans hv.later.binlog
  -- the totals are those of the history at `u`, the debits those at `x`
  refine Runs.bind (runs_read rfl hv.own (fun _ _ _ _ _ _ => .error) fun r _ u v hu hr hv => ?_)
  obtain ⟨gross, count, diamonds⟩ := r
  obtain ⟨rfl, rfl, rfl⟩ := run_sumAcceptedOrders hr
  have hread := hv
  refine Runs.bind (runs_now hv.own fun settledAt v hv => ?_)
  have hread := hread.trans hv
  refine Runs.bind
    (runs_txDo hv.own nofun (fun _ _ _ _ _ _ => .error) fun _ _ _ x v hx _ hr hv => ?_)
  have hv := hx.after hv (run_upsertSettlement hr) [] (by simp)
  have hread := hread.trans hv
  refine Runs.bind (runs_read rfl hv.own (fun _ _ _ _ _ _ => .error) fun total _ x v hx hr hv => ?_)
  have htotal := run_sumGiftDebits hr
  rw [DB.giftDebits_settlement] at htotal
  have hread := hread.trans hx
  have hreread := hv
  refine Runs.bind (runs_now hv.own fun reconciledAt v hv => ?_)
  have hreread := hreread.trans hv
  refine Runs.bind
    (runs_txDo hv.own nofun (fun _ _ _ _ _ _ => .error) fun _ _ _ y v hy _ hr hv => ?_)
  have hv := hy.after hv (run_upsertReconciliation hr) [] (by simp)
  have hreread := hreread.trans hv
  refine Runs.bind (runs_commitTx hv.own (fun y hy => ?_)
    (fun _ _ _ _ _ _ _ _ _ _ => .error) fun _ v _ _ _ _ _ => ?_)
  · have hreread := hreread.trans hy
    have hsince := (hread.trans hreread).since (by simp [hu.own.opened])
    let p : Settled id 𝓔.start.db y.store.binlog := ⟨u.store.binlog, x.store.binlog, settledAt,
      reconciledAt, hread.later.binlog, hreread.later.binlog⟩
    suffices h : ∀ vs, vs = p.writes →
        Txn 𝓔.start.db y.store.binlog (𝓔.calls t) vs ∧ Backed 𝓔 t vs y by
      refine h _ ?_
      simp only [Settled.writes, Settled.row, p, ← hu.inv.db_eq, ← hx.inv.db_eq, ← htotal]
      rfl
    rintro vs rfl
    refine ⟨hc _ p (hbin.trans hu.later.binlog), ⟨fun _ _ hm => ?_, by simp [hrel],
      fun i r hm => ?_, fun _ hm => ?_⟩⟩
    · simp [Settled.writes] at hm
    · simp only [Settled.writes, List.mem_cons, reduceCtorEq, List.not_mem_nil, or_false,
        false_or, Write.reconciliation.injEq] at hm
      obtain ⟨rfl, rfl⟩ := hm
      exact ⟨p.read, p.reread, reconciledAt, rfl, p.read_le, p.reread_le, hsince⟩
    · simp [Settled.writes] at hm
  · refine Runs.bind (Runs.lift (Safe.mono (safe_getSettlement hdead) fun r v _ hr => ?_))
    refine Runs.pure fun x hx _ resp he => ?_
    cases r with
    | ok a =>
      obtain rfl := Except.ok.inj he
      exact (hr _ rfl).mono hx.binlog
    | app e => cases he
    | err e => cases he

theorem safe_settle (hrel : (𝓔.calls t).relays = false) (hdead : ∀ v, Dead 𝓔 t v)
    (hc : ∀ h, ∀ p : Settled id 𝓔.start.db h, w.store.binlog <+: p.read →
      Txn 𝓔.start.db h (𝓔.calls t) p.writes)
    (hfresh : w.store.committedBy t = [] ∧ w.aofBy t = []) :
    Safe 𝓔.logic t (SettlePost 𝓔 id) (generateSettlement id) w :=
  safe_withTx hfresh (fun _ _ _ _ _ _ _ _ => .error)
    (fun _ hv => runs_settlementTx hrel hdead (fun h p hp => hc h p (hv.later.binlog.trans hp))
      hv.own)
    (fun _ v _ _ => hdead v) (by simp [hrel]) fun _ _ _ _ hl _ h resp he =>
      (h resp he).mono hl.binlog

theorem safe_generateSettlement (hc : 𝓔.calls t = .generateSettlement id)
    (hfresh : w.store.committedBy t = [] ∧ w.aofBy t = []) :
    Safe 𝓔.logic t (SettlePost 𝓔 id) (generateSettlement id) w := by
  refine safe_settle (by rw [hc]; rfl) (fun _ => ?_) (fun h p _ => ?_) hfresh
  · unfold Dead
    rw [hc]
    trivial
  · rw [hc]
    exact .settled p

theorem Inv.delivered (hi : Inv 𝓔 w) {m : Message} (hm : m ∈ w.log.map (·.2)) :
    ∃ r ∈ w.db.outboxEvents, r.message = some m := by
  obtain ⟨e, he, rfl⟩ := List.mem_map.mp hm
  exact hi.log e he

theorem safe_settlementHandle {m : Message} (hc : 𝓔.calls t = .settlement m) (hi : Inv 𝓔 w)
    (htopic : m.topic = sessionClosedTopic) (hm : m ∈ w.log.map (·.2))
    (hfresh : w.store.committedBy t = [] ∧ w.aofBy t = []) :
    Safe 𝓔.logic t (fun _ _ => True) (settlementHandle m) w := by
  have hdead : ∀ v, Dead 𝓔 t v := fun v => by
    unfold Dead
    rw [hc]
    trivial
  have hmark : ∀ {metadata v}, metadata ≠ "missing_event_id" → Safe 𝓔.logic t (fun _ _ => True)
      (markDone settlementGroup metadata m) v := fun {_ _} hne =>
    safe_markDone (fun v _ _ => hdead v) (fun u _ _ => by rw [hc]; exact ⟨rfl, rfl, hne⟩)
      fun _ _ _ => trivial
  unfold settlementHandle
  split
  · exact hmark (by decide)
  · next evt hevt =>
    refine Safe.bind (Safe.mono (safe_settle (by rw [hc]; rfl) hdead (fun h p hp => ?_) hfresh)
      fun r v _ _ => ?_)
    · rw [hc]
      refine .settledBy p htopic hevt ((dbAt_grows hp).message ?_)
      rw [← hi.db_eq]
      exact hi.delivered hm
    · cases r with
      | error e => exact fun _ _ _ => trivial
      | ok _ => exact hmark (by decide)

end Settle

end LiveRevenue
