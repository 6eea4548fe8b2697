import LiveRevenue.Result.Finality
import LiveRevenue.Transact.Book
import LiveRevenue.Transact.Under

/-! # Settling a quiet session

A gift that is sent once the closing of its session is committed finds the session closed,
so it is refused. The accepted gifts of a session are therefore complete as soon as no
call that was under way when it closed is left, and every settlement made from then on,
for the close event or on request, stays right for good.
-/

namespace LiveRevenue

open Transact

def totalsOf (os : List GiftOrder) : ℤ × ℤ × ℤ :=
  (sumOf (·.chargedCoins) os, os.length, sumOf (·.diamondReward) os)

def StreamSettlement.totals (r : StreamSettlement) : ℤ × ℤ × ℤ :=
  (r.grossCoinSpend, r.acceptedGiftCount, r.diamondRewardTotal)

/-- The call may add an accepted gift of the session or a settlement of it. -/
def Call.Concerns (id : ℕ) : Call → Prop
  | .sendGift req => req.liveSessionID = id
  | .generateSettlement i => i = id
  | .settlement m => ∃ evt, m.value.unmarshalSessionClosed = some evt ∧ evt.liveSessionID = id
  | _ => False

/-- No accepted gift of the session, and no settlement but the right one. -/
def Write.Late (id : ℕ) (os : List GiftOrder) : Write → Prop
  | .giftOrder o => ¬ (o.liveSessionID = id ∧ o.status = .accepted)
  | .settlement i r => i = id → r.totals = totalsOf os
  | _ => True

def Stmt.Late (id : ℕ) (os : List GiftOrder) : Stmt → Prop
  | .insertGiftOrder o => ¬ (o.liveSessionID = id ∧ o.status = .accepted)
  | .upsertSettlement i r => i = id → r.totals = totalsOf os
  | _ => True

def Cmd.Late (id : ℕ) (os : List GiftOrder) : Cmd → Prop
  | .sql s => s.Late id os
  | .auto s => s.Late id os
  | _ => True

def LateReply (id : ℕ) (os : List GiftOrder) : (c : Cmd) → c.Resp → Prop
  | .sql (.selectLiveSession i), r => i = id → ∀ status campaignID,
      r = .ok (some (status, campaignID)) → status ≠ .opened
  | .sql (.sumAcceptedOrders i), r => i = id → ∀ x, r = .ok x → x = totalsOf os
  | _, _ => True

section Programs

variable {id : ℕ} {os : List GiftOrder} {ε α : Type} {f : SqlErr → ε}

abbrev LateBody (id : ℕ) (os : List GiftOrder) (Q : α → Prop) (m : GoBody ε α) : Prop :=
  Body.Under (LateReply id os) (Cmd.Late id os) Q m

theorem late_try {s : Stmt} {S : Except SqlErr s.Res → Prop} (hs : s.Late id os)
    (h : ∀ r, LateReply id os (.sql s) r → S r) : LateBody id os S (txTry s : GoBody ε _) :=
  Body.Under.call hs h

theorem late_orReturn {S : α → Prop} {r : Except SqlErr α} (h : ∀ a, r = .ok a → S a) :
    LateBody id os S (orReturn f r) := by
  cases r with
  | ok a => exact .pure (h a rfl)
  | error e => exact .throw

theorem late_do {s : Stmt} {S : s.Res → Prop} (hs : s.Late id os)
    (h : ∀ a, LateReply id os (.sql s) (.ok a) → S a) : LateBody id os S (txDo f s) := by
  refine .bind (Q := fun r => ∀ a, r = .ok a → S a) (Body.Under.call hs ?_) fun r hr =>
    late_orReturn hr
  rintro r hr a rfl
  exact h a hr

theorem late_db {s : Stmt} (hs : s.Late id os) : LateBody id os (fun _ => True) (dbDo f s) :=
  .bind (Q := fun _ => True) (Body.Under.call hs fun _ _ => trivial) fun _ _ =>
    late_orReturn fun _ _ => trivial

theorem late_now : LateBody id os (fun _ => True) (timeNow : GoBody ε ℕ) :=
  Body.Under.call trivial fun _ _ => trivial

theorem late_commit : LateBody id os (fun _ => True) (commitTx f) :=
  .bind (Q := fun _ => True) (Body.Under.call trivial fun _ _ => trivial) fun _ _ =>
    late_orReturn fun _ _ => trivial

theorem late_withTx {g : SqlErr → α} {body : GoBody α α} {Q : α → Prop}
    (h : LateBody id os Q body) :
    (withTx g body).Under (LateReply id os) (Cmd.Late id os) fun _ => True := by
  refine ⟨trivial, ?_⟩
  rintro (e | _) -
  · trivial
  · exact Prog.Under.bind h.run fun _ _ => ⟨trivial, fun _ _ => trivial⟩

theorem late_replay {req : GiftRequest} {hash : Digest} :
    LateBody id os (fun _ => True) (replayGiftIfExists req hash) := by
  refine .bind (Q := fun _ => True) (late_do trivial fun _ _ => trivial) ?_
  rintro (_ | o) -
  · exact .pure trivial
  · dsimp only
    split
    · exact .pure trivial
    · split <;> exact .pure trivial

theorem late_getSettlement {i : ℕ} :
    (getSettlement i).Under (LateReply id os) (Cmd.Late id os) fun _ => True := by
  refine Body.Under.run (Q := fun _ => True) ?_
  refine .bind (late_db trivial) ?_
  rintro (_ | x) -
  · exact .pure trivial
  · exact .bind (late_db trivial) fun _ _ => .pure trivial

theorem late_reject {req : GiftRequest} {hash : Digest} {code : String} {status : ℕ} :
    LateBody id os (fun _ => True) (rejectGift req hash code status) := by
  refine .bind late_now fun createdAt _ => ?_
  refine .bind (Q := fun _ => True) (late_try (by rintro ⟨-, ⟨⟩⟩) fun _ _ => trivial) ?_
  rintro (e | _) -
  · dsimp only
    split
    · refine .bind late_replay ?_
      rintro (_ | appErr | replayed) -
      · exact .pure trivial
      · exact .bind late_commit fun _ _ => .pure trivial
      · exact .pure trivial
    · exact .pure trivial
  · refine .bind late_now fun eventAt _ => ?_
    refine .bind (Q := fun _ => True) (late_do trivial fun _ _ => trivial) fun _ _ => ?_
    exact .bind late_commit fun _ _ => .pure trivial

theorem late_generateSettlement :
    (generateSettlement id).Under (LateReply id os) (Cmd.Late id os) fun _ => True := by
  refine late_withTx (Q := fun _ => True) ?_
  refine .bind (Q := fun _ => True) (late_do trivial fun _ _ => trivial) fun _ _ => ?_
  refine .bind (Q := fun x => x = totalsOf os) (late_do trivial fun x hx => hx rfl x rfl) ?_
  rintro _ rfl
  refine .bind late_now fun settledAt _ => ?_
  refine .bind (Q := fun _ => True) (late_do (fun _ => rfl) fun _ _ => trivial) fun _ _ => ?_
  refine .bind (Q := fun _ => True) (late_do trivial fun _ _ => trivial) fun debits _ => ?_
  refine .bind late_now fun reconciledAt _ => ?_
  refine .bind (Q := fun _ => True) (late_do trivial fun _ _ => trivial) fun _ _ => ?_
  refine .bind late_commit fun _ _ => ?_
  exact .bind (Body.Under.lift late_getSettlement) fun _ _ => .pure trivial

variable [Platform]

theorem late_sendGift {req : GiftRequest} (hid : req.liveSessionID = id) :
    (sendGift req).Under (LateReply id os) (Cmd.Late id os) fun _ => True := by
  unfold sendGift
  split
  · trivial
  split
  · trivial
  split
  · trivial
  refine late_withTx (Q := fun _ => True) ?_
  refine .bind late_replay ?_
  rintro (_ | appErr | replayed) -
  · refine .bind (late_do trivial fun a ha => ha hid) ?_
    rintro (_ | ⟨status, campaignID⟩) hstatus
    · exact late_reject
    · have hclosed : status ≠ .opened := hstatus status campaignID rfl
      simp only [if_pos hclosed]
      exact late_reject
  · exact .pure trivial
  · exact .bind late_commit fun _ _ => .pure trivial

theorem late_program {c : Call} (hc : c.Concerns id) :
    c.program.Under (LateReply id os) (Cmd.Late id os) fun _ => True := by
  cases c with
  | sendGift req => exact Prog.Under.bind (late_sendGift hc) fun _ _ => trivial
  | generateSettlement i =>
    obtain rfl : i = id := hc
    exact Prog.Under.bind late_generateSettlement fun _ _ => trivial
  | settlement m =>
    obtain ⟨evt, hu, rfl⟩ := hc
    refine Prog.Under.bind (Q := fun _ => True) ?_ fun _ _ => trivial
    unfold settlementHandle
    rw [hu]
    refine Prog.Under.bind late_generateSettlement ?_
    rintro (e | r) -
    · trivial
    · exact ⟨trivial, fun _ _ => trivial⟩
  | _ => cases hc

end Programs

section Worlds

variable [Platform] {id t : ℕ} {os : List GiftOrder} {w w' : World} {c : Cmd} {ch : Choice}
  {r : c.Resp}

structure DB.Frozen (id : ℕ) (os : List GiftOrder) (d : DB) : Prop where
  closed : d.HasStatus id .closed
  orders : d.acceptedOrders id = os

def World.BuffersLate (id : ℕ) (os : List GiftOrder) (t : ℕ) (w : World) : Prop :=
  ∀ ws, w.store.opened t = some ws → ∀ x ∈ ws, x.Late id os

theorem acceptedOrders_late {ws : List Write} {d : DB} (h : ∀ x ∈ ws, x.Late id os) :
    (applyAll ws d).acceptedOrders id = d.acceptedOrders id := by
  rw [acceptedOrders_applyAll, List.append_right_eq_self, List.filter_eq_nil_iff]
  intro o ho hacc
  obtain ⟨x, hx, he⟩ := List.mem_filterMap.mp ho
  cases x with
  | giftOrder o' =>
    cases he
    exact h _ hx (of_decide_eq_true hacc)
  | _ => cases he

theorem DB.Frozen.late {ws : List Write} {d : DB} (h : d.Frozen id os)
    (hws : ∀ x ∈ ws, x.Late id os) : (applyAll ws d).Frozen id os :=
  ⟨(DB.Grows.applyAll ws d).hasStatus h.closed, (acceptedOrders_late hws).trans h.orders⟩

theorem run_selectLiveSession_late {d : DB} {ids : Ids} {busy : Lock → Bool} {rank : ℕ → ℕ}
    {status : LiveStatus} {campaignID : Option ℕ} (h : d.Frozen id os)
    (hr : ((Stmt.selectLiveSession id).run d ids busy rank).res = .ok (some (status, campaignID))) :
    status ≠ .opened := by
  obtain ⟨l, hl, hclosed⟩ := Option.map_eq_some_iff.mp h.closed
  simp only [Stmt.run, hl] at hr
  cases hc : scanNullInt64 l.campaignID with
  | error e =>
    rw [hc] at hr
    cases hr
  | ok x =>
    rw [hc] at hr
    cases hr
    rw [hclosed]
    decide

theorem run_sumAcceptedOrders_late {d : DB} {ids : Ids} {busy : Lock → Bool} {rank : ℕ → ℕ}
    {x : ℤ × ℤ × ℤ} (h : d.Frozen id os)
    (hr : ((Stmt.sumAcceptedOrders id).run d ids busy rank).res = .ok x) : x = totalsOf os := by
  simp only [Stmt.run] at hr
  split at hr
  · cases hr
    rw [h.orders]
    rfl
  · cases hr

theorem exec_lateReply (hw : w.db.Frozen id os) (hb : w.BuffersLate id os t)
    (hex : World.exec t c ch w = some (r, w')) : LateReply id os c r := by
  -- a statement of a transaction sees the tables with the transaction's own late writes
  have hsql : ∀ {s : Stmt} {r : Except SqlErr s.Res} {a : s.Res}, c = .sql s →
      World.exec t (.sql s) ch w = some (r, w') → r = .ok a →
      ∃ d ids busy rank, DB.Frozen id os d ∧ (s.run d ids busy rank).res = .ok a := by
    rintro s r a - hex rfl
    cases ch with
    | fault applied => cases hex
    | ok n rank =>
      obtain ⟨-, he, -⟩ | ⟨ws, hws, he, -⟩ := execSql_cases hex
      · cases he
      · exact ⟨_, _, _, rank, hw.late (hb ws hws), he.symm⟩
  cases c with
  | sql s =>
    cases s with
    | selectLiveSession i =>
      rintro rfl status campaignID hr
      obtain ⟨d, ids, busy, rank, hd, hres⟩ := hsql rfl hex hr
      exact run_selectLiveSession_late hd hres
    | sumAcceptedOrders i =>
      rintro rfl x hr
      obtain ⟨d, ids, busy, rank, hd, hres⟩ := hsql rfl hex hr
      exact run_sumAcceptedOrders_late hd hres
    | _ => trivial
  | _ => trivial

theorem run_late {s : Stmt} {d : DB} {ids : Ids} {busy : Lock → Bool} {rank : ℕ → ℕ}
    (hs : s.Late id os) {x : Write} (hx : x ∈ (s.run d ids busy rank).writes) : x.Late id os := by
  cases x with
  | giftOrder o =>
    cases s with
    | insertGiftOrder o' =>
      simp only [Stmt.run] at hx
      repeat' split at hx
      all_goals simp at hx
      subst hx
      exact hs
    | _ =>
      revert hx
      simp only [Stmt.run]
      (repeat' split) <;> simp
  | settlement i row =>
    cases s with
    | upsertSettlement i' row' =>
      simp only [Stmt.run] at hx
      split at hx
      · cases hx
      · obtain ⟨rfl, rfl⟩ : i = i' ∧ row = row' := by simpa using hx
        exact hs
    | _ =>
      revert hx
      simp only [Stmt.run]
      (repeat' split) <;> simp
  | _ => trivial

theorem exec_late (hc : c.Late id os) (hb : w.BuffersLate id os t)
    (hex : World.exec t c ch w = some (r, w')) : w'.BuffersLate id os t ∧
      ∀ ws, w'.store.binlog = w.store.binlog ++ [(t, ws)] → ∀ x ∈ ws, x.Late id os := by
  have hlog : ∀ ws, w.store.binlog = w.store.binlog ++ [(t, ws)] → ∀ x ∈ ws, x.Late id os :=
    fun ws h => absurd h (by simp)
  -- the transaction begins, goes on or ends
  have hset : ∀ {o : Option (List Write)}, (∀ ws, o = some ws → ∀ x ∈ ws, x.Late id os) → ∀ ws,
      w.store.setOpened t o t = some ws → ∀ x ∈ ws, x.Late id os := by
    intro o ho ws hws
    rw [Store.setOpened_self] at hws
    exact ho ws hws
  obtain ⟨store, ids, log, aof, marked⟩ := w'
  have hstep : StoreStep t w c store := exec_storeStep hex
  cases hstep with
  | same => exact ⟨hb, hlog⟩
  | begin => exact ⟨hset (by rintro _ ⟨⟩ x hx; cases hx), hlog⟩
  | ended => exact ⟨hset nofun, hlog⟩
  | @commit ws hws =>
    refine ⟨hset nofun, fun vs hvs x hx => ?_⟩
    obtain rfl : ws = vs := by simpa [Store.commit] using hvs
    exact hb ws hws x hx
  | @sql s ws rank hws =>
    refine ⟨hset ?_, hlog⟩
    rintro _ ⟨⟩ x hx
    rcases List.mem_append.mp hx with hx | hx
    · exact hb ws hws x hx
    · exact run_late hc hx
  | @auto s rank =>
    refine ⟨hb, fun vs hvs x hx => ?_⟩
    obtain rfl : _ = vs := by simpa [Store.autocommit] using hvs
    exact run_late hc hx

theorem World.BuffersLate.rely (h : w.BuffersLate id os t) (hr : Rely t w w') :
    w'.BuffersLate id os t := by
  intro ws hws
  rw [hr.store.opened] at hws
  exact h ws hws

end Worlds

section Runs

variable [Platform] {calls : ℕ → Call} {id t : ℕ} {os : List GiftOrder} {w : World} {s s' : State}
  {a : Act Choice} {K : State → Act Choice → State → Prop} {before : History}

/-- The process is through, or whatever it still does is late. -/
def Tame (id : ℕ) (os : List GiftOrder) (s : State) (t : ℕ) : Prop :=
  (s.threads t).phase = .over ∨
    (s.threads t).Under (LateReply id os) (Cmd.Late id os) ∧ s.world.BuffersLate id os t

theorem Tame.step (ht : Tame id os s t) (hc : (calls t).Concerns id) (he : Engine s.world)
    (hf : s.world.db.Frozen id os) (hstep : (system calls).step s a = some s') :
    Tame id os s' t := by
  rcases ht with hover | ⟨hunder, hbuf⟩
  · left
    have hne : ∀ u, (s.threads u).phase ≠ .over → t ≠ u := by
      rintro u hu rfl
      exact hu hover
    cases a with
    | start u =>
      obtain ⟨hu, -, rfl⟩ := Machine.step_start hstep
      rwa [Pool.setThread_of_ne (hne u (by rw [hu]; nofun))]
    | run u ch =>
      obtain ⟨c, k, r, w', hu, -, rfl⟩ := Machine.step_run hstep
      rwa [Pool.setThread_of_ne (hne u (by rw [hu]; nofun))]
    | crash u =>
      obtain ⟨c, k, hu, rfl⟩ := Machine.step_crash hstep
      rwa [Pool.setThread_of_ne (hne u (by rw [hu]; nofun))]
  · refine .inr ⟨Machine.step_under hstep (late_program hc)
      (fun _ hex => exec_lateReply hf hbuf hex) hunder, ?_⟩
    cases a with
    | start u =>
      obtain ⟨-, -, rfl⟩ := Machine.step_start hstep
      exact hbuf
    | run u ch =>
      obtain ⟨c, k, r, w', hk, hex, rfl⟩ := Machine.step_run hstep
      by_cases hu : t = u
      · subst hu
        rw [hk] at hunder
        exact (exec_late hunder.1 hbuf hex).1
      · exact hbuf.rely ((exec_moves hex).rely he hu)
    | crash u =>
      obtain ⟨c, k, -, rfl⟩ := Machine.step_crash hstep
      by_cases hu : t = u
      · subst hu
        intro ws hws
        cases (Store.setOpened_self _ _ _).symm.trans hws
      · exact hbuf.rely ((abort_moves _ _).rely he hu)

theorem Txn.late {d : DB} {h : History} {c : Call} {ws : List Write} (ht : Txn d h c ws)
    (hc : ¬ c.Concerns id) : ∀ x ∈ ws, x.Late id os := by
  intro x hx
  cases x with
  | giftOrder o =>
    rintro ⟨hid, -⟩
    rcases ht.of_giftOrder (List.mem_filterMap.mpr ⟨_, hx, rfl⟩) with
      ⟨req, p, rfl, -, rfl⟩ | ⟨req, p, rfl, -, rfl⟩
    · exact hc hid
    · exact hc hid
  | settlement i r =>
    rintro rfl
    have hsettles : Settles _ _ i ws c := ht.of_settlementRow (List.mem_filterMap.mpr ⟨_, hx, rfl⟩)
    cases hsettles with
    | asked => exact absurd rfl hc
    | announced _ _ _ hu hid => exact absurd ⟨_, hu, hid⟩ hc
  | _ => trivial

/-- Once the session is quiet: its orders stay, whoever still acts on it is tame, and a settlement
made since then is final. -/
structure Quiet (calls : ℕ → Call) (id : ℕ) (os : List GiftOrder) (before : History)
    (s : State) : Prop where
  frozen : s.world.db.Frozen id os
  tame : ∀ t, (calls t).Concerns id → Tame id os s t
  settled : ∃ later, s.world.store.binlog = before ++ later ∧
    ((∃ e ∈ later, id ∈ e.2.filterMap Write.settles?) → s.world.db.Final id)

/-- What is committed once the session is quiet, is late. -/
theorem Quiet.commits_late (hq : Quiet calls id os before s) (hs : Start w)
    (h : (system calls).Reach K (Pool.fresh w) s') (hstep : (system calls).step s a = some s')
    {ws : List Write}
    (hb : s'.world.store.binlog = s.world.store.binlog ++ [(a.process, ws)]) :
    ∀ x ∈ ws, x.Late id os := by
  by_cases hc : (calls a.process).Concerns id
  · have htame := hq.tame _ hc
    cases a with
    | start u =>
      obtain ⟨-, -, rfl⟩ := Machine.step_start hstep
      exact absurd hb (by simp)
    | run u ch =>
      obtain ⟨c, k, r, w', hk, hex, rfl⟩ := Machine.step_run hstep
      rcases htame with hover | ⟨hunder, hbuf⟩
      · change (s.threads u).phase = .over at hover
        rw [hk] at hover
        cases hover
      · change (s.threads u).Under _ _ at hunder
        rw [hk] at hunder
        exact (exec_late hunder.1 hbuf hex).2 ws hb
    | crash u =>
      obtain ⟨c, k, -, rfl⟩ := Machine.step_crash hstep
      change s.world.store.binlog = _ at hb
      exact absurd hb (by simp)
  · have hl := (reach_legal hs h).1
    rw [hb] at hl
    exact hl.last.late hc

theorem DB.Frozen.final {d : DB} {h : History} {c : Call} {ws : List Write} (hf : d.Frozen id os)
    (ht : Txn w.db h c ws) (hlate : ∀ x ∈ ws, x.Late id os)
    (hid : id ∈ ws.filterMap Write.settlementRow?) : (applyAll ws d).Final id := by
  obtain ⟨p, rfl⟩ := (ht.of_settlementRow hid).settled
  have htotals : p.row.totals = totalsOf os := hlate (.settlement id p.row) List.mem_cons_self rfl
  have hrow : (applyAll p.writes d).streamSettlements id = some p.row := by
    simp [Settled.writes, Write.apply]
  change ((applyAll p.writes d).streamSettlements id).map StreamSettlement.totals =
    some (totalsOf ((applyAll p.writes d).acceptedOrders id))
  rw [hrow, (hf.late hlate).orders, Option.map_some, htotals]

theorem Quiet.step (hq : Quiet calls id os before s) (hs : Start w)
    (h : (system calls).Reach (fun _ _ _ => True) (Pool.fresh w) s)
    (hstep : (system calls).step s a = some s') : Quiet calls id os before s' := by
  have h' := h.tail hstep trivial
  have he := (reach_good (.any calls w) hs Env.any_allows h).1.engine
  have htame : ∀ t, (calls t).Concerns id → Tame id os s' t := fun t hc =>
    (hq.tame t hc).step hc he hq.frozen hstep
  obtain ⟨later, hlater, hfinal⟩ := hq.settled
  rcases step_tables hstep with ⟨hb, hd⟩ | ⟨ws, hb, hd⟩
  · exact ⟨hd ▸ hq.frozen, htame, later, hb.trans hlater, hd ▸ hfinal⟩
  · have hlate := hq.commits_late hs h' hstep hb
    refine ⟨hd ▸ hq.frozen.late hlate, htame, later ++ [(a.process, ws)],
      by rw [hb, hlater, List.append_assoc], fun hset => ?_⟩
    rw [hd]
    by_cases hid : id ∈ ws.filterMap Write.settlementRow?
    · have hl := (reach_legal hs h').1
      rw [hb] at hl
      exact hq.frozen.final hl.last hlate hid
    · -- the settlement was there before
      obtain ⟨e, hmem, hset⟩ := hset
      have hold : e ∈ later := by
        refine (List.mem_append.mp hmem).resolve_right fun hnew => hid ?_
        rw [List.mem_singleton.mp hnew] at hset
        exact Write.mem_settlementRow hset
      have hf := hfinal ⟨e, hold, hset⟩
      unfold DB.Final at hf ⊢
      rw [acceptedOrders_late hlate, (applyAll_settlementRows hid).1]
      exact hf

theorem tame_of_resting (hs : Start w) (h : (system calls).Reach K (Pool.fresh w) s)
    (hrest : (s.threads t).phase ≠ .acting) : Tame id os s t := by
  cases hth : s.threads t with
  | idle =>
    right
    rw [hth]
    refine ⟨trivial, fun ws hws => ?_⟩
    rw [reach_unopened hs h hth] at hws
    cases hws
  | live p =>
    rw [hth] at hrest
    cases p with
    | ret a =>
      left
      rw [hth]
      rfl
    | op c k => exact absurd rfl hrest
  | dead =>
    left
    rw [hth]
    rfl

theorem quiet_of_closed (hs : Start w) (h : (system calls).Reach K (Pool.fresh w) s)
    (hclosed : s.world.db.HasStatus id .closed)
    (hrest : ∀ t, (calls t).Concerns id → (s.threads t).phase ≠ .acting) :
    Quiet calls id (s.world.db.acceptedOrders id) s.world.store.binlog s where
  frozen := ⟨hclosed, rfl⟩
  tame t hc := tame_of_resting hs h (hrest t hc)
  settled := ⟨[], by simp, by simp⟩

/-- In a state in which a session is closed and neither a gift to it nor a settlement of it is
under way, its accepted gifts are complete: they stay the same in every later state, and as soon
as a settlement of it is committed after that, whoever asks for it and however often, the stored
settlement agrees with them. -/
theorem settlement_final_once_quiet (calls : ℕ → Call) (id : ℕ) (hs : Start w)
    (h : (system calls).Reach (fun _ _ _ => True) (Pool.fresh w) s)
    (hclosed : s.world.db.HasStatus id .closed)
    (hrest : ∀ t, (calls t).Concerns id → (s.threads t).phase ≠ .acting)
    (h' : (system calls).Reach (fun _ _ _ => True) s s') :
    s'.world.db.acceptedOrders id = s.world.db.acceptedOrders id ∧
      ∀ later, s'.world.store.binlog = s.world.store.binlog ++ later →
        (∃ e ∈ later, id ∈ e.2.filterMap Write.settles?) → s'.world.db.Final id := by
  have hq : Quiet calls id (s.world.db.acceptedOrders id) s.world.store.binlog s' :=
    h'.induct (quiet_of_closed hs h hclosed hrest) fun _ _ _ hr hq hstep _ =>
      hq.step hs (h.trans hr) hstep
  refine ⟨hq.frozen.orders, fun later hlater hset => ?_⟩
  obtain ⟨later', hlater', hfinal⟩ := hq.settled
  obtain rfl : later' = later := List.append_cancel_left (hlater'.symm.trans hlater)
  exact hfinal hset

end Runs

section Witness

open Plain

def giftCloseGift : ℕ → Call
  | 0 => .sendGift ⟨"g1", 2001, 1001, 9001, none, "ROSE", 3, 0⟩
  | 1 => .closeLiveSession 9001
  | 2 => .sendGift ⟨"g2", 2001, 1001, 9001, none, "ROSE", 2, 0⟩
  | _ => .generateSettlement 9001

/-- The gift and the closing are through, then the other two calls interleave. -/
theorem settlement_final_once_quiet_requested : ∃ s s' : State,
    s.world.db.HasStatus 9001 .closed ∧ (s.world.db.acceptedOrders 9001).length = 1 ∧
    s.world.db.streamSettlements 9001 = none ∧ s'.world.db.giftOrders.length = 2 ∧
    s'.world.db.acceptedOrders 9001 = s.world.db.acceptedOrders 9001 ∧
    s'.world.db.Final 9001 := by
  obtain ⟨s, hr, hp⟩ := Machine.exists_reach (M := system giftCloseGift)
    (s := Pool.fresh (World.boot migrated)) (K := fun _ a _ => decide (a.process < 2))
    (p := fun s : State => decide (s.world.db.HasStatus 9001 .closed ∧
      (s.world.db.acceptedOrders 9001).length = 1 ∧ s.world.db.streamSettlements 9001 = none ∧
      (s.threads 0).phase ≠ .acting ∧ ((system giftCloseGift).run (fun _ _ _ => true) s
        (launch 2 5 6 ++ launch 3 6 7 ++ resume 2 4 8 ++ resume 3 6 9)).any fun s' : State =>
          decide (s'.world.db.giftOrders.length = 2 ∧ ∃ k ∈ [s.world.store.binlog.length],
            s'.world.store.binlog = s.world.store.binlog ++ s'.world.store.binlog.drop k ∧
            ∃ e ∈ s'.world.store.binlog.drop k, 9001 ∈ e.2.filterMap Write.settles?)))
    (launch 0 20 4 ++ launch 1 8 5) (by decide +kernel)
  obtain ⟨hclosed, hone, hnone, hover, hrun⟩ := of_decide_eq_true hp
  obtain ⟨s', hr', hp'⟩ := Machine.exists_reach _ hrun
  obtain ⟨htwo, k, -, hlater, hset⟩ := of_decide_eq_true hp'
  have hidle : ∀ t, 2 ≤ t → s.threads t = .idle := fun t ht =>
    hr.untouched fun _ a _ hk hne => by
      have := of_decide_eq_true hk
      omega
  have hrest : ∀ t, (giftCloseGift t).Concerns 9001 → (s.threads t).phase ≠ .acting := by
    rintro (_ | _ | t) hc
    · exact hover
    · exact hc.elim
    · rw [hidle _ (by omega)]
      nofun
  have hfinal := settlement_final_once_quiet giftCloseGift 9001 (Start.boot rfl rfl rfl rfl)
    (hr.mono fun _ _ _ _ => trivial) hclosed hrest (hr'.mono fun _ _ _ _ => trivial)
  exact ⟨s, s', hclosed, hone, hnone, htwo, hfinal.1, hfinal.2 _ hlater hset⟩

end Witness

end LiveRevenue
