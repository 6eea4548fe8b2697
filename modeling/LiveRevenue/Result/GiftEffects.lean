import LiveRevenue.Result.Idempotency

/-! # What a gift leaves behind

Whatever the other calls do and wherever a statement or the commit of a gift fails, its
committed writes are determined by how it ends. A gift that was answered from a recorded
order or failed may have opened the viewer's account and has done nothing else.
-/

namespace LiveRevenue

open Transact

/-- The committed writes of a gift, without the upsert of the viewer's empty account. -/
def netWrites (req : GiftRequest) (cs : List (List Write)) : List Write :=
  cs.flatten.filter (· ≠ .openAccount req.viewerID)

structure GiftOrder.Refuses (o : GiftOrder) (req : GiftRequest) : Prop where
  status : o.status = .rejected
  viewerID : o.viewerID = req.viewerID
  requestID : Varchar.Cut 64 o.requestID req.requestID
  chargedCoins : o.chargedCoins = 0
  matchPointsAdded : o.matchPointsAdded = 0
  diamondReward : o.diamondReward = 0

structure GiftOrder.Books (o : GiftOrder) (req : GiftRequest) (resp : GiftResponse) : Prop where
  status : o.status = .accepted
  viewerID : o.viewerID = req.viewerID
  requestID : Varchar.Cut 64 o.requestID req.requestID
  giftOrderID : o.giftOrderID = resp.giftOrderID
  chargedCoins : o.chargedCoins = resp.chargedCoins
  postBalance : o.postBalance = some resp.newBalance
  created : resp.idempotency = "created"

theorem netWrites_of_idle {req : GiftRequest} {cs : List (List Write)} (h : Idle req cs) :
    netWrites req cs = [] := by
  refine List.filter_eq_nil_iff.mpr fun x hx => ?_
  obtain ⟨ws, hws, hx⟩ := List.mem_flatten.mp hx
  rcases h ws hws with rfl | rfl
  · cases hx
  · rw [List.mem_singleton.mp hx]
    simp

theorem filter_opening {req : GiftRequest} {d : DB} :
    (d.opening req.viewerID).filter (· ≠ .openAccount req.viewerID) = [] := by
  unfold DB.opening
  split <;> simp

section General

variable [Platform]

/-- How a gift of process `t` ends in the history `h` over the tables `d`, with the writes it
leaves. -/
inductive GiftEffect (req : GiftRequest) (d : DB) (h : History) (t : ℕ) :
    Ret GiftResponse → List Write → Prop where
  | failed {e : Err} : GiftEffect req d h t (.err e) []
  | invalid {e : AppError} : ¬ req.Valid → GiftEffect req d h t (.app e) []
  | mismatch {o : GiftOrder} : o ∈ (dbAt d h).giftOrders → o.lock = req.key →
      o.bodyHash ≠ Platform.giftHash req → GiftEffect req d h t (.app payloadMismatch) []
  | replayed {o : GiftOrder} : o ∈ (dbAt d h).giftOrders → o.lock = req.key →
      o.bodyHash = Platform.giftHash req → o.status = .accepted →
      GiftEffect req d h t (.ok o.replay) []
  | replayedRejection {o : GiftOrder} : o ∈ (dbAt d h).giftOrders → o.lock = req.key →
      o.bodyHash = Platform.giftHash req → o.status ≠ .accepted →
      GiftEffect req d h t (.app (mapRejectCodeToAppError (o.rejectCode.getD "REJECTED"))) []
  | rejected {e : AppError} {o : GiftOrder} {r : OutboxRow} : (e.code, e.httpStatus) ∈ rejections →
      o.Refuses req → r.topic = giftRejectedTopic →
      GiftEffect req d h t (.app e) [.giftOrder o, .outbox r]
  | accepted {resp : GiftResponse} {h₁ h₂ : History} {ws : List Write} {x : WalletTx}
      {o : GiftOrder} {r r' : OutboxRow} : h = h₁ ++ (t, ws) :: h₂ →
      x.txType = .giftDebit → x.actorUserID = req.viewerID → o.Books req resp →
      r.topic = walletTopic → r'.topic = giftAcceptedTopic →
      GiftEffect req d h t (.ok resp)
        [.walletTx x, .walletEntry ⟨x.txID, userCoins req.viewerID, -resp.chargedCoins⟩,
          .walletEntry ⟨x.txID, "PLATFORM_RESERVED_COINS", resp.chargedCoins⟩,
          .setBalance req.viewerID ((dbAt d h₁).balance req.viewerID - resp.chargedCoins),
          .giftOrder o, .outbox r, .outbox r']

section Net

variable {req : GiftRequest} {d : DB}

theorem Rejected.netWrites (p : Rejected req d) :
    netWrites req [p.writes] = [.giftOrder p.order, .outbox p.event] := by
  simp only [LiveRevenue.netWrites, Rejected.writes, List.flatten_singleton, List.filter_append]
  split
  · rw [filter_opening]
    rfl
  · rfl

theorem Accepted.netWrites (p : Accepted req d) :
    netWrites req [p.writes] = [.walletTx p.tx,
      .walletEntry ⟨p.txID, userCoins req.viewerID, -p.response.chargedCoins⟩,
      .walletEntry ⟨p.txID, "PLATFORM_RESERVED_COINS", p.response.chargedCoins⟩,
      .setBalance req.viewerID (d.balance req.viewerID - p.response.chargedCoins),
      .giftOrder p.order, .outbox p.walletEvent, .outbox p.giftEvent] := by
  have hcharged : (p.response.chargedCoins : ℤ) = p.amounts.charged :=
    Int.toNat_of_nonneg p.charged_pos.le
  rw [hcharged]
  have hopen : (d.opening p.tx.actorUserID).filter (· ≠ .openAccount req.viewerID) = [] :=
    filter_opening
  simp only [LiveRevenue.netWrites, Accepted.writes, posting, List.flatten_singleton,
    List.filter_append, hopen]
  simp [Accepted.tx, Accepted.newBalance]

theorem Accepted.books (p : Accepted req d) : p.order.Books req p.response :=
  ⟨rfl, rfl, rfl, rfl, rfl, rfl, rfl⟩

end Net

section Runs

variable {calls : ℕ → Call} {w : World} {s : State} {t : ℕ} {req : GiftRequest}
  {K : State → Act Choice → State → Prop} (hs : Start w)
  (h : (system calls).Reach K (Pool.fresh w) s)
include hs h

theorem reach_gift_accepted (hc : calls t = .sendGift req) {d : DB} (p : Accepted req d)
    (hcs : s.world.store.committedBy t = [p.writes]) :
    GiftEffect req w.db s.world.store.binlog t (.ok p.response)
      (netWrites req (s.world.store.committedBy t)) := by
  have hmem : (t, p.writes) ∈ s.world.store.binlog :=
    Store.mem_committedBy.mp (hcs ▸ List.mem_singleton_self _)
  obtain ⟨h₁, h₂, hbin, -, ht⟩ := (reach_legal hs h).1.at hmem
  have ho : p.order ∈ p.writes.filterMap Write.giftOrder? := by simp
  rcases ht.of_giftOrder ho with ⟨req', p', hc', hws, ho'⟩ | ⟨req', p', hc', hws, ho'⟩
  · obtain rfl : req = req' := Call.sendGift.inj (hc.symm.trans hc')
    have hnet := congrArg (fun ws => netWrites req [ws]) hws
    simp only [Accepted.netWrites] at hnet
    -- the balance it set is the one it found less the price
    have hbal : d.balance req.viewerID - p.response.chargedCoins =
        (dbAt w.db h₁).balance req.viewerID - p.response.chargedCoins := by
      have hprice : p.response.chargedCoins = p'.response.chargedCoins :=
        congrArg GiftOrder.chargedCoins ho'
      rw [hprice]
      simp only [List.cons.injEq, Write.setBalance.injEq] at hnet
      exact hprice ▸ hnet.2.2.2.1.2
    rw [hcs, p.netWrites, hbal]
    exact .accepted hbin rfl rfl p.books rfl rfl
  · have hstatus := congrArg GiftOrder.status ho'
    cases hstatus

omit hs h in
/-- In every run, the committed writes of a gift that returned are those of the way it ended, if a
commit of it that failed was not applied. -/
theorem only_accepted_gifts_move (calls : ℕ → Call) {w : World} (hs : Start w) {s : State} {t : ℕ}
    (h : (system calls).Reach (Answered t) (Pool.fresh w) s) {req : GiftRequest}
    (hc : calls t = .sendGift req) {r : Ret GiftResponse}
    (hr : (s.threads t).result? = some (.gifted r)) :
    GiftEffect req w.db s.world.store.binlog t r (netWrites req (s.world.store.committedBy t)) := by
  obtain ⟨-, hd⟩ := reach_legal hs h
  obtain ⟨_, he, hpost⟩ := gifted_of_good (reach_good (.answered calls w t) hs
    Env.answered_allows h) hc hr
  cases he
  cases hpost with
  | invalid hv hcs =>
    rw [hcs]
    exact .invalid hv
  | failed _ hcs =>
    rw [hcs.resolve_right fun hl => Env.answered_not_losing hl.2]
    exact .failed
  | recorded hx hidle =>
    rw [netWrites_of_idle hidle]
    rw [hd] at hx
    cases hx with
    | mismatch ho hk hh => exact .mismatch ho hk hh
    | accepted ho hk hh hacc => exact .replayed ho hk hh hacc
    | rejected ho hk hh hrej => exact .replayedRejection ho hk hh hrej
  | created p _ hcs => exact reach_gift_accepted hs h hc p hcs
  | rejected p _ hcs =>
    rw [hcs, p.netWrites]
    exact .rejected p.known ⟨rfl, rfl, rfl, rfl, rfl, rfl⟩ rfl

end Runs

end General

section Witness

open Plain

def threeGifts : ℕ → Call
  | 2 => .sendGift ⟨"g2", 2001, 1001, 9001, none, "LION", 99, 0⟩
  | _ => .sendGift ⟨"g1", 2001, 1001, 9001, none, "ROSE", 3, 0⟩

theorem only_accepted_gifts_move_three : ∃ s : State, ∃ r₀ r₁ r₂,
    GiftEffect ⟨"g1", 2001, 1001, 9001, none, "ROSE", 3, 0⟩ migrated s.world.store.binlog 0 r₀
      (netWrites ⟨"g1", 2001, 1001, 9001, none, "ROSE", 3, 0⟩ (s.world.store.committedBy 0)) ∧
    GiftEffect ⟨"g1", 2001, 1001, 9001, none, "ROSE", 3, 0⟩ migrated s.world.store.binlog 1 r₁
      (netWrites ⟨"g1", 2001, 1001, 9001, none, "ROSE", 3, 0⟩ (s.world.store.committedBy 1)) ∧
    GiftEffect ⟨"g2", 2001, 1001, 9001, none, "LION", 99, 0⟩ migrated s.world.store.binlog 2 r₂
      (netWrites ⟨"g2", 2001, 1001, 9001, none, "LION", 99, 0⟩ (s.world.store.committedBy 2)) ∧
    s.world.db.walletAccounts 2001 = some 997 := by
  obtain ⟨s, hr, hp⟩ := Machine.exists_reach (M := system threeGifts)
    (s := Pool.fresh (World.boot migrated)) (K := fun _ a _ => (failing? a).isNone)
    (p := fun s => decide ((s.threads 0).result?.isSome ∧ (s.threads 1).result?.isSome ∧
      (s.threads 2).result?.isSome ∧ s.world.db.walletAccounts 2001 = some 997))
    (launch 0 20 5 ++ launch 1 4 6 ++ launch 2 13 7) (by decide +kernel)
  obtain ⟨h0, h1, h2, hbal⟩ := of_decide_eq_true hp
  have hreach : ∀ t, (system threeGifts).Reach (Answered t) (Pool.fresh (World.boot migrated)) s :=
    fun t => hr.mono fun _ _ _ hk => answered_of_unfailing hk
  have hstart : Start (World.boot migrated) := Start.boot rfl rfl rfl rfl
  obtain ⟨o₀, ho₀⟩ := Option.isSome_iff_exists.mp h0
  obtain ⟨o₁, ho₁⟩ := Option.isSome_iff_exists.mp h1
  obtain ⟨o₂, ho₂⟩ := Option.isSome_iff_exists.mp h2
  obtain ⟨r₀, rfl, -⟩ := reach_gifted hstart hr rfl ho₀
  obtain ⟨r₁, rfl, -⟩ := reach_gifted hstart hr rfl ho₁
  obtain ⟨r₂, rfl, -⟩ := reach_gifted hstart hr rfl ho₂
  exact ⟨s, r₀, r₁, r₂, only_accepted_gifts_move threeGifts hstart (hreach 0) rfl ho₀,
    only_accepted_gifts_move threeGifts hstart (hreach 1) rfl ho₁,
    only_accepted_gifts_move threeGifts hstart (hreach 2) rfl ho₂, hbal⟩

end Witness

end LiveRevenue
