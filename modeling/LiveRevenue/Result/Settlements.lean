import LiveRevenue.Result.Finality
import LiveRevenue.Result.Reconciliation

/-! # The two rows of a settlement

A settlement writes its row of `stream_settlements` and its row of
`reconciliation_results` in one transaction, and the second is computed from what the
first stores. Runs that overlap may read different totals, but whoever commits last has
written both rows, and a response reads both with one query.
-/

namespace LiveRevenue

open Transact

structure Reconciliation.Checks (check : Reconciliation) (row : StreamSettlement) : Prop where
  total : row.grossCoinSpend = check.giftOrderCoinTotal
  status : check.status = .pass ↔ check.walletGiftDebitTotal = check.giftOrderCoinTotal
  mismatches : check.mismatchCount = if check.status = .pass then 0 else 1

/-- One committed run of a settlement of the session wrote both rows. -/
def OneRun (calls : ℕ → Call) (h : History) (id : ℕ) (row : StreamSettlement)
    (check : Reconciliation) : Prop :=
  check.Checks row ∧ ∃ t, (calls t).settles? = some id ∧
    (t, [.settlement id row, .reconciliation id check]) ∈ h

/-- The session has neither row, or both of one run. -/
def RowsOfOneRun (calls : ℕ → Call) (h : History) (d : DB) (id : ℕ) : Prop :=
  (d.streamSettlements id = none ∧ d.reconciliations id = none) ∨
  ∃ row check, d.streamSettlements id = some row ∧ d.reconciliations id = some check ∧
    OneRun calls h id row check

def Responds (c : Call) (o : Outcome) (id : ℕ) (resp : SettlementResponse) : Prop :=
  c = .getSettlement id ∧ o = .shown (.ok resp) ∨
    c = .generateSettlement id ∧ o = .settled (.ok resp)

theorem reconcile_checks (total wallet : ℤ) (count diamonds : ℤ) (settledAt reconciledAt : ℕ) :
    (reconcile wallet total reconciledAt).Checks ⟨total, count, diamonds, settledAt⟩ := by
  unfold reconcile
  dsimp only
  split
  · next h => exact ⟨rfl, by simpa using h, rfl⟩
  · next h => exact ⟨rfl, by simpa using h, rfl⟩

theorem OneRun.mono {calls : ℕ → Call} {h h' : History} {id : ℕ} {row : StreamSettlement}
    {check : Reconciliation} (hrun : OneRun calls h id row check) (hp : h <+: h') :
    OneRun calls h' id row check := by
  obtain ⟨hc, t, ht, hm⟩ := hrun
  exact ⟨hc, t, ht, hp.subset hm⟩

section General

variable [Platform] {calls : ℕ → Call} {d : DB} {h : History} {c : Call} {ws : List Write} {id : ℕ}

theorem Legal.rowsOfOneRun (hl : Legal calls d h) (hrow : d.streamSettlements id = none)
    (hcheck : d.reconciliations id = none) : RowsOfOneRun calls h (dbAt d h) id := by
  induction hl with
  | nil => exact .inl ⟨hrow, hcheck⟩
  | @snoc h t ws _ ht ih =>
    rw [dbAt_snoc]
    by_cases hid : id ∈ ws.filterMap Write.settlementRow?
    · have hset := ht.of_settlementRow hid
      obtain ⟨p, rfl⟩ := hset.settled
      refine .inr ⟨_, _, Function.update_self .., Function.update_self .., reconcile_checks .., t,
        hset.settles?, ?_⟩
      simp [Settled.writes, Settled.row, DB.settlement]
    · obtain ⟨h₁, h₂⟩ := applyAll_settlementRows (d := dbAt d h) hid
      unfold RowsOfOneRun
      rw [h₁, h₂]
      refine ih.imp_right ?_
      rintro ⟨row, check, hr, hc, hrun⟩
      exact ⟨row, check, hr, hc, hrun.mono (List.prefix_append _ _)⟩

/-- In every state the two rows of a session are those of one run of its settlement, and every
response shows the numbers of one run. -/
theorem settlement_rows_of_one_run (calls : ℕ → Call) (id : ℕ) {w : World} (hs : Start w)
    (hrow : w.db.streamSettlements id = none) (hcheck : w.db.reconciliations id = none) {s : State}
    (h : (system calls).Reach (fun _ _ _ => True) (Pool.fresh w) s) :
    RowsOfOneRun calls s.world.store.binlog s.world.db id ∧
    ∀ t o resp, (s.threads t).result? = some o → Responds (calls t) o id resp →
      ∃ row check, resp.Shows row check ∧ OneRun calls s.world.store.binlog id row check := by
  have hgood := reach_good (.any calls w) hs Env.any_allows h
  constructor
  · rw [hgood.1.db_eq]
    exact hgood.1.legal.rowsOfOneRun hrow hcheck
  · intro t o resp ho hresp
    have hshow : ShowsRows (.any calls w) id resp s.world := by
      have hfin : Finished (.any calls w) t s.world (calls t) o := hgood.result ho
      rcases hresp with ⟨hc, rfl⟩ | ⟨hc, rfl⟩
      · rw [hc] at hfin
        cases hfin with
        | shown hpost => exact hpost resp rfl
      · rw [hc] at hfin
        cases hfin with
        | settled hpost => exact hpost resp rfl
    -- both rows were read in one earlier state
    obtain ⟨u, row, check, hu, hbin, hr, hk, hshows⟩ := hshow
    have hrows := hu.legal.rowsOfOneRun hrow hcheck
    rw [← hu.db_eq] at hrows
    rcases hrows with ⟨hnone, -⟩ | ⟨row', check', hr', hk', hrun⟩
    · rw [hr] at hnone
      cases hnone
    · obtain rfl := Option.some.inj (hr.symm.trans hr')
      obtain rfl := Option.some.inj (hk.symm.trans hk')
      exact ⟨row, check, hshows, hrun.mono hbin⟩

end General

section Witness

open Plain

def Outcome.shown? : Outcome → Option SettlementResponse
  | .shown (.ok resp) => some resp
  | _ => none

theorem Outcome.eq_of_shown? {o : Outcome} {resp : SettlementResponse}
    (h : o.shown? = some resp) : o = .shown (.ok resp) := by
  cases o with
  | shown r => cases r <;> cases h; rfl
  | _ => cases h

def giftAndTwoSettlements : ℕ → Call
  | 0 => .sendGift ⟨"g1", 2001, 1001, 9001, none, "ROSE", 3, 0⟩
  | 3 => .getSettlement 9001
  | _ => .generateSettlement 9001

/-- The first settlement reads its totals before the gift and the second after it; the second
waits for the first and then replaces both rows. -/
theorem settlement_rows_of_one_run_overlap : ∃ s : State,
    (s.world.db.streamSettlements 9001).map (·.grossCoinSpend) = some 3 ∧
    RowsOfOneRun giftAndTwoSettlements s.world.store.binlog s.world.db 9001 ∧
    ∃ resp, (s.threads 3).result? = some (.shown (.ok resp)) ∧ ∃ row check, resp.Shows row check ∧
      OneRun giftAndTwoSettlements s.world.store.binlog 9001 row check := by
  obtain ⟨s, hr, hp⟩ := Machine.exists_reach (M := system giftAndTwoSettlements)
    (s := Pool.fresh (World.boot migrated)) (K := fun _ _ _ => true)
    (p := fun s => decide ((s.world.db.streamSettlements 9001).map (·.grossCoinSpend) = some 3 ∧
      ((s.threads 3).result?.bind Outcome.shown?).isSome))
    (startAll [0, 1, 2] ++ resume 1 5 4 ++ resume 0 20 5 ++ resume 2 4 6 ++ resume 1 4 7 ++
      resume 2 8 8 ++ launch 3 2 9) (by decide +kernel)
  obtain ⟨hspend, hshown⟩ := of_decide_eq_true hp
  obtain ⟨resp, hshown⟩ := Option.isSome_iff_exists.mp hshown
  obtain ⟨o, ho, hresp⟩ := Option.bind_eq_some_iff.mp hshown
  rw [Outcome.eq_of_shown? hresp] at ho
  obtain ⟨hrows, hshows⟩ := settlement_rows_of_one_run giftAndTwoSettlements 9001
    (Start.boot rfl rfl rfl rfl) rfl rfl (hr.mono fun _ _ _ _ => trivial)
  exact ⟨s, hspend, hrows, resp, ho, hshows 3 _ resp ho (.inl ⟨rfl, rfl⟩)⟩

end Witness

end LiveRevenue
