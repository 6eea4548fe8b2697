import LiveRevenue.Result.Finality
import LiveRevenue.Result.Ledger

/-! # Running the migrations again

Every start of the stack runs the Up sections of all migration files. On a database in use
the seed rows meet rows that are already there. Their conflict clauses leave users, gifts
and matches as the services know them, but put the seeded balances back and open the seeded
sessions again, so a second run is harmless only while none of these has moved.
-/

namespace LiveRevenue

open Transact

/-- Nothing the services have recorded is lost on the way from `d` to `d'`. -/
structure DB.Survives (d d' : DB) : Prop where
  balances : ∀ u, d'.walletAccounts u = d.walletAccounts u
  sessions : ∀ id, (d'.liveSessions id).map (fun s => (s.status, s.closedAt)) =
    (d.liveSessions id).map fun s => (s.status, s.closedAt)
  matchStatus : ∀ id, (d'.liveMatches id).map (·.status) = (d.liveMatches id).map (·.status)
  giftOrders : d'.giftOrders = d.giftOrders
  books : (∀ u, d.balance u = migrated.balance u + d.coins u) →
    ∀ u, d'.balance u = migrated.balance u + d'.coins u
  closed : ∀ id, d.HasStatus id .closed → d'.HasStatus id .closed

/-- The seeded wallets hold their seeded balances and the seeded sessions are still open. -/
structure DB.Unmoved (d : DB) : Prop where
  balances : ∀ u b, migrated.walletAccounts u = some b → d.walletAccounts u = some b
  sessions : ∀ id, migrated.liveSessions id ≠ none → d.HasStatus id .opened

/-- A session without a closing time is what OPEN means. -/
def DB.OpenUntilClosed (d : DB) : Prop :=
  ∀ id l, d.liveSessions id = some l → l.status = .opened → l.closedAt = none

theorem migrated_openUntilClosed : migrated.OpenUntilClosed := by
  intro id l hl _
  simp only [migrated, seedSessions, List.lookup_cons, List.lookup_nil] at hl
  repeat' split at hl
  all_goals cases hl <;> rfl

theorem DB.OpenUntilClosed.apply {d : DB} (h : d.OpenUntilClosed) (x : Write) :
    (x.apply d).OpenUntilClosed := by
  cases x with
  | closeSession i at_ =>
    intro id l hl ho
    by_cases hi : id = i
    · subst hi
      simp only [Write.apply, Function.update_self] at hl
      obtain ⟨l₀, -, rfl⟩ := Option.map_eq_some_iff.mp hl
      cases ho
    · exact h id l (by simpa only [Write.apply, Function.update_of_ne hi] using hl) ho
  | _ => exact h

theorem migrated_opened {id : ℕ} {l : LiveSession} (h : migrated.liveSessions id = some l) :
    l.status = .opened ∧ l.closedAt = none := by
  simp only [migrated, seedSessions, List.lookup_cons, List.lookup_nil] at h
  repeat' split at h
  all_goals cases h <;> exact ⟨rfl, rfl⟩

section General

variable [Platform] {K : State → Act Choice → State → Prop} {d : DB}

theorem DB.OpenUntilClosed.applyAll {d : DB} (h : d.OpenUntilClosed) (ws : List Write) :
    (applyAll ws d).OpenUntilClosed := by
  induction ws generalizing d with
  | nil => exact h
  | cons x ws ih => exact ih (h.apply x)

theorem DB.OpenUntilClosed.dbAt {d : DB} (hd : d.OpenUntilClosed) (h : History) :
    (dbAt d h).OpenUntilClosed := by
  induction h generalizing d with
  | nil => exact hd
  | cons e h ih => exact ih (hd.applyAll e.2)

theorem migrateUp_walletAccounts (d : DB) (u : ℕ) : d.migrateUp.walletAccounts u =
    (migrated.walletAccounts u).elim (d.walletAccounts u) some := by
  have hkeys : (seedBalances.map Prod.fst).Nodup := by decide
  simp only [DB.migrateUp, upsert_apply hkeys]
  cases d.walletAccounts u <;> rfl

theorem migrateUp_liveSessions (d : DB) (id : ℕ) : d.migrateUp.liveSessions id =
    (migrated.liveSessions id).elim (d.liveSessions id) fun l => some ((d.liveSessions id).elim l
      fun old => { old with status := l.status, closedAt := l.closedAt }) := by
  have hkeys : (seedSessions.map Prod.fst).Nodup := by decide
  simp only [DB.migrateUp, upsert_apply hkeys]
  rfl

theorem migrateUp_liveMatches (d : DB) (id : ℕ) : d.migrateUp.liveMatches id =
    (migrated.liveMatches id).elim (d.liveMatches id) fun m => some ((d.liveMatches id).elim m
      fun old => { old with
        status := m.status, mode := m.mode, specificGiftID := m.specificGiftID }) := by
  have hkeys : (seedMatches.map Prod.fst).Nodup := by decide
  simp only [DB.migrateUp, upsert_apply hkeys]
  rfl

/-- The matches are what they were at the start, which is what the seed offers again. -/
theorem migrateUp_liveMatches_same (h : d.liveMatches = migrated.liveMatches) :
    d.migrateUp.liveMatches = d.liveMatches := by
  funext id
  rw [migrateUp_liveMatches, h]
  cases migrated.liveMatches id <;> rfl

theorem DB.Unmoved.walletAccounts (h : d.Unmoved) :
    d.migrateUp.walletAccounts = d.walletAccounts := by
  funext u
  rw [migrateUp_walletAccounts]
  cases hu : migrated.walletAccounts u with
  | none => rfl
  | some b => exact (h.balances u b hu).symm

theorem DB.Unmoved.liveSessions (h : d.Unmoved) (ho : d.OpenUntilClosed) :
    d.migrateUp.liveSessions = d.liveSessions := by
  funext id
  rw [migrateUp_liveSessions]
  cases hid : migrated.liveSessions id with
  | none => rfl
  | some l =>
    obtain ⟨x, hx, hs⟩ := Option.map_eq_some_iff.mp (h.sessions id (by simp [hid]))
    obtain ⟨hl, hc⟩ := migrated_opened hid
    have hnone := ho id x hx hs
    rw [hx]
    simp only [Option.elim_some, hl, hc, ← hs, ← hnone]

theorem DB.Survives.of_unmoved (h : d.Unmoved) (ho : d.OpenUntilClosed)
    (hm : d.liveMatches = migrated.liveMatches) : d.Survives d.migrateUp where
  balances u := congrFun h.walletAccounts u
  sessions id := by rw [h.liveSessions ho]
  matchStatus id := by rw [migrateUp_liveMatches_same hm]
  giftOrders := rfl
  books hb u := (DB.balance_congr (congrFun h.walletAccounts u)).trans (hb u)
  closed id hid := by
    unfold DB.HasStatus
    rw [h.liveSessions ho]
    exact hid

theorem DB.Survives.unmoved (h : d.Survives d.migrateUp)
    (hs : ∀ id, migrated.liveSessions id ≠ none → d.liveSessions id ≠ none) : d.Unmoved where
  balances u b hu := by
    have hsame := h.balances u
    rw [migrateUp_walletAccounts, hu] at hsame
    exact hsame.symm
  sessions id hid := by
    obtain ⟨l, hl⟩ := Option.ne_none_iff_exists'.mp hid
    obtain ⟨x, hx⟩ := Option.ne_none_iff_exists'.mp (hs id hid)
    have hsame := h.sessions id
    rw [migrateUp_liveSessions, hl, hx] at hsame
    have hstatus : l.status = x.status := congrArg Prod.fst (Option.some.inj hsame)
    rw [DB.HasStatus, hx, Option.map_some, ← hstatus, (migrated_opened hl).1]

/-- On a database the services have worked on, the migrations can run again without harm exactly
as long as no seeded balance has moved and no seeded session is closed. -/
theorem migrations_survive_iff (calls : ℕ → Call) {s : State}
    (h : (system calls).Reach K (Pool.fresh (World.boot migrated)) s) :
    s.world.db.Survives s.world.db.migrateUp ↔ s.world.db.Unmoved := by
  have hd := (reach_legal (Start.boot rfl rfl rfl rfl) h).2
  have hg : migrated.Grows s.world.db := hd ▸ grows_dbAt _ _
  have ho : s.world.db.OpenUntilClosed := hd ▸ migrated_openUntilClosed.dbAt _
  constructor
  · intro hsurvives
    refine hsurvives.unmoved fun id hid => ?_
    have hfixed := hg.sessionFixed id
    intro hnone
    rw [hnone, Option.map_none] at hfixed
    exact hid (Option.map_eq_none_iff.mp hfixed.symm)
  · exact fun hu => .of_unmoved hu ho hg.liveMatches

end General

section Witness

open Plain

theorem DB.Unmoved.of_rows {d : DB}
    (h : (∀ x ∈ seedBalances, d.walletAccounts x.1 = some x.2) ∧
      ∀ x ∈ seedSessions, d.HasStatus x.1 .opened) : d.Unmoved where
  balances u b hu := by
    obtain ⟨l₁, l₂, he, -⟩ := List.lookup_eq_some_iff.mp hu
    exact h.1 (u, b) (by simp [he])
  sessions id hid := by
    obtain ⟨l, hl⟩ := Option.ne_none_iff_exists'.mp hid
    obtain ⟨l₁, l₂, he, -⟩ := List.lookup_eq_some_iff.mp hl
    exact h.2 (id, l) (by simp [he])

def unpaidGift : ℕ → Call := fun _ => .sendGift ⟨"g1", 2001, 1002, 9002, none, "LION", 1, 0⟩

/-- A rejected gift has left the seeded rows alone. -/
theorem migrations_survive_rejected : ∃ s : State, s.world.db.giftOrders.length = 1 ∧
    s.world.db.Survives s.world.db.migrateUp := by
  obtain ⟨s, hr, hp⟩ := Machine.exists_reach (M := system unpaidGift)
    (s := Pool.fresh (World.boot migrated)) (K := fun _ _ _ => true)
    (p := fun s => decide (s.world.db.giftOrders.length = 1) &&
      decide ((∀ x ∈ seedBalances, s.world.db.walletAccounts x.1 = some x.2) ∧
        ∀ x ∈ seedSessions, s.world.db.HasStatus x.1 .opened))
    (launch 0 13 5) (by decide +kernel)
  obtain ⟨horders, hunmoved⟩ := Bool.and_eq_true_iff.mp hp
  exact ⟨s, of_decide_eq_true horders, (migrations_survive_iff unpaidGift hr).mpr
    (.of_rows (of_decide_eq_true hunmoved))⟩

def giftThenClose : ℕ → Call
  | 0 => .sendGift ⟨"g1", 2001, 1001, 9001, none, "GG", 1, 0⟩
  | _ => .closeLiveSession 9001

/-- The next run of the migrations gives the coins back and opens the session again. -/
theorem migrations_reset_live_data : ∃ s : State,
    (system giftThenClose).Reach (fun _ _ _ => True) (Pool.fresh (World.boot migrated)) s ∧
    s.world.db.balance 2001 = 990 ∧ s.world.db.migrateUp.balance 2001 = 1000 ∧
    s.world.db.migrateUp.balance 2001 ≠ migrated.balance 2001 + s.world.db.migrateUp.coins 2001 ∧
    s.world.db.HasStatus 9001 .closed ∧ s.world.db.migrateUp.HasStatus 9001 .opened ∧
    ¬ s.world.db.Survives s.world.db.migrateUp := by
  obtain ⟨s, hr, hp⟩ := Machine.exists_reach (M := system giftThenClose)
    (s := Pool.fresh (World.boot migrated)) (K := fun _ _ _ => true)
    (p := fun s => decide (s.world.db.balance 2001 = 990 ∧
      s.world.db.migrateUp.balance 2001 = 1000 ∧
      s.world.db.migrateUp.balance 2001 ≠ migrated.balance 2001 + s.world.db.migrateUp.coins 2001 ∧
      s.world.db.HasStatus 9001 .closed ∧ s.world.db.migrateUp.HasStatus 9001 .opened))
    (launch 0 20 5 ++ launch 1 8 6) (by decide +kernel)
  obtain ⟨hbefore, hafter, hbooks, hclosed, hopened⟩ := of_decide_eq_true hp
  refine ⟨s, hr.mono fun _ _ _ _ => trivial, hbefore, hafter, hbooks, hclosed, hopened, ?_⟩
  intro hsurvives
  have hsame := DB.balance_congr (hsurvives.balances 2001)
  rw [hbefore, hafter] at hsame
  cases hsame

end Witness

end LiveRevenue
