import LiveRevenue.Schema.Tables

/-! # The migrations

The freshly migrated database has the rows of `migrations/00002_seed.sql` in otherwise
empty tables. The Up sections can be run again on any tables: `00001_init.sql` creates
only what is missing and `00003_add_idempotency_columns.sql` adds only columns that are
missing, so what a second run does is what the conflict clauses of the seed rows do.
-/

namespace LiveRevenue

namespace Plain

/-- The plainest platform: binary collation, no case folding, a hash of the amount alone. -/
scoped instance : Platform where
  giftHash req := [UInt8.ofNat req.quantity]
  rechargeHash req := [UInt8.ofNat req.coins]
  simpleFold := id
  collate := id
  giftHash_covers _ h := by
    rw [id, id] at h
    rw [← h, Varchar.store_store]

end Plain

namespace Folding

def weight (c : Char) : Char := if c = 'É' ∨ c = 'é' then 'e' else c.toLower

/-- The letters of ASCII and É: the collation ignores case and accent, case folding only the
case, and the hash covers the request id and the amount. -/
scoped instance : Platform where
  giftHash req := req.requestID.toList.map (fun c => UInt8.ofNat c.toNat) ++
    [UInt8.ofNat req.quantity]
  rechargeHash req := req.requestID.toList.map (fun c => UInt8.ofNat c.toNat) ++
    [UInt8.ofNat req.coins]
  simpleFold c := if c = 'É' then 'é' else c.toLower
  collate s := String.ofList (s.toList.map weight)
  giftHash_covers {req req'} _ h := by
    have hlen := congrArg String.length h
    simp only [String.length_ofList, List.length_map, String.length_toList] at hlen
    rw [Varchar.store_eq_self (hlen ▸ Varchar.length_store_le 64 req'.requestID)]

end Folding

def seedUser (ageYears : ℕ) (regionCode : String) (accountType : AccountType) : User :=
  ⟨ageYears, regionCode, .good, true, true, accountType⟩

def seedUsers : List (ℕ × User) :=
  [(1001, seedUser 25 "US" .normal), (1002, seedUser 27 "US" .normal),
    (2001, seedUser 30 "US" .normal), (2002, seedUser 28 "US" .normal),
    (3001, seedUser 17 "US" .normal), (3002, seedUser 20 "KR" .normal),
    (3003, seedUser 19 "KR" .normal), (4001, seedUser 42 "US" .government)]

def seedBalances : List (ℕ × ℤ) := [(1001, 50000), (1002, 50000), (2001, 1000), (2002, 1000)]

theorem one_lt_uint32 : 1 < 2 ^ 32 := by decide

def seedGifts : List Gift :=
  [{ giftID := "ROSE", coinPrice := 1, matchPoints := 1, diamondReward := 1, enabled := true },
    { giftID := "HEART", coinPrice := 5, matchPoints := 5, diamondReward := 5, enabled := true },
    { giftID := "GG", coinPrice := 10, matchPoints := 10, diamondReward := 10, enabled := true },
    { giftID := "DONUT", coinPrice := 30, matchPoints := 30, diamondReward := 30, enabled := true },
    { giftID := "COFFEE", coinPrice := 50, matchPoints := 50, diamondReward := 50,
      enabled := true },
    { giftID := "CLOUD", coinPrice := 99, matchPoints := 99, diamondReward := 99, enabled := true },
    { giftID := "PERFUME", coinPrice := 199, matchPoints := 199, diamondReward := 199,
      enabled := true },
    { giftID := "RING", coinPrice := 299, matchPoints := 299, diamondReward := 299,
      enabled := true },
    { giftID := "FIREWORK", coinPrice := 399, matchPoints := 399, diamondReward := 399,
      enabled := true },
    { giftID := "DRUM", coinPrice := 499, matchPoints := 499, diamondReward := 499,
      enabled := true },
    { giftID := "CASTLE", coinPrice := 999, matchPoints := 999, diamondReward := 999,
      enabled := true },
    { giftID := "LION", coinPrice := 1999, matchPoints := 1999, diamondReward := 1999,
      enabled := true }]

def seedSessions : List (ℕ × LiveSession) :=
  [(9001, ⟨1001, some 7001, .opened, none⟩), (9002, ⟨1002, none, .opened, none⟩)]

def seedMatches : List (ℕ × LiveMatch) :=
  [(8001, ⟨8001, 9001, .allGifts, none, .opened⟩),
    (8002, ⟨8002, 9002, .specificGift, some "ROSE", .opened⟩)]

/-- The tables of `00001_init.sql` and `00003_add_idempotency_columns.sql`, before the seed. -/
def DB.blank : DB where
  users _ := none
  liveSessions _ := none
  liveMatches _ := none
  giftCatalog := []
  walletAccounts _ := none
  walletTxs := []
  walletEntries := []
  rechargeRequests := []
  giftOrders := []
  outboxEvents := []
  consumerDedupe := []
  fanPoints := []
  campaignPoints := []
  streamSettlements _ := none
  reconciliations _ := none

def migrated : DB where
  users u := seedUsers.lookup u
  liveSessions id := seedSessions.lookup id
  liveMatches id := seedMatches.lookup id
  giftCatalog := seedGifts
  walletAccounts u := seedBalances.lookup u
  walletTxs := []
  walletEntries := []
  rechargeRequests := []
  giftOrders := []
  outboxEvents := []
  consumerDedupe := []
  fanPoints := []
  campaignPoints := []
  streamSettlements _ := none
  reconciliations _ := none

theorem migrated_balance (u : ℕ) : 0 ≤ (migrated.walletAccounts u).getD 0 ∧
    (migrated.walletAccounts u).getD 0 ≤ 50000 := by
  simp only [migrated, seedBalances, List.lookup_cons, List.lookup_nil]
  (repeat' split) <;> simp

/-- `INSERT … ON DUPLICATE KEY UPDATE`, row after row: where the key is taken, the conflict
clause makes the new row from the offered one and the old one. -/
def upsert {α : Type} (clause : α → α → α) (table : ℕ → Option α) (rows : List (ℕ × α)) :
    ℕ → Option α :=
  rows.foldl (fun t r => Function.update t r.1 (some ((t r.1).elim r.2 (clause r.2)))) table

theorem upsert_apply {α : Type} {clause : α → α → α} {table : ℕ → Option α} {rows : List (ℕ × α)}
    (hk : (rows.map Prod.fst).Nodup) (k : ℕ) : upsert clause table rows k =
      (rows.lookup k).elim (table k) fun v => some ((table k).elim v (clause v)) := by
  induction rows generalizing table with
  | nil => rfl
  | cons r rows ih =>
    obtain ⟨i, v⟩ := r
    rw [List.map_cons, List.nodup_cons] at hk
    refine (ih hk.2).trans ?_
    dsimp only
    by_cases hi : k = i
    · subst hi
      have hnone : rows.lookup k = none := by
        refine List.lookup_eq_none_iff.mpr fun x hx => ?_
        rw [bne_iff_ne]
        rintro rfl
        exact hk.1 (List.mem_map.mpr ⟨x, hx, rfl⟩)
      rw [hnone, List.lookup_cons_self, Function.update_self]
      rfl
    · rw [Function.update_of_ne hi, List.lookup_cons, beq_eq_false_iff_ne.mpr hi]

theorem upsert_empty {α : Type} {clause : α → α → α} {rows : List (ℕ × α)}
    (hk : (rows.map Prod.fst).Nodup) (k : ℕ) :
    upsert clause (fun _ => none) rows k = rows.lookup k := by
  rw [upsert_apply hk]
  cases rows.lookup k <;> rfl

section Up

variable [Platform]

/-- The gift ids are compared as MySQL collates them; a gift that is there gets the offered
spelling of its id. -/
def upsertGift (catalog : List Gift) (g : Gift) : List Gift :=
  if catalog.any fun x => Platform.collate x.giftID = Platform.collate g.giftID then
    catalog.map fun x =>
      if Platform.collate x.giftID = Platform.collate g.giftID then { x with giftID := g.giftID }
      else x
  else catalog ++ [g]

def DB.migrateUp (d : DB) : DB :=
  { d with
    users := upsert (fun _ old => old) d.users seedUsers
    walletAccounts := upsert (fun new _ => new) d.walletAccounts seedBalances
    giftCatalog := seedGifts.foldl upsertGift d.giftCatalog
    liveSessions :=
      upsert (fun new old => { old with status := new.status, closedAt := new.closedAt })
      d.liveSessions seedSessions
    liveMatches := upsert (fun new old => { old with
        status := new.status, mode := new.mode, specificGiftID := new.specificGiftID })
      d.liveMatches seedMatches }

theorem foldl_upsertGift {catalog gifts : List Gift}
    (h : ((catalog ++ gifts).map fun g => Platform.collate g.giftID).Nodup) :
    gifts.foldl upsertGift catalog = catalog ++ gifts := by
  induction gifts generalizing catalog with
  | nil => exact (List.append_nil _).symm
  | cons g gifts ih =>
    have hnew : upsertGift catalog g = catalog ++ [g] := by
      refine if_neg ?_
      simp only [List.any_eq_true, decide_eq_true_eq, not_exists, not_and]
      intro x hx he
      rw [List.map_append, List.nodup_append] at h
      exact h.2.2 _ (List.mem_map_of_mem hx) _ (List.mem_map_of_mem List.mem_cons_self) he
    rw [List.foldl_cons, hnew, ih (by simpa using h), List.append_assoc]
    rfl

/-- The migrations make the seeded tables, wherever the collation keeps the seeded gifts apart. -/
theorem migrateUp_blank (h : (seedGifts.map fun g => Platform.collate g.giftID).Nodup) :
    DB.blank.migrateUp = migrated := by
  have husers : upsert (fun _ old => old) DB.blank.users seedUsers = migrated.users :=
    funext (upsert_empty (by decide))
  have haccounts : upsert (fun new _ => new) DB.blank.walletAccounts seedBalances =
      migrated.walletAccounts := funext (upsert_empty (by decide))
  have hgifts : seedGifts.foldl upsertGift DB.blank.giftCatalog = migrated.giftCatalog :=
    foldl_upsertGift h
  unfold DB.migrateUp
  rw [husers, haccounts, hgifts]
  rw [show upsert _ DB.blank.liveSessions seedSessions = migrated.liveSessions from
      funext (upsert_empty (by decide)),
    show upsert _ DB.blank.liveMatches seedMatches = migrated.liveMatches from
      funext (upsert_empty (by decide))]
  rfl

end Up

end LiveRevenue
