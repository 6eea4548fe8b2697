import LiveRevenue.Result.GiftPolicy

/-! # The two identities of a gift

The catalog row of a gift is found by the collation of the server, the rule of a
SPECIFIC_GIFT match compares by case folding. A gift that is charged by a row is scored by
it exactly where the two agree, or where the row carries no points.
-/

namespace LiveRevenue

open Transact

section General

variable [Platform] {d : DB} {req : GiftRequest} {g : Gift}

/-- The catalog row that a gift id selects. -/
def DB.giftRow (d : DB) (giftID : String) : Option Gift :=
  d.giftCatalog.find? fun x => Platform.collate x.giftID = Platform.collate giftID

/-- The match scores the gift: its rule names this gift, up to case folding. -/
def LiveMatch.Scores (m : LiveMatch) (giftID : String) : Prop :=
  ∃ x, m.specificGiftID = some x ∧ equalFold x giftID = true

/-- The rule of the match names a gift of this catalog row. -/
def LiveMatch.Names (m : LiveMatch) (d : DB) (g : Gift) : Prop :=
  ∃ x, m.specificGiftID = some x ∧ d.giftRow x = some g

instance (m : LiveMatch) (d : DB) (g : Gift) : Decidable (m.Names d g) :=
  decidable_of_iff (m.specificGiftID.bind d.giftRow = some g) Option.bind_eq_some_iff

theorem DB.collate_of_giftRow {a : String} (ha : d.giftRow a = some g) :
    Platform.collate g.giftID = Platform.collate a := by
  simpa using List.find?_some ha

theorem DB.giftRow_eq_iff {a b : String} (ha : d.giftRow a = some g) :
    d.giftRow b = some g ↔ Platform.collate b = Platform.collate a := by
  constructor
  · intro hb
    exact (d.collate_of_giftRow hb).symm.trans (d.collate_of_giftRow ha)
  · intro he
    unfold DB.giftRow
    rw [he]
    exact ha

/-- The two tests agree on a gift exactly if case folding and collation do. -/
theorem LiveMatch.scores_iff_names {m : LiveMatch} {a : String} (ha : d.giftRow a = some g) :
    (m.Scores a ↔ m.Names d g) ↔ ∀ x, m.specificGiftID = some x →
      (equalFold x a = true ↔ Platform.collate x = Platform.collate a) := by
  unfold LiveMatch.Scores LiveMatch.Names
  cases hx : m.specificGiftID with
  | none => simp
  | some x => simp [DB.giftRow_eq_iff ha]

theorem Accepted.specificGift (p : Accepted req d) {k : ℕ} {m : LiveMatch}
    (hk : req.matchID = some k) (hm : d.liveMatches k = some m) (hmode : m.mode = .specificGift) :
    (m.Scores req.giftID → p.order.matchPointsAdded = p.gift.matchPoints * req.quantity) ∧
      (¬ m.Scores req.giftID → p.order.matchPointsAdded = 0) := by
  have hpoints : p.order.matchPointsAdded = d.matchPoints req p.gift := by
    have heq := p.matchPoints_eq
    rw [p.match_eq, giftMatchPoints_eq p.quantity_le] at heq
    change p.amounts.matchPoints.toNat = _
    rw [heq, Int.toNat_natCast]
  have hbind : req.matchID.bind d.liveMatches = some m := by
    rw [hk]
    exact hm
  simp only [hpoints, DB.matchPoints, hbind, hmode, true_and]
  constructor
  · rintro ⟨x, hx, hfold⟩
    simp [hx, hfold]
  · intro hno
    refine if_pos ?_
    cases hx : m.specificGiftID with
    | none => rfl
    | some x =>
      have hfold : ¬ equalFold x req.giftID = true := fun hfold => hno ⟨x, hx, hfold⟩
      simpa using hfold

theorem Legal.accepted {calls : ℕ → Call} {h : History} (hl : Legal calls d h)
    (hd : d.giftOrders = []) {o : GiftOrder} (ho : o ∈ (dbAt d h).giftOrders)
    (hacc : o.status = .accepted) :
    ∃ t h₁ req, ∃ p : Accepted req (dbAt d h₁), calls t = .sendGift req ∧
      (dbAt d h₁).Grows (dbAt d h) ∧ o = p.order := by
  rw [mem_dbAt (fun _ _ => applyAll_giftOrders), hd] at ho
  rcases ho with ho | ⟨e, he, ho⟩
  · cases ho
  obtain ⟨h₁, h₂, rfl, -, ht⟩ := hl.at he
  rcases ht.of_giftOrder ho with ⟨req, p, hc, -, hp⟩ | ⟨req, p, -, -, hp⟩
  · exact ⟨e.1, h₁, req, p, hc, dbAt_grows (List.prefix_append _ _), hp⟩
  · rw [hp] at hacc
    cases hacc

end General

/-- In every run, the order of an accepted gift in a SPECIFIC_GIFT match comes from a request whose
gift id selects a catalog row; it gets the row's points if the match names the row and none
otherwise, exactly if case folding and collation agree on the two gift ids, or the row has no
points. -/
theorem specific_gift_scored_iff [Platform] (calls : ℕ → Call) {w : World} (hs : Start w)
    (hempty : w.db.giftOrders = []) {s : State}
    (h : (system calls).Reach (fun _ _ _ => True) (Pool.fresh w) s) {o : GiftOrder}
    (ho : o ∈ s.world.db.giftOrders) (hacc : o.status = .accepted) {k : ℕ} {m : LiveMatch}
    (hk : o.matchID = some k) (hm : s.world.db.liveMatches k = some m)
    (hmode : m.mode = .specificGift) :
    ∃ t req g, calls t = .sendGift req ∧ o.bodyHash = Platform.giftHash req ∧
      Varchar.Cut 32 o.giftID req.giftID ∧ s.world.db.giftRow req.giftID = some g ∧
      (o.matchPointsAdded = (if m.Names s.world.db g then g.matchPoints * o.quantity else 0) ↔
        (∀ x, m.specificGiftID = some x →
          (equalFold x req.giftID = true ↔ Platform.collate x = Platform.collate req.giftID)) ∨
        g.matchPoints * o.quantity = 0) := by
  obtain ⟨hl, hd⟩ := reach_legal hs h
  rw [hd] at ho hm ⊢
  obtain ⟨t, h₁, req, p, hc, hg, rfl⟩ := hl.accepted hempty ho hacc
  have hrow : (dbAt w.db s.world.store.binlog).giftRow req.giftID = some p.gift := by
    unfold DB.giftRow
    rw [hg.giftCatalog]
    exact p.gift_eq
  refine ⟨t, req, p.gift, hc, rfl, rfl, hrow, ?_⟩
  rw [hg.liveMatches] at hm
  obtain ⟨hscored, hunscored⟩ := p.specificGift hk hm hmode
  change p.order.matchPointsAdded = (if _ then p.gift.matchPoints * req.quantity else 0) ↔
    _ ∨ p.gift.matchPoints * req.quantity = 0
  rw [← LiveMatch.scores_iff_names hrow]
  by_cases hs : m.Scores req.giftID <;>
    by_cases hn : m.Names (dbAt w.db s.world.store.binlog) p.gift
  · simp [hs, hn, hscored hs]
  · simp [hs, hn, hscored hs]
  · simp [hs, hn, hunscored hs, eq_comm]
  · simp [hs, hn, hunscored hs]

section Witness

open Folding

def giftNamed (giftID : String) : ℕ → Call :=
  fun _ => .sendGift ⟨"g1", 2001, 1002, 9002, some 8002, giftID, 3, 0⟩

def roseMatch : LiveMatch := ⟨8002, 9002, .specificGift, some "ROSE", .opened⟩

/-- The gift "rose" is charged and scored by the row of ROSE. -/
theorem specific_gift_scored_iff_rose : ∃ s : State, ∃ o ∈ s.world.db.giftOrders, ∃ g,
    o.giftID = "rose" ∧ s.world.db.giftRow "rose" = some g ∧ o.matchPointsAdded = 3 ∧
    (o.matchPointsAdded = (if roseMatch.Names s.world.db g then g.matchPoints * o.quantity else 0) ↔
      (∀ x, roseMatch.specificGiftID = some x →
        (equalFold x "rose" = true ↔ Platform.collate x = Platform.collate "rose")) ∨
      g.matchPoints * o.quantity = 0) := by
  obtain ⟨s, hr, hp⟩ := Machine.exists_reach (M := system (giftNamed "rose"))
    (s := Pool.fresh (World.boot migrated)) (K := fun _ _ _ => true)
    (p := fun s => decide (s.world.db.liveMatches 8002 = some roseMatch ∧
      ∃ o ∈ s.world.db.giftOrders, o.status = .accepted ∧ o.matchID = some 8002 ∧
        o.giftID = "rose" ∧ o.matchPointsAdded = 3))
    (launch 0 21 5) (by decide +kernel)
  obtain ⟨hm, o, ho, hacc, hk, hid, hpoints⟩ := of_decide_eq_true hp
  obtain ⟨t, req, g, hc, -, -, hg, hiff⟩ := specific_gift_scored_iff (giftNamed "rose")
    (Start.boot rfl rfl rfl rfl) rfl (hr.mono fun _ _ _ _ => trivial) ho hacc hk hm rfl
  cases hc
  exact ⟨s, o, ho, g, hid, hg, hpoints, hiff⟩

/-- The gift "ROSÉ" is charged by the row of ROSE, the one the match names, and gets none of
its points. -/
theorem accented_gift_not_scored : ∃ s : State, ∃ o ∈ s.world.db.giftOrders, ∃ m g,
    (system (giftNamed "ROSÉ")).Reach (fun _ _ _ => True) (Pool.fresh (World.boot migrated)) s ∧
    o.status = .accepted ∧ o.matchID = some 8002 ∧ s.world.db.liveMatches 8002 = some m ∧
    m.mode = .specificGift ∧ m.status = .opened ∧ s.world.db.giftRow o.giftID = some g ∧
    m.Names s.world.db g ∧ g.matchPoints * o.quantity = 3 ∧ o.matchPointsAdded = 0 := by
  obtain ⟨s, hr, hp⟩ := Machine.exists_reach (M := system (giftNamed "ROSÉ"))
    (s := Pool.fresh (World.boot migrated)) (K := fun _ _ _ => true)
    (p := fun s => decide (∃ o ∈ s.world.db.giftOrders, o.status = .accepted ∧
      o.matchID = some 8002 ∧ s.world.db.liveMatches 8002 = some roseMatch ∧
      s.world.db.giftRow o.giftID = some rose ∧
      roseMatch.Names s.world.db rose ∧
      rose.matchPoints * o.quantity = 3 ∧ o.matchPointsAdded = 0))
    (launch 0 21 5) (by decide +kernel)
  obtain ⟨o, ho, hacc, hk, hm, hg, hnames, hrow, hpoints⟩ := of_decide_eq_true hp
  exact ⟨s, o, ho, _, rose, hr.mono fun _ _ _ _ => trivial, hacc, hk, hm, rfl, rfl, hg, hnames,
    hrow, hpoints⟩

end Witness

end LiveRevenue
