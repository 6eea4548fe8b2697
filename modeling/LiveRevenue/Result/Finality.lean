import LiveRevenue.Proof.System
import LiveRevenue.Schema.Seed

/-! # Settlements and late gifts

A settlement triggered by the close event of a session reads its totals after the
session is closed. They stay right as long as no gift of the session commits later
than that; `SendGift` looks at the status before it locks anything, so a gift that
was under way when the session closed can still commit after its settlement.
-/

namespace LiveRevenue

open Transact

/-- The settlement of a session agrees with its ACCEPTED orders. -/
def DB.Final (d : DB) (id : ℕ) : Prop :=
  (d.streamSettlements id).map
      (fun r => (r.grossCoinSpend, r.acceptedGiftCount, r.diamondRewardTotal)) =
    some (sumOf (·.chargedCoins) (d.acceptedOrders id), ((d.acceptedOrders id).length : ℤ),
      sumOf (·.diamondReward) (d.acceptedOrders id))

instance (d : DB) (id : ℕ) : Decidable (d.Final id) :=
  inferInstanceAs (Decidable ((_ : Option (ℤ × ℤ × ℤ)) = _))

def DB.HasStatus (d : DB) (id : ℕ) (status : LiveStatus) : Prop :=
  (d.liveSessions id).map (·.status) = some status

instance (d : DB) (id : ℕ) (status : LiveStatus) : Decidable (d.HasStatus id status) :=
  inferInstanceAs (Decidable ((_ : Option LiveStatus) = _))

def DB.Announced (d : DB) : Prop :=
  ∀ r ∈ d.outboxEvents, r.topic = sessionClosedTopic →
    ∀ evt, r.payload.unmarshalSessionClosed = some evt → d.HasStatus evt.liveSessionID .closed

@[simp] def Write.settles? : Write → Option ℕ
  | .settlement id _ => some id
  | _ => none

def Call.worker : Call → Bool
  | .settlement _ => true
  | _ => false

def SettledByEvent (calls : ℕ → Call) (id : ℕ) (h : History) : Prop :=
  ∃ e ∈ h, (calls e.1).worker = true ∧ id ∈ e.2.filterMap Write.settles?

instance (calls : ℕ → Call) (id : ℕ) (h : History) : Decidable (SettledByEvent calls id h) :=
  inferInstanceAs (Decidable (∃ e ∈ h, _))

/-- A step that commits an ACCEPTED order of the session finds the session still OPEN. -/
def OpenAtCommit (id : ℕ) (s s' : State) : Prop :=
  ∀ o ∈ s'.world.db.giftOrders, o ∉ s.world.db.giftOrders → o.status = .accepted →
    o.liveSessionID = id → s.world.db.HasStatus id .opened

instance (id : ℕ) (s s' : State) : Decidable (OpenAtCommit id s s') :=
  inferInstanceAs (Decidable (∀ o ∈ _, _))

theorem DB.Grows.hasStatus {d d' : DB} {id : ℕ} (hg : d.Grows d') (h : d.HasStatus id .closed) :
    d'.HasStatus id .closed := by
  obtain ⟨l, hl, hs⟩ := Option.map_eq_some_iff.mp h
  obtain ⟨l', hl', hs'⟩ := hg.sessionClosed id l hl hs
  exact Option.map_eq_some_iff.mpr ⟨l', hl', hs'⟩

theorem Write.mem_settlementRow {ws : List Write} {id : ℕ}
    (h : id ∈ ws.filterMap Write.settles?) : id ∈ ws.filterMap Write.settlementRow? := by
  obtain ⟨x, hx, he⟩ := List.mem_filterMap.mp h
  refine List.mem_filterMap.mpr ⟨x, hx, ?_⟩
  cases x with
  | settlement i r => exact he
  | _ => cases he

section General

variable [Platform] {calls : ℕ → Call} {d : DB} {h : History} {c : Call} {ws : List Write} {id : ℕ}

theorem Emits.closes {r : OutboxRow} (he : Emits d h ws r c) (ht : r.topic = sessionClosedTopic)
    {evt : LiveSessionClosedV1} (hu : r.payload.unmarshalSessionClosed = some evt) :
    (applyAll ws (dbAt d h)).HasStatus evt.liveSessionID .closed := by
  cases he with
  | closed p hw hr =>
    subst hr hw
    cases hu
    simp [DB.HasStatus, Closed.writes, Write.apply, p.session_eq, LiveSession.close]
  | recharged p _ hr => subst hr; cases (show walletTopic ≠ _ by decide) ht
  | rejected p _ hr => subst hr; cases (show giftRejectedTopic ≠ _ by decide) ht
  | debited p _ hr => subst hr; cases (show walletTopic ≠ _ by decide) ht
  | accepted p _ hr => subst hr; cases (show giftAcceptedTopic ≠ _ by decide) ht
  | commented p _ hr => cases (show commentTopic ≠ _ by decide) ((p.row hr).1.symm.trans ht)
  | watched p _ hr => cases (show watchMinuteTopic ≠ _ by decide) ((p.row hr).1.symm.trans ht)

theorem Legal.announced (hl : Legal calls d h) (hd : d.Announced) : (dbAt d h).Announced := by
  induction hl with
  | nil => exact hd
  | @snoc h t ws _ ht ih =>
    intro r hr htopic evt hu
    have hm : r.inserted ∈ (dbAt d (h ++ [(t, ws)])).outboxEvents.map (·.inserted) :=
      List.mem_map_of_mem hr
    rw [dbAt_snoc, applyAll_inserted, List.mem_append] at hm
    rw [dbAt_snoc]
    rcases hm with hm | hm <;> obtain ⟨r', hr', he⟩ := List.mem_map.mp hm <;>
      obtain ⟨-, ht', -, hp', -⟩ := OutboxRow.eq_of_inserted he
    · exact (DB.Grows.applyAll ws _).hasStatus (ih r' hr' (ht'.trans htopic) evt (hp' ▸ hu))
    · exact (ht.of_outbox hr').closes (ht'.trans htopic) (hp' ▸ hu)

theorem acceptedOrders_applyAll : (applyAll ws d).acceptedOrders id = d.acceptedOrders id ++
    (ws.filterMap Write.giftOrder?).filter fun o =>
      o.liveSessionID = id ∧ o.status = .accepted := by
  simp [DB.acceptedOrders]

/-- Orders of the session stop with its closing, so a settlement made later is final. -/
structure Settling (calls : ℕ → Call) (d : DB) (id : ℕ) (h : History) : Prop where
  frozen : ∀ h₁, h₁ <+: h → (dbAt d h₁).HasStatus id .closed →
    (dbAt d h).acceptedOrders id = (dbAt d h₁).acceptedOrders id
  final : SettledByEvent calls id h → (dbAt d h).HasStatus id .closed ∧ (dbAt d h).Final id

/-- A transaction that adds no ACCEPTED order of a closed session keeps its settlement. -/
theorem Settling.snoc {t : ℕ} (hi : Settling calls d id h) (hl : Legal calls d h)
    (hd : d.Announced) (hgen : calls t ≠ .generateSettlement id) (ht : Txn d h (calls t) ws)
    (hnone : (dbAt d h).HasStatus id .closed →
      (applyAll ws (dbAt d h)).acceptedOrders id = (dbAt d h).acceptedOrders id) :
    Settling calls d id (h ++ [(t, ws)]) := by
  have hfrozen : ∀ h₁, h₁ <+: h → (dbAt d h₁).HasStatus id .closed →
      (applyAll ws (dbAt d h)).acceptedOrders id = (dbAt d h₁).acceptedOrders id := by
    intro h₁ hp hc
    rw [hnone ((dbAt_grows hp).hasStatus hc), hi.frozen h₁ hp hc]
  refine ⟨fun h₁ hp hc => ?_, fun hset => ?_⟩
  · rcases List.prefix_concat_iff.mp hp with rfl | hp
    · rfl
    · rw [dbAt_snoc]
      exact hfrozen h₁ hp hc
  · rw [dbAt_snoc]
    by_cases hw : id ∈ ws.filterMap Write.settlementRow?
    · have hsettles := ht.of_settlementRow hw
      generalize hcall : calls t = c at hsettles
      cases hsettles with
      | asked => exact absurd hcall hgen
      | announced p hwrites htopic hu hid hsent =>
        -- the close event was there when the totals were read, so they were read after closing
        subst hwrites hid
        obtain ⟨r, hr, hm⟩ := hsent
        obtain ⟨v, -, rfl⟩ := Option.map_eq_some_iff.mp hm
        have hread : p.read <+: h := p.read_le.trans p.reread_le
        have hc := (hl.earlier hread).announced hd r hr htopic _ hu
        refine ⟨(DB.Grows.applyAll _ _).hasStatus ((dbAt_grows hread).hasStatus hc), ?_⟩
        unfold DB.Final
        rw [hfrozen _ hread hc]
        simp [Settled.writes, Write.apply, Settled.row, DB.settlement]
    · obtain ⟨e, he, hwork, hid⟩ := hset
      rcases List.mem_append.mp he with he | he
      · obtain ⟨hc, hf⟩ := hi.final ⟨e, he, hwork, hid⟩
        refine ⟨(DB.Grows.applyAll _ _).hasStatus hc, ?_⟩
        unfold DB.Final at hf ⊢
        rw [hnone hc, (applyAll_settlementRows hw).1]
        exact hf
      · rw [List.mem_singleton.mp he] at hid
        exact absurd (Write.mem_settlementRow hid) hw

theorem Txn.frozen (ht : Txn d h c ws)
    (hopen : ∀ o ∈ (applyAll ws (dbAt d h)).giftOrders, o ∉ (dbAt d h).giftOrders →
      o.status = .accepted → o.liveSessionID = id → (dbAt d h).HasStatus id .opened)
    (hc : (dbAt d h).HasStatus id .closed) :
    (applyAll ws (dbAt d h)).acceptedOrders id = (dbAt d h).acceptedOrders id := by
  rw [acceptedOrders_applyAll, List.append_right_eq_self, List.filter_eq_nil_iff]
  intro o ho hsold
  obtain ⟨hid, hacc⟩ := of_decide_eq_true hsold
  have hnew : o ∉ (dbAt d h).giftOrders := by
    intro hm
    rcases ht.of_giftOrder ho with ⟨req, p, -, -, rfl⟩ | ⟨req, p, -, -, rfl⟩ <;>
      exact (p.newOrder _ hm).1 rfl
  have hstill := hopen o (by simp [ho]) hnew hacc hid
  rw [DB.HasStatus, hc] at hstill
  cases hstill

/-- In every run in which the ACCEPTED orders of a session commit while it is still OPEN, a
settlement made for its close event agrees with the orders from then on. -/
theorem settlement_final (calls : ℕ → Call) (id : ℕ)
    (hgen : ∀ t, calls t ≠ .generateSettlement id) {w : World} (hs : Start w)
    (hw : w.db.Announced) {s : State}
    (h : (system calls).Reach (fun s _ s' => OpenAtCommit id s s') (Pool.fresh w) s)
    (hset : SettledByEvent calls id s.world.store.binlog) : s.world.db.Final id := by
  rw [(reach_legal hs h).2]
  refine (reach_history (.any calls w) (I := Settling calls w.db id) hs Env.any_allows
    ⟨fun h₁ hp _ => ?_, fun ⟨e, he, _⟩ => by cases he⟩ (fun hk hl hi ht hd hd' _ _ => ?_) h |>.final
    hset).2
  · rw [List.prefix_nil.mp hp]
  · refine hi.snoc hl hw (hgen _) ht (ht.frozen ?_)
    unfold OpenAtCommit at hk
    rwa [hd, hd'] at hk

end General

section Witness

open Plain

def closeMessage (eventID : String) : Message :=
  ⟨sessionClosedTopic, "9001", .sessionClosed ⟨9001, 5⟩, [("event_id", eventID)]⟩

def giftAndClose (eventID : String) : ℕ → Call
  | 0 => .sendGift ⟨"g1", 2001, 1001, 9001, none, "ROSE", 3, 0⟩
  | 1 => .closeLiveSession 9001
  | 2 => .runOnce 10
  | _ => .settlement (closeMessage eventID)

/-- The gift commits, the session closes, the settlement follows. -/
theorem settlement_final_in_order : ∃ s : State,
    (s.world.db.acceptedOrders 9001).length = 1 ∧
    SettledByEvent (giftAndClose "3") 9001 s.world.store.binlog ∧ s.world.db.Final 9001 := by
  obtain ⟨s, hr, hp⟩ := Machine.exists_reach (M := system (giftAndClose "3"))
    (s := Pool.fresh (World.boot migrated)) (K := fun s _ s' => decide (OpenAtCommit 9001 s s'))
    (p := fun s => decide ((s.world.db.acceptedOrders 9001).length = 1 ∧
      SettledByEvent (giftAndClose "3") 9001 s.world.store.binlog))
    (startAll [0, 1, 2] ++ resume 0 20 4 ++ resume 1 8 5 ++ resume 2 11 6 ++ launch 3 13 7)
    (by decide +kernel)
  obtain ⟨h1, h2⟩ := of_decide_eq_true hp
  refine ⟨s, h1, h2, settlement_final (giftAndClose "3") 9001 (fun t => ?_)
    (Start.boot rfl rfl rfl rfl) (fun r hr => by cases hr)
    (hr.mono fun _ _ _ hk => of_decide_eq_true hk) h2⟩
  unfold giftAndClose
  split <;> simp

/-- The gift reads the status, the session closes and is settled, and the gift commits: the
viewer is charged, and the settlement does not have it. -/
theorem settlement_misses_late_gift : ∃ s : State,
    (system (giftAndClose "1")).Reach (fun _ _ _ => True) (Pool.fresh (World.boot migrated)) s ∧
    SettledByEvent (giftAndClose "1") 9001 s.world.store.binlog ∧ ¬ s.world.db.Final 9001 := by
  obtain ⟨s, hr, hp⟩ := Machine.exists_reach (M := system (giftAndClose "1"))
    (s := Pool.fresh (World.boot migrated)) (K := fun _ _ _ => true)
    (p := fun s => decide (SettledByEvent (giftAndClose "1") 9001 s.world.store.binlog ∧
      ¬ s.world.db.Final 9001))
    (startAll [0, 1, 2] ++ resume 0 5 4 ++ resume 1 8 5 ++ resume 2 7 6 ++ launch 3 13 7 ++
      resume 0 15 8) (by decide +kernel)
  exact ⟨s, hr.mono fun _ _ _ _ => trivial, of_decide_eq_true hp⟩

end Witness

end LiveRevenue
