import LiveRevenue.Proof.Twin
import LiveRevenue.Result.Closing
import LiveRevenue.Result.Idempotency

/-! # Request ids that differ

Recorded requests are found by viewer and request id under the collation of the server,
and stored with the id cut to the length of its column. If the collation tells the stored
id of the first of two requests apart from that of the second, as it is looked up and as it
is stored, the two do not meet: the second returns what it would return without the first,
but for the balance. Otherwise they are one key, and the second is refused or fails.
-/

namespace LiveRevenue

open Transact

/-- A payload mismatch, or a replay of an earlier response. -/
def Outcome.Repeats : Outcome → Prop
  | .gifted (.app e) => e = payloadMismatch
  | .gifted (.ok r) => r.idempotency = "replayed"
  | .recharged (.app e) => e = payloadMismatch
  | .recharged (.ok r) => r.idempotency = "replayed"
  | _ => False

def Outcome.Creates : Outcome → Prop
  | .gifted (.ok r) => r.idempotency = "created"
  | .recharged (.ok r) => r.idempotency = "created"
  | _ => False

/-- The world with another one's balance of a viewer and its next generated ids. -/
def World.withBalance (w w₁ : World) (u : ℕ) : World :=
  { w with
    store := { w.store with
      db := { w.db with
        walletAccounts := Function.update w.db.walletAccounts u (w₁.db.walletAccounts u) } }
    ids := w₁.ids }

def World.restart (w : World) : World := { World.boot w.db with ids := w.ids }

/-- Nothing has happened, except that the viewer's balance and the next ids are those of `s₁`. -/
def withBalance (s s₁ : State) (u : ℕ) : State := ⟨s.world.withBalance s₁.world u, s.threads⟩

/-- Two requests of the viewer `u` to one operation, with their ids. -/
inductive Rivals (u : ℕ) (a b : String) : Call → Call → Prop where
  | gifts {req req' : GiftRequest} : req.viewerID = u → req'.viewerID = u → req.requestID = a →
      req'.requestID = b → Rivals u a b (.sendGift req) (.sendGift req')
  | recharges {req req' : RechargeRequest} : req.viewerID = u → req'.viewerID = u →
      req.requestID = a → req'.requestID = b → Rivals u a b (.recharge req) (.recharge req')

theorem Rivals.eq {u : ℕ} {a b : String} {c : Call} (hr : Rivals u a b c c) : a = b := by
  cases hr with
  | gifts _ _ ha hb => exact ha.symm.trans hb
  | recharges _ _ ha hb => exact ha.symm.trans hb

section General

variable [Platform] {calls : ℕ → Call} {u t₁ t₂ : ℕ} {a b : String} {c c' : Call} {d : DB}
  {ws : List Write}

def Call.hash : Call → Digest
  | .sendGift req => Platform.giftHash req
  | .recharge req => Platform.rechargeHash req
  | _ => []

def Call.key : Call → Option Lock
  | .sendGift req => some req.key
  | .recharge req => some req.key
  | _ => none

def Call.storedKey : Call → Option Lock
  | .sendGift req => some req.storedKey
  | .recharge req => some req.storedKey
  | _ => none

/-- Under the collation, what is stored of the first id is neither the second id nor what is
stored of it. -/
def Apart (a b : String) : Prop :=
  ∀ x, Names b x → Platform.collate (Varchar.store 64 a) ≠ Platform.collate x

def Call.Valid : Call → Prop
  | .sendGift req => req.Valid
  | .recharge req => req.Valid
  | _ => False

inductive DB.Records (d : DB) (l : Option Lock) (hash : Digest) : Prop where
  | gift {o : GiftOrder} : o ∈ d.giftOrders → l = some o.lock → hash = o.bodyHash → d.Records l hash
  | recharge {r : RechargeRow} : r ∈ d.rechargeRequests → l = some r.lock → hash = r.bodyHash →
      d.Records l hash

theorem DB.Records.mono {d d' : DB} {l : Option Lock} {hash : Digest} (hd : d.Grows d')
    (h : d.Records l hash) : d'.Records l hash := by
  cases h with
  | gift ho hk hh => exact .gift (hd.giftOrders.subset ho) hk hh
  | recharge hm hk hh => exact .recharge (hd.rechargeRequests.subset hm) hk hh

/-- Undisturbed and without failures, process `t` may return the outcome. -/
def Ends (calls : ℕ → Call) (t : ℕ) (s : State) (o : Outcome) : Prop :=
  ∃ s', (system calls).Reach (Only Choice.Ok t) s s' ∧ (s'.threads t).result? = some o

theorem Rivals.key_eq (hr : Rivals u a b c c')
    (h : Platform.collate (Varchar.store 64 a) = Platform.collate b) : c.storedKey = c'.key := by
  cases hr with
  | gifts hu hu' ha hb =>
    simp [Call.key, Call.storedKey, GiftRequest.key, GiftRequest.storedKey, hu, hu', ha, hb, h]
  | recharges hu hu' ha hb =>
    simp [Call.key, Call.storedKey, RechargeRequest.key, RechargeRequest.storedKey, hu, hu', ha, hb,
      h]

theorem Rivals.storedKey_eq (hr : Rivals u a b c c')
    (h : Platform.collate (Varchar.store 64 a) = Platform.collate (Varchar.store 64 b)) :
    c.storedKey = c'.storedKey := by
  cases hr with
  | gifts hu hu' ha hb => simp [Call.storedKey, GiftRequest.storedKey, hu, hu', ha, hb, h]
  | recharges hu hu' ha hb =>
    simp [Call.storedKey, RechargeRequest.storedKey, hu, hu', ha, hb, h]

theorem Txn.sameKey {h : History} (ht : Txn d h c ws) (hr : Rivals u a b c c') (hab : Apart a b) :
    SameKey u b (dbAt d h) (applyAll ws (dbAt d h)) where
  users := applyAll_users
  liveSessions := ht.liveSessions fun i hi => by
    subst hi
    cases hr
  liveMatches := applyAll_liveMatches
  giftCatalog := applyAll_giftCatalog
  giftOrders x hx := by
    rw [applyAll_giftOrders]
    refine List.filter_append_of_forall_not fun o ho hk => hab x hx ?_
    rcases ht.of_giftOrder ho with ⟨req, p, rfl, -, rfl⟩ | ⟨req, p, rfl, -, rfl⟩ <;>
    · cases hr with
      | gifts hu _ ha _ =>
        subst ha
        exact (Lock.giftOrderKey.inj (of_decide_eq_true hk)).2
  walletTxs ty x hx := by
    rw [applyAll_walletTxs]
    refine List.filter_append_of_forall_not fun y hy hk => hab x hx ?_
    rcases ht.of_walletTx hy with ⟨req, p, rfl, -, rfl⟩ | ⟨req, p, rfl, -, rfl⟩
    · cases hr with
      | recharges hu _ ha _ =>
        subst ha
        exact (Lock.walletTxKey.inj (of_decide_eq_true hk)).2.2
    · cases hr with
      | gifts hu _ ha _ =>
        subst ha
        exact (Lock.walletTxKey.inj (of_decide_eq_true hk)).2.2
  rechargeRequests x hx := by
    rw [applyAll_rechargeRequests]
    refine List.filter_append_of_forall_not fun r hm hk => hab x hx ?_
    obtain ⟨req, p, rfl, -, rfl⟩ := ht.of_rechargeRequest hm
    cases hr with
    | recharges hu _ ha _ =>
      subst ha
      exact (Lock.rechargeRequest.inj (of_decide_eq_true hk)).2

theorem Txn.records {h : History} (ht : Txn d h c ws) {l : Option Lock} {hash : Digest}
    (hl : (applyAll ws (dbAt d h)).Records l hash) :
    (dbAt d h).Records l hash ∨ l = c.storedKey ∧ hash = c.hash := by
  cases hl with
  | gift ho hk hh =>
    rw [applyAll_giftOrders, List.mem_append] at ho
    rcases ho with ho | ho
    · exact .inl (.gift ho hk hh)
    · rcases ht.of_giftOrder ho with ⟨req, p, rfl, -, rfl⟩ | ⟨req, p, rfl, -, rfl⟩
      · exact .inr ⟨hk, hh⟩
      · exact .inr ⟨hk, hh⟩
  | recharge hm hk hh =>
    rw [applyAll_rechargeRequests, List.mem_append] at hm
    rcases hm with hm | hm
    · exact .inl (.recharge hm hk hh)
    · obtain ⟨req, p, rfl, -, rfl⟩ := ht.of_rechargeRequest hm
      exact .inr ⟨hk, hh⟩

section Runs

variable {w : World} {s s₁ : State} {K : State → Act Choice → State → Prop} {ok : Choice → Prop}
  (hs : Start w) (h : (system calls).Reach K (Pool.fresh w) s)
include hs h

theorem reach_only_tables {P : DB → Prop} (h₁ : (system calls).Reach (Only ok t₁) s s₁)
    (h₀ : P s.world.db)
    (hP : ∀ h ws, Txn w.db h (calls t₁) ws → P (dbAt w.db h) → P (applyAll ws (dbAt w.db h))) :
    P s₁.world.db := by
  refine h₁.induct (P := fun x => P x.world.db) h₀ ?_
  intro x act x' hx ih hstep hk
  have hproc : act.process = t₁ := by
    rcases act with v | ⟨v, ch⟩ | v
    · exact hk
    · exact hk.1
    · cases hk
  rcases step_tables hstep with ⟨-, hd⟩ | ⟨ws, hb, hd⟩
  · exact hd ▸ ih
  have hreach : (system calls).Reach (fun _ _ _ => True) (Pool.fresh w) x :=
    (h.mono fun _ _ _ _ => trivial).trans (hx.mono fun _ _ _ _ => trivial)
  obtain ⟨-, hdx⟩ := reach_legal hs hreach
  obtain ⟨hl, -⟩ := reach_legal hs (hreach.tail hstep trivial)
  rw [hb, hproc] at hl
  rw [hd, hdx]
  exact hP _ _ hl.last (hdx ▸ ih)

theorem reach_sameKey (hr : Rivals u a b (calls t₁) (calls t₂)) (hab : Apart a b)
    (h₁ : (system calls).Reach (Only ok t₁) s s₁) : SameKey u b s.world.db s₁.world.db :=
  reach_only_tables hs h h₁ (P := SameKey u b s.world.db) (.refl u b _) fun _ _ ht hx =>
    hx.trans (ht.sameKey hr hab)

theorem reach_only_records (h₁ : (system calls).Reach (Only ok t₁) s s₁) {l : Option Lock}
    {hash : Digest} (hl : s₁.world.db.Records l hash) :
    s.world.db.Records l hash ∨ l = (calls t₁).storedKey ∧ hash = (calls t₁).hash := by
  refine reach_only_tables hs h h₁ (P := fun d => d.Records l hash → s.world.db.Records l hash ∨
    l = (calls t₁).storedKey ∧ hash = (calls t₁).hash) .inl (fun _ _ ht ih hl => ?_) hl
  rcases ht.records hl with hl | hl
  · exact ih hl
  · exact .inr hl

theorem reach_alike (hr : Rivals u a b (calls t₁) (calls t₂)) (hab : Apart a b)
    (h₁ : (system calls).Reach (Only ok t₁) s s₁) :
    Alike u b s₁.world.ids.tx s₁.world.db (s.world.withBalance s₁.world u).db := by
  have hreach : (system calls).Reach (fun _ _ _ => True) (Pool.fresh w) s :=
    h.mono fun _ _ _ _ => trivial
  have hreach₁ : (system calls).Reach (fun _ _ _ => True) s s₁ := h₁.mono fun _ _ _ _ => trivial
  have hsame := reach_sameKey hs h hr hab h₁
  have hgrows := reach_grows hs hreach hreach₁
  have hbelow := (reach_good (.any calls w) hs Env.any_allows (hreach.trans hreach₁)).1.engine.below
  have hnone : ∀ {ρ : Type} {l : List ρ} {id : ρ → ℕ}, (∀ x ∈ l, id x < s₁.world.ids.tx) →
      l.filter (fun x => s₁.world.ids.tx ≤ id x) = [] := fun hlt => by
    refine List.filter_eq_nil_iff.mpr fun x hx hle => ?_
    exact absurd (of_decide_eq_true hle) (not_le_of_gt (hlt x hx))
  exact {
    users := hsame.users.symm
    liveSessions := hsame.liveSessions.symm
    liveMatches := hsame.liveMatches.symm
    giftCatalog := hsame.giftCatalog.symm
    giftOrders := fun x hx => (hsame.giftOrders x hx).symm
    walletTxs := fun ty x hx => (hsame.walletTxs ty x hx).symm
    rechargeRequests := fun x hx => (hsame.rechargeRequests x hx).symm
    account := Function.update_self _ _ _
    newTxs := by
      rw [hnone hbelow.walletTxs]
      exact hnone fun x hx => hbelow.walletTxs x (hgrows.walletTxs.subset hx)
    newEntries := by
      rw [hnone hbelow.walletEntries]
      exact hnone fun x hx => hbelow.walletEntries x (hgrows.walletEntries.subset hx) }

theorem reach_only_unlocked (hclear : ∀ v, s.world.store.opened v = none)
    (hr : Rivals u a b (calls t₁) (calls t₂)) (hidle : s.threads t₁ = .idle)
    (hok : ∀ ch, Choice.Ok ch → ok ch) (h₁ : (system calls).Reach (Only ok t₁) s s₁)
    (hret : (s₁.threads t₁).result?.isSome) (v : ℕ) : s₁.world.Unlocked v := by
  have hfree : ∀ v, s.world.Unlocked v := fun v => reach_unlocked hs h fun u _ => hclear u
  obtain ⟨o, ho⟩ := Option.isSome_iff_exists.mp hret
  have hret : ∀ {α : Type} {x : α}, Safe ((system calls).solo ok) t₁ (fun _ v => ∀ u, v.Unlocked u)
      (.ret x) s.world := by
    rintro α x _ rfl -
    exact hfree
  have hsafe : Safe ((system calls).solo ok) t₁ (fun _ v => ∀ u, v.Unlocked u)
      (calls t₁).program s.world := by
    cases hc : calls t₁ with
    | sendGift req =>
      refine (Safe.mono (Q := fun _ v => ∀ u, v.Unlocked u) ?_ fun r v _ hv => ?_).bind
      · unfold sendGift
        split
        · exact hret
        split
        · exact hret
        split
        · exact hret
        · exact safe_withTx_unlocks hok hfree
      · rintro _ rfl -
        exact hv
    | recharge req =>
      refine (Safe.mono (Q := fun _ v => ∀ u, v.Unlocked u) ?_ fun r v _ hv => ?_).bind
      · unfold recharge
        split
        · exact hret
        split
        · exact hret
        · exact safe_withTx_unlocks hok hfree
      · rintro _ rfl -
        exact hv
    | _ =>
      rw [hc] at hr
      cases hr
  exact Machine.reach_only_program hidle hsafe h₁ ho v

omit h in
/-- The servers might be started where they stand, also with the balance of a later state. -/
theorem reach_restart (h : (system calls).Reach (fun _ _ _ => True) (Pool.fresh w) s)
    (h₁ : (system calls).Reach (fun _ _ _ => True) s s₁) (u : ℕ) :
    Start (s.world.withBalance s₁.world u).restart where
  opened _ := rfl
  holder _ := rfl
  binlog := rfl
  log := rfl
  aof := rfl
  marked := rfl
  one_le := (reach_good (.any calls w) hs Env.any_allows (h.trans h₁)).1.engine.one_le
  below := by
    have hbelow := (reach_good (.any calls w) hs Env.any_allows (h.trans h₁)).1.engine.below
    have hgrows := reach_grows hs h h₁
    constructor
    · exact fun r hr => hbelow.walletTxs r (hgrows.walletTxs.subset hr)
    · exact fun r hr => hbelow.walletEntries r (hgrows.walletEntries.subset hr)
    · exact fun r hr => hbelow.giftOrders r (hgrows.giftOrders.subset hr)
    · intro r hr
      obtain ⟨r', hr', he, -⟩ := hgrows.outboxEvents r hr
      have hid : r'.inserted.eventID = r.inserted.eventID := by rw [he]
      exact (show r'.eventID = r.eventID from hid) ▸ hbelow.outboxEvents r' hr'
  eventIDs := by
    obtain ⟨hl, hd⟩ := reach_legal hs h
    change (s.world.db.outboxEvents.map (·.eventID)).Nodup
    exact hd ▸ hl.eventIDs hs.eventIDs

end Runs

/-- On tables that are alike for it, a request may return the same. -/
theorem ends_iff_of_alike {s s' : State} {n : ℕ} {o : Outcome} (hr : Rivals u a b c (calls t₂))
    (ha : Alike u b n s.world.db s'.world.db) (hids : s'.world.ids = s.world.ids)
    (hn : n ≤ s.world.ids.tx) (hw : s.world.Unlocked t₂) (hw' : s'.world.Unlocked t₂)
    (hidle : s.threads t₂ = .idle) (hidle' : s'.threads t₂ = .idle) :
    Ends calls t₂ s o ↔ Ends calls t₂ s' o := by
  have hret : ∀ {α : Type} {x : α}, Safe ((system calls).twin Choice.Ok) t₂ (fun _ _ => True)
      (.ret x) (s.world, s'.world) := fun {_ _} _ _ _ => trivial
  have hready : ∀ w, (calls t₂).ready w = true := fun w => by
    cases hc : calls t₂ with
    | sendGift req => rfl
    | recharge req => rfl
    | _ =>
      rw [hc] at hr
      cases hr
  refine Machine.exists_reach_twin_iff (Q := fun _ _ => True) hidle hidle' (hready _) (hready _) ?_
  change Safe _ _ _ (calls t₂).program _
  generalize calls t₂ = c' at hr
  cases hr with
  | gifts _ hu _ hb =>
    subst hu hb
    refine (Safe.mono (Q := fun _ _ => True) ?_ fun _ _ _ _ _ _ _ => trivial).bind
    unfold sendGift
    split
    · exact hret
    split
    · exact hret
    split
    · exact hret
    · exact safe_twin_withTx ha hids hn hw hw' fun v hv => twins_sendGiftTx hv
  | recharges _ hu _ hb =>
    subst hu hb
    refine (Safe.mono (Q := fun _ _ => True) ?_ fun _ _ _ _ _ _ _ => trivial).bind
    unfold recharge
    split
    · exact hret
    split
    · exact hret
    · exact safe_twin_withTx ha hids hn hw hw' fun v hv => twins_rechargeTx hv

theorem fresh_not_repeats {w : World} (hs : Start w)
    (hno : ∀ hash, ¬ w.db.Records (calls t₂).key hash) {o : Outcome}
    (ho : Ends calls t₂ (Pool.fresh w) o) : ¬ o.Repeats := by
  obtain ⟨s', h, ho⟩ := ho
  have hreach : (system calls).Reach (fun _ _ _ => True) (Pool.fresh w) s' :=
    h.mono fun _ _ _ _ => trivial
  obtain ⟨-, hd⟩ := reach_legal hs hreach
  -- whatever was committed, this process has committed it
  have hmine : ∀ e ∈ s'.world.store.binlog, e.2 ∈ s'.world.store.committedBy t₂ := by
    rintro ⟨v, ws⟩ he
    have hv : v = t₂ := by
      by_contra hne
      exact reach_not_idle hs hreach he ((Machine.reach_only_threads h hne).trans rfl)
    exact Store.mem_committedBy.mpr (hv ▸ he)
  have hfin := (reach_good (.any calls w) hs Env.any_allows hreach).result ho
  change Finished _ t₂ _ (calls t₂) o at hfin
  intro hrep
  generalize hc : calls t₂ = c at hfin
  rw [hc] at hno
  cases hfin with
  | @gifted req r hpost =>
    have hnone : ∀ x ∈ s'.world.db.giftOrders, Idle req (s'.world.store.committedBy t₂) →
        x.lock ≠ req.key := fun x hx hidle hk => by
      rw [hd, mem_dbAt (fun _ _ => applyAll_giftOrders)] at hx
      rcases hx with hx | ⟨e, he, hx⟩
      · exact hno _ (.gift hx (congrArg some hk.symm) rfl)
      · rcases hidle _ (hmine e he) with hnil | hopen
        · rw [hnil] at hx
          cases hx
        · rw [hopen] at hx
          cases hx
    cases hpost with
    | invalid _ _ he =>
      rw [show _ = payloadMismatch from hrep] at he
      exact absurd he (by decide)
    | failed => exact hrep
    | recorded hx hidle =>
      cases hx with
      | mismatch hm hk => exact hnone _ hm hidle hk
      | accepted hm hk => exact hnone _ hm hidle hk
      | rejected hm hk => exact hnone _ hm hidle hk
    | created p => exact absurd (show "created" = "replayed" from hrep) (by decide)
    | rejected p =>
      have hknown : (p.error.code, p.error.httpStatus) ∈ rejections := p.known
      rw [show p.error = payloadMismatch from hrep] at hknown
      exact absurd hknown (by decide)
  | @recharged req r hpost =>
    have hnone : ∀ x ∈ s'.world.db.rechargeRequests,
        (∀ ws ∈ s'.world.store.committedBy t₂, ws = []) → x.lock ≠ req.key :=
      fun x hx hidle hk => by
        rw [hd, mem_dbAt (fun _ _ => applyAll_rechargeRequests)] at hx
        rcases hx with hx | ⟨e, he, hx⟩
        · exact hno _ (.recharge hx (congrArg some hk.symm) rfl)
        · rw [hidle _ (hmine e he)] at hx
          cases hx
    cases hpost with
    | invalid _ _ he =>
      rw [show _ = payloadMismatch from hrep] at he
      exact absurd he (by decide)
    | failed => exact hrep
    | mismatch hm hk _ hcs => exact hnone _ hm (by simp [hcs]) hk
    | replayed hm hk _ hcs => exact hnone _ hm (by simp [hcs]) hk
    | created p => exact absurd (show "created" = "replayed" from hrep) (by decide)
  | _ => exact hrep

section Refused

omit [Platform] in
theorem find?_other {ρ : Type} {l : List ρ} {lock : ρ → Lock} {hash : ρ → Digest} {k : Lock}
    {x : Digest} (hrec : ∃ r ∈ l, lock r = k) (hne : ∀ r ∈ l, lock r = k → hash r ≠ x) :
    ∃ r, l.find? (fun r => lock r = k) = some r ∧ bytesEqual (hash r) x = false := by
  obtain ⟨r, hr, hk⟩ := hrec
  have hsome : (l.find? fun r => lock r = k).isSome :=
    List.find?_isSome.mpr ⟨r, hr, by simpa using hk⟩
  obtain ⟨r', hfind⟩ := Option.isSome_iff_exists.mp hsome
  refine ⟨r', hfind, Bool.eq_false_iff.mpr fun he => ?_⟩
  have hk' : lock r' = k := by simpa using List.find?_some hfind
  exact hne r' (List.mem_of_find?_eq_some hfind) hk' ((bytesEqual_iff _ _).mp he)

variable {w : World}

theorem safe_sendGift_mismatch {req : GiftRequest} (hval : req.Valid) (hw : w.Unlocked t₂)
    (hrec : ∃ o ∈ w.db.giftOrders, o.lock = req.key)
    (hne : ∀ o ∈ w.db.giftOrders, o.lock = req.key → o.bodyHash ≠ Platform.giftHash req) :
    Safe ((system calls).solo Choice.Ok) t₂ (fun r _ => r = .app payloadMismatch)
      (sendGift req) w := by
  obtain ⟨o, hfind, hbytes⟩ := find?_other hrec hne
  unfold sendGift
  rw [if_neg hval.1, if_neg (by have := hval.2.1; omega), if_neg hval.2.2]
  refine Safe.mono (safe_alone_withTx (P := fun r _ _ => r = .app payloadMismatch) hw
    fun v hv => ?_) fun _ _ _ h => h.1
  refine Runs.bind (Runs.bind (runs_alone_do hv fun rank v' hv' => ?_))
  simp only [Stmt.alone, Stmt.run, applyAll_nil]
  rw [show (w.db.giftOrders.find? fun o => decide (o.lock =
    .giftOrderKey req.viewerID (Platform.collate req.requestID))) = some o from hfind]
  dsimp only
  rw [if_pos hbytes]
  exact runs_alone_pure (runs_alone_pure rfl)

theorem safe_recharge_mismatch {req : RechargeRequest} (hval : req.Valid) (hw : w.Unlocked t₂)
    (hrec : ∃ r ∈ w.db.rechargeRequests, r.lock = req.key)
    (hne : ∀ r ∈ w.db.rechargeRequests, r.lock = req.key →
      r.bodyHash ≠ Platform.rechargeHash req) :
    Safe ((system calls).solo Choice.Ok) t₂ (fun r _ => r = .app payloadMismatch)
      (recharge req) w := by
  obtain ⟨x, hfind, hbytes⟩ := find?_other hrec hne
  unfold recharge
  rw [if_neg hval.1, if_neg (by have := hval.2; omega)]
  refine Safe.mono (safe_alone_withTx (P := fun r _ _ => r = .app payloadMismatch) hw
    fun v hv => ?_) fun _ _ _ h => h.1
  refine Runs.bind (runs_alone_do hv fun rank v' hv' => ?_)
  simp only [Stmt.alone, Stmt.run, applyAll_nil]
  rw [show (w.db.rechargeRequests.find? fun r => decide (r.lock =
    .rechargeRequest req.viewerID (Platform.collate req.requestID))) = some x from hfind]
  dsimp only
  rw [if_pos hbytes]
  exact runs_alone_pure rfl

theorem ends_mismatch {s : State} (hval : (calls t₂).Valid) (hidle : s.threads t₂ = .idle)
    (hw : s.world.Unlocked t₂) (hrec : ∃ hash, s.world.db.Records (calls t₂).key hash)
    (hne : ∀ hash, s.world.db.Records (calls t₂).key hash → hash ≠ (calls t₂).hash) :
    ∃ o, o.Repeats ∧ Ends calls t₂ s o := by
  have hsafe : Safe ((system calls).solo Choice.Ok) t₂ (fun o _ => o.Repeats)
      (calls t₂).program s.world ∧ (calls t₂).ready s.world = true := by
    obtain ⟨hash, hrec⟩ := hrec
    generalize calls t₂ = c at hval hrec hne
    cases c with
    | sendGift req =>
      refine ⟨(Safe.mono (safe_sendGift_mismatch hval hw ?_ fun o ho hk =>
        hne _ (.gift ho (congrArg some hk.symm) rfl)) fun r v _ hr => ?_).bind, rfl⟩
      · cases hrec with
        | gift ho hk => exact ⟨_, ho, (Option.some.inj hk).symm⟩
        | recharge _ hk => cases Option.some.inj hk
      · rintro _ rfl -
        exact hr ▸ rfl
    | recharge req =>
      refine ⟨(Safe.mono (safe_recharge_mismatch hval hw ?_ fun r hm hk =>
        hne _ (.recharge hm (congrArg some hk.symm) rfl)) fun r v _ hr => ?_).bind, rfl⟩
      · cases hrec with
        | gift _ hk => cases Option.some.inj hk
        | recharge hm hk => exact ⟨_, hm, (Option.some.inj hk).symm⟩
      · rintro _ rfl -
        exact hr ▸ rfl
    | _ => cases hval
  obtain ⟨s', o, hr, ho, hrep⟩ :=
    Machine.exists_reach_only_program (M := system calls) hidle hsafe.2
    hsafe.1
  exact ⟨o, hrep, s', hr, ho⟩

end Refused

section Taken

variable {w : World} {s : State} {K : State → Act Choice → State → Prop} (hs : Start w)
  (h : (system calls).Reach K (Pool.fresh w) s)
include hs h

theorem reach_recorder {l : Option Lock} {hash : Digest} (hno : ¬ w.db.Records l hash)
    (hrec : s.world.db.Records l hash) : ∃ e ∈ s.world.store.binlog,
      (∃ o ∈ e.2.filterMap Write.giftOrder?, l = some o.lock) ∨
      ∃ r ∈ e.2.filterMap Write.rechargeRequest?, l = some r.lock := by
  obtain ⟨-, hd⟩ := reach_legal hs h
  rw [hd] at hrec
  cases hrec with
  | gift ho hk hh =>
    rcases (mem_dbAt fun _ _ => applyAll_giftOrders).mp ho with ho | ⟨e, he, ho⟩
    · exact absurd (.gift ho hk hh) hno
    · exact ⟨e, he, .inl ⟨_, ho, hk⟩⟩
  | recharge hm hk hh =>
    rcases (mem_dbAt fun _ _ => applyAll_rechargeRequests).mp hm with hm | ⟨e, he, hm⟩
    · exact absurd (.recharge hm hk hh) hno
    · exact ⟨e, he, .inr ⟨_, hm, hk⟩⟩

theorem reach_creator {o : Outcome} (hres : (s.threads t₂).result? = some o) (ho : o.Creates) :
    ∃ ws, (t₂, ws) ∈ s.world.store.binlog ∧
      ((∃ o ∈ ws.filterMap Write.giftOrder?, (calls t₂).storedKey = some o.lock) ∨
      ∃ r ∈ ws.filterMap Write.rechargeRequest?, (calls t₂).storedKey = some r.lock) := by
  have hfin := (reach_good (.any calls w) hs Env.any_allows h).result hres
  change Finished _ t₂ _ (calls t₂) o at hfin
  generalize calls t₂ = c at hfin
  cases hfin with
  | @gifted req r hpost =>
    cases r with
    | ok r =>
      obtain ⟨_, p, hcs⟩ := GiftDone.created_writes hpost ho
      refine ⟨p.writes, Store.mem_committedBy.mp (hcs ▸ List.mem_singleton_self _), .inl ?_⟩
      exact ⟨p.order, by simp, rfl⟩
    | _ => cases ho
  | @recharged req r hpost =>
    cases r with
    | ok r =>
      obtain ⟨_, p, hcs⟩ := RechargeDone.created_writes hpost ho
      refine ⟨p.writes, Store.mem_committedBy.mp (hcs ▸ List.mem_singleton_self _), .inr ?_⟩
      exact ⟨p.request, by simp, rfl⟩
    | _ => cases ho
  | _ => cases ho

theorem reach_recorder_unique {l : Option Lock} {e e' : ℕ × List Write}
    (he : e ∈ s.world.store.binlog) (he' : e' ∈ s.world.store.binlog)
    (hl : (∃ o ∈ e.2.filterMap Write.giftOrder?, l = some o.lock) ∨
      ∃ r ∈ e.2.filterMap Write.rechargeRequest?, l = some r.lock)
    (hl' : (∃ o ∈ e'.2.filterMap Write.giftOrder?, l = some o.lock) ∨
      ∃ r ∈ e'.2.filterMap Write.rechargeRequest?, l = some r.lock) : e = e' := by
  rcases hl with ⟨o, ho, rfl⟩ | ⟨r, hr, rfl⟩ <;> rcases hl' with ⟨o', ho', hk⟩ | ⟨r', hr', hk⟩
  · exact (reach_legal hs h).1.inserter_unique GiftOrder.lock (fun _ _ => applyAll_giftOrders)
      (fun htx x hx x' hx' => (htx.newOrder hx x' hx').2) he he' ho ho' (Option.some.inj hk)
  · cases Option.some.inj hk
  · cases Option.some.inj hk
  · exact reach_recharger_unique hs h r r' he he' hr hr' (Option.some.inj hk)

/-- Who starts when the key it would store is taken records nothing. -/
theorem reach_ends_not_creates {hash : Digest} (hidle : s.threads t₂ = .idle)
    (hno : ¬ w.db.Records (calls t₂).storedKey hash)
    (hrec : s.world.db.Records (calls t₂).storedKey hash) {o : Outcome}
    (ho : Ends calls t₂ s o) : ¬ o.Creates := by
  intro hcreates
  obtain ⟨s', h', hres⟩ := ho
  have hreach : (system calls).Reach (fun _ _ _ => True) (Pool.fresh w) s :=
    h.mono fun _ _ _ _ => trivial
  have hreach' : (system calls).Reach (fun _ _ _ => True) s s' := h'.mono fun _ _ _ _ => trivial
  obtain ⟨e, he, hl⟩ := reach_recorder hs h hno hrec
  obtain ⟨ws, hws, hl'⟩ := reach_creator hs (hreach.trans hreach') hres hcreates
  have hsame := reach_recorder_unique hs (hreach.trans hreach')
    ((reach_binlog hreach').subset he) hws hl hl'
  subst hsame
  exact reach_not_idle hs h he hidle

end Taken

/-- Without the first request, the second starts afresh. -/
theorem ends_withBalance_not_repeats {w : World} {s s₁ : State} (hs : Start w)
    (h : (system calls).Reach (fun _ _ _ => True) (Pool.fresh w) s)
    (h₁ : (system calls).Reach (fun _ _ _ => True) s s₁) (hr : Rivals u a b c (calls t₂))
    (hfree : s.world.Unlocked t₂) (hidle : s.threads t₂ = .idle)
    (hno : ∀ hash, ¬ s.world.db.Records (calls t₂).key hash) {o : Outcome}
    (ho : Ends calls t₂ (withBalance s s₁ u) o) : ¬ o.Repeats := by
  have hiff : Ends calls t₂ (withBalance s s₁ u) o ↔
      Ends calls t₂ (Pool.fresh (s.world.withBalance s₁.world u).restart) o :=
    ends_iff_of_alike hr (.refl u b 0 _) rfl (Nat.zero_le _) hfree (fun l v hl => by cases hl)
      hidle rfl
  refine fresh_not_repeats (reach_restart hs h h₁ u) (fun hash hrec => hno hash ?_) (hiff.mp ho)
  cases hrec with
  | gift ho hk hh => exact .gift ho hk hh
  | recharge hm hk hh => exact .recharge hm hk hh

end General

/-- In a reachable state without open transactions, let the first of two requests of a viewer run
alone to its end, whatever fails on the way. If their ids are apart, the second may return exactly
what it may return where only the viewer's balance and the next generated ids are as the first left
them, and it repeats nothing unless its own key was recorded before. If the first has been recorded,
this holds of no other ids: neither where the second is looked up under the id that is stored of
the first, nor, if it may be executed at all, where it is stored under that id. -/
theorem request_ids_apart_iff [Platform] (calls : ℕ → Call) {w : World} (hs : Start w)
    {s s₁ : State} (h : (system calls).Reach (fun _ _ _ => True) (Pool.fresh w) s)
    (hclear : ∀ v, s.world.store.opened v = none) {u t₁ t₂ : ℕ} {a b : String}
    (hr : Rivals u a b (calls t₁) (calls t₂)) (hab : a ≠ b) (hidle₁ : s.threads t₁ = .idle)
    (hidle₂ : s.threads t₂ = .idle) (h₁ : (system calls).Reach (Only (fun _ => True) t₁) s s₁)
    (hret : (s₁.threads t₁).result?.isSome) :
    (Apart a b →
      (∀ o, Ends calls t₂ s₁ o ↔ Ends calls t₂ (withBalance s s₁ u) o) ∧
      ((∀ hash, ¬ s.world.db.Records (calls t₂).key hash) →
        ∀ o, Ends calls t₂ s₁ o → ¬ o.Repeats)) ∧
    ((∀ hash, ¬ s.world.db.Records (calls t₁).storedKey hash) →
      (∃ hash, s₁.world.db.Records (calls t₁).storedKey hash) →
      (∀ o, Ends calls t₂ s₁ o ↔ Ends calls t₂ (withBalance s s₁ u) o) →
      ((calls t₂).Valid → (calls t₁).hash ≠ (calls t₂).hash →
        Platform.collate (Varchar.store 64 a) ≠ Platform.collate b) ∧
      ((∃ o, Ends calls t₂ (withBalance s s₁ u) o ∧ o.Creates) →
        Platform.collate (Varchar.store 64 a) ≠ Platform.collate (Varchar.store 64 b))) := by
  have hne : t₂ ≠ t₁ := by
    rintro rfl
    exact hab hr.eq
  have hreach₁ : (system calls).Reach (fun _ _ _ => True) s s₁ := h₁.mono fun _ _ _ _ => trivial
  have hidle : s₁.threads t₂ = .idle := (Machine.reach_only_threads h₁ hne).trans hidle₂
  have hfree₁ := reach_only_unlocked hs h hclear hr hidle₁ (fun _ _ => trivial) h₁ hret
  have hfree : ∀ v, s.world.Unlocked v := fun v => reach_unlocked hs h fun u _ => hclear u
  have hfresh : (∀ hash, ¬ s.world.db.Records (calls t₂).key hash) →
      ∀ o, Ends calls t₂ (withBalance s s₁ u) o → ¬ o.Repeats := fun hno _ =>
    ends_withBalance_not_repeats hs h hreach₁ hr (hfree t₂) hidle₂ hno
  refine ⟨fun hcol => ?_, fun hno hrec hall => ⟨fun hval hhash hcol => ?_, ?_⟩⟩
  · have hiff : ∀ o, Ends calls t₂ s₁ o ↔ Ends calls t₂ (withBalance s s₁ u) o := fun o =>
      ends_iff_of_alike hr (reach_alike hs h hr hcol h₁) rfl le_rfl (hfree₁ t₂) (hfree t₂) hidle
        hidle₂
    exact ⟨hiff, fun hno o ho => hfresh hno o ((hiff o).mp ho)⟩
  · have hkey := hr.key_eq hcol
    rw [hkey] at hno hrec
    have hother : ∀ hash, s₁.world.db.Records (calls t₂).key hash → hash ≠ (calls t₂).hash := by
      intro hash hrec he
      rcases reach_only_records hs h h₁ hrec with hrec | ⟨-, hh⟩
      · exact hno hash hrec
      · exact hhash (hh.symm.trans he)
    obtain ⟨o, hrep, ho⟩ := ends_mismatch hval hidle (hfree₁ t₂) hrec hother
    exact hfresh hno o ((hall o).mp ho) hrep
  · -- executed after the first, the second would record a key that is taken
    rintro ⟨o, ho, hcreates⟩ hcol
    rw [hr.storedKey_eq hcol] at hno hrec
    obtain ⟨hash, hrec⟩ := hrec
    exact reach_ends_not_creates hs (h.trans hreach₁) hidle
      (fun hw => hno hash (hw.mono (reach_grows hs .refl h))) hrec ((hall o).mpr ho) hcreates

section Witness

open Folding

def giftsNamed (a b : String) : ℕ → Call
  | 0 => .sendGift ⟨a, 2001, 1001, 9001, none, "ROSE", 3, 0⟩
  | _ => .sendGift ⟨b, 2001, 1001, 9001, none, "ROSE", 5, 0⟩

theorem rivals_giftsNamed (a b : String) :
    Rivals 2001 a b (giftsNamed a b 0) (giftsNamed a b 1) :=
  .gifts rfl rfl rfl rfl

/-- Under "g1" and "g2", the second gift is accepted as it would be without the first. -/
theorem request_ids_apart_iff_gifts : ∃ s₁ : State, ∃ o,
    s₁.world.db.walletAccounts 2001 = some 997 ∧ Ends (giftsNamed "g1" "g2") 1 s₁ o ∧
    Ends (giftsNamed "g1" "g2") 1 (withBalance (Pool.fresh (World.boot migrated)) s₁ 2001) o ∧
    ¬ o.Repeats := by
  obtain ⟨s₁, hr, hp⟩ := Machine.exists_reach (M := system (giftsNamed "g1" "g2"))
    (s := Pool.fresh (World.boot migrated))
    (K := fun s a s' => decide (Only (fun _ => True) 0 s a s'))
    (p := fun s =>
      decide ((s.threads 0).result?.isSome ∧ s.world.db.walletAccounts 2001 = some 997) &&
      ((system (giftsNamed "g1" "g2")).run (fun s a s' => decide (Only Choice.Ok 1 s a s')) s
        (launch 1 20 8)).any fun s' : State => (s'.threads 1).result?.isSome)
    (launch 0 20 5) (by decide +kernel)
  obtain ⟨hp, hrun⟩ := Bool.and_eq_true_iff.mp hp
  obtain ⟨hret, hbal⟩ := of_decide_eq_true hp
  obtain ⟨s', hr', hp'⟩ := Machine.exists_reach (launch 1 20 8) hrun
  obtain ⟨o, ho⟩ := Option.isSome_iff_exists.mp hp'
  have hends : Ends (giftsNamed "g1" "g2") 1 s₁ o :=
    ⟨s', hr'.mono fun _ _ _ hk => of_decide_eq_true hk, ho⟩
  have hapart : Apart "g1" "g2" := by
    rintro x (rfl | rfl) <;> decide +kernel
  obtain ⟨hiff, hnew⟩ :=
    (request_ids_apart_iff (giftsNamed "g1" "g2") (Start.boot rfl rfl rfl rfl) .refl
    (fun _ => rfl) (rivals_giftsNamed "g1" "g2") (by decide) rfl rfl
    (hr.mono fun _ _ _ hk => of_decide_eq_true hk) hret).1 hapart
  refine ⟨s₁, o, hbal, hends, (hiff o).mp hends, hnew (fun hash hrec => ?_) o hends⟩
  cases hrec with
  | gift hm => cases hm
  | recharge hm => cases hm

/-- Under "a" and "A" the second gift is refused after the first, and accepted without it. -/
theorem request_ids_collide : ∃ s₁ : State, "a" ≠ "A" ∧
    (system (giftsNamed "a" "A")).Reach (Only Choice.Ok 0) (Pool.fresh (World.boot migrated)) s₁ ∧
    (s₁.threads 0).result?.isSome ∧
    Ends (giftsNamed "a" "A") 1 s₁ (.gifted (.app payloadMismatch)) ∧
    Ends (giftsNamed "a" "A") 1 (withBalance (Pool.fresh (World.boot migrated)) s₁ 2001)
      (.gifted (.ok ⟨2, true, 5, 5, 5, 992, "created"⟩)) := by
  obtain ⟨s₁, hr, hp⟩ := Machine.exists_reach (M := system (giftsNamed "a" "A"))
    (s := Pool.fresh (World.boot migrated))
    (K := fun s a s' => decide (Only Choice.Ok 0 s a s'))
    (p := fun s => (s.threads 0).result?.isSome &&
      ((system (giftsNamed "a" "A")).run (fun s a s' => decide (Only Choice.Ok 1 s a s')) s
        (launch 1 3 8)).any (fun s' : State =>
          decide ((s'.threads 1).result? = some (.gifted (.app payloadMismatch)))) &&
      ((system (giftsNamed "a" "A")).run (fun s a s' => decide (Only Choice.Ok 1 s a s'))
        (withBalance (Pool.fresh (World.boot migrated)) s 2001) (launch 1 20 8)).any
          fun s' : State =>
          decide ((s'.threads 1).result? =
            some (.gifted (.ok ⟨2, true, 5, 5, 5, 992, "created"⟩))))
    (launch 0 20 5) (by decide +kernel)
  obtain ⟨hp, hrun⟩ := Bool.and_eq_true_iff.mp hp
  obtain ⟨hret, hrun'⟩ := Bool.and_eq_true_iff.mp hp
  obtain ⟨x, hx, hpx⟩ := Machine.exists_reach (launch 1 20 8) hrun
  obtain ⟨y, hy, hpy⟩ := Machine.exists_reach (launch 1 3 8) hrun'
  exact ⟨s₁, by decide, hr.mono fun _ _ _ hk => of_decide_eq_true hk, hret,
    ⟨y, hy.mono fun _ _ _ hk => of_decide_eq_true hk, of_decide_eq_true hpy⟩,
    ⟨x, hx.mono fun _ _ _ hk => of_decide_eq_true hk, of_decide_eq_true hpx⟩⟩

end Witness

end LiveRevenue
