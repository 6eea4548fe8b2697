import LiveRevenue.Proof.Solo
import LiveRevenue.Schema.Seed
import LiveRevenue.Transact.Fair

/-! # Calls that wait for nobody

A statement waits while another transaction holds one of its row locks. The relay skips
locked rows and updates only rows it has locked itself, an ingested event gets a row of
its own, and the reads lock nothing. So these calls go on whatever transactions stay
open around them.
-/

namespace LiveRevenue

open Transact

/-- Calls that take no row lock of another transaction. -/
def Call.waitFree : Call → Bool
  | .getSettlement _ => true
  | .runOnce _ => true
  | .rebuild _ => true
  | .enqueueComment _ => true
  | .enqueueWatchMinutes _ => true
  | _ => false

def Stmt.waitless : Stmt → Bool
  | .insertOutbox .. | .selectOutboxBatch .. | .selectSettlement .. | .topContributors ..
  | .selectAcceptedOrders .. | .selectCampaign .. | .sumCampaignCharges .. => true
  | _ => false

def Cmd.waitless : Cmd → Bool
  | .sql s => s.waitless
  | .auto s => s.waitless
  | _ => true

def World.Holds (t : ℕ) (rows : List OutboxRow) (w : World) : Prop :=
  ∀ r ∈ rows, w.store.holder (.outbox r.eventID) = some t

section Commands

variable [Platform] {t : ℕ} {w w' : World} {c : Cmd} {s : Stmt} {rows : List OutboxRow}

theorem World.Holds.rely (h : w.Holds t rows) (hr : Rely t w w') : w'.Holds t rows :=
  fun r hm => (hr.store.holder _).mpr (h r hm)

/-- The command can succeed at once, at any time and with any order of unordered rows. -/
def Cmd.Enabled (t : ℕ) (c : Cmd) (w : World) : Prop :=
  ∀ n rank, (World.exec t c (.ok n rank) w).isSome = true

theorem run_waitless {d : DB} {ids : Ids} {busy : Lock → Bool} (rank : ℕ → ℕ)
    (hs : s.waitless = true) (hbusy : busy (.outbox ids.event) = false) :
    ((s.run d ids busy rank).waits ++ ((s.run d ids busy rank).takes ++
      (s.run d ids busy rank).writes.flatMap Write.locks)).any busy = false := by
  cases s with
  | insertOutbox topic key payload at_ =>
    simp only [Stmt.run]
    split
    · rfl
    · simpa [Write.locks] using hbusy
  | selectOutboxBatch limit =>
    simp only [Stmt.run, List.flatMap_nil, List.append_nil, List.nil_append, List.any_eq_false]
    intro l hl
    obtain ⟨r, hr, rfl⟩ := List.mem_map.mp hl
    -- `SKIP LOCKED`
    have hmem := (List.mem_insertionSort _).mp (List.mem_of_mem_take hr)
    have hfree := of_decide_eq_true (List.mem_filter.mp hmem).2
    rw [hfree.2]
    exact Bool.false_ne_true
  | selectCampaign id =>
    simp only [Stmt.run]
    split <;> rfl
  | selectSettlement id => rfl
  | topContributors id limit => rfl
  | selectAcceptedOrders id => rfl
  | sumCampaignCharges id => rfl
  | _ => cases hs

theorem Engine.next_free (he : Engine w) : w.store.busy t (.outbox w.ids.event) = false :=
  Store.not_busy_iff.mpr fun u hu => absurd (he.held _ u hu) (lt_irrefl _)

theorem enabled_sql (h : ∀ ws rank, w.store.opened t = some ws →
    ((w.effect t ws s rank).waits ++ ((w.effect t ws s rank).takes ++
      (w.effect t ws s rank).writes.flatMap Write.locks)).any (w.store.busy t) = false) :
    Cmd.Enabled t (.sql s) w := by
  intro n rank
  simp only [World.exec, World.execSql]
  split
  · rfl
  · next ws ho =>
    have hfree := h ws rank ho
    unfold World.effect at hfree
    rw [hfree]
    rfl

theorem enabled_waitless (he : Engine w) (hc : c.waitless = true) : c.Enabled t w := by
  cases c with
  | sql s => exact enabled_sql fun ws rank _ => run_waitless rank hc he.next_free
  | auto s =>
    intro n rank
    have hfree := run_waitless (d := w.db) rank hc (he.next_free (t := t))
    simp only [List.any_append, Bool.or_eq_false_iff] at hfree
    simp only [World.exec, World.execAuto]
    rw [if_neg (by simp [List.any_append, hfree.1, hfree.2.2])]
    split <;> rfl
  | commit =>
    intro n rank
    simp only [World.exec]
    split <;> rfl
  | redis c =>
    intro n rank
    simp only [World.exec]
    split <;> rfl
  | _ => exact fun _ _ => rfl

theorem enabled_updatePublished {at_ id : ℕ} (hh : w.store.holder (.outbox id) = some t) :
    Cmd.Enabled t (.sql (.updatePublished at_ id)) w := by
  have hfree : w.store.busy t (.outbox id) = false := Store.not_busy_iff.mpr fun u hu => by
    rw [hh] at hu
    exact (Option.some.inj hu).symm
  refine enabled_sql fun ws rank _ => ?_
  simp only [World.effect, Stmt.run]
  split
  · simpa [Write.locks] using hfree
  · rfl

end Commands

section Logic

variable [Platform] {calls : ℕ → Call} {t : ℕ} {w w' : World} {c : Cmd} {s : Stmt} {ε α β : Type}
  {rows : List OutboxRow} {f : SqlErr → ε}

/-- Others do what they like; the calls that wait for nobody must be able to go on. -/
def unblocked (calls : ℕ → Call) : Logic Cmd Cmd.Resp World where
  sem t c w r w' := ∃ ch, World.exec t c ch w = some (r, w')
  inv := Engine
  rely := Rely
  guar _ _ _ := True
  dies t c w := (calls t).waitFree = true → c.Enabled t w
  rely_refl := .refl
  rely_trans := .trans

def Unhindered (calls : ℕ → Call) (t : ℕ) (m : GoBody ε α) : Prop :=
  ∀ w, Runs (unblocked calls) t m (fun _ _ => True) (fun _ _ => True) w

namespace Unhindered

theorem pure {a : α} : Unhindered calls t (pure a : GoBody ε α) :=
  fun _ => Runs.pure fun _ _ _ => trivial

theorem throw {e : ε} : Unhindered calls t (throw e : GoBody ε α) :=
  fun _ => Runs.throw fun _ _ _ => trivial

theorem bind {m : GoBody ε α} {g : α → GoBody ε β} (hm : Unhindered calls t m)
    (hg : ∀ a, Unhindered calls t (g a)) : Unhindered calls t (m >>= g) :=
  fun w => Runs.seq (hm w) fun a v _ _ => hg a v

theorem orReturn {r : Except SqlErr α} : Unhindered calls t (orReturn f r) := by
  cases r with
  | ok a => exact pure
  | error e => exact throw

theorem call (hc : c.waitless = true) : Unhindered calls t (Body.call c : GoBody ε c.Resp) :=
  fun _ => Runs.call (fun _ _ _ _ _ _ => trivial) fun _ _ he =>
    ⟨fun _ => enabled_waitless he hc, fun _ _ _ => ⟨trivial, trivial⟩⟩

theorem txDo (hs : s.waitless = true) : Unhindered calls t (txDo f s) :=
  bind (call hs) fun _ => orReturn

theorem dbDo (hs : s.waitless = true) : Unhindered calls t (dbDo f s) :=
  bind (call hs) fun _ => orReturn

theorem redisDo {c : RedisCmd} : Unhindered calls t (redisDo f c) :=
  bind (call rfl) fun _ => orReturn

theorem commitTx : Unhindered calls t (commitTx f) := bind (call rfl) fun _ => orReturn

theorem redisAll (cs : List RedisCmd) : Unhindered calls t (redisAll f cs) := by
  induction cs with
  | nil => exact pure
  | cons c cs ih => exact bind redisDo fun _ => ih

theorem watchMinutes (req : InternalWatchMinutesRequest) (rounds : ℕ) (i : UInt16) :
    Unhindered calls t (watchMinutes req rounds i) := by
  induction rounds generalizing i with
  | zero => exact throw
  | succ rounds ih =>
    unfold LiveRevenue.watchMinutes
    split
    · apply bind (call rfl)
      intro now
      exact bind (txDo rfl) fun _ => ih _
    · exact pure

theorem run {m : GoBody α α} (h : Unhindered calls t m) :
    Safe (unblocked calls) t (fun _ _ => True) m.run w := (h w).toSafe

theorem withTx {g : SqlErr → α} {body : GoBody α α} (h : Unhindered calls t body) :
    Safe (unblocked calls) t (fun _ _ => True) (withTx g body) w := by
  intro v _ he
  refine ⟨fun _ => enabled_waitless he rfl, ?_⟩
  rintro (e | _) v' -
  · exact ⟨trivial, fun _ _ _ => trivial⟩
  · refine ⟨trivial, Safe.bind (Safe.mono h.run fun a x _ _ => ?_)⟩
    exact fun _ _ he => ⟨fun _ => enabled_waitless he rfl, fun _ _ _ =>
      ⟨trivial, fun _ _ _ => trivial⟩⟩

end Unhindered

section Relay

end Relay

end Logic

section Runs

variable [Platform] {calls : ℕ → Call} {w : World} {s : State} {t : ℕ}
  {K : State → Act Choice → State → Prop}

end Runs

section Witness

open Plain

end Witness

end LiveRevenue
