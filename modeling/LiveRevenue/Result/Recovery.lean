import LiveRevenue.Result.Poison
import LiveRevenue.Result.Rebuild

/-! # Which sessions can be rebuilt

`SendGift` and the schema take match ids up to 2^64, while the rebuild scans them into a
signed column. Alone and without failures, a rebuild ends, and it succeeds exactly where
the ids and sums it scans fit: one accepted order with a larger match id is enough to
make it fail. Next to other calls, it can fail only where something does not fit at its end.
-/

namespace LiveRevenue

open Transact

/-- What still fits at its end did fit all along, so a rebuild without failures of its own has
succeeded, whatever ran next to it. -/
theorem reach_rebuild_ok [Platform] {calls : ℕ → Call} {w : World} {s : State} {t l : ℕ}
    {x : LiveSession} {r : Except Err Unit} (hc : calls t = .rebuild l) (hs : Start w)
    (h : (system calls).Reach (Unfailing t) (Pool.fresh w) s)
    (hres : (s.threads t).result? = some (.handled r)) (hx : s.world.db.Rebuildable l x) :
    r = .ok () := by
  have hfin := (reach_good (.unfailing calls w t) hs Env.unfailing_allows h).result hres
  rw [show (Env.unfailing calls w t).calls t = .rebuild l from hc] at hfin
  cases hfin with
  | rebuilt hpost =>
    by_contra hne
    rcases hpost hne with ⟨c, applied, u, hfault⟩ | hnone
    · exact hfault rfl
    · exact hnone x hx

/-- A rebuild that runs alone and without failures ends, and it succeeds exactly if the match
ids of the accepted orders, the campaign id and the campaign's sums fit what they are scanned
into; and next to any other calls it has succeeded if they fit where it ended. -/
theorem rebuild_succeeds_iff [Platform] (calls : ℕ → Call) {s : State} {t l : ℕ} {x : LiveSession}
    (hc : calls t = .rebuild l) (hidle : s.threads t = .idle)
    (hx : s.world.db.liveSessions l = some x) :
    (∃ s' r, (system calls).Reach (Only Choice.Ok t) s s' ∧
      (s'.threads t).result? = some (.handled r)) ∧
    (∀ s' r, (system calls).Reach (Only Choice.Ok t) s s' →
      (s'.threads t).result? = some (.handled r) →
      (r = .ok () ↔ s.world.db.Rebuildable l x)) ∧
    ∀ w s' r x', Start w → (system calls).Reach (Unfailing t) (Pool.fresh w) s' →
      (s'.threads t).result? = some (.handled r) → s'.world.db.Rebuildable l x' → r = .ok () := by
  have hsafe : Safe ((system calls).solo Choice.Ok) t (fun o w' => ∃ r, o = .handled r ∧
      RebuildEnds Choice.Ok t l s.world r w') (calls t).program s.world :=
    hc ▸ safe_solo_rebuildCall ⟨.ok 0 id, trivial⟩
  refine ⟨?_, ?_, fun w s' r x' hs hr hres hfits => reach_rebuild_ok hc hs hr hres hfits⟩
  · obtain ⟨s', o, hr, ho, r, rfl, -⟩ := Machine.exists_reach_only_program (M := system calls) hidle
      (show (calls t).ready s.world = true by rw [hc]; rfl) hsafe
    exact ⟨s', r, hr, ho⟩
  intro s' r hr hres
  obtain ⟨r', he, hok, hfail⟩ := Machine.reach_only_program hidle hsafe hr hres
  cases he
  constructor
  · intro h
    obtain ⟨-, x', hfits⟩ := hok h
    cases hx.symm.trans hfits.session
    exact hfits
  · intro hfits
    by_contra hne
    rcases hfail hne with ⟨a, ha⟩ | hnone
    · exact ha
    · exact hnone x hfits

section Witness

open Plain

def withMatch (m : ℕ) : DB :=
  { migrated with
    liveMatches := fun k =>
      if k = m then some ⟨m, 9001, .allGifts, none, .opened⟩ else migrated.liveMatches k }

def giftInMatch (m : ℕ) : ℕ → Call
  | 1 => .rebuild 9001
  | _ => .sendGift ⟨"g1", 2001, 1001, 9001, some m, "ROSE", 3, 0⟩

/-- With the largest match id that fits, the rebuild succeeds. -/
theorem rebuild_succeeds_iff_fits : ∃ s s' : State,
    (s'.threads 1).result? = some (.handled (.ok ())) ∧
    ((s.world.db.acceptedOrders 9001).map (·.matchID) = [some (2 ^ 63 - 1)]) ∧
    s.world.db.Rebuildable 9001 ⟨1001, some 7001, .opened, none⟩ := by
  obtain ⟨s, hr, hp⟩ := Machine.exists_reach (M := system (giftInMatch (2 ^ 63 - 1)))
    (s := Pool.fresh (World.boot (withMatch (2 ^ 63 - 1)))) (K := fun _ _ _ => true)
    (p := fun s => decide ((s.world.db.acceptedOrders 9001).map (·.matchID) = [some (2 ^ 63 - 1)] ∧
      s.world.db.liveSessions 9001 = some ⟨1001, some 7001, .opened, none⟩) && idle 1 s &&
      ((system (giftInMatch (2 ^ 63 - 1))).run (fun s a s' => decide (Only Choice.Ok 1 s a s')) s
        (launch 1 9 8)).any fun s' : State =>
        decide ((s'.threads 1).result? = some (.handled (.ok ()))))
    (launch 0 21 5) (by decide +kernel)
  obtain ⟨hp, hrun⟩ := Bool.and_eq_true_iff.mp hp
  obtain ⟨hp, hidle⟩ := Bool.and_eq_true_iff.mp hp
  obtain ⟨hids, hsession⟩ := of_decide_eq_true hp
  obtain ⟨s', hr', hp'⟩ := Machine.exists_reach (launch 1 9 8) hrun
  have hres := of_decide_eq_true hp'
  have hiff :=
    (rebuild_succeeds_iff (giftInMatch (2 ^ 63 - 1)) rfl (idle_spec hidle) hsession).2.1 s' _
    (hr'.mono fun _ _ _ hk => of_decide_eq_true hk) hres
  exact ⟨s, s', hres, hids, hiff.mp rfl⟩

/-- With a match id of 2^63 the gift is accepted, and the rebuild of its session fails. -/
theorem rebuild_fails_on_match_id : ∃ s s' : State,
    (system (giftInMatch (2 ^ 63))).Reach (fun _ _ _ => True)
      (Pool.fresh (World.boot (withMatch (2 ^ 63)))) s ∧
    (s.world.db.liveSessions 9001).isSome ∧
    (s.world.db.acceptedOrders 9001).map (·.matchID) = [some (2 ^ 63)] ∧
    (system (giftInMatch (2 ^ 63))).Reach (Only Choice.Ok 1) s s' ∧
    (s'.threads 1).result? = some (.handled (.error (.sql .scan))) := by
  obtain ⟨s, hr, hp⟩ := Machine.exists_reach (M := system (giftInMatch (2 ^ 63)))
    (s := Pool.fresh (World.boot (withMatch (2 ^ 63)))) (K := fun _ _ _ => true)
    (p := fun s => decide ((s.world.db.liveSessions 9001).isSome ∧
      (s.world.db.acceptedOrders 9001).map (·.matchID) = [some (2 ^ 63)]) &&
      ((system (giftInMatch (2 ^ 63))).run (fun s a s' => decide (Only Choice.Ok 1 s a s')) s
        (launch 1 1 8)).any fun s' : State =>
        decide ((s'.threads 1).result? = some (.handled (.error (.sql .scan)))))
    (launch 0 21 5) (by decide +kernel)
  obtain ⟨hp, hrun⟩ := Bool.and_eq_true_iff.mp hp
  obtain ⟨hsession, hids⟩ := of_decide_eq_true hp
  obtain ⟨s', hr', hp'⟩ := Machine.exists_reach (launch 1 1 8) hrun
  exact ⟨s, s', hr.mono fun _ _ _ _ => trivial, hsession, hids,
    hr'.mono fun _ _ _ hk => of_decide_eq_true hk, of_decide_eq_true hp'⟩

end Witness

end LiveRevenue
