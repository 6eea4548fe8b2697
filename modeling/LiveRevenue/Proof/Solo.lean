import LiveRevenue.Proof.System
import LiveRevenue.Transact.Solo

/-! # Calls that run undisturbed

A command waits only for row locks of other transactions. Where nobody else has a
transaction open, every call can therefore be run to its end.
-/

namespace LiveRevenue

open Transact

/-- The command succeeds, at whatever time and with whatever order of unordered rows. -/
def Choice.Ok : Choice → Prop
  | .ok _ _ => True
  | .fault _ => False

instance : DecidablePred Choice.Ok
  | .ok _ _ => inferInstanceAs (Decidable True)
  | .fault _ => inferInstanceAs (Decidable False)

/-- No other process has a transaction open. -/
def World.Undisturbed (t : ℕ) (w : World) : Prop := ∀ u, u ≠ t → w.store.opened u = none

def World.Unlocked (t : ℕ) (w : World) : Prop := ∀ l u, w.store.holder l = some u → u = t

theorem World.Unlocked.busy {t : ℕ} {w : World} (h : w.Unlocked t) (l : Lock) :
    w.store.busy t l = false :=
  Store.not_busy_iff.mpr (h l)

theorem World.Unlocked.any_busy {t : ℕ} {w : World} (h : w.Unlocked t) (ls : List Lock) :
    ls.any (w.store.busy t) = false := by
  rw [List.any_eq_false]
  intro l _
  rw [h.busy l]
  exact Bool.false_ne_true

variable [Platform] {t : ℕ} {w w' : World}

theorem World.Unlocked.enabled (h : w.Unlocked t) (c : Cmd) :
    ∃ ch, Choice.Ok ch ∧ (World.exec t c ch w).isSome := by
  refine ⟨.ok 0 id, trivial, ?_⟩
  cases c with
  | sql s =>
    simp only [World.exec, World.execSql]
    split
    · rfl
    · rw [if_neg (by rw [h.any_busy]; exact Bool.false_ne_true)]
      rfl
  | auto s =>
    simp only [World.exec, World.execAuto]
    rw [if_neg (by rw [h.any_busy]; exact Bool.false_ne_true)]
    split <;> rfl
  | commit =>
    simp only [World.exec]
    split <;> rfl
  | redis c =>
    simp only [World.exec]
    split <;> rfl
  | _ => rfl

theorem Moves.unlocked (hm : Moves t w w') (h : w.Unlocked t) : w'.Unlocked t := by
  obtain ⟨store, ids, log, aof, marked⟩ := w'
  have hs : StoreMove t w store ids := hm.store
  intro l u hl
  change store.holder l = some u at hl
  have hrelease : w.store.release t l = some u → u = t := by
    intro hr
    unfold Store.release at hr
    split at hr
    · cases hr
    · exact h l u hr
  cases hs with
  | same => exact h l u hl
  | begin => exact h l u hl
  | rollback => exact hrelease hl
  | record ho _ hb =>
    simp only [Store.record] at hl
    split at hl
    · exact (Option.some.inj hl).symm
    · exact h l u hl
  | read => exact h l u hl
  | commit ho => exact hrelease hl
  | auto _ hb => exact h l u hl

variable {calls : ℕ → Call} {s : State} {K : State → Act Choice → State → Prop}

/-- Without locks of others every program runs to its end, and leaves it so. -/
theorem World.Unlocked.safe {α : Type} {ok : Choice → Prop} (h : w.Unlocked t) (p : Go α)
    (hok : ∀ ch, Choice.Ok ch → ok ch) :
    Safe ((system calls).solo ok) t (fun _ => World.Unlocked t) p w := by
  refine Machine.safe_solo_of_enabled p h (fun c _ hw => ?_) fun {_ _ _ _ _} hw hex =>
    (exec_moves hex).unlocked hw
  obtain ⟨ch, hch, hex⟩ := hw.enabled c
  exact ⟨ch, hok ch hch, hex⟩

omit [Platform] in
theorem World.Unlocked.rollback (h : w.Unlocked t) (u : ℕ) :
    (w.setStore (w.store.rollback t)).Unlocked u := by
  intro l u' hl
  change w.store.release t l = some u' at hl
  have hne : u' ≠ t := fun he => Store.release_ne w.store t l (he ▸ hl)
  exact absurd (h l u' ((Store.release_eq_some hne).mp hl)) hne

theorem safe_withTx_unlocks {α : Type} {ok : Choice → Prop} {g : SqlErr → α} {body : GoBody α α}
    (hok : ∀ ch, Choice.Ok ch → ok ch) (hw : ∀ u, w.Unlocked u) :
    Safe ((system calls).solo ok) t (fun _ v => ∀ u, v.Unlocked u) (withTx g body) w := by
  refine Machine.safe_solo_op ⟨.ok 0 id, hok _ trivial, rfl⟩ ?_
  rintro (⟨n, rank⟩ | a) r v - hex
  · cases hex
    have hfree : (w.setStore (w.store.begin t)).Unlocked t := hw t
    refine (Safe.mono (hfree.safe body.run hok) fun a v' _ hv' => ?_).bind
    refine Machine.safe_solo_op ⟨.ok 0 id, hok _ trivial, rfl⟩ ?_
    rintro (⟨n, rank⟩ | x) r v'' - hex <;>
    · cases hex
      rintro _ rfl -
      exact hv'.rollback
  · cases hex
    rintro _ rfl -
    exact hw

theorem reach_unlocked (hs : Start w) (h : (system calls).Reach K (Pool.fresh w) s)
    (hclear : s.world.Undisturbed t) : s.world.Unlocked t := by
  intro l u hl
  by_contra hu
  exact (reach_good (.any calls w) hs Env.any_allows h).1.engine.owned l u hl (hclear u hu)

theorem reach_finishes (hs : Start w) (h : (system calls).Reach K (Pool.fresh w) s)
    (hclear : s.world.Undisturbed t) (hready : (calls t).ready s.world = true)
    (hdead : s.threads t ≠ .dead) :
    ∃ s' o, (system calls).Reach (Only Choice.Ok t) s s' ∧ (s'.threads t).result? = some o := by
  have hfree := reach_unlocked hs h hclear
  cases ht : s.threads t with
  | live p => exact Machine.exists_reach_only ht (hfree.safe p fun _ h => h)
  | dead => exact absurd ht hdead
  | idle =>
    obtain ⟨s', o, hr, ho, -⟩ := Machine.exists_reach_only_program (M := system calls) ht hready
      (hfree.safe (calls t).program fun _ h => h)
    exact ⟨s', o, hr, ho⟩

section Reads

variable {ok : Choice → Prop} {ε : Type} {E : ε → World → Prop} {f : SqlErr → ε}

theorem execAuto_of_reads {s : Stmt} {rank : ℕ → ℕ} (hs : s.reads = true)
    (hwait : (s.run w.db w.ids (w.store.busy t) rank).waits = []) :
    w.execAuto t s rank = some ((s.run w.db w.ids (w.store.busy t) rank).res, w) := by
  obtain ⟨hw, hi⟩ : (s.run w.db w.ids (w.store.busy t) rank).writes = [] ∧
    (s.run w.db w.ids (w.store.busy t) rank).ids = w.ids := run_reads hs
  simp only [World.execAuto, hwait, hw, hi, List.flatMap_nil, List.append_nil, List.any_nil,
    Bool.false_eq_true, if_false, if_true]

/-- A read of an undisturbed body: what it returns, the statement gives for some order of the
rows it leaves unordered. -/
theorem runs_solo_read {s : Stmt} {S : s.Res → World → Prop} (hok : ∃ ch, ok ch)
    (hs : s.reads = true) (hwait : ∀ rank, (s.run w.db w.ids (w.store.busy t) rank).waits = [])
    (he : ∀ a e v, ok (.fault a) → E (f e) v)
    (hfail : ∀ e rank, (s.run w.db w.ids (w.store.busy t) rank).res = .error e → E (f e) w)
    (hq : ∀ a rank, (s.run w.db w.ids (w.store.busy t) rank).res = .ok a → S a w) :
    Runs ((system calls).solo ok) t (dbDo f s : GoBody ε s.Res) S E w := by
  refine Runs.seq (Runs.solo_call (Q := fun r v => (∀ a, r = .ok a → S a v) ∧
    ∀ e, r = .error e → E (f e) v) ?_ ?_) ?_
  · obtain ⟨ch, hch⟩ := hok
    refine ⟨ch, hch, ?_⟩
    cases ch with
    | ok n rank =>
      change (w.execAuto t s rank).isSome
      rw [execAuto_of_reads hs (hwait rank)]
      rfl
    | fault applied =>
      change (if applied then (w.execAuto t s id).map _ else _).isSome
      rw [execAuto_of_reads hs (hwait id)]
      cases applied <;> rfl
  · rintro (⟨n, rank⟩ | applied) r w' hch hex
    · change w.execAuto t s rank = _ at hex
      rw [execAuto_of_reads hs (hwait rank)] at hex
      obtain ⟨hres, rfl⟩ := Prod.mk.inj (Option.some.inj hex)
      exact ⟨fun a ha => hq a rank (hres.trans ha), fun e he => hfail e rank (hres.trans he)⟩
    · refine ⟨fun a ha => ?_, fun e _ => he applied e _ hch⟩
      subst ha
      change (if applied then (w.execAuto t s id).map _ else _) = _ at hex
      rw [execAuto_of_reads hs (hwait id)] at hex
      cases applied <;> cases hex
  · rintro (e | a) v - h
    · refine Runs.throw fun v' hv' _ => ?_
      obtain rfl : v' = v := hv'
      exact h.2 e rfl
    · refine Runs.pure fun v' hv' _ => ?_
      obtain rfl : v' = v := hv'
      exact h.1 a rfl

end Reads

section Transactions

variable {d : DB} {ws : List Write} {ids : Ids} {v : World} {α ε : Type} {E : ε → World → Prop}
  {f : SqlErr → ε}

/-- The process has a transaction open on the tables `d`, with these writes, and nobody else holds
a lock. -/
structure Working (t : ℕ) (d : DB) (ws : List Write) (ids : Ids) (v : World) : Prop where
  db : v.db = d
  ids : v.ids = ids
  opened : v.store.opened t = some ws
  unlocked : v.Unlocked t

def Stmt.alone (s : Stmt) (d : DB) (ids : Ids) (rank : ℕ → ℕ) : Effect s.Res :=
  s.run d ids (fun _ => false) rank

theorem Working.execSql (hv : Working t d ws ids v) (s : Stmt) (rank : ℕ → ℕ) : ∃ v',
    v.execSql t s rank = some ((s.alone (applyAll ws d) ids rank).res, v') ∧
      Working t d (ws ++ (s.alone (applyAll ws d) ids rank).writes)
        (s.alone (applyAll ws d) ids rank).ids v' := by
  have hbusy : v.store.busy t = fun _ => false := funext hv.unlocked.busy
  have hrun : s.run (applyAll ws v.db) v.ids (v.store.busy t) rank =
      s.alone (applyAll ws d) ids rank := by
    rw [hv.db, hv.ids, hbusy]
    rfl
  have hex : v.execSql t s rank = some ((s.alone (applyAll ws d) ids rank).res,
      { v with
        store := v.store.record t ws (s.alone (applyAll ws d) ids rank).writes
          (s.alone (applyAll ws d) ids rank).takes
        ids := (s.alone (applyAll ws d) ids rank).ids }) := by
    simp only [World.execSql, hv.opened, hrun, hv.unlocked.any_busy, Bool.false_eq_true, if_false]
  exact ⟨_, hex, hv.db, rfl, Store.setOpened_self _ _ _, (execSql_moves hex).unlocked hv.unlocked⟩

theorem runs_alone_sql {s : Stmt} {S : Except SqlErr s.Res → World → Prop}
    (hv : Working t d ws ids v)
    (h : ∀ rank v', Working t d (ws ++ (s.alone (applyAll ws d) ids rank).writes)
      (s.alone (applyAll ws d) ids rank).ids v' → S (s.alone (applyAll ws d) ids rank).res v') :
    Runs ((system calls).solo Choice.Ok) t (txTry s : GoBody ε _) S E v := by
  refine Runs.solo_call ?_ ?_
  · obtain ⟨v', hex, -⟩ := hv.execSql s id
    exact ⟨.ok 0 id, trivial, by simp only [system, World.exec, hex]; rfl⟩
  · rintro (⟨n, rank⟩ | a) r v' hok hex
    · obtain ⟨u, hu, hwork⟩ := hv.execSql s rank
      obtain ⟨rfl, rfl⟩ := Prod.mk.inj (Option.some.inj (hu.symm.trans hex))
      exact h rank _ hwork
    · cases hok

theorem runs_alone_pure {a : α} {Q : α → World → Prop} (h : Q a v) :
    Runs ((system calls).solo Choice.Ok) t (pure a : GoBody ε α) Q E v := by
  refine Runs.pure fun v' hv' _ => ?_
  obtain rfl : v' = v := hv'
  exact h

theorem runs_alone_throw {e : ε} {Q : α → World → Prop} (h : E e v) :
    Runs ((system calls).solo Choice.Ok) t (throw e : GoBody ε α) Q E v := by
  refine Runs.throw fun v' hv' _ => ?_
  obtain rfl : v' = v := hv'
  exact h

theorem runs_alone_do {s : Stmt} {S : s.Res → World → Prop} (hv : Working t d ws ids v)
    (h : ∀ rank v', Working t d (ws ++ (s.alone (applyAll ws d) ids rank).writes)
      (s.alone (applyAll ws d) ids rank).ids v' → match (s.alone (applyAll ws d) ids rank).res with
        | .ok a => S a v'
        | .error e => E (f e) v') :
    Runs ((system calls).solo Choice.Ok) t (txDo f s) S E v := by
  refine Runs.bind (runs_alone_sql hv fun rank v' hv' => ?_)
  have := h rank v' hv'
  unfold orReturn
  split
  · next a ha =>
    rw [ha] at this
    exact runs_alone_pure this
  · next e he =>
    rw [he] at this
    exact runs_alone_throw this

theorem runs_alone_effect {s : Stmt} {a : s.Res} {ids' : Ids} {vs : List Write}
    {waits takes : List Lock} {S : s.Res → World → Prop} (hv : Working t d ws ids v)
    (he : ∀ rank, s.alone (applyAll ws d) ids rank = ⟨.ok a, ids', vs, waits, takes⟩)
    (h : ∀ v', Working t d (ws ++ vs) ids' v' → S a v') :
    Runs ((system calls).solo Choice.Ok) t (txDo f s) S E v := by
  refine runs_alone_do hv fun rank v' hv' => ?_
  rw [he rank] at hv' ⊢
  exact h v' hv'

theorem runs_alone_read {s : Stmt} {q : Except SqlErr s.Res} {S : s.Res → World → Prop}
    (hv : Working t d [] ids v)
    (hq : ∀ rank, ∃ waits takes, s.alone d ids rank = ⟨q, ids, [], waits, takes⟩)
    (h : ∀ a v', q = .ok a → Working t d [] ids v' → S a v')
    (he : ∀ e v', q = .error e → E (f e) v') :
    Runs ((system calls).solo Choice.Ok) t (txDo f s) S E v := by
  refine runs_alone_do hv fun rank v' hv' => ?_
  obtain ⟨waits, takes, heff⟩ := hq rank
  rw [applyAll_nil, heff] at hv' ⊢
  cases hres : q with
  | ok a => exact h a v' hres hv'
  | error e => exact he e v' hres

theorem runs_alone_now {S : ℕ → World → Prop} (h : ∀ n, S n v) :
    Runs ((system calls).solo Choice.Ok) t (timeNow : GoBody ε ℕ) S E v := by
  refine Runs.solo_call ⟨.ok 0 id, trivial, rfl⟩ ?_
  rintro (⟨n, rank⟩ | a) r v' hok hex
  · cases hex
    exact h n
  · cases hok

theorem runs_alone_commit {Q : World → Prop} (hv : Working t d ws ids v)
    (h : ∀ v', v'.db = applyAll ws d → v'.ids = ids → Q v') :
    Runs ((system calls).solo Choice.Ok) t (commitTx f) (fun _ => Q) E v := by
  have hex : ∀ n rank, World.exec t .commit (.ok n rank) v =
      some (.ok (), v.setStore (v.store.commit t ws)) := fun n rank => by
    simp only [World.exec, hv.opened]
  refine Runs.bind (Runs.solo_call ⟨.ok 0 id, trivial, ?_⟩ ?_)
  · change (World.exec t .commit (.ok 0 id) v).isSome
    rw [hex]
    rfl
  · rintro (⟨n, rank⟩ | a) r v' hok hr
    · obtain ⟨rfl, rfl⟩ := Prod.mk.inj (Option.some.inj ((hex n rank).symm.trans hr))
      exact runs_alone_pure (h _ (by rw [← hv.db]; rfl) hv.ids)
    · cases hok

/-- A whole transaction that nobody disturbs. It leaves no lock behind. -/
theorem safe_alone_withTx {g : SqlErr → α} {body : GoBody α α} {P : α → DB → Ids → Prop} {w : World}
    (hw : w.Unlocked t)
    (h : ∀ v, Working t w.db [] w.ids v → Runs ((system calls).solo Choice.Ok) t body
      (fun a v' => P a v'.db v'.ids) (fun a v' => P a v'.db v'.ids) v) :
    Safe ((system calls).solo Choice.Ok) t (fun a v' => P a v'.db v'.ids ∧ ∀ u, v'.Unlocked u)
      (withTx g body) w := by
  refine Machine.safe_solo_op ⟨.ok 0 id, trivial, rfl⟩ ?_
  rintro (⟨n, rank⟩ | a) r v hok hex
  · cases hex
    have hbody := Runs.toSafe (h (w.setStore (w.store.begin t))
      ⟨rfl, rfl, Store.setOpened_self _ _ _, hw⟩)
    have hfree : (w.setStore (w.store.begin t)).Unlocked t := hw
    refine ((hbody.and (hfree.safe _ fun _ h => h)).mono fun a v' _ hp => ?_).bind
    refine Machine.safe_solo_op ⟨.ok 0 id, trivial, rfl⟩ ?_
    rintro (⟨n, rank⟩ | x) r v'' hok hex
    · cases hex
      rintro _ rfl -
      exact ⟨hp.1, hp.2.rollback⟩
    · cases hok
  · cases hok

end Transactions

end LiveRevenue
