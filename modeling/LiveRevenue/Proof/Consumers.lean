import LiveRevenue.Consumers
import LiveRevenue.Proof.Delivery

/-! # What the consumer groups have handled

The pool of a cluster runs as the system does. A claim moves past a message only when a
round on this message has returned without an error, so everything below an offset that
a claim has reached or committed has been handled, and rounds start in offset order.
-/

namespace LiveRevenue

open Transact

theorem Group.consumes_call (g : Group) (m : Message) : (g.call m).consumes = true := by
  cases g <;> rfl

theorem Group.call_inj {g g' : Group} {m m' : Message} (h : g.call m = g'.call m') :
    g = g' ∧ m = m' := by
  cases g <;> cases g' <;> cases h <;> exact ⟨rfl, rfl⟩

section Steps

variable [Platform] {place : String → String → ℕ} {calls : ℕ → Call} {k k' : Cluster}

theorem Cluster.step_act {a : Act Choice} (h : k.step place calls (.act a) = some k') :
    admits calls a = true ∧ ∃ s, (system calls).step k.pool a = some s ∧
    k' = { k with pool := s } := by
  simp only [Cluster.step] at h
  split at h
  · next ha =>
    obtain ⟨s, hs, rfl⟩ := Option.map_eq_some_iff.mp h
    exact ⟨ha, s, hs, rfl⟩
  · cases h

theorem Cluster.step_claim {c : ℕ} {g : Group} {p : Partition}
    (h : k.step place calls (.claim c g p) = some k') : p.topic ∈ g.topics ∧
      k' = k.setClaim c (some ⟨g, p, k.committed g p, none⟩) := by
  simp only [Cluster.step] at h
  split at h
  · next hc => exact ⟨hc.1, (Option.some.inj h).symm⟩
  · cases h

theorem Cluster.step_deliver {c t : ℕ} (h : k.step place calls (.deliver c t) = some k') :
    ∃ g p n m s, k.claims c = some ⟨g, p, n, none⟩ ∧
      (k.pool.world.partition place p)[n]? = some m ∧ calls t = g.call m ∧
      (system calls).step k.pool (.start t) = some s ∧
      k' = ({ k with pool := s }).setClaim c (some ⟨g, p, n, some t⟩) := by
  simp only [Cluster.step] at h
  split at h
  · next g p n hc =>
    split at h
    · next m hm =>
      split at h
      · next ht =>
        obtain ⟨s, hs, rfl⟩ := Option.map_eq_some_iff.mp h
        exact ⟨g, p, n, m, s, hc, hm, ht, hs, rfl⟩
      · cases h
    · cases h
  · cases h

theorem Cluster.step_advance {c : ℕ} (h : k.step place calls (.advance c) = some k') :
    ∃ g p n t, k.claims c = some ⟨g, p, n, some t⟩ ∧
      (k.pool.threads t).result? = some (.handled (.ok ())) ∧
      k' = k.setClaim c (some ⟨g, p, n + 1, none⟩) := by
  simp only [Cluster.step] at h
  split at h
  · next g p n t hc =>
    split at h
    · next ho => exact ⟨g, p, n, t, hc, ho, (Option.some.inj h).symm⟩
    · cases h
  · cases h

theorem Cluster.step_commit {c : ℕ} (h : k.step place calls (.commit c) = some k') :
    ∃ cl, k.claims c = some cl ∧ k' = k.setOffset cl := by
  simp only [Cluster.step] at h
  split at h
  · next cl hc => exact ⟨cl, hc, (Option.some.inj h).symm⟩
  · cases h

theorem Cluster.step_pool {op : Op} (h : k.step place calls op = some k') :
    k'.pool = k.pool ∨ ∃ a, (system calls).step k.pool a = some k'.pool := by
  cases op with
  | act a =>
    obtain ⟨-, s, hs, rfl⟩ := step_act h
    exact .inr ⟨a, hs⟩
  | claim c g p =>
    obtain ⟨-, rfl⟩ := step_claim h
    exact .inl rfl
  | deliver c t =>
    obtain ⟨g, p, n, m, s, -, -, -, hs, rfl⟩ := step_deliver h
    exact .inr ⟨.start t, hs⟩
  | advance c =>
    obtain ⟨g, p, n, t, -, -, rfl⟩ := step_advance h
    exact .inl rfl
  | leave c =>
    obtain rfl := Option.some.inj h
    exact .inl rfl
  | commit c =>
    obtain ⟨cl, -, rfl⟩ := step_commit h
    exact .inl rfl

/-- The pool of a cluster runs as the system does. -/
theorem Cluster.reach_pool {w : World} (h : Steps (Cluster.step place calls) (.fresh w) k) :
    (system calls).Reach (fun _ _ _ => True) (Pool.fresh w) k.pool := by
  induction h with
  | refl => exact .refl
  | tail _ hs ih =>
    rcases Cluster.step_pool hs with he | ⟨a, ha⟩
    · rw [he]
      exact ih
    · exact .tail ih ha trivial

theorem step_log {s s' : State} {a : Act Choice} (h : (system calls).step s a = some s') :
    s.world.log <+: s'.world.log := by
  cases a with
  | start t =>
    obtain ⟨-, -, rfl⟩ := Machine.step_start h
    exact List.prefix_rfl
  | run t ch =>
    obtain ⟨c, k, r, v, -, hex, rfl⟩ := Machine.step_run h
    exact (exec_moves hex).log.le
  | crash t =>
    obtain ⟨c, k, -, rfl⟩ := Machine.step_crash h
    exact (abort_moves t _).log.le

end Steps

section Handled

variable (place : String → String → ℕ) (calls : ℕ → Call)

/-- A round of the group on the message has returned without an error. -/
def Handled (s : State) (g : Group) (m : Message) : Prop :=
  ∃ t, calls t = g.call m ∧ (s.threads t).result? = some (.handled (.ok ()))

def HandledTo (s : State) (g : Group) (p : Partition) (n : ℕ) : Prop :=
  ∀ o < n, ∃ m, (s.world.partition place p)[o]? = some m ∧ Handled calls s g m

/-- Offsets that are committed or that a claim has reached have been handled; a round is on
the message at its claim's offset; whoever handles a message came after all before it. -/
structure Cluster.Ok (k : Cluster) : Prop where
  committed : ∀ g p, HandledTo place calls k.pool g p (k.committed g p)
  claims : ∀ c cl, k.claims c = some cl → HandledTo place calls k.pool cl.group cl.partition cl.next
  rounds : ∀ c cl t, k.claims c = some cl → cl.round = some t → ∃ m,
    (k.pool.world.partition place cl.partition)[cl.next]? = some m ∧ calls t = cl.group.call m
  started : ∀ t (g : Group) m, calls t = g.call m → k.pool.threads t ≠ .idle → ∃ p o,
    (k.pool.world.partition place p)[o]? = some m ∧ HandledTo place calls k.pool g p o

variable {place calls} {s s' : State} {g : Group} {p : Partition} {n : ℕ} {m : Message}

theorem getElem?_partition {w w' : World} (h : w.log <+: w'.log)
    (hm : (w.partition place p)[n]? = some m) : (w'.partition place p)[n]? = some m := by
  obtain ⟨l, hl⟩ : w.partition place p <+: w'.partition place p := (h.map _).filter _
  rw [← hl, List.getElem?_append_left (List.getElem?_eq_some_iff.mp hm).1]
  exact hm

theorem HandledTo.succ (h : HandledTo place calls s g p n)
    (hm : (s.world.partition place p)[n]? = some m) (hh : Handled calls s g m) :
    HandledTo place calls s g p (n + 1) := by
  intro o ho
  by_cases hn : o = n
  · subst hn
    exact ⟨m, hm, hh⟩
  · exact h o (by omega)

theorem HandledTo.le_length (h : HandledTo place calls s g p n) :
    n ≤ (s.world.partition place p).length := by
  by_contra hlt
  obtain ⟨m, hm, -⟩ := h (s.world.partition place p).length (by omega)
  simp at hm

theorem HandledTo.handled (h : HandledTo place calls s g p n) {o : ℕ} (ho : o < n)
    (hm : (s.world.partition place p)[o]? = some m) : Handled calls s g m := by
  obtain ⟨m', hm', hh⟩ := h o ho
  obtain rfl := Option.some.inj (hm.symm.trans hm')
  exact hh

theorem mem_partition {w : World} : m ∈ w.partition place p ↔
    m ∈ w.log.map (·.2) ∧ m.topic = p.topic ∧ place m.topic m.key = p.number := by
  simp [World.partition, List.mem_filter]

theorem partition_unique {w : World} {p' : Partition} (hm : m ∈ w.partition place p)
    (hm' : m ∈ w.partition place p') : p = p' := by
  obtain ⟨-, ht, hn⟩ := mem_partition.mp hm
  obtain ⟨-, ht', hn'⟩ := mem_partition.mp hm'
  cases p
  cases p'
  simp_all

theorem Cluster.Ok.fresh {w : World} : Cluster.Ok place calls (.fresh w) where
  committed _ _ o ho := by cases ho
  claims _ _ h := by cases h
  rounds _ _ _ h := by cases h
  started _ _ _ _ hi := absurd rfl hi

variable {k k' : Cluster}

theorem Cluster.setClaim_eq_some {c d : ℕ} {cl : Option Claim} {cl' : Claim}
    (h : (k.setClaim c cl).claims d = some cl') : cl = some cl' ∨ k.claims d = some cl' := by
  simp only [Cluster.setClaim] at h
  split at h
  · exact .inl h
  · exact .inr h

theorem Cluster.Ok.setClaim (h : k.Ok place calls) {c : ℕ} {cl : Option Claim}
    (hn : ∀ x, cl = some x → HandledTo place calls k.pool x.group x.partition x.next)
    (hr : ∀ x t, cl = some x → x.round = some t → ∃ m,
      (k.pool.world.partition place x.partition)[x.next]? = some m ∧ calls t = x.group.call m) :
    (k.setClaim c cl).Ok place calls where
  committed := h.committed
  claims d x hd := by
    rcases Cluster.setClaim_eq_some hd with he | he
    · exact hn x he
    · exact h.claims d x he
  rounds d x t hd ht := by
    rcases Cluster.setClaim_eq_some hd with he | he
    · exact hr x t he ht
    · exact h.rounds d x t he ht
  started := h.started

variable [Platform]

theorem HandledTo.step {a : Act Choice} (hs : (system calls).step s a = some s')
    (h : HandledTo place calls s g p n) : HandledTo place calls s' g p n := by
  intro o ho
  obtain ⟨m, hm, t, ht, hr⟩ := h o ho
  exact ⟨m, getElem?_partition (step_log hs) hm, t, ht, Machine.step_result hs hr⟩

theorem Cluster.Ok.step (h : k.Ok place calls) {a : Act Choice}
    (hs : (system calls).step k.pool a = some s')
    (hstart : ∀ t g m, calls t = Group.call m g → s'.threads t ≠ .idle →
      k.pool.threads t ≠ .idle ∨ ∃ p o, (s'.world.partition place p)[o]? = some m ∧
        HandledTo place calls k.pool g p o) :
    Cluster.Ok place calls { k with pool := s' } where
  committed g p := (h.committed g p).step hs
  claims c cl hc := (h.claims c cl hc).step hs
  rounds c cl t hc ht := by
    obtain ⟨m, hm, hcall⟩ := h.rounds c cl t hc ht
    exact ⟨m, getElem?_partition (step_log hs) hm, hcall⟩
  started t g m hcall hi := by
    rcases hstart t g m hcall hi with hi | ⟨p, o, hm, ho⟩
    · obtain ⟨p, o, hm, ho⟩ := h.started t g m hcall hi
      exact ⟨p, o, getElem?_partition (step_log hs) hm, ho.step hs⟩
    · exact ⟨p, o, hm, ho.step hs⟩

theorem Cluster.Ok.next (h : k.Ok place calls) {op : Op} (hstep : k.step place calls op = some k') :
    k'.Ok place calls := by
  cases op with
  | act a =>
    obtain ⟨hadm, s, hs, rfl⟩ := step_act hstep
    refine h.step hs fun t g m hcall hi => ?_
    rcases Machine.step_wakes hs hi with hi | rfl
    · exact .inl hi
    · simp [admits, hcall, g.consumes_call m] at hadm
  | claim c g p =>
    obtain ⟨-, rfl⟩ := step_claim hstep
    apply h.setClaim
    · rintro x ⟨⟩
      exact h.committed g p
    · rintro x t ⟨⟩ ht
      cases ht
  | deliver c t =>
    obtain ⟨g, p, n, m, s, hc, hm, hcall, hs, rfl⟩ := step_deliver hstep
    have hclaim := h.claims c _ hc
    have hm' := getElem?_partition (step_log hs) hm
    have hok := h.step hs fun u g' m' hcall' hi => by
      rcases Machine.step_wakes hs hi with hi | he
      · exact .inl hi
      · -- the process that starts is the round of this claim
        cases he
        obtain ⟨rfl, rfl⟩ := Group.call_inj (hcall.symm.trans hcall')
        exact .inr ⟨p, n, hm', hclaim⟩
    apply hok.setClaim
    · rintro x ⟨⟩
      exact hclaim.step hs
    · rintro x u ⟨⟩ hu
      cases hu
      exact ⟨m, hm', hcall⟩
  | advance c =>
    obtain ⟨g, p, n, t, hc, hr, rfl⟩ := step_advance hstep
    obtain ⟨m, hm, hcall⟩ := h.rounds c _ t hc rfl
    apply h.setClaim
    · rintro x ⟨⟩
      exact (h.claims c _ hc).succ hm ⟨t, hcall, hr⟩
    · rintro x u ⟨⟩ hu
      cases hu
  | leave c =>
    obtain rfl := Option.some.inj hstep
    apply h.setClaim
    · rintro x ⟨⟩
    · rintro x u ⟨⟩
  | commit c =>
    obtain ⟨cl, hc, rfl⟩ := step_commit hstep
    refine ⟨fun g p => ?_, h.claims, h.rounds, h.started⟩
    simp only [Cluster.setOffset]
    split
    · next he =>
      obtain ⟨rfl, rfl⟩ := he
      exact h.claims c cl hc
    · exact h.committed g p

theorem Cluster.ok {w : World} (h : Steps (Cluster.step place calls) (.fresh w) k) :
    k.Ok place calls :=
  h.induct .fresh fun _ _ _ _ ih hs => ih.next hs

end Handled

/-- What the handling of a message leaves in the tables, unless its payload is skipped. -/
def Group.Done [Platform] (d : DB) (m : Message) : Group → Prop
  | .settlement => ∀ evt, m.value.unmarshalSessionClosed = some evt →
      d.streamSettlements evt.liveSessionID ≠ none ∧ d.reconciliations evt.liveSessionID ≠ none
  | .leaderboard => m.value.unmarshalGiftAccepted ≠ none → d.Recorded leaderboardConsumer m
  | .points => pointsApply m (extractEventID m) ≠ none → d.Recorded pointsConsumer m

section Effects

variable [Platform] {calls : ℕ → Call} {w : World} {s : State} {t : ℕ} {m : Message}

theorem leaderboard_after (m : Message) : (Call.leaderboard m).program.After
    (fun c => ∃ md, c = .mark ⟨leaderboardGroup, m, md⟩ ∧ (md = "applied" ∨
      extractEventID m = 0 ∨ m.value.unmarshalGiftAccepted = none))
    (· = .handled (.ok ())) := by
  change Prog.After _ _ ((leaderboardHandle m).bind _)
  unfold leaderboardHandle
  dsimp only
  split
  · next hid => exact .inl ⟨_, rfl, .inr (.inl hid)⟩
  split
  · next hnone => exact .inl ⟨_, rfl, .inr (.inr hnone)⟩
  · rw [Prog.bind_bind]
    apply Prog.After.bind
    rintro (e | ⟨⟩)
    · exact fun h => by cases h
    · exact .inl ⟨_, rfl, .inl rfl⟩

theorem exec_marked {u : ℕ} {c : Cmd} {ch : Choice} {v v' : World} {r : c.Resp}
    (h : World.exec u c ch v = some (r, v')) : v.marked <+: v'.marked :=
  (exec_moves h).marked.le

theorem reach_leaderboard_done (hs : Start w)
    (h : (system calls).Reach (fun _ _ _ => True) (Pool.fresh w) s) (hc : calls t = .leaderboard m)
    (ho : (s.threads t).result? = some (.handled (.ok ()))) :
    Group.Done s.world.db m .leaderboard := by
  intro hsome
  obtain ⟨md, hmem, hmd⟩ := h.after (t := t) (A := (· = .handled (.ok ())))
    (D := fun v => ∃ md, (t, ⟨leaderboardGroup, m, md⟩) ∈ v.marked ∧ (md = "applied" ∨
      extractEventID m = 0 ∨ m.value.unmarshalGiftAccepted = none))
    (by change Prog.After _ _ (calls t).program; rw [hc]; exact leaderboard_after m)
    (by
      rintro c ch v r v' ⟨md, rfl, hmd⟩ hex
      cases hex
      exact ⟨md, List.mem_append_right _ (List.mem_singleton_self _), hmd⟩)
    (fun hex ⟨md, hm, hmd⟩ => ⟨md, (exec_marked hex).subset hm, hmd⟩) (fun hd => hd) ho rfl
  have hd := reach_delivery hs h
  have hi := (reach_good (.any calls w) hs Env.any_allows h).1
  have hmarks : (calls t).Marks s.world.db ⟨leaderboardGroup, m, md⟩ := hd.marked _ hmem
  rw [hc] at hmarks
  rcases hmd with happ | hzero | hnone
  · exact hmarks.2.2.2 happ
  · obtain ⟨row, hrow, -, hid⟩ := hi.row_of_message
      (hd.started t m (by rw [hc]; rfl) (hd.markers _ hmem))
    have hpos := (hi.engine.below.outboxEvents row hrow).1
    omega
  · exact absurd hnone hsome

theorem reach_points_done (hs : Start w)
    (h : (system calls).Reach (fun _ _ _ => True) (Pool.fresh w) s) (hc : calls t = .points m)
    (ho : (s.threads t).result? = some (.handled (.ok ()))) : Group.Done s.world.db m .points := by
  intro hsome
  have hg := reach_good (.any calls w) hs Env.any_allows h
  have hfin := hg.result ho
  rw [show (Env.any calls w).calls t = .points m from hc] at hfin
  cases hfin with
  | points hp =>
    rcases hp with hzero | hnone | hrec
    · have hlog := (reach_delivery hs h).started t m (by rw [hc]; rfl) fun hidle => by
        rw [hidle] at ho
        cases ho
      obtain ⟨row, hrow, -, hid⟩ := hg.1.row_of_message hlog
      have hpos := (hg.1.engine.below.outboxEvents row hrow).1
      omega
    · exact absurd hnone hsome
    · exact hrec

section Settlement

variable {𝓔 : Env}

theorem safe_settlementHandle_rows (hc : 𝓔.calls t = .settlement m) (hi : Inv 𝓔 w)
    (htopic : m.topic = sessionClosedTopic) (hm : m ∈ w.log.map (·.2))
    (hfresh : w.store.committedBy t = [] ∧ w.aofBy t = []) :
    Safe 𝓔.logic t (fun r v => r = .ok () → ∀ evt, m.value.unmarshalSessionClosed = some evt →
      ∃ resp, ShowsRows 𝓔 evt.liveSessionID resp v) (settlementHandle m) w := by
  have hdead : ∀ v, Dead 𝓔 t v := fun v => by
    unfold Dead
    rw [hc]
    trivial
  have hmark : ∀ {metadata v} {Q : Except Err Unit → World → Prop}, metadata ≠ "missing_event_id" →
      (∀ u, 𝓔.Rely t v u → Inv 𝓔 u → Q (.ok ()) u) →
      Safe 𝓔.logic t Q (markDone settlementGroup metadata m) v := fun {_ _ _} hne hq =>
    safe_markDone (fun v _ _ => hdead v) (fun u _ _ => by rw [hc]; exact ⟨rfl, rfl, hne⟩) hq
  unfold settlementHandle
  split
  · next hnone =>
    apply hmark (by decide)
    rintro u - - - evt hevt
    rw [hnone] at hevt
    cases hevt
  · next evt hevt =>
    refine Safe.bind (Safe.mono (safe_settle (by rw [hc]; rfl) hdead (fun h p hp => ?_) hfresh)
      fun r v _ hpost => ?_)
    · rw [hc]
      refine .settledBy p htopic hevt ((dbAt_grows hp).message ?_)
      rw [← hi.db_eq]
      exact hi.delivered hm
    · cases r with
      | error e =>
        rintro u - - he
        cases he
      | ok resp =>
        apply hmark (by decide)
        rintro u hu - - evt' hevt'
        obtain rfl := Option.some.inj (hevt.symm.trans hevt')
        exact ⟨resp, (hpost resp rfl).mono hu.binlog⟩

theorem settlementRows_applyAll {d : DB} {id : ℕ} (ws : List Write)
    (h : d.streamSettlements id ≠ none ∧ d.reconciliations id ≠ none) :
    (applyAll ws d).streamSettlements id ≠ none ∧ (applyAll ws d).reconciliations id ≠ none := by
  induction ws generalizing d with
  | nil => exact h
  | cons x ws ih =>
    rw [applyAll_cons]
    apply ih
    cases x with
    | settlement i r =>
      simp only [layout_apply, Write.apply, Function.update_apply]
      split
      · exact ⟨Option.some_ne_none r, h.2⟩
      · exact h
    | reconciliation i r =>
      simp only [layout_apply, Write.apply, Function.update_apply]
      split
      · exact ⟨h.1, Option.some_ne_none r⟩
      · exact h
    | _ => exact h

theorem settlementRows_dbAt {d : DB} {id : ℕ} {h h' : History} (hp : h <+: h')
    (hrows : (dbAt d h).streamSettlements id ≠ none ∧ (dbAt d h).reconciliations id ≠ none) :
    (dbAt d h').streamSettlements id ≠ none ∧ (dbAt d h').reconciliations id ≠ none := by
  obtain ⟨l, rfl⟩ := hp
  rw [dbAt_append]
  generalize dbAt d h = d' at hrows ⊢
  induction l generalizing d' with
  | nil => exact hrows
  | cons e l ih => exact ih _ (settlementRows_applyAll e.2 hrows)

theorem reach_settlement_done (hs : Start w)
    (h : (system calls).Reach (fun _ _ _ => True) (Pool.fresh w) s) (hc : calls t = .settlement m)
    (ho : (s.threads t).result? = some (.handled (.ok ()))) :
    Group.Done s.world.db m .settlement := by
  have hS := (Env.any calls w).sound hs (Env.any_allows (K := fun _ _ _ => True))
  -- the same logic with what a settlement round has seen as its postcondition
  have hrows := hS.of_post (Q := fun u o v => calls u = .settlement m → o = .handled (.ok ()) →
    ∀ evt, m.value.unmarshalSessionClosed = some evt →
      ∃ resp, ShowsRows (.any calls w) evt.liveSessionID resp v) fun {u v} hi hf hready hsafe => by
    by_cases hu : calls u = .settlement m
    · change (calls u).ready v = true at hready
      change Safe _ _ _ (calls u).program v
      rw [hu] at hready ⊢
      simp only [Call.ready, decide_eq_true_eq] at hready
      refine Safe.bind (Safe.mono (Safe.keep (safe_settlementHandle_rows hu hi hready.1 hready.2
        ⟨hf.committed, hf.pushed⟩)) fun r y _ hpost z hz hiz _ he => ?_)
      exact hpost z hz hiz (Outcome.handled.inj he)
    · exact Safe.mono hsafe fun _ _ _ _ hcall => absurd hcall hu
  intro evt hevt
  obtain ⟨resp, u, row, check, hi, hpre, hrow, hcheck, -⟩ :=
    (hrows.reach hs.inv hs.fresh h).result ho hc rfl evt hevt
  rw [(reach_legal hs h).2]
  refine settlementRows_dbAt hpre ?_
  have hu : u.db = dbAt w.db u.store.binlog := hi.db_eq
  rw [← hu, hrow, hcheck]
  exact ⟨Option.some_ne_none row, Option.some_ne_none check⟩

end Settlement

/-- A handled message has left its traces. -/
theorem reach_done (hs : Start w) (h : (system calls).Reach (fun _ _ _ => True) (Pool.fresh w) s)
    {g : Group} (hh : Handled calls s g m) : g.Done s.world.db m := by
  obtain ⟨t, hc, ho⟩ := hh
  cases g with
  | settlement => exact reach_settlement_done hs h hc ho
  | leaderboard => exact reach_leaderboard_done hs h hc ho
  | points => exact reach_points_done hs h hc ho

end Effects

end LiveRevenue
