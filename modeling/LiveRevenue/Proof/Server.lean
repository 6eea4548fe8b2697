import LiveRevenue.Api.Server
import LiveRevenue.Proof.Wire

/-! # Runs of the HTTP server

What one step of the server does, that its runs are runs of the system, and what holds of
the requests it has taken and answered. A request is answered from the result of the
process that serves it, and a process that serves a request without a call never starts.
-/

namespace LiveRevenue

open Transact

def Serves (reqs : ℕ → Option HttpRequest) (t : ℕ) (r : HttpRequest) (route : Route) : Prop :=
  reqs t = some r ∧ mux r.path = some route

theorem Serves.unique {reqs : ℕ → Option HttpRequest} {t : ℕ} {r r' : HttpRequest}
    {route route' : Route} (h : Serves reqs t r route) (h' : Serves reqs t r' route') :
    r = r' ∧ route = route' := by
  obtain rfl := Option.some.inj (h.1.symm.trans h'.1)
  exact ⟨rfl, Option.some.inj (h.2.symm.trans h'.2)⟩

namespace Front

variable [Platform] {reqs : ℕ → Option HttpRequest} {calls : ℕ → Call} {f f' : Front} {t : ℕ}

section Steps

theorem step_act {a : Act Choice} (h : f.step reqs calls (.act a) = some f') : ∃ s,
    (system calls).step f.pool a = some s ∧ f' = { f with pool := s } ∧
    ∀ t, a = .start t → reqs t = none := by
  simp only [step] at h
  split at h
  · next hok =>
    obtain ⟨s, hs, rfl⟩ := Option.map_eq_some_iff.mp h
    refine ⟨s, hs, rfl, ?_⟩
    rintro t rfl
    exact Option.isNone_iff_eq_none.mp hok
  · cases h

theorem step_arrive (h : f.step reqs calls (.arrive t) = some f') : ∃ r route s,
    Serves reqs t r route ∧ t ∉ f.arrived.map (·.1) ∧ f' = ({ f with pool := s }).receive t r ∧
    ((∃ c, route.handle r = .call c ∧ calls t = c ∧
      (system calls).step f.pool (.start t) = some s) ∨
      ((∀ c, route.handle r ≠ .call c) ∧ s = f.pool)) := by
  simp only [step] at h
  split at h
  · cases h
  next r hr =>
  split at h
  · cases h
  next route hroute =>
  split at h
  · cases h
  next hnew =>
  split at h
  · next c hc =>
    split at h
    · next hcall =>
      obtain ⟨s, hs, rfl⟩ := Option.map_eq_some_iff.mp h
      exact ⟨r, route, s, ⟨hr, hroute⟩, hnew, rfl, .inl ⟨c, hc, hcall, hs⟩⟩
    · cases h
  · next hc =>
    cases h
    exact ⟨r, route, f.pool, ⟨hr, hroute⟩, hnew, rfl, .inr ⟨hc, rfl⟩⟩

theorem step_answer {redisUp : Bool} (h : f.step reqs calls (.answer t redisUp) = some f') :
    ∃ r route rep, Serves reqs t r route ∧ t ∈ f.arrived.map (·.1) ∧ t ∉ f.replies.map (·.1) ∧
      f.reply? t redisUp (route.handle r) = some rep ∧ f' = f.count t route r.method rep := by
  simp only [step] at h
  split at h
  · cases h
  next r hr =>
  split at h
  · cases h
  next route hroute =>
  split at h
  · cases h
  next hnew =>
  obtain ⟨rep, hrep, rfl⟩ := Option.map_eq_some_iff.mp h
  rw [not_or, not_not] at hnew
  exact ⟨r, route, rep, ⟨hr, hroute⟩, hnew.1, hnew.2, hrep, rfl⟩

theorem step_pool {v : Visit} (h : f.step reqs calls v = some f') :
    f'.pool = f.pool ∨ ∃ a, (system calls).step f.pool a = some f'.pool := by
  cases v with
  | act a =>
    obtain ⟨s, hs, rfl, -⟩ := step_act h
    exact .inr ⟨a, hs⟩
  | arrive t =>
    obtain ⟨r, route, s, -, -, rfl, ⟨c, -, -, hs⟩ | ⟨-, rfl⟩⟩ := step_arrive h
    · exact .inr ⟨_, hs⟩
    · exact .inl rfl
  | answer t redisUp =>
    obtain ⟨r, route, rep, -, -, -, -, rfl⟩ := step_answer h
    exact .inl rfl

theorem reach_pool {w : World} (h : Steps (step reqs calls) (fresh w) f) :
    (system calls).Reach (fun _ _ _ => True) (Pool.fresh w) f.pool := by
  refine h.induct (P := fun f => (system calls).Reach (fun _ _ _ => True) (Pool.fresh w) f.pool)
    .refl ?_
  intro f v f' _ ih hs
  rcases step_pool hs with he | ⟨a, ha⟩
  · rwa [he]
  · exact ih.tail ha trivial

end Steps

structure Ok (reqs : ℕ → Option HttpRequest) (calls : ℕ → Call) (f : Front) : Prop where
  answered : ∀ t rep, (t, rep) ∈ f.replies → ∃ r route, Serves reqs t r route ∧
    (∀ rep', route.handle r = .reply rep' → rep = rep') ∧
    ∀ c, route.handle r = .call c → calls t = c ∧ ∃ o, (f.pool.threads t).result? = some o ∧
      rep = c.reply o
  started : ∀ t r, reqs t = some r → f.pool.threads t ≠ .idle → ∃ route c, Serves reqs t r route ∧
    route.handle r = .call c ∧ calls t = c

omit [Platform] in
theorem Ok.fresh (w : World) : Ok reqs calls (Front.fresh w) := by
  constructor
  · rintro t rep ⟨⟩
  · intro t r _ h
    exact absurd rfl h

theorem Ok.pool (h : f.Ok reqs calls) {s : State} {a : Act Choice}
    (hs : (system calls).step f.pool a = some s)
    (ha : ∀ t r, a = .start t → reqs t = some r → ∃ route c, Serves reqs t r route ∧
      route.handle r = .call c ∧ calls t = c) : Ok reqs calls { f with pool := s } := by
  constructor
  · intro t rep hrep
    obtain ⟨r, route, hserves, hreply, hcall⟩ := h.answered t rep hrep
    refine ⟨r, route, hserves, hreply, fun c hc => ?_⟩
    obtain ⟨he, o, ho, rfl⟩ := hcall c hc
    exact ⟨he, o, Machine.step_result hs ho, rfl⟩
  · intro t r hr hne
    rcases Machine.step_wakes hs hne with hne | he
    · exact h.started t r hr hne
    · exact ha t r he hr

theorem Ok.next {v : Visit} (h : f.Ok reqs calls) (hstep : f.step reqs calls v = some f') :
    f'.Ok reqs calls := by
  cases v with
  | act a =>
    obtain ⟨s, hs, rfl, hfree⟩ := step_act hstep
    apply h.pool hs
    rintro t r rfl hr
    rw [hfree t rfl] at hr
    cases hr
  | arrive t =>
    obtain ⟨r, route, s, hserves, -, rfl, ⟨c, hc, hcall, hs⟩ | ⟨-, rfl⟩⟩ := step_arrive hstep
    · have hok := h.pool hs fun t' r' ht hr' => by
        cases ht
        obtain rfl := Option.some.inj (hserves.1.symm.trans hr')
        exact ⟨route, c, hserves, hc, hcall⟩
      exact ⟨hok.answered, hok.started⟩
    · exact ⟨h.answered, h.started⟩
  | answer t redisUp =>
    obtain ⟨r, route, rep, hserves, -, -, hrep, rfl⟩ := step_answer hstep
    refine ⟨fun u rep' hmem => ?_, h.started⟩
    rcases List.mem_append.mp hmem with hmem | hmem
    · exact h.answered u rep' hmem
    · cases List.mem_singleton.mp hmem
      refine ⟨r, route, hserves, fun rep' he => ?_, fun c hc => ?_⟩
      · rw [he] at hrep
        exact (Option.some.inj hrep).symm
      · rw [hc] at hrep
        obtain ⟨o, ho, rfl⟩ := Option.map_eq_some_iff.mp hrep
        have hlive : f.pool.threads t ≠ .idle := by
          intro hidle
          rw [hidle] at ho
          cases ho
        obtain ⟨route', c', hserves', hc', hcall⟩ := h.started t r hserves.1 hlive
        obtain ⟨-, rfl⟩ := hserves.unique hserves'
        obtain rfl := Handling.call.inj (hc.symm.trans hc')
        exact ⟨hcall, o, ho, rfl⟩

theorem ok {w : World} (h : Steps (step reqs calls) (Front.fresh w) f) : f.Ok reqs calls :=
  h.induct (.fresh w) fun _ _ _ _ hok hs => hok.next hs

section Counting

def labels (reqs : ℕ → Option HttpRequest) (x : ℕ × Reply) : Option (Route × String × ℕ) :=
  (reqs x.1).bind fun r => (mux r.path).map fun route => (route, r.method, x.2.status)

def unnamed (reqs : ℕ → Option HttpRequest) (f : Front) : List (ℕ × String) :=
  f.arrived.filter fun x => (reqs x.1).any fun r => r.requestID = ""

structure Counted (reqs : ℕ → Option HttpRequest) (f : Front) : Prop where
  once : (f.replies.map (·.1)).Nodup
  requests : ∀ k, f.requestsTotal k = f.replies.countP fun x => labels reqs x = some k
  rejects : ∀ route status, f.rejectsTotal (route, status) = f.replies.countP fun x =>
    400 ≤ status ∧ (labels reqs x).map (fun k => (k.1, k.2.2)) = some (route, status)
  counter : f.reqCounter = UInt64.ofNat (f.unnamed reqs).length
  generated : (f.unnamed reqs).map (·.2) =
    (List.range (f.unnamed reqs).length).map fun i => requestID (UInt64.ofNat (i + 1))

omit [Platform] in
theorem Serves.labels {r : HttpRequest} {route : Route} (h : Serves reqs t r route) (rep : Reply) :
    Front.labels reqs (t, rep) = some (route, r.method, rep.status) := by
  simp [Front.labels, h.1, h.2]

omit [Platform] in
theorem Counted.answer (h : f.Counted reqs) {r : HttpRequest} {route : Route}
    (hserves : Serves reqs t r route) (hnew : t ∉ f.replies.map (·.1)) (rep : Reply) :
    (f.count t route r.method rep).Counted reqs := by
  have hlabels := Serves.labels hserves rep
  refine ⟨?_, fun k => ?_, fun route' status => ?_, h.counter, h.generated⟩
  · simp only [count, List.map_append, List.map_singleton]
    exact h.once.append (List.nodup_singleton t) (List.disjoint_singleton.mpr hnew)
  · simp only [count, List.countP_append, List.countP_singleton, hlabels, h.requests k,
      Option.some.injEq, decide_eq_true_eq]
    congr 2
    exact propext eq_comm
  · simp only [count, List.countP_append, List.countP_singleton, hlabels, h.rejects,
      Option.map_some, Option.some.injEq, Prod.mk.injEq, decide_eq_true_eq]
    congr 2
    apply propext
    constructor
    · rintro ⟨h400, rfl, rfl⟩
      exact ⟨h400, rfl, rfl⟩
    · rintro ⟨h400, rfl, rfl⟩
      exact ⟨h400, rfl, rfl⟩

omit [Platform] in
theorem Counted.arrive (h : f.Counted reqs) {r : HttpRequest} (hr : reqs t = some r) :
    (f.receive t r).Counted reqs := by
  refine ⟨h.once, h.requests, h.rejects, ?_, ?_⟩
  · by_cases hid : r.requestID = ""
    · simp [receive, unnamed, List.filter_append, hr, hid, h.counter]
    · simp [receive, unnamed, List.filter_append, hr, hid, h.counter]
  · by_cases hid : r.requestID = ""
    · have hg := h.generated
      have hc := h.counter
      simp only [unnamed] at hg hc
      simp [receive, unnamed, List.filter_append, hr, hid, hc, hg, List.range_succ]
    · have hg := h.generated
      simp only [unnamed] at hg
      simp [receive, unnamed, List.filter_append, hr, hid, hg]

theorem counted {w : World} (h : Steps (step reqs calls) (Front.fresh w) f) : f.Counted reqs := by
  refine h.induct (P := Counted reqs) ?_ ?_
  · constructor <;> simp [Front.fresh, unnamed]
  · intro f v f' _ hok hs
    cases v with
    | act a =>
      obtain ⟨s, -, rfl, -⟩ := step_act hs
      exact ⟨hok.once, hok.requests, hok.rejects, hok.counter, hok.generated⟩
    | arrive t =>
      obtain ⟨r, route, s, hserves, -, rfl, -⟩ := step_arrive hs
      have hok' : Counted reqs { f with pool := s } :=
        ⟨hok.once, hok.requests, hok.rejects, hok.counter, hok.generated⟩
      exact hok'.arrive hserves.1
    | answer t redisUp =>
      obtain ⟨r, route, rep, hserves, -, hnew, -, rfl⟩ := step_answer hs
      exact hok.answer hserves hnew rep

end Counting

end Front

end LiveRevenue
