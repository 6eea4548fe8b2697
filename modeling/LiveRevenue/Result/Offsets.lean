import LiveRevenue.Proof.Consumers
import LiveRevenue.Result.Poison

/-! # Committed offsets

No offset is committed past a message that has not been handled, whoever dies, fails or
takes over a partition in between. The price is that one event that cannot be applied
keeps everything behind it in its partition from being handled at all.
-/

namespace LiveRevenue

open Transact

section Stuck

variable {place : String → String → ℕ} {calls : ℕ → Call} {k : Cluster} {g : Group} {p : Partition}
  {m : Message}

/-- The group is stuck at offset `o`: nothing behind it is committed, reached or, unless it also
stands before it, handled by anyone. -/
structure Cluster.StuckAt (place : String → String → ℕ) (calls : ℕ → Call) (k : Cluster) (g : Group)
    (p : Partition) (o : ℕ) : Prop where
  committed : k.committed g p ≤ o
  claims : ∀ c cl, k.claims c = some cl → cl.group = g → cl.partition = p → cl.next ≤ o
  behind : ∀ m ∈ k.pool.world.partition place p,
    m ∉ (k.pool.world.partition place p).take (o + 1) →
    ∀ t, calls t = g.call m → k.pool.threads t = .idle

theorem Cluster.Ok.stuck (hok : k.Ok place calls) {o : ℕ}
    (hm : (k.pool.world.partition place p)[o]? = some m) (hn : ¬ Handled calls k.pool g m) :
    k.StuckAt place calls g p o := by
  have hle : ∀ {n}, HandledTo place calls k.pool g p n → n ≤ o := by
    intro n hto
    by_contra hlt
    exact hn (hto.handled (by omega) hm)
  constructor
  · exact hle (hok.committed g p)
  · rintro c cl hc rfl rfl
    exact hle (hok.claims c cl hc)
  · intro m' hm' hbehind t hc
    by_contra hi
    obtain ⟨p', o', hat, hto⟩ := hok.started t g m' hc hi
    obtain rfl := partition_unique hm' (List.mem_of_getElem? hat)
    refine hbehind (List.mem_of_getElem? (i := o') ?_)
    rw [List.getElem?_take_of_lt (by have := hle hto; omega)]
    exact hat

end Stuck

section General

variable [Platform] (place : String → String → ℕ) (calls : ℕ → Call)

/-- Committed offsets lie within their partitions, what is below them has left its traces, and
so has everything before a message that somebody is handling. -/
structure OffsetsApplied (k : Cluster) : Prop where
  within : ∀ g p, k.committed g p ≤ (k.pool.world.partition place p).length
  applied : ∀ g p (o : ℕ) m, o < k.committed g p → (k.pool.world.partition place p)[o]? = some m →
    g.Done k.pool.world.db m
  ordered : ∀ t (g : Group) m, calls t = g.call m → k.pool.threads t ≠ .idle → ∃ p, ∃ o : ℕ,
    (k.pool.world.partition place p)[o]? = some m ∧
    ∀ o' < o, ∀ m', (k.pool.world.partition place p)[o']? = some m' → g.Done k.pool.world.db m'

variable {place calls} {k : Cluster} {g : Group} {p : Partition} {n : ℕ} {m : Message} {w : World}

/-- Whatever fails: a group commits only what it has handled, and handles in order. -/
theorem committed_offsets_applied (place : String → String → ℕ) (calls : ℕ → Call) (hs : Start w)
    (h : Steps (Cluster.step place calls) (.fresh w) k) : OffsetsApplied place calls k := by
  have hok := Cluster.ok h
  have hreach := Cluster.reach_pool h
  constructor
  · intro g p
    exact (hok.committed g p).le_length
  · intro g p o m ho hm
    exact reach_done hs hreach ((hok.committed g p).handled ho hm)
  · intro t g m hc hi
    obtain ⟨p, o, hm, hto⟩ := hok.started t g m hc hi
    exact ⟨p, o, hm, fun o' ho' m' hm' => reach_done hs hreach (hto.handled ho' hm')⟩

/-- An event that the ledger cannot take and that is not past its cap stops the points of its
partition: no offset behind it is committed and no later event is ever credited. -/
theorem unappliable_event_blocks (place : String → String → ℕ) (calls : ℕ → Call) (hs : Start w)
    (hb : w.db.Blank) (h : Steps (Cluster.step place calls) (.fresh w) k) {o : ℕ}
    (hm : (k.pool.world.partition place p)[o]? = some m) {r : FanPoint} (hr : m.point = some r)
    (hpay : ¬ w.db.Payable r) (hcap : r.reason ≠ .gift →
      k.pool.world.db.fanPoints.countP r.alike < r.reason.cap) :
    k.StuckAt place calls .points p o ∧ ∀ m' ∈ k.pool.world.partition place p,
      m' ∉ (k.pool.world.partition place p).take (o + 1) →
      ∀ f ∈ k.pool.world.db.fanPoints, f.eventID ≠ extractEventID m' := by
  have hreach := Cluster.reach_pool h
  obtain ⟨hl, hd⟩ := reach_legal hs hreach
  have hlog : ∀ {x}, x ∈ k.pool.world.partition place p → x ∈ k.pool.world.log.map (·.2) :=
    fun hx => (mem_partition.mp hx).1
  have hn : ¬ Handled calls k.pool .points m := by
    intro hh
    have hrec := reach_done hs hreach hh (pointsApply_of_point hr _)
    rcases reach_recorded_payable hs hb hreach (hlog (List.mem_of_getElem? hm)) hrec hr with hx | hx
    · exact hpay hx
    · have := hcap hx.1
      omega
  have hstuck := (Cluster.ok h).stuck hm hn
  refine ⟨hstuck, fun m' hm' hbehind f hf hid => ?_⟩
  -- a ledger row has a dedupe row, and that a handler which has started
  have hrec : k.pool.world.db.Recorded pointsConsumer m' := by
    unfold DB.Recorded
    rw [hd] at hf ⊢
    exact hl.recorded_of_point hb (.inl ⟨f, hf, hid⟩)
  obtain ⟨t, x, ws, h₁, h₂, hbin, hc, -⟩ := reach_pointsApplied hs hb hreach (hlog hm') hrec
  have hmem : (t, .dedupe x :: ws) ∈ k.pool.world.store.binlog := by
    rw [hbin]
    exact List.mem_append_right _ List.mem_cons_self
  exact reach_not_idle hs hreach hmem (hstuck.behind m' hm' hbehind t hc)

end General

section Witness

open Plain

def onePartition : String → String → ℕ := fun _ _ => 0

/-- A second consumer takes the partition over while the first is still at work; both handle the
gift event and both commit. -/
theorem committed_offsets_applied_takeover : ∃ k : Cluster,
    k.committed .points ⟨giftAcceptedTopic, 0⟩ = 1 ∧ k.pool.world.db.fanPoints.length = 1 ∧
    OffsetsApplied onePartition giftAndPoints k := by
  obtain ⟨k, hk, hp⟩ := Steps.exists_of_runAll (f := Cluster.step onePartition giftAndPoints)
    (s := .fresh (World.boot migrated))
    (p := fun k => decide (k.committed .points ⟨giftAcceptedTopic, 0⟩ = 1 ∧
      k.pool.world.db.fanPoints.length = 1))
    ((launch 0 20 5 ++ launch 1 9 6).map Op.act ++
      [Op.claim 0 .points ⟨giftAcceptedTopic, 0⟩, Op.deliver 0 2] ++ (resume 2 3 7).map Op.act ++
      [Op.claim 1 .points ⟨giftAcceptedTopic, 0⟩, Op.deliver 1 3] ++
      (resume 3 2 7 ++ resume 2 5 7 ++ resume 3 4 8).map Op.act ++
      [Op.advance 0, Op.leave 0, Op.advance 1, Op.commit 1, Op.leave 1]) (by decide +kernel)
  obtain ⟨h1, h2⟩ := of_decide_eq_true hp
  exact ⟨k, h1, h2, committed_offsets_applied onePartition giftAndPoints
    (Start.boot rfl rfl rfl rfl) hk⟩

def commentOf (viewerID : ℕ) (eventID : String) : Message :=
  ⟨commentTopic, "9001", .comment ⟨"c", viewerID, 1001, 9001⟩, [("event_id", eventID)]⟩

def strangerFirst : ℕ → Call
  | 0 => .enqueueComment ⟨"c", 9999, 1001, 9001⟩
  | 1 => .enqueueComment ⟨"c", 2001, 1001, 9001⟩
  | 2 => .runOnce 100
  | 3 => .points (commentOf 9999 "1")
  | _ => .points (commentOf 2001 "2")

/-- The stranger's comment fails; the comment behind it is never counted. -/
theorem unappliable_event_blocks_comment : ∃ k : Cluster,
    k.pool.world.partition onePartition ⟨commentTopic, 0⟩ =
    [commentOf 9999 "1", commentOf 2001 "2"] ∧
    (k.pool.threads 3).result? = some (.handled (.error (.sql .foreignKey))) ∧
    k.StuckAt onePartition strangerFirst .points ⟨commentTopic, 0⟩ 0 ∧
    ∀ f ∈ k.pool.world.db.fanPoints, f.eventID ≠ extractEventID (commentOf 2001 "2") := by
  obtain ⟨k, hk, hp⟩ := Steps.exists_of_runAll (f := Cluster.step onePartition strangerFirst)
    (s := .fresh (World.boot migrated))
    (p := fun k => decide (k.pool.world.partition onePartition ⟨commentTopic, 0⟩ =
        [commentOf 9999 "1", commentOf 2001 "2"] ∧
      (k.pool.threads 3).result? = some (.handled (.error (.sql .foreignKey))) ∧
      k.pool.world.db.fanPoints = []))
    ((launch 0 2 4 ++ launch 1 2 4 ++ launch 2 9 5).map Op.act ++
      [Op.claim 0 .points ⟨commentTopic, 0⟩, Op.deliver 0 3] ++ (resume 3 6 6).map Op.act ++
      [Op.leave 0]) (by decide +kernel)
  obtain ⟨hpart, hres, hnone⟩ := of_decide_eq_true hp
  obtain ⟨hstuck, hbehind⟩ := unappliable_event_blocks onePartition strangerFirst
    (Start.boot rfl rfl rfl rfl) migrated_blank hk (p := ⟨commentTopic, 0⟩) (o := 0)
    (m := commentOf 9999 "1") (r := ⟨1, 9999, 1001, 9001, 1, .comment⟩)
    (by rw [hpart]; rfl) rfl (fun hx => hx.2.1 rfl) (by rw [hnone]; decide)
  refine ⟨k, hpart, hres, hstuck, hbehind (commentOf 2001 "2") ?_ ?_⟩
  · rw [hpart]
    decide
  · rw [hpart]
    decide

end Witness

end LiveRevenue
