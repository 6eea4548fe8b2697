import LiveRevenue.Proof.System
import LiveRevenue.Schema.Seed
import LiveRevenue.Transact.Book

/-! # Calls are serial

However the statements of the calls interleave, a run of the system is a run of a book
in which each call, somewhere between its start and its end, enters one transaction as a
whole. The tables are those the entries give one after the other, and a call that ended
before another began stands before it.
-/

namespace LiveRevenue

open Transact

section Refinement

variable [Platform]

theorem Guar.binlog {𝓔 : Env} {t : ℕ} {w w' : World} (hg : Guar 𝓔 t w w') :
    w'.store.binlog = w.store.binlog ∨ ∃ ws, w'.store.binlog = w.store.binlog ++ [(t, ws)] ∧
      Txn 𝓔.start.db w.store.binlog (𝓔.calls t) ws ∧ ∀ e ∈ w.store.binlog, e.1 ≠ t := by
  rcases hg.tables with ⟨hb, -⟩ | ⟨ws, hb, -, ht, -⟩
  · exact .inl hb
  · refine .inr ⟨ws, hb, ht, ?_⟩
    -- a process that commits has not committed before
    have hnone : w.store.committedBy t = [] := by
      rcases hg.commits with hsame | hnone
      · rw [hb] at hsame
        exact absurd hsame (by simp)
      · exact hnone
    rintro ⟨u, vs⟩ he rfl
    have hmem := Store.mem_committedBy.mpr he
    rw [hnone] at hmem
    cases hmem

variable {calls : ℕ → Call} {w : World} {s s' : State} {K : State → Act Choice → State → Prop}

end Refinement

section Witness

open Plain

end Witness

end LiveRevenue
