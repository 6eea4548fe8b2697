import LiveRevenue.Schema.Tables

/-! # What no write takes back

No statement deletes a row, reopens a session or touches users, matches and the
gift catalog. `DB.Grows` collects these facts; with the row locks they make the
tables an instance of the transactional store.
-/

namespace LiveRevenue

open Transact

def LiveSession.fixed (s : LiveSession) : ℕ × Option ℕ := (s.creatorID, s.campaignID)

structure DB.Grows (d d' : DB) : Prop where
  users : d'.users = d.users
  liveMatches : d'.liveMatches = d.liveMatches
  giftCatalog : d'.giftCatalog = d.giftCatalog
  sessionFixed : ∀ id, (d'.liveSessions id).map (·.fixed) = (d.liveSessions id).map (·.fixed)
  sessionClosed : ∀ id s, d.liveSessions id = some s → s.status = .closed →
    ∃ s', d'.liveSessions id = some s' ∧ s'.status = .closed
  walletTxs : d.walletTxs <+: d'.walletTxs
  walletEntries : d.walletEntries <+: d'.walletEntries
  rechargeRequests : d.rechargeRequests <+: d'.rechargeRequests
  giftOrders : d.giftOrders <+: d'.giftOrders
  outboxEvents : ∀ r ∈ d.outboxEvents, ∃ r' ∈ d'.outboxEvents, r'.inserted = r.inserted ∧
    (r.publishedAt ≠ none → r'.publishedAt ≠ none)
  consumerDedupe : d.consumerDedupe <+: d'.consumerDedupe
  fanPoints : d.fanPoints <+: d'.fanPoints
  campaignPoints : d.campaignPoints <+: d'.campaignPoints

namespace DB.Grows

variable {d d' d'' : DB}

theorem refl (d : DB) : d.Grows d where
  users := rfl
  liveMatches := rfl
  giftCatalog := rfl
  sessionFixed _ := rfl
  sessionClosed _ s hs hc := ⟨s, hs, hc⟩
  walletTxs := List.prefix_rfl
  walletEntries := List.prefix_rfl
  rechargeRequests := List.prefix_rfl
  giftOrders := List.prefix_rfl
  outboxEvents r hr := ⟨r, hr, rfl, id⟩
  consumerDedupe := List.prefix_rfl
  fanPoints := List.prefix_rfl
  campaignPoints := List.prefix_rfl

theorem trans (h : d.Grows d') (h' : d'.Grows d'') : d.Grows d'' where
  users := h'.users.trans h.users
  liveMatches := h'.liveMatches.trans h.liveMatches
  giftCatalog := h'.giftCatalog.trans h.giftCatalog
  sessionFixed id := (h'.sessionFixed id).trans (h.sessionFixed id)
  sessionClosed id s hs hc := by
    obtain ⟨s', hs', hc'⟩ := h.sessionClosed id s hs hc
    exact h'.sessionClosed id s' hs' hc'
  walletTxs := h.walletTxs.trans h'.walletTxs
  walletEntries := h.walletEntries.trans h'.walletEntries
  rechargeRequests := h.rechargeRequests.trans h'.rechargeRequests
  giftOrders := h.giftOrders.trans h'.giftOrders
  outboxEvents r hr := by
    obtain ⟨r', hr', he, hp⟩ := h.outboxEvents r hr
    obtain ⟨r'', hr'', he', hp'⟩ := h'.outboxEvents r' hr'
    exact ⟨r'', hr'', he'.trans he, hp' ∘ hp⟩
  consumerDedupe := h.consumerDedupe.trans h'.consumerDedupe
  fanPoints := h.fanPoints.trans h'.fanPoints
  campaignPoints := h.campaignPoints.trans h'.campaignPoints

theorem of_close (d : DB) (id at_ : ℕ) : d.Grows (Write.apply d (.closeSession id at_)) where
  __ := refl d
  sessionFixed i := by
    by_cases hi : i = id
    · subst hi
      simp only [Write.apply, Function.update_self, Option.map_map]
      rfl
    · simp only [Write.apply, Function.update_of_ne hi]
  sessionClosed i s hs hc := by
    by_cases hi : i = id
    · subst hi
      exact ⟨s.close at_, by simp [Write.apply, hs], rfl⟩
    · exact ⟨s, by simp [Write.apply, Function.update_of_ne hi, hs], hc⟩

theorem of_publish (d : DB) (id at_ : ℕ) : d.Grows (Write.apply d (.published id at_)) where
  __ := refl d
  outboxEvents r hr := by
    refine ⟨r.publish id at_, List.mem_map.mpr ⟨r, hr, rfl⟩, ?_, ?_⟩
    · unfold OutboxRow.publish OutboxRow.inserted
      split <;> rfl
    · unfold OutboxRow.publish
      split
      · exact fun _ => by simp
      · exact fun h => h

theorem apply (w : Write) (d : DB) : d.Grows (w.apply d) := by
  cases w with
  | closeSession id at_ => exact of_close d id at_
  | published id at_ => exact of_publish d id at_
  | walletTx r => exact { refl d with walletTxs := List.prefix_append _ _ }
  | walletEntry r => exact { refl d with walletEntries := List.prefix_append _ _ }
  | rechargeRequest r => exact { refl d with rechargeRequests := List.prefix_append _ _ }
  | giftOrder r => exact { refl d with giftOrders := List.prefix_append _ _ }
  | outbox r =>
    exact { refl d with
      outboxEvents := fun x hx => ⟨x, List.mem_append_left _ hx, rfl, fun h => h⟩ }
  | dedupe r => exact { refl d with consumerDedupe := List.prefix_append _ _ }
  | fanPoint r => exact { refl d with fanPoints := List.prefix_append _ _ }
  | campaignPoint r => exact { refl d with campaignPoints := List.prefix_append _ _ }
  | _ => exact { refl d with }

end DB.Grows

instance [Platform] : Layout DB Write Lock where
  apply w d := w.apply d
  locks w := w.locks
  Agree l d d' := l.Agree d d'
  Grows := DB.Grows
  agree_refl := Lock.agree_refl
  agree_trans := Lock.agree_trans
  agree_apply := Lock.agree_apply
  grows_refl := .refl
  grows_trans := .trans
  grows_apply := .apply

variable [Platform]

@[simp] theorem layout_apply (w : Write) (d : DB) : Layout.apply w d = w.apply d := rfl

theorem DB.Grows.applyAll (ws : List Write) (d : DB) : d.Grows (applyAll ws d) :=
  grows_applyAll ws d

end LiveRevenue
