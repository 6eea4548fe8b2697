import LiveRevenue.Wire

/-! # Reading back what was written

Each kind of field is read back from the value it is written as, and so is each struct
from its members, in whatever order the members come.
-/

namespace LiveRevenue

open Json

section Styles

theorem goStyle_reads : goStyle.Reads where
  escape := char_escapeWith fun c hc => by
    have hall : ∀ d ∈ ['<', '>', '&', '\u2028', '\u2029'], d.toNat < 65536 := by simp
    exact hall c (of_decide_eq_true hc)
  comma := ⟨[], rfl, rfl⟩
  colon := ⟨[], rfl, rfl⟩

theorem mysqlStyle_reads : mysqlStyle.Reads where
  escape := char_escapeWith fun c hc => by cases hc
  comma := ⟨[' '], rfl, rfl⟩
  colon := ⟨[' '], rfl, rfl⟩

def Tag.all : List Tag :=
  [txID, txType, actorUserID, requestID, deltaCoins, balanceAfter, eventType, giftOrderID, viewerID,
    creatorID, liveSessionID, campaignID, matchID, giftID, quantity, chargedCoins, matchPoints,
    diamondReward, rejectCode, eventID, closedAtMs, coins, paymentRef, sentAtMS, minutes]

theorem Tag.foldName_inj : Function.Injective fun t : Tag => foldName t.name := by
  have hnd : (Tag.all.map fun t => foldName t.name).Nodup := by decide +kernel
  intro t u h
  have hmem : ∀ x : Tag, x ∈ Tag.all := by
    intro x
    cases x <;> decide
  exact List.inj_on_of_nodup_map hnd (hmem t) (hmem u) h

end Styles

section Scalars

theorem parseUint_natural {n : ℕ} (h : n < 2 ^ 64) :
    parseUint (String.ofList (natural n)) = some n :=
  parseUint_toString h

theorem digits_natural (n : ℕ) :
    ¬ (natural n = [] ∨ (natural n).any (!·.isDigit) = true) ∧
      (natural n).foldl (fun n c => 10 * n + (c.toNat - 48)) 0 = n := by
  have hall : (natural n).any (!·.isDigit) = false := by
    refine List.any_eq_false.mpr fun c hc => ?_
    simp [isDigit_of_mem_natural hc]
  constructor
  · rw [hall]
    rintro (h | h)
    · exact Nat.toDigits_ne_nil h
    · cases h
  · exact Nat.ofDigitChars_ten_toDigits

theorem atoi_integer {i : ℤ} (h : fitsInt64 i = true) :
    atoi (String.ofList (integer i)) = some i := by
  rw [fitsInt64, Bool.and_eq_true, decide_eq_true_eq, decide_eq_true_eq] at h
  unfold integer
  split
  · next hi =>
    obtain ⟨hdigits, hval⟩ := digits_natural i.toNat
    have hint : ((i.toNat : ℕ) : ℤ) = i := Int.toNat_of_nonneg hi
    simp only [atoi, String.toList_ofList]
    split
    · next hd =>
      have hminus := isDigit_of_mem_natural (n := i.toNat) (c := '-') (by simp [hd])
      cases hminus
    · next hd =>
      have hplus := isDigit_of_mem_natural (n := i.toNat) (c := '+') (by simp [hd])
      cases hplus
    · simp only [hval, hint, Bool.false_eq_true, if_false]
      rw [if_neg hdigits, if_pos h]
  · next hi =>
    obtain ⟨hdigits, hval⟩ := digits_natural (-i).toNat
    have hint : (((-i).toNat : ℕ) : ℤ) = -i := Int.toNat_of_nonneg (by omega)
    simp only [atoi, String.toList_ofList, hval, hint, if_true, Int.neg_neg]
    rw [if_neg hdigits, if_pos h]

inductive IsField : Value → Prop where
  | text (s : String) : IsField (textValue s)
  | uint {n : ℕ} (h : n < 2 ^ 64) : IsField (uintValue n)
  | int {i : ℤ} (h : fitsInt64 i = true) : IsField (intValue i)

theorem IsField.isFlat {v : Value} (h : IsField v) : v.isFlat = true := by
  cases h with
  | text s => rfl
  | uint h => exact isFlat_natural _
  | int h => exact isFlat_integer _

theorem IsField.isColumnScalar {v : Value} (h : IsField v) : isColumnScalar v = true := by
  cases h with
  | text s => rfl
  | uint h => simp [LiveRevenue.isColumnScalar, uintValue, parseUint_natural h]
  | int h => simp [LiveRevenue.isColumnScalar, intValue, atoi_integer h]

@[simp] theorem readText_textValue (s a : String) : readText (textValue s) a = some s := by
  simp [readText, textValue]

theorem readUint_uintValue {b n : ℕ} (hb : b ≤ 64) (h : n < 2 ^ b) (a : ℕ) :
    readUint b (uintValue n) a = some n := by
  have h64 : n < 2 ^ 64 := h.trans_le (Nat.pow_le_pow_right (by decide) hb)
  simp [readUint, uintValue, parseUint_natural h64, h]

theorem read64 {n : ℕ} (h : n < 2 ^ 64) (a : ℕ) : readUint 64 (uintValue n) a = some n :=
  readUint_uintValue le_rfl h a

theorem readInt_intValue {i : ℤ} (h : fitsInt64 i = true) (a : ℤ) :
    readInt (intValue i) a = some i :=
  atoi_integer h

theorem readPtr_ptrValue {p : Option ℕ} (h : ∀ n ∈ p, n < 2 ^ 64) (a : Option ℕ) :
    readPtr (ptrValue p) a = some p := by
  cases p with
  | none => rfl
  | some n => simp [readPtr, ptrValue, uintValue, parseUint_natural (h n rfl)]

end Scalars

section Members

variable {fs : List (List Char × Value)} {ms : List (Tag × Value)}

structure Carries (ms : List (Tag × Value)) (fs : List (List Char × Value)) : Prop where
  perm : (withNames Tag.name ms).Perm fs
  nodup : (ms.map (·.1)).Nodup

theorem Carries.field (h : Carries ms fs) {α : Type} (read : Value → α → Option α)
    (zero : α) (t : Tag) :
    Json.field read zero t.name fs = (tagged t ms).foldlM (fun a v => read v a) zero :=
  field_of_perm Tag.foldName_inj h.perm h.nodup read zero t

theorem tagged_omitEmpty (t u : Tag) (p : Option ℕ) :
    tagged t (omitEmpty u p) = if u = t then p.toList.map uintValue else [] := by
  cases p with
  | none => simp [omitEmpty, tagged_nil]
  | some n => simp [omitEmpty]

theorem foldlM_readPtr {p : Option ℕ} (h : ∀ n ∈ p, n < 2 ^ 64) :
    (p.toList.map uintValue).foldlM (fun a v => readPtr v a) none = some p := by
  cases p with
  | none => rfl
  | some n => simpa [ptrValue] using readPtr_ptrValue h none

theorem Payload.isField_members {p : Payload} (hp : p.Fits) : ∀ m ∈ p.members, IsField m.2 := by
  have hopt : ∀ {t : Tag} {o : Option ℕ}, (∀ n ∈ o, n < 2 ^ 64) →
      ∀ m ∈ omitEmpty t o, IsField m.2 := by
    intro t o ho m hm
    cases o with
    | none => cases hm
    | some n =>
      cases List.mem_singleton.mp hm
      exact .uint (ho n rfl)
  cases p with
  | walletPosted e =>
    simp only [Payload.members, List.forall_mem_cons, List.not_mem_nil, false_implies, implies_true]
    exact ⟨.uint hp.txID, .text _, .uint hp.actorUserID, .text _, .int hp.deltaCoins,
      .int hp.balanceAfter, trivial⟩
  | giftAccepted e =>
    have h32 : (2 : ℕ) ^ 32 < 2 ^ 64 := by decide
    simp only [Payload.members, List.forall_mem_append, List.forall_mem_cons, List.not_mem_nil,
      false_implies, implies_true]
    exact ⟨⟨⟨⟨.text _, .uint hp.giftOrderID, .uint hp.viewerID, .uint hp.creatorID,
      .uint hp.liveSessionID, trivial⟩, hopt hp.campaignID⟩, hopt hp.matchID⟩, .text _,
      .uint (hp.quantity.trans (by decide)), .uint (hp.chargedCoins.trans h32),
      .uint (hp.matchPoints.trans h32), .uint (hp.diamondReward.trans h32), .text _, trivial⟩
  | giftRejected e =>
    simp only [Payload.members, List.forall_mem_append, List.forall_mem_cons, List.not_mem_nil,
      false_implies, implies_true]
    exact ⟨⟨⟨.text _, .uint hp.viewerID, .uint hp.creatorID, .uint hp.liveSessionID, trivial⟩,
      hopt hp.matchID⟩, .text _, .uint (hp.quantity.trans (by decide)), .text _, .text _, trivial⟩
  | comment e =>
    simp only [Payload.members, List.forall_mem_cons, List.not_mem_nil, false_implies, implies_true]
    exact ⟨.text _, .uint hp.viewerID, .uint hp.creatorID, .uint hp.liveSessionID, trivial⟩
  | watchMinute e =>
    simp only [Payload.members, List.forall_mem_cons, List.not_mem_nil, false_implies, implies_true]
    exact ⟨.text _, .uint hp.viewerID, .uint hp.creatorID, .uint hp.liveSessionID, trivial⟩
  | sessionClosed e =>
    simp only [Payload.members, List.forall_mem_cons, List.not_mem_nil, false_implies, implies_true]
    exact ⟨.uint hp.liveSessionID, .int hp.closedAtMs, trivial⟩
  | malformed => cases hp

theorem Payload.nodup_members (p : Payload) : (p.members.map (·.1)).Nodup := by
  cases p with
  | giftAccepted e =>
    obtain ⟨_, _, _, _, _, campaignID, matchID, _⟩ := e
    cases campaignID <;> cases matchID <;> simp [Payload.members, omitEmpty]
  | giftRejected e =>
    obtain ⟨_, _, _, _, matchID, _⟩ := e
    cases matchID <;> simp [Payload.members, omitEmpty]
  | _ => simp [Payload.members]

theorem decodeGiftAccepted_eq {p : Payload} (hp : p.Fits) (h : Carries p.members fs) :
    decodeGiftAccepted fs = p.unmarshalGiftAccepted := by
  simp only [decodeGiftAccepted, textField, uintField, ptrField, h.field]
  cases p with
  | giftAccepted e =>
    simp [Payload.members, Payload.unmarshalGiftAccepted, tagged_omitEmpty,
      foldlM_readPtr hp.campaignID, foldlM_readPtr hp.matchID, read64 hp.giftOrderID,
      read64 hp.viewerID, read64 hp.creatorID, read64 hp.liveSessionID,
      readUint_uintValue _ hp.quantity, readUint_uintValue _ hp.chargedCoins,
      readUint_uintValue _ hp.matchPoints, readUint_uintValue _ hp.diamondReward]
  | giftRejected e =>
    simp [Payload.members, Payload.unmarshalGiftAccepted, tagged_omitEmpty,
      foldlM_readPtr hp.matchID, read64 hp.viewerID, read64 hp.creatorID, read64 hp.liveSessionID,
      readUint_uintValue _ hp.quantity]
  | comment e =>
    simp [Payload.members, Payload.unmarshalGiftAccepted, read64 hp.viewerID, read64 hp.creatorID,
      read64 hp.liveSessionID]
  | watchMinute e =>
    simp [Payload.members, Payload.unmarshalGiftAccepted, read64 hp.viewerID, read64 hp.creatorID,
      read64 hp.liveSessionID]
  | sessionClosed e =>
    simp [Payload.members, Payload.unmarshalGiftAccepted, read64 hp.liveSessionID]
  | walletPosted e => simp [Payload.members, Payload.unmarshalGiftAccepted]
  | malformed => cases hp

theorem decodeComment_eq {p : Payload} (hp : p.Fits) (h : Carries p.members fs) :
    decodeComment fs = p.unmarshalComment := by
  simp only [decodeComment, textField, uintField, h.field]
  cases p with
  | giftAccepted e =>
    simp [Payload.members, Payload.unmarshalComment, tagged_omitEmpty, read64 hp.viewerID,
      read64 hp.creatorID, read64 hp.liveSessionID]
  | giftRejected e =>
    simp [Payload.members, Payload.unmarshalComment, tagged_omitEmpty, read64 hp.viewerID,
      read64 hp.creatorID, read64 hp.liveSessionID]
  | comment e =>
    simp [Payload.members, Payload.unmarshalComment, read64 hp.viewerID, read64 hp.creatorID,
      read64 hp.liveSessionID]
  | watchMinute e =>
    simp [Payload.members, Payload.unmarshalComment, read64 hp.viewerID, read64 hp.creatorID,
      read64 hp.liveSessionID]
  | sessionClosed e => simp [Payload.members, Payload.unmarshalComment, read64 hp.liveSessionID]
  | walletPosted e => simp [Payload.members, Payload.unmarshalComment]
  | malformed => cases hp

theorem decodeWatchMinute_eq {p : Payload} (hp : p.Fits) (h : Carries p.members fs) :
    decodeWatchMinute fs = p.unmarshalWatchMinute := by
  rw [Payload.unmarshalWatchMinute, ← decodeComment_eq hp h]
  simp [decodeWatchMinute, decodeComment, Option.map_bind]

theorem decodeSessionClosed_eq {p : Payload} (hp : p.Fits) (h : Carries p.members fs) :
    decodeSessionClosed fs = p.unmarshalSessionClosed := by
  simp only [decodeSessionClosed, intField, uintField, h.field]
  cases p with
  | giftAccepted e =>
    simp [Payload.members, Payload.unmarshalSessionClosed, tagged_omitEmpty,
      read64 hp.liveSessionID]
  | giftRejected e =>
    simp [Payload.members, Payload.unmarshalSessionClosed, tagged_omitEmpty,
      read64 hp.liveSessionID]
  | comment e => simp [Payload.members, Payload.unmarshalSessionClosed, read64 hp.liveSessionID]
  | watchMinute e => simp [Payload.members, Payload.unmarshalSessionClosed, read64 hp.liveSessionID]
  | sessionClosed e =>
    simp [Payload.members, Payload.unmarshalSessionClosed, read64 hp.liveSessionID,
      readInt_intValue hp.closedAtMs]
  | walletPosted e => simp [Payload.members, Payload.unmarshalSessionClosed]
  | malformed => cases hp

theorem decodeRechargeRequest_eq {req : RechargeRequest} (hr : req.Fits)
    (h : Carries req.members fs) :
    decodeRechargeRequest fs = some req := by
  simp [decodeRechargeRequest, textField, uintField, h.field, RechargeRequest.members,
    read64 hr.viewerID, readUint_uintValue _ hr.coins]

theorem decodeGiftRequest_eq {req : GiftRequest} (hr : req.Fits) (h : Carries req.members fs) :
    decodeGiftRequest fs = some req := by
  simp [decodeGiftRequest, textField, uintField, intField, ptrField, h.field, GiftRequest.members,
    read64 hr.viewerID, read64 hr.creatorID, read64 hr.liveSessionID, readPtr_ptrValue hr.matchID,
    readUint_uintValue _ hr.quantity, readInt_intValue hr.sentAtMS]

end Members

section Bounds

variable {fs : List (List Char × Value)}

theorem uintField_lt {bits n : ℕ} {t : Tag} (h : uintField fs bits t = some n) : n < 2 ^ bits := by
  refine field_invariant (P := (· < 2 ^ bits)) h (Nat.two_pow_pos bits) ?_
  rintro (_ | _ | lit | _ | _ | _) a b hb ha
  · cases hb
    exact ha
  · cases hb
  · exact of_decide_eq_true (Option.filter_eq_some_iff.mp hb).2
  · cases hb
  · cases hb
  · cases hb

theorem parseUint_lt {s : String} {n : ℕ} (h : parseUint s = some n) : n < 2 ^ 64 := by
  unfold parseUint at h
  split at h
  · cases h
  · obtain ⟨hlt, hn⟩ := Option.ite_none_right_eq_some.mp h
    rwa [← Option.some.inj hn]

theorem ptrField_lt {p : Option ℕ} {t : Tag} (h : ptrField fs t = some p) :
    ∀ n ∈ p, n < 2 ^ 64 := by
  refine field_invariant (P := fun p => ∀ n ∈ p, n < 2 ^ 64) h (by simp) ?_
  rintro (_ | _ | lit | _ | _ | _) a b hb ha
  · cases hb
    simp
  · cases hb
  · obtain ⟨m, hm, rfl⟩ := Option.map_eq_some_iff.mp hb
    rintro n ⟨⟩
    exact parseUint_lt hm
  · cases hb
  · cases hb
  · cases hb

theorem atoi_fits {s : String} {i : ℤ} (h : atoi s = some i) : fitsInt64 i = true := by
  unfold atoi at h
  split at h
  split at h
  · cases h
  · obtain ⟨hfits, hi⟩ := Option.ite_none_right_eq_some.mp h
    rw [fitsInt64, Bool.and_eq_true, decide_eq_true_eq, decide_eq_true_eq, ← Option.some.inj hi]
    exact hfits

theorem intField_fits {i : ℤ} {t : Tag} (h : intField fs t = some i) : fitsInt64 i = true := by
  refine field_invariant (P := fun i => fitsInt64 i = true) h (by decide) ?_
  rintro (_ | _ | lit | _ | _ | _) a b hb ha
  · cases hb
    exact ha
  · cases hb
  · exact atoi_fits hb
  · cases hb
  · cases hb
  · cases hb

theorem decodeRechargeRequest_fits {req : RechargeRequest}
    (h : decodeRechargeRequest fs = some req) :
    req.Fits := by
  simp only [decodeRechargeRequest, Option.bind_eq_bind, Option.bind_eq_some_iff] at h
  obtain ⟨requestID, -, viewerID, hviewer, coins, hcoins, paymentRef, -, hreq⟩ := h
  cases hreq
  exact ⟨uintField_lt hviewer, uintField_lt hcoins⟩

theorem decodeGiftRequest_fits {req : GiftRequest} (h : decodeGiftRequest fs = some req) :
    req.Fits := by
  simp only [decodeGiftRequest, Option.bind_eq_bind, Option.bind_eq_some_iff] at h
  obtain ⟨requestID, -, viewerID, hviewer, creatorID, hcreator, sessionID, hsession,
    matchID, hmatch, giftID, -, quantity, hquantity, sentAt, hsent, hreq⟩ := h
  cases hreq
  exact ⟨uintField_lt hviewer, uintField_lt hcreator, uintField_lt hsession, ptrField_lt hmatch,
    uintField_lt hquantity, intField_fits hsent⟩

end Bounds

section Texts

theorem withNames_flat {ms : List (Tag × Value)} (h : ∀ m ∈ ms, m.2.isFlat = true) :
    ∀ f ∈ withNames Tag.name ms, f.2.isFlat = true := by
  intro f hf
  obtain ⟨m, hm, rfl⟩ := List.mem_map.mp hf
  exact h m hm

theorem parse_marshalMembers {ms : List (Tag × Value)} (h : ∀ m ∈ ms, m.2.isFlat = true) :
    parse (marshalMembers ms) = some (.obj (withNames Tag.name ms)) :=
  parse_record goStyle_reads (withNames_flat h)

/-- What comes out of the column is a text of the same members. -/
theorem payloadColumn_marshal {p : Payload} (hp : p.Fits) : ∃ fs, Carries p.members fs ∧
    payloadColumn p.marshalJSONString = some (record mysqlStyle fs) ∧
    parse (record mysqlStyle fs) = some (.obj fs) := by
  have hflat : ∀ m ∈ p.members, m.2.isFlat = true := fun m hm => (p.isField_members hp m hm).isFlat
  have hperm := (List.perm_insertionSort columnOrder (withNames Tag.name p.members)).symm
  have hcol : (withNames Tag.name p.members).all (isColumnScalar ·.2) = true := by
    rw [List.all_eq_true]
    intro f hf
    obtain ⟨m, hm, rfl⟩ := List.mem_map.mp hf
    exact (p.isField_members hp m hm).isColumnScalar
  have hkeys : ((withNames Tag.name p.members).map (·.1)).Nodup := by
    have hinj : Function.Injective Tag.name := fun t u h => Tag.foldName_inj (congrArg foldName h)
    simpa [withNames, Function.comp_def] using p.nodup_members.map hinj
  refine ⟨_, ⟨hperm, p.nodup_members⟩, ?_, ?_⟩
  · rw [payloadColumn, Payload.marshalJSONString, parse_marshalMembers hflat]
    exact if_pos ⟨hcol, hkeys⟩
  · apply parse_record mysqlStyle_reads
    intro f hf
    exact withNames_flat hflat f (hperm.mem_iff.mpr hf)

theorem carries_refl {ms : List (Tag × Value)} (h : (ms.map (·.1)).Nodup) :
    Carries ms (withNames Tag.name ms) := ⟨.refl _, h⟩

theorem withNames_of_marshal {ms ms' : List (Tag × Value)} (hflat : ∀ m ∈ ms, m.2.isFlat = true)
    (hflat' : ∀ m ∈ ms', m.2.isFlat = true) (h : marshalMembers ms = marshalMembers ms') :
    withNames Tag.name ms = withNames Tag.name ms' := by
  have hp := parse_marshalMembers hflat
  rw [h, parse_marshalMembers hflat'] at hp
  simpa using hp.symm

theorem isFlat_uintValue (n : ℕ) : (uintValue n).isFlat = true := isFlat_natural n

theorem isFlat_intValue (i : ℤ) : (intValue i).isFlat = true := isFlat_integer i

theorem isFlat_textValue (s : String) : (textValue s).isFlat = true := rfl

theorem isFlat_ptrValue (p : Option ℕ) : (ptrValue p).isFlat = true := by
  cases p with
  | none => rfl
  | some n => exact isFlat_natural n

theorem RechargeRequest.marshal_inj {req req' : RechargeRequest} (hr : req.Fits) (hr' : req'.Fits)
    (h : req.marshal = req'.marshal) : req = req' := by
  have hflat : ∀ x : RechargeRequest, ∀ m ∈ x.members, m.2.isFlat = true := by
    intro x
    simp [RechargeRequest.members, isFlat_uintValue, isFlat_textValue]
  have hnd : ∀ x : RechargeRequest, (x.members.map (·.1)).Nodup := by
    intro x
    simp [RechargeRequest.members]
  have hm := withNames_of_marshal (hflat req) (hflat req') h
  have hd := decodeRechargeRequest_eq hr (carries_refl (hnd req))
  rw [hm, decodeRechargeRequest_eq hr' (carries_refl (hnd req'))] at hd
  exact (Option.some.inj hd).symm

theorem GiftRequest.marshal_inj {req req' : GiftRequest} (hr : req.Fits) (hr' : req'.Fits)
    (h : req.marshal = req'.marshal) : req = req' := by
  have hflat : ∀ x : GiftRequest, ∀ m ∈ x.members, m.2.isFlat = true := by
    intro x
    simp [GiftRequest.members, isFlat_uintValue, isFlat_intValue, isFlat_textValue, isFlat_ptrValue]
  have hnd : ∀ x : GiftRequest, (x.members.map (·.1)).Nodup := by
    intro x
    simp [GiftRequest.members]
  have hm := withNames_of_marshal (hflat req) (hflat req') h
  have hd := decodeGiftRequest_eq hr (carries_refl (hnd req))
  rw [hm, decodeGiftRequest_eq hr' (carries_refl (hnd req'))] at hd
  exact (Option.some.inj hd).symm

end Texts

end LiveRevenue
