import LiveRevenue.Proof.Wire

/-! # Payloads on their way through the outbox

A payload is marshalled into `payload_json`, stored by the server in its own form, cast
back to text by the relay and unmarshalled by the consumers. What a consumer gets is what
`Payload` says it gets, whichever of the four structs it reads the text into.
-/

namespace LiveRevenue

open Json

/-- Escapes, blanks and the order of members change on the way; no field does. -/
theorem payload_survives_column (p : Payload) (hp : p.Fits) : ∃ text,
    payloadColumn p.marshalJSONString = some text ∧
    unmarshal decodeGiftAccepted text = p.unmarshalGiftAccepted ∧
    unmarshal decodeComment text = p.unmarshalComment ∧
    unmarshal decodeWatchMinute text = p.unmarshalWatchMinute ∧
    unmarshal decodeSessionClosed text = p.unmarshalSessionClosed := by
  obtain ⟨fs, hfs, hcol, hparse⟩ := payloadColumn_marshal hp
  have hread : ∀ {α : Type} (decode : List (List Char × Value) → Option α),
      unmarshal decode (record mysqlStyle fs) = decode fs := by
    intro α decode
    rw [unmarshal, hparse]
    rfl
  refine ⟨_, hcol, ?_, ?_, ?_, ?_⟩
  · rw [hread, decodeGiftAccepted_eq hp hfs]
  · rw [hread, decodeComment_eq hp hfs]
  · rw [hread, decodeWatchMinute_eq hp hfs]
  · rw [hread, decodeSessionClosed_eq hp hfs]

def escapedGift : LiveGiftAcceptedV1 :=
  ⟨"live.gift.accepted.v1", 1, 2001, 1001, 9001, none, some 3, "RO<SE", 2, 20, 20, 10, "\"g\n1"⟩

theorem payload_survives_column_gift : ∃ text,
    payloadColumn (Payload.giftAccepted escapedGift).marshalJSONString = some text ∧
    unmarshal decodeGiftAccepted text = some escapedGift := by
  have hfits : (Payload.giftAccepted escapedGift).Fits := by
    constructor <;> simp [escapedGift]
  obtain ⟨text, hcol, hgift, -⟩ := payload_survives_column _ hfits
  exact ⟨text, hcol, hgift⟩

end LiveRevenue
