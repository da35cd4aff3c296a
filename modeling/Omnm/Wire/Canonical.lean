import Omnm.Memory.Decoders
import Omnm.Wire.Serialization

/-!
# The wire form is canonical

The wire form of a field is put together from exact decoders, so it has one
itself (`fieldDecoder`), and `Message.decode` decodes whole messages. Bytes are
decoded to a message exactly if they are its wire form
(`Message.decode_eq_some_iff`). So no two messages have the same wire form
(`Message.encode_injective`), and a payload holds one message at most
(`Represents.unique`).

What a payload took in it holds as a message exactly if the bytes decode
(`Represents.takenPayload_iff`).
-/

set_option autoImplicit false

namespace Omnm

variable [FieldTypeTags]

/-! ## Fields -/

/-- The decoder of the data behind the name of a field. -/
def dataDecoder (type : UInt8) : Decoder UInt8 (List UInt8) :=
  match dataLayout type with
  | .fixed width => Decoder.block width
  | .cString => Decoder.untilNul
  | .sized => Decoder.counted 4
  | .unlisted => Decoder.block 0

theorem good_dataDecoder_iff {type : UInt8} {data : List UInt8} :
    (dataDecoder type).Good data ↔ DataFits type data := by
  unfold dataDecoder DataFits
  cases dataLayout type with
  | fixed width => exact Iff.rfl
  | cString => exact Iff.rfl
  | sized => exact Iff.rfl
  | unlisted => exact List.length_eq_zero_iff

theorem encode_dataDecoder (entry : FieldEntry) :
    (dataDecoder entry.type).encode entry.data = entry.lengthPart ++ entry.data := by
  unfold dataDecoder FieldEntry.lengthPart
  cases dataLayout entry.type with
  | fixed width => rfl
  | cString => rfl
  | sized => rfl
  | unlisted => rfl

omit [FieldTypeTags] in
/-- The parts of a field. -/
def FieldEntry.parts : UInt8 × UInt16 × CString × List UInt8 ≃ FieldEntry where
  toFun parts := ⟨parts.1, parts.2.1, parts.2.2.1, parts.2.2.2⟩
  invFun entry := (entry.type, entry.fid, entry.name, entry.data)
  left_inv _ := rfl
  right_inv _ := rfl

/-- The decoder of a field. -/
def fieldDecoder : Decoder UInt8 FieldEntry :=
  (Decoder.pair Decoder.symbol fun type =>
    Decoder.pair Decoder.integer16 fun _ =>
      Decoder.pair Decoder.terminatedString fun _ => dataDecoder type).congr FieldEntry.parts

theorem good_fieldDecoder_iff {entry : FieldEntry} :
    fieldDecoder.Good entry ↔ DataFits entry.type entry.data :=
  ⟨fun good => good_dataDecoder_iff.mp good.2.2.2,
    fun fits => ⟨trivial, trivial, trivial, good_dataDecoder_iff.mpr fits⟩⟩

theorem encode_fieldDecoder (entry : FieldEntry) : fieldDecoder.encode entry = entry.encode := by
  rw [entry.encode_eq, ← encode_dataDecoder]
  rfl

theorem flatMap_encode_fieldDecoder (entries : List FieldEntry) :
    entries.flatMap fieldDecoder.encode = encodeAll entries :=
  List.flatMap_congr fun entry _ => encode_fieldDecoder entry

/-- The fields in bytes. -/
def decodeAll (bytes : List UInt8) : Option (List FieldEntry) := fieldDecoder.takeAll bytes

/-- Bytes are decoded to fields exactly if they are their wire form. -/
theorem decodeAll_eq_some_iff {bytes : List UInt8} {entries : List FieldEntry} :
    decodeAll bytes = some entries ↔ AllFit entries ∧ bytes = encodeAll entries := by
  have progress : ∀ entry, fieldDecoder.Good entry → fieldDecoder.encode entry ≠ [] := by
    intro entry _
    rw [encode_fieldDecoder]
    exact List.ne_nil_of_length_pos (Nat.lt_of_lt_of_le (by decide) entry.four_le_length_encode)
  rw [decodeAll, Decoder.takeAll_eq_some_iff progress, flatMap_encode_fieldDecoder]
  simp only [good_fieldDecoder_iff, AllFit]

/-- Whether bytes are complete fields can be computed. -/
theorem completeFields_iff {bytes : List UInt8} :
    CompleteFields bytes ↔ (decodeAll bytes).isSome = true := by
  rw [Option.isSome_iff_exists]
  exact exists_congr fun entries => decodeAll_eq_some_iff.symm

instance (bytes : List UInt8) : Decidable (CompleteFields bytes) :=
  decidable_of_iff _ completeFields_iff.symm

/-! ## Messages -/

namespace Message

/-- The message that bytes stand for: a header of an accepted version, with as many
additional bytes as its third states, and fields up to the end. -/
def decode : List UInt8 → Option Message
  | kind :: version :: extra :: rest =>
      if header : version ≤ omnmProtocolVersion ∧ extra.toNat ≤ rest.length then
        match fields : decodeAll (rest.drop extra.toNat) with
        | none => none
        | some entries => some {
            kind := kind
            version := version
            extra := rest.take extra.toNat
            entries := entries
            version_le := header.1
            extra_lt := Nat.lt_of_le_of_lt (List.length_take_le ..) extra.toNat_lt
            fits := (decodeAll_eq_some_iff.mp fields).1 }
      else none
  | _ => none

/-- What is decoded has these bytes as its wire form. -/
theorem encode_of_decode {bytes : List UInt8} {message : Message}
    (decoded : decode bytes = some message) : bytes = message.encode := by
  unfold decode at decoded
  split at decoded
  · rename_i kind version extra rest
    split at decoded
    · rename_i header
      split at decoded
      · cases decoded
      · rename_i entries fields
        obtain rfl := Option.some.inj decoded
        obtain ⟨-, standing⟩ := decodeAll_eq_some_iff.mp fields
        rw [encode_eq]
        dsimp only
        rw [List.length_take_of_le header.2, UInt8.ofNat_toNat, ← standing,
          List.take_append_drop]
    · cases decoded
  · cases decoded

/-- The wire form of a message is decoded to it. -/
theorem decode_encode (message : Message) : decode message.encode = some message := by
  have extra := message.toNat_extra_length
  have behind : (message.extra ++ encodeAll message.entries).drop
      (UInt8.ofNat message.extra.length).toNat = encodeAll message.entries := by
    rw [extra, List.drop_left]
  have fields := decodeAll_eq_some_iff.mpr ⟨message.fits, behind⟩
  have header : message.version ≤ omnmProtocolVersion ∧
      (UInt8.ofNat message.extra.length).toNat ≤
        (message.extra ++ encodeAll message.entries).length := by
    refine ⟨message.version_le, ?_⟩
    rw [extra, List.length_append]
    exact Nat.le_add_right ..
  rw [encode_eq]
  simp only [decode, dif_pos header]
  split
  · rename_i failed
    cases fields.symm.trans failed
  · rename_i entries found
    obtain rfl := Option.some.inj (fields.symm.trans found)
    have front : (message.extra ++ encodeAll message.entries).take
        (UInt8.ofNat message.extra.length).toNat = message.extra := by
      rw [extra, List.take_left]
    cases message
    simp only [Option.some.injEq, Message.mk.injEq, true_and, and_true]
    exact front

/-- Bytes are decoded to a message exactly if they are its wire form. -/
theorem decode_eq_some_iff {bytes : List UInt8} {message : Message} :
    decode bytes = some message ↔ bytes = message.encode := by
  constructor
  · exact encode_of_decode
  · rintro rfl
    exact message.decode_encode

/-- No two messages have the same wire form. -/
theorem encode_injective : Function.Injective encode := by
  intro first second same
  have decoded : some first = some second := by
    rw [← first.decode_encode, same, second.decode_encode]
  exact Option.some.inj decoded

end Message

/-! ## Payloads -/

omit [FieldTypeTags] in
/-- What a payload took in it serialises to. -/
theorem takenPayload_serialized (msg : OmnmPayloadImpl) {memory : List UInt8} {length : Nat}
    (readable : length ≤ memory.length) (slack : List UInt8) :
    (takenPayload msg (.other memory) length slack).serialized = memory.take length := by
  have whole : (memory.take length).length = length := List.length_take_of_le readable
  exact List.take_left' whole

namespace OmnmPayloadImpl.Represents

variable {msg other : OmnmPayloadImpl} {message message' : Message}

/-- What a payload holds can be decoded from the bytes that it serialises to. -/
theorem decode_serialized (represents : msg.Represents message) :
    Message.decode msg.serialized = some message := by
  rw [represents.serialized_eq, message.decode_encode]

/-- Payloads that serialise to the same bytes hold the same message. -/
theorem eq_of_serialized (represents : msg.Represents message)
    (represents' : other.Represents message') (same : msg.serialized = other.serialized) :
    message = message' := by
  apply Message.encode_injective
  rw [← represents.serialized_eq, same, represents'.serialized_eq]

/-- A payload holds one message at most. -/
theorem unique (represents : msg.Represents message) (represents' : msg.Represents message') :
    message = message' :=
  represents.eq_of_serialized represents' rfl

/-- What a payload took in it holds as a message exactly if the bytes decode. -/
theorem takenPayload_iff {memory slack : List UInt8} {length : Nat}
    (readable : length ≤ memory.length) :
    (takenPayload msg (.other memory) length slack).Represents message ↔
      Message.decode (memory.take length) = some message := by
  constructor
  · intro represents
    rw [← takenPayload_serialized msg readable slack]
    exact represents.decode_serialized
  · intro decoded
    exact of_taken msg readable (Message.decode_eq_some_iff.mp decoded) slack

end OmnmPayloadImpl.Represents

end Omnm
