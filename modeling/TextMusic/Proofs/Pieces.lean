/-
Pieces: a session cannot tell how a text reaches it.  Whether a text is typed, handed
over as a whole or read from a source that cuts its characters anywhere, and in
however many pieces it comes, the session is the same.
-/
import TextMusic.Proofs.Lossy
import TextMusic.Rendering

namespace TextMusic

variable {σ : Type}

namespace Decoder

/-! ## What is heard -/

theorem hear_append {items : List Item} {text : List Char}
    (h : items.map Item.character? = text.map some) (later : List Item) :
    hear (items ++ later) = (text ++ (hear later).1, (hear later).2) := by
  induction items generalizing text with
  | nil =>
      have htext : text = [] := List.map_eq_nil_iff.mp h.symm
      subst text
      rfl
  | cons item items ih =>
      obtain ⟨c, rest, rfl, hitem, hitems⟩ := List.map_eq_cons_iff.mp h.symm
      have hrest := ih hitems.symm
      cases item with
      | char d =>
          obtain rfl : c = d := Option.some.inj hitem
          simp only [List.cons_append, hear, hrest]
      | malformed =>
          obtain rfl : c = replacement := Option.some.inj hitem
          simp only [List.cons_append, hear, hrest]
      | failure | stop => exact absurd hitem (Option.some_ne_none c)

theorem hear_of_lossyText {bytes : List UInt8} {text : List Char}
    (h : LossyText bytes text) :
    hear (decode (bytes.map .byte)) = (text, none) := by
  have happend := hear_append (decode_of_lossyText h) []
  rwa [List.append_nil, hear, List.append_nil] at happend

/-- A text is the lossy text of its own bytes. -/
theorem lossyText_utf8Bytes (text : List Char) : LossyText (utf8Bytes text) text := by
  induction text with
  | nil => exact .nil
  | cons c rest ih =>
      exact .character (Utf8.wellFormed_utf8EncodeChar c) rfl ih

theorem utf8Bytes_ne_nil {text : List Char} (h : text ≠ []) : utf8Bytes text ≠ [] := by
  obtain ⟨c, rest, rfl⟩ := List.exists_cons_of_ne_nil h
  intro hnil
  obtain ⟨hc, -⟩ := List.append_eq_nil_iff.mp hnil
  have hsequence := Utf8.wellFormed_utf8EncodeChar c
  rw [hc] at hsequence
  exact Utf8.not_wellFormed_nil hsequence

theorem delivers_sourceOfText (text : String) :
    Delivers (sourceOfText text) (utf8Bytes text.toList) := by
  unfold sourceOfText
  split_ifs with hempty
  · rw [String.isEmpty_iff.mp hempty]
    exact .done
  · have htext : text.toList ≠ [] := by
      intro hnil
      exact hempty (String.isEmpty_iff.mpr (String.toList_eq_nil_iff.mp hnil))
    have hportion := Delivers.portion (utf8Bytes_ne_nil htext) .done
    rwa [List.append_nil] at hportion

end Decoder

/-- Different texts have different bytes. -/
theorem utf8Bytes_injective : Function.Injective utf8Bytes := by
  intro left right h
  have hleft := Decoder.hear_of_lossyText (Decoder.lossyText_utf8Bytes left)
  rw [h, Decoder.hear_of_lossyText (Decoder.lossyText_utf8Bytes right)] at hleft
  exact congrArg Prod.fst hleft.symm

/-! ## Sessions -/

/-- A piece of a text and the way it takes into a session.  A source may cut the
piece into portions inside its characters, and may be interrupted. -/
inductive Piece where
  | typed (text : List Char)
  | handedOver (text : List Char)
  | read (text : List Char) (source : List Delivery)
      (hsource : Decoder.Delivers source (utf8Bytes text))

namespace Piece

def text : Piece → List Char
  | typed text | handedOver text | read text _ _ => text

def operations : Piece → List Operation
  | typed text => text.map .feed
  | handedOver text => [.feedText text]
  | read _ source _ => [.readFrom source]

end Piece

namespace Session

variable [Dice σ]

theorem performAll_append (session : Session σ) (first second : List Operation) :
    session.performAll (first ++ second) = (session.performAll first).performAll second :=
  List.foldl_append

/-- A source of bytes is read to its end, as their lossy text. -/
theorem readFrom_of_lossyText {source : List Delivery} {bytes : List UInt8}
    {text : List Char} (h : Decoder.Delivers source bytes)
    (htext : Decoder.LossyText bytes text) (session : Session σ) :
    session.readFrom source = (.ok text.length, session.feedAll text) := by
  have hheard : Decoder.hear (Decoder.decode (signals source)) = (text, none) := by
    rw [Decoder.signals_of_delivers h]
    exact Decoder.hear_of_lossyText htext
  simp only [readFrom, hheard]

theorem readFrom_of_delivers {source : List Delivery} {text : List Char}
    (h : Decoder.Delivers source (utf8Bytes text)) (session : Session σ) :
    session.readFrom source = (.ok text.length, session.feedAll text) :=
  readFrom_of_lossyText h (Decoder.lossyText_utf8Bytes text) session

theorem performAll_operations (session : Session σ) (piece : Piece) :
    session.performAll piece.operations = session.feedAll piece.text := by
  cases piece with
  | typed text => exact List.foldl_map
  | handedOver text => rfl
  | read text source hsource =>
      have hread := readFrom_of_delivers hsource session
      exact congrArg Prod.snd hread

/-- However a text is cut into pieces and whichever way each of them takes, the
session is the one that is fed the text character by character, and every source
is read to the last character of its piece. -/
theorem performAll_pieces (config : Config) (dice : σ) (pieces : List Piece) :
    (start config dice).performAll (pieces.flatMap Piece.operations) =
        (pieces.flatMap Piece.text).foldl feed (start config dice) ∧
      ∀ before text source hsource after,
        pieces = before ++ .read text source hsource :: after →
        (((start config dice).performAll (before.flatMap Piece.operations)).readFrom
            source).1 =
          .ok text.length := by
  constructor
  · generalize start config dice = session
    induction pieces generalizing session with
    | nil => rfl
    | cons piece rest ih =>
        rw [List.flatMap_cons, List.flatMap_cons, performAll_append,
          performAll_operations, List.foldl_append]
        exact ih (session.feedAll piece.text)
  · intro before text source hsource after _
    rw [readFrom_of_delivers hsource]

end Session

end TextMusic
