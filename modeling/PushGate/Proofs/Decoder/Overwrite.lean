import PushGate.Proofs.Decoder.Reach

/-!
# Decoding into a used message

Messages are used again: one push after the other is decoded into the same message, and a faulty push
leaves behind what has been read of it.  Every decoding begins with a reset, so none of this shows in
the next one, neither in its outcome nor in a field that it does not come to.

**Results.**
* `decodeAll_eq`: each push of a sequence is decoded as it is by itself.
* `get_decode_of_not_reaches`: a field that a push does not reach is left with its zero value.
* `decodeAll_overwrites`: both, and the reset at the end.
-/

namespace PushGate

open Markup (Reading)

namespace Decoder

/-- Decodes pushes one after the other into the same message. -/
def decodeAll (target : Message) : List Bytes → List Outcome × Message
  | [] => ([], target)
  | body :: bodies =>
      let outcome := decode target body
      let (outcomes, message) := decodeAll outcome.message bodies
      (outcome :: outcomes, message)

/-- Each push is decoded as it is by itself, and the message is left as the last one leaves it. -/
theorem decodeAll_eq
    (target : Message)
    (bodies : List Bytes) :
    decodeAll target bodies =
      (bodies.map (decode .blank),
        ((bodies.map (decode .blank)).getLast?.map Outcome.message).getD target) := by
  induction bodies generalizing target with
  | nil => rfl
  | cons body bodies ih =>
      rw [decodeAll, ih, decode_eq target body]
      cases bodies with
      | nil => rfl
      | cons next bodies => rfl

/-- A field that a push does not reach is left with its zero value. -/
theorem get_decode_of_not_reaches
    {body : Bytes}
    {f : Field}
    (target : Message)
    (hnever : ∀ i, ¬ Reaches (Reading.ofBytes body) i f) :
    (decode target body).message.get f = f.zero := by
  have hrun := get_run_of_not_reaches (f := f) (balanced_ofBytes body)
    (tracks_start (Reading.ofBytes body).events .blank) (Nat.zero_le _) (fun k hk => by omega)
    nofun (fun k _ => hnever k)
  rw [decode_eq, ← Message.get_blank]
  exact hrun

/-- **Total overwrite.**  In a sequence of pushes that are decoded into the same message, whatever it
held at first, each has the outcome that it has by itself with a blank message: the same fault or none,
and the same message, as far as it has been read.  A field that a push does not reach is left with its
zero value.  A reset at the end leaves the zero value in every field. -/
theorem decodeAll_overwrites
    (target : Message)
    (bodies : List Bytes) :
    (decodeAll target bodies).1.length = bodies.length ∧
    (∀ i body, bodies[i]? = some body →
      (decodeAll target bodies).1[i]? = some (decode .blank body) ∧
      (decodeAll target (bodies.take (i + 1))).2 = (decode .blank body).message ∧
      ∀ f, (∀ j, ¬ Reaches (Reading.ofBytes body) j f) →
        (decodeAll target (bodies.take (i + 1))).2.get f = f.zero) ∧
    ∀ f : Field, (decodeAll target bodies).2.reset.get f = f.zero := by
  refine ⟨?_, ?_, ?_⟩
  · rw [decodeAll_eq, List.length_map]
  · intro i body hbody
    have hlast : (decodeAll target (bodies.take (i + 1))).2 = (decode .blank body).message := by
      rw [decodeAll_eq, List.take_add_one, hbody]
      simp
    refine ⟨?_, hlast, ?_⟩
    · rw [decodeAll_eq, List.getElem?_map, hbody]
      rfl
    · intro f hnever
      rw [hlast]
      exact get_decode_of_not_reaches .blank hnever
  · intro f
    rw [Message.reset_eq_blank, Message.get_blank]

end Decoder
end PushGate
