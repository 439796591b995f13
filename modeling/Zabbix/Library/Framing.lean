import Mathlib.Data.List.Infix

/-!
# Messages framed in a stream

A sender turns messages into one stream of symbols, by writing the encoding of
one after another; a receiver sees the stream in pieces that have nothing to do
with the messages.  An encoding that says where it ends lets the receiver find
the messages again: what it has recognised is a prefix of what was sent, and it
is everything if what is left over cannot be a message.

Only `valid` messages are sent.  A receiver may know an encoding that is valid in
a weaker sense, so both predicates are parameters.
-/

namespace Zabbix.Library.Framing

open List

variable {Message Symbol : Type*}

/-- The encodings of messages, one after another. -/
def framed (encode : Message → List Symbol) (messages : List Message) : List Symbol :=
  messages.flatMap encode

/-- Two streams that begin with encodings and agree begin with the same message. -/
structure SelfDelimiting (encode : Message → List Symbol) (valid : Message → Prop) : Prop where
  nonempty : ∀ message, valid message → encode message ≠ []
  unique :
    ∀ first second before after, valid first → valid second →
      encode first ++ before = encode second ++ after → first = second

/-- A piece of the stream in which no message is complete. -/
def Unfinished (encode : Message → List Symbol) (valid : Message → Prop)
    (symbols : List Symbol) : Prop :=
  ∀ message, valid message → ¬encode message <+: symbols

/-- A piece of the stream that valid messages begin with. -/
def Streams (encode : Message → List Symbol) (valid : Message → Prop)
    (symbols : List Symbol) : Prop :=
  ∃ messages, (∀ message ∈ messages, valid message) ∧ symbols <+: framed encode messages

variable {encode : Message → List Symbol} {valid : Message → Prop}
variable {message : Message} {messages received sent : List Message}
variable {symbols before after : List Symbol}

@[simp]
theorem framed_nil : framed encode [] = [] :=
  rfl

@[simp]
theorem framed_cons : framed encode (message :: messages) =
    encode message ++ framed encode messages :=
  rfl

theorem framed_append : framed encode (received ++ sent) =
    framed encode received ++ framed encode sent :=
  flatMap_append

theorem framed_concat : framed encode (messages ++ [message]) =
    framed encode messages ++ encode message := by
  rw [framed_append, framed_cons, framed_nil, append_nil]

/-! ## What the receiver has recognised -/

variable (delimiting : SelfDelimiting encode valid)

include delimiting

variable (validReceived : ∀ message ∈ received, valid message)

include validReceived

variable (validSent : ∀ message ∈ sent, valid message)

include validSent

/-- Recognised messages are the first of those sent; the rest of the stream is the others. -/
theorem recognised (same : framed encode received ++ after = framed encode sent) :
    ∃ pending, sent = received ++ pending ∧ after = framed encode pending := by
  induction received generalizing sent with
  | nil => exact ⟨sent, rfl, same⟩
  | cons first rest ih =>
    rw [framed_cons, append_assoc] at same
    cases sent with
    | nil =>
      have empty := append_eq_nil_iff.mp (same.trans framed_nil)
      exact absurd empty.1 (delimiting.nonempty first (validReceived first (by simp)))
    | cons second others =>
      rw [framed_cons] at same
      have head : first = second :=
        delimiting.unique first second _ _ (validReceived first (by simp))
          (validSent second (by simp)) same
      subst head
      obtain ⟨pending, rfl, isPending⟩ := ih
        (fun message member => validReceived message (mem_cons_of_mem _ member))
        (fun message member => validSent message (mem_cons_of_mem _ member))
        (append_cancel_left same)
      exact ⟨pending, rfl, isPending⟩

theorem recognised_prefix
    (same : framed encode received ++ after = framed encode sent) : received <+: sent := by
  obtain ⟨pending, rfl, -⟩ := recognised delimiting validReceived validSent same
  exact ⟨pending, rfl⟩

/-- When the whole stream has come and no message is left in it, all were recognised. -/
theorem recognised_all (unfinished : Unfinished encode valid after)
    (same : framed encode received ++ after = framed encode sent) : received = sent := by
  obtain ⟨pending, rfl, rfl⟩ := recognised delimiting validReceived validSent same
  cases pending with
  | nil => exact (append_nil received).symm
  | cons next others =>
    exact absurd ⟨_, framed_cons.symm⟩ (unfinished next (validSent next (by simp)))

omit validSent validReceived delimiting

/-! ## What is still to come -/

theorem streams_of_framed (allValid : ∀ message ∈ messages, valid message)
    (same : symbols ++ after = framed encode messages) : Streams encode valid symbols :=
  ⟨messages, allValid, after, same⟩

theorem streams_tail {known : Message → Prop} (delimiting : SelfDelimiting encode known)
    (isKnown : ∀ message, valid message → known message) (knownMessage : known message)
    (streams : Streams encode valid (encode message ++ symbols)) :
    valid message ∧ Streams encode valid symbols := by
  obtain ⟨messages, allValid, rest, same⟩ := streams
  rw [append_assoc] at same
  cases messages with
  | nil =>
    have empty := append_eq_nil_iff.mp (same.trans framed_nil)
    exact absurd empty.1 (delimiting.nonempty message knownMessage)
  | cons first others =>
    rw [framed_cons] at same
    have validFirst := allValid first (by simp)
    have head : message = first :=
      delimiting.unique message first _ _ knownMessage (isKnown first validFirst) same
    subst head
    have others' := fun other member => allValid other (mem_cons_of_mem message member)
    exact ⟨validFirst, streams_of_framed others' (append_cancel_left same)⟩

theorem unfinished_nil (delimiting : SelfDelimiting encode valid) :
    Unfinished encode valid [] := by
  intro message isValid isPrefix
  exact delimiting.nonempty message isValid (prefix_nil.mp isPrefix)

end Zabbix.Library.Framing
