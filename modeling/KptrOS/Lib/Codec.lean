import Mathlib.Data.List.Basic

/-!
# Decoders of texts

A decoder takes a value off the front of a list of symbols. It inverts an encoder when it
reads every text of the encoder, with anything behind it; this composes along the text.

- `Decoder`: a state monad over the remaining symbols, with failure. `expect` takes a given
  text, `field` a text of given length.
- `Reads`: a decoder finds this value in this text. `Reads.bind` and `Reads.each` are the
  rules for texts in a row.
- `decode`, `decode_of_reads`: a whole text.
- `Reads.injective`: what can be read back determines the value.
-/

namespace Codec

universe u

variable {σ α β ι : Type u}

/-- A decoder of values of type `α`. -/
abbrev Decoder (σ α : Type u) := StateT (List σ) Option α

/-- In front of anything, the decoder takes `text` and returns `a`. -/
def Reads (d : Decoder σ α) (text : List σ) (a : α) : Prop :=
  ∀ rest, d.run (text ++ rest) = some (a, rest)

/-- The value of a whole text. -/
def decode (d : Decoder σ α) (text : List σ) : Option α :=
  match d.run text with
  | some (a, []) => some a
  | _ => none

theorem decode_of_reads {d : Decoder σ α} {text : List σ} {a : α} (h : Reads d text a) :
    decode d text = some a := by
  have hrun := h []
  rw [List.append_nil] at hrun
  rw [decode, hrun]

/-- **An encoder that is read back is injective.** -/
theorem Reads.injective {d : Decoder σ α} {encode : α → List σ}
    (h : ∀ a, Reads d (encode a) a) : Function.Injective encode := by
  intro a b hab
  have ha := decode_of_reads (h a)
  rw [hab, decode_of_reads (h b)] at ha
  exact (Option.some_inj.mp ha).symm

/-! ## Composition -/

theorem Reads.pure (a : α) : Reads (pure a : Decoder σ α) [] a := fun _ => rfl

theorem Reads.bind {d : Decoder σ α} {f : α → Decoder σ β} {text text' : List σ} {a : α}
    {b : β} (hd : Reads d text a) (hf : Reads (f a) text' b) :
    Reads (d >>= f) (text ++ text') b := by
  intro rest
  rw [StateT.run_bind, List.append_assoc, hd]
  exact hf rest

theorem Reads.map {d : Decoder σ α} {text : List σ} {a : α} (hd : Reads d text a) (f : α → β) :
    Reads (d >>= fun a => Pure.pure (f a)) text (f a) := by
  have hbind := hd.bind (f := fun a => Pure.pure (f a)) (Reads.pure (f a))
  rwa [List.append_nil] at hbind

/-- A list of texts, each with its own decoder. -/
theorem Reads.each {d : ι → Decoder σ α} {text : ι → List σ} {value : ι → α}
    (h : ∀ i, Reads (d i) (text i) (value i)) (is : List ι) :
    Reads (is.mapM d) (is.flatMap text) (is.map value) := by
  induction is with
  | nil => exact Reads.pure []
  | cons i is ih =>
    rw [List.mapM_cons, List.flatMap_cons, List.map_cons]
    exact (h i).bind (ih.map (value i :: ·))

/-! ## Fields -/

/-- A text that is known. -/
def expect [DecidableEq σ] (text : List σ) : Decoder σ PUnit := fun input =>
  if text.isPrefixOf input then some (⟨⟩, input.drop text.length) else none

theorem reads_expect [DecidableEq σ] (text : List σ) : Reads (expect text) text ⟨⟩ := by
  intro rest
  show (if text.isPrefixOf (text ++ rest) then _ else none) = _
  rw [if_pos (List.isPrefixOf_iff_prefix.mpr (List.prefix_append text rest)),
    List.drop_left]

/-- A text of `n` symbols, with the value that `f` gives it. -/
def field (n : Nat) (f : List σ → Option α) : Decoder σ α := fun input =>
  (f (input.take n)).map fun a => (a, input.drop n)

theorem reads_field {n : Nat} {f : List σ → Option α} {text : List σ} {a : α}
    (hn : text.length = n) (hf : f text = some a) : Reads (field n f) text a := by
  intro rest
  show (f ((text ++ rest).take n)).map (fun a => (a, (text ++ rest).drop n)) = _
  rw [← hn, List.take_left, List.drop_left, hf]
  rfl

end Codec
