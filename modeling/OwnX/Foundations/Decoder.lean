import Mathlib.Data.List.Basic

/-!
# Incremental decoders

A reader appends the chunks it receives to a buffer and calls a decoder until the decoder asks for
more input. The decoder reads items off the front of the buffer and keeps the half-read item between
two calls.

Such a reader does not depend on how its input was cut into chunks as soon as the decoder is
*incremental*: an item found in a buffer is found in every longer one, and a call that asks for more
input leaves exactly what a later call needs.
-/

namespace OwnX

/-- A decoder of items `σ` over input symbols `β`. -/
structure Decoder (σ β : Type) where
  /-- The item before anything of it has been read. -/
  fresh : σ
  /-- One call: whether an item was completed, the item, and the rest of the buffer. -/
  decode : σ → List β → Bool × σ × List β

namespace Decoder

variable {σ β : Type}

/-- Calling the decoder until it asks for more input: the completed items, the half-read item and
the rest of the buffer. At most `fuel` calls are made; `none` means that they were not enough. -/
def drain (D : Decoder σ β) : Nat → σ → List β → Option (List σ × σ × List β)
  | 0, _, _ => none
  | fuel + 1, m, buf =>
    match D.decode m buf with
    | (true, m', rest) => (D.drain fuel D.fresh rest).map fun r => (m' :: r.1, r.2)
    | (false, m', rest) => some ([], m', rest)

/-- The laws of an incremental decoder, for the half-read items that satisfy `P`. -/
structure Incremental (D : Decoder σ β) (P : σ → Prop) : Prop where
  /-- Nothing has been read of a fresh item. -/
  fresh : P D.fresh
  /-- An empty buffer is left alone. -/
  nil : D.decode D.fresh [] = (false, D.fresh, [])
  /-- What a call that asks for more input leaves is a half-read item. -/
  pending : ∀ {m buf m' rest}, P m → D.decode m buf = (false, m', rest) → P m'
  /-- A call that asks for more input adds nothing to the buffer. -/
  keep : ∀ {m buf m' rest}, P m → D.decode m buf = (false, m', rest) → rest.length ≤ buf.length
  /-- Asking for more input and then continuing is the same as having had the input at once. -/
  resume : ∀ {m buf m' rest}, P m → D.decode m buf = (false, m', rest) →
    ∀ more, D.decode m (buf ++ more) = D.decode m' (rest ++ more)
  /-- A completed item does not depend on what follows it. -/
  extend : ∀ {m buf m' rest}, P m → D.decode m buf = (true, m', rest) →
    ∀ more, D.decode m (buf ++ more) = (true, m', rest ++ more)
  /-- A completed item takes something off the buffer. -/
  progress : ∀ {m buf m' rest}, P m → D.decode m buf = (true, m', rest) → rest.length < buf.length

/-- Draining stops with the items `xs`. If `whole` is set, nothing is left over and no item is half-read. -/
def Yields (D : Decoder σ β) (m : σ) (buf : List β) (xs : List σ) (whole : Bool) : Prop :=
  ∃ fuel r, D.drain fuel m buf = some (xs, r) ∧ (whole = true → r = (D.fresh, []))

end Decoder

end OwnX
