import Mathlib.Data.List.Basic

/-!
# Packets on a byte stream

A decoder takes one symbol at a time. Where it takes a whole frame from rest to
rest, a line that carries frames in pieces is a queue of packets.
-/

namespace Framed

variable {σ α β : Type}

/-- A stream taken symbol by symbol, with what came out of it. -/
def feed (push : σ → α → σ × Option β) (s : σ) : List α → σ × List β
  | [] => (s, [])
  | a :: rest =>
    let (s, out) := push s a
    let (s, more) := feed push s rest
    (s, out.toList ++ more)

variable {push : σ → α → σ × Option β}

theorem feed_append (s : σ) (a b : List α) :
    feed push s (a ++ b) = ((feed push (feed push s a).1 b).1, (feed push s a).2 ++ (feed push (feed push s a).1 b).2) := by
  induction a generalizing s with
  | nil => rfl
  | cons x a ih =>
    rw [List.cons_append, feed, feed]
    dsimp only
    rw [ih, List.append_assoc]

/-- Between two frames the decoder rests. From there a whole frame comes out if it is kept, and one that was cut off
does not. -/
structure Framing (push : σ → α → σ × Option β) (write : β → List α) (kept : β → Bool) (Rest : σ → Prop) : Prop where
  rest : ∀ {s p}, Rest s → Rest (feed push s (write p)).1
  whole : ∀ {s p}, Rest s → (feed push s (write p)).2 = [p].filter kept
  cut : ∀ {s p n}, Rest s → n < (write p).length → (feed push s ((write p).take n)).2 = []

/-- What a line still has for the decoder at its end. -/
def waiting (push : σ → α → σ × Option β) (s : σ) (line : List α) : List β := (feed push s line).2

variable {write : β → List α} {kept : β → Bool} {Rest : σ → Prop} {s : σ} {line : List α}

namespace Framing

variable (F : Framing push write kept Rest)
include F

theorem rest_write (h : Rest (feed push s line).1) (p : β) : Rest (feed push s (line ++ write p)).1 := by
  rw [feed_append]
  exact F.rest h

/-- A frame that is written waits behind the others. -/
theorem waiting_write (h : Rest (feed push s line).1) (p : β) :
    waiting push s (line ++ write p) = waiting push s line ++ [p].filter kept := by
  rw [waiting, feed_append, F.whole h]
  rfl

theorem waiting_cut (h : Rest (feed push s line).1) {p : β} {n : Nat} (hn : n < (write p).length) :
    waiting push s (line ++ (write p).take n) = waiting push s line := by
  rw [waiting, feed_append, F.cut h hn, List.append_nil]
  rfl

end Framing

end Framed
