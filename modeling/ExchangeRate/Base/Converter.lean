import Mathlib.Algebra.Notation.Defs
import Mathlib.Data.List.Basic

/-!
# A converter with a display

A converter has two sides, each set to a key, an amount, and rates that say what an
amount is worth between two keys. It shows a value, and it does not calculate by
itself: some events calculate and show, others only change what the next calculation
will be made of. So the value shown is the worth of the amount – it is *current* –
after an event of the first kind (`Converter.current_run`), and may be out of date
after the others.
-/

/-- What an amount is worth between two keys; nothing is worth nothing. -/
@[ext]
structure Rates (κ A V : Type*) [Zero A] [Zero V] where
  worth : κ → κ → A → V
  worth_zero : ∀ k l, worth k l 0 = 0

variable {κ A V : Type*} [Zero A] [Zero V]

/-- A converter; the side `true` is the one converted from. -/
structure Converter (κ A V : Type*) [Zero A] [Zero V] where
  key : Bool → κ
  amount : A
  rates : Rates κ A V
  shown : V

inductive ConverterEvent (κ A V : Type*) [Zero A] [Zero V] where
  | start (key : Bool → κ) (rates : Rates κ A V)
  | enter (amount : A)
  | swap
  | display
  | select (side : Bool) (key : κ)
  | update (rates : Rates κ A V)

/-- The events that calculate, or clear the amount together with the display. -/
def ConverterEvent.displays : ConverterEvent κ A V → Bool
  | .start _ _ | .enter _ | .swap | .display => true
  | .select _ _ | .update _ => false

namespace Converter

/-- What the amount is worth now. -/
def worth (c : Converter κ A V) : V := c.rates.worth (c.key true) (c.key false) c.amount

/-- **The value shown is the worth of the amount.** -/
def Current (c : Converter κ A V) : Prop := c.shown = c.worth

def step (c : Converter κ A V) : ConverterEvent κ A V → Converter κ A V
  | .start key rates => { key, amount := 0, rates, shown := 0 }
  | .enter amount => { c with amount, shown := { c with amount }.worth }
  | .swap => { c with key := fun side => c.key (!side), amount := 0, shown := 0 }
  | .display => { c with shown := c.worth }
  | .select side key => { c with key := Function.update c.key side key }
  | .update rates => { c with rates }

def run (c : Converter κ A V) (es : List (ConverterEvent κ A V)) : Converter κ A V :=
  es.foldl step c

variable {c : Converter κ A V} {es : List (ConverterEvent κ A V)} {e : ConverterEvent κ A V}

theorem run_append (c : Converter κ A V) (es es' : List (ConverterEvent κ A V)) :
    c.run (es ++ es') = (c.run es).run es' := List.foldl_append

/-- An event that displays leaves the converter current. -/
theorem current_step (c : Converter κ A V) (he : e.displays = true) : (c.step e).Current := by
  cases e with
  | start key rates => exact (rates.worth_zero _ _).symm
  | enter amount => rfl
  | swap => exact (c.rates.worth_zero _ _).symm
  | display => rfl
  | select side key => cases he
  | update rates => cases he

/-- The other events leave the value that is shown alone. -/
theorem shown_step (c : Converter κ A V) (he : e.displays = false) :
    (c.step e).shown = c.shown := by
  cases e with
  | select side key => rfl
  | update rates => rfl
  | _ => cases he

theorem shown_run (c : Converter κ A V) (hes : ∀ e ∈ es, e.displays = false) :
    (c.run es).shown = c.shown := by
  induction es generalizing c with
  | nil => rfl
  | cons e es ih =>
    have hrest := ih (c.step e) fun e' he' => hes e' (List.mem_cons_of_mem e he')
    exact hrest.trans (c.shown_step (hes e List.mem_cons_self))

/-- **After a run whose last event displays, the value shown is current.** -/
theorem current_run (c : Converter κ A V) (hlast : es.getLast? = some e)
    (he : e.displays = true) : (c.run es).Current := by
  obtain ⟨es, rfl⟩ := List.getLast?_eq_some_iff.mp hlast
  rw [run_append]
  exact current_step (c.run es) he

end Converter
