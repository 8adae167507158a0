import Timetable.Trip.Basic

namespace Timetable.Calls

variable {R : Type} [Scalar R]

def delete? (stop : Ident) : List (Call R) → Option (List (Call R))
  | [] => none
  | c :: cs => if c.stop = stop then some cs else (delete? stop cs).map (c :: ·)

/-- Gives new times to the first call at a stop whose times are the given ones; a time that is not
given may be any. -/
def retime? (stop : Ident) (arrival departure : Option Int) (newArrival newDeparture : Int) :
    List (Call R) → Option (List (Call R))
  | [] => none
  | c :: cs =>
    if c.stop = stop ∧ arrival.all (· = c.arrival) ∧ departure.all (· = c.departure) then
      some ({ c with arrival := newArrival, departure := newDeparture } :: cs)
    else (retime? stop arrival departure newArrival newDeparture cs).map (c :: ·)

/-- Whether a call sorts strictly before one with the given times and distance: by distance and
then arrival when a distance is given, else by arrival, or by departure if the arrival is
negative. -/
def sortsBefore (arrival departure : Int) (distance : Option R) (c : Call R) : Bool :=
  match distance with
  | some d => Scalar.lt c.distance d || (Scalar.eq c.distance d && c.arrival < arrival)
  | none => if 0 ≤ arrival then c.arrival < arrival else c.departure < departure

def splitAfterLast {α : Type} (p : α → Bool) : List α → List α × List α
  | [] => ([], [])
  | x :: xs =>
    match splitAfterLast p xs with
    | ([], back) => if p x then ([x], back) else ([], x :: back)
    | (front, back) => (x :: front, back)

@[simp] theorem splitAfterLast_append {α : Type} (p : α → Bool) (xs : List α) :
    (splitAfterLast p xs).1 ++ (splitAfterLast p xs).2 = xs := by
  fun_induction splitAfterLast p xs with
  | case1 => rfl
  | case2 x xs back h hp ih => simpa [h] using ih
  | case3 x xs back h hp ih => simpa [h] using ih
  | case4 x xs front back hne h ih => simpa [h] using ih

theorem eq_false_of_mem_splitAfterLast {α : Type} (p : α → Bool) (xs : List α) :
    ∀ x ∈ (splitAfterLast p xs).2, p x = false := by
  fun_induction splitAfterLast p xs <;> simp_all

theorem eq_true_of_getLast?_splitAfterLast {α : Type} (p : α → Bool) (xs : List α) :
    ∀ x ∈ (splitAfterLast p xs).1.getLast?, p x = true := by
  fun_induction splitAfterLast p xs with
  | case1 => simp
  | case2 x xs back h hp ih => simpa using hp
  | case3 => simp
  | case4 x xs front back hne h ih =>
    cases front with
    | nil => simp_all
    | cons y front => simpa [h] using ih

/-- The distance for a call between two neighbours: half way between them; before the first call
half of its distance, or a step of `spacing` before it when that is not positive; after the last
call a step of `spacing`. -/
def between (spacing : Ident → R) : Option (Call R) → Option (Call R) → R
  | some before, some after => Scalar.half (before.distance + after.distance)
  | none, some first =>
    if Scalar.lt 0 first.distance then Scalar.half first.distance
    else first.distance - spacing first.stop
  | some last, none => last.distance + spacing last.stop
  | none, none => 0

/-- Inserts a call at a stop. `spacing` is how far to step from a neighbouring stop when the call
goes to an end of the trip and its distance is not given. -/
def insert (spacing : Ident → R) (stop : Ident) (arrival departure : Int) (distance : Option R)
    (cs : List (Call R)) : List (Call R) :=
  let (front, back) := splitAfterLast (sortsBefore arrival departure distance) cs
  let d := distance.getD (between spacing front.getLast? back.head?)
  front ++ { stop, published := none, arrival, departure, distance := d } :: back

end Timetable.Calls
