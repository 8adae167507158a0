import Timetable.Trip.Edit

namespace Timetable.Calls

variable {R : Type}

/-- Calls at a stop that have the times that are given. -/
structure Meant (stop : Ident) (arrival departure : Option Int) (c : Call R) : Prop where
  stop : c.stop = stop
  arrival : ∀ time ∈ arrival, c.arrival = time
  departure : ∀ time ∈ departure, c.departure = time

/-- Whether a call sorts strictly before one that is to be inserted: by distance and then arrival
when a distance is given, else by arrival, or by departure if the arrival is negative. -/
def Precedes [Scalar R] (arrival departure : Int) (distance : Option R) (c : Call R) : Prop :=
  match distance with
  | some d => Scalar.lt c.distance d ∨ Scalar.eq c.distance d ∧ c.arrival < arrival
  | none => 0 ≤ arrival ∧ c.arrival < arrival ∨ arrival < 0 ∧ c.departure < departure

section First

variable {p : Call R → Bool} {f : Call R → List (Call R)} {cs ds : List (Call R)}

/-- Puts other calls in the place of the first one that satisfies a condition. -/
def replaceFirst? (p : Call R → Bool) (f : Call R → List (Call R)) :
    List (Call R) → Option (List (Call R))
  | [] => none
  | c :: cs => if p c then some (f c ++ cs) else (replaceFirst? p f cs).map (c :: ·)

theorem replaceFirst?_append {front back : List (Call R)} {c : Call R} (hc : p c)
    (hfront : ∀ b ∈ front, ¬p b) :
    replaceFirst? p f (front ++ c :: back) = some (front ++ (f c ++ back)) := by
  induction front with
  | nil => exact if_pos hc
  | cons b front ih =>
    obtain ⟨hb, hfront⟩ := List.forall_mem_cons.1 hfront
    rw [List.cons_append, replaceFirst?, if_neg hb, ih hfront]
    rfl

theorem replaceFirst?_eq_some_iff : replaceFirst? p f cs = some ds ↔ ∃ front c back,
    cs = front ++ c :: back ∧ ds = front ++ (f c ++ back) ∧ p c ∧ ∀ b ∈ front, ¬p b := by
  constructor
  · intro h
    induction cs generalizing ds with
    | nil => cases h
    | cons b cs ih =>
      rw [replaceFirst?] at h
      split at h
      · next hb =>
        cases h
        exact ⟨[], b, cs, rfl, rfl, hb, nofun⟩
      · next hb =>
        obtain ⟨es, he, rfl⟩ := Option.map_eq_some_iff.1 h
        obtain ⟨front, c, back, rfl, rfl, hc, hfront⟩ := ih he
        exact ⟨b :: front, c, back, rfl, rfl, hc, List.forall_mem_cons.2 ⟨hb, hfront⟩⟩
  · rintro ⟨front, c, back, rfl, rfl, hc, hfront⟩
    exact replaceFirst?_append hc hfront

theorem delete?_eq (stop : Ident) (cs : List (Call R)) :
    delete? stop cs = replaceFirst? (fun c => c.stop = stop) (fun _ => []) cs := by
  induction cs with
  | nil => rfl
  | cons c cs ih => simp only [delete?, replaceFirst?, ih, decide_eq_true_eq, List.nil_append]

theorem retime?_eq (stop : Ident) (arrival departure : Option Int)
    (newArrival newDeparture : Int) (cs : List (Call R)) :
    retime? stop arrival departure newArrival newDeparture cs =
      replaceFirst?
        (fun c => c.stop = stop ∧ arrival.all (· = c.arrival) ∧ departure.all (· = c.departure))
        (fun c => [{ c with arrival := newArrival, departure := newDeparture }]) cs := by
  induction cs with
  | nil => rfl
  | cons c cs ih =>
    simp only [retime?, replaceFirst?, ih, decide_eq_true_eq, List.singleton_append]

theorem meant_iff {stop : Ident} {arrival departure : Option Int} {c : Call R} :
    c.stop = stop ∧ arrival.all (· = c.arrival) ∧ departure.all (· = c.departure) ↔
      Meant stop arrival departure c := by
  have htime (given : Option Int) (time : Int) :
      given.all (· = time) ↔ ∀ t ∈ given, time = t := by
    cases given <;> simp [eq_comm]
  rw [htime, htime]
  exact ⟨fun h => ⟨h.1, h.2.1, h.2.2⟩, fun h => ⟨h.stop, h.arrival, h.departure⟩⟩

theorem delete?_eq_some_iff {stop : Ident} : delete? stop cs = some ds ↔ ∃ front c back,
    cs = front ++ c :: back ∧ ds = front ++ back ∧ c.stop = stop ∧
      ∀ b ∈ front, b.stop ≠ stop := by
  rw [delete?_eq, replaceFirst?_eq_some_iff]
  simp only [List.nil_append, decide_eq_true_eq, ne_eq]

theorem sublist_of_delete? {stop : Ident} (h : delete? stop cs = some ds) :
    ds.Sublist cs ∧ ds.length + 1 = cs.length := by
  obtain ⟨front, c, back, rfl, rfl, -, -⟩ := delete?_eq_some_iff.1 h
  refine ⟨(List.sublist_cons_self c back).append_left front, ?_⟩
  rw [List.length_append, List.length_append, List.length_cons, Nat.add_assoc]

theorem delete?_eq_nil {stop : Ident} (h : delete? stop cs = some []) :
    ∃ c, cs = [c] ∧ c.stop = stop := by
  obtain ⟨front, c, back, rfl, hnil, hc, -⟩ := delete?_eq_some_iff.1 h
  obtain ⟨rfl, rfl⟩ := List.append_eq_nil_iff.1 hnil.symm
  exact ⟨c, rfl, hc⟩

theorem retime?_eq_some_iff {stop : Ident} {arrival departure : Option Int}
    {newArrival newDeparture : Int} :
    retime? stop arrival departure newArrival newDeparture cs = some ds ↔ ∃ front c back,
      cs = front ++ c :: back ∧
      ds = front ++ { c with arrival := newArrival, departure := newDeparture } :: back ∧
      Meant stop arrival departure c ∧ ∀ b ∈ front, ¬Meant stop arrival departure b := by
  rw [retime?_eq, replaceFirst?_eq_some_iff]
  simp only [List.singleton_append, decide_eq_true_eq, meant_iff]

theorem retime?_ne_nil {stop : Ident} {arrival departure : Option Int}
    {newArrival newDeparture : Int} :
    retime? stop arrival departure newArrival newDeparture cs ≠ some [] := by
  intro h
  obtain ⟨front, c, back, -, hnil, -⟩ := retime?_eq_some_iff.1 h
  exact List.append_ne_nil_of_right_ne_nil _ (List.cons_ne_nil _ _) hnil.symm

end First

section Last

variable {α : Type} {p : α → Bool} {front back : List α}

theorem splitAfterLast_of_forall (h : ∀ x ∈ back, p x = false) :
    splitAfterLast p back = ([], back) := by
  induction back with
  | nil => rfl
  | cons x back ih =>
    obtain ⟨hx, hback⟩ := List.forall_mem_cons.1 h
    rw [splitAfterLast, ih hback]
    simp [hx]

/-- There is one way to part a list after its last element with a property. -/
theorem splitAfterLast_append_of (hfront : ∀ x ∈ front.getLast?, p x)
    (hback : ∀ x ∈ back, p x = false) : splitAfterLast p (front ++ back) = (front, back) := by
  induction front with
  | nil => exact splitAfterLast_of_forall hback
  | cons x front ih =>
    rw [List.cons_append, splitAfterLast]
    cases front with
    | nil =>
      have hx : p x := hfront x rfl
      rw [List.nil_append, splitAfterLast_of_forall hback]
      simp [hx]
    | cons y front => rw [ih hfront]

end Last

variable [Scalar R] {arrival departure : Int} {distance : Option R} {spacing : Ident → R}
  {stop : Ident} {cs ds : List (Call R)}

theorem sortsBefore_iff {c : Call R} :
    sortsBefore arrival departure distance c ↔ Precedes arrival departure distance c := by
  cases distance with
  | some d => simp [sortsBefore, Precedes]
  | none =>
    rw [sortsBefore, Precedes]
    split <;> simp <;> omega

theorem insert_ne_nil : insert spacing stop arrival departure distance cs ≠ [] :=
  List.append_ne_nil_of_right_ne_nil _ (List.cons_ne_nil _ _)

/-- Inserting puts the new call behind the last one that precedes it, or first if none does, and
changes nothing else. -/
theorem insert_eq_iff : insert spacing stop arrival departure distance cs = ds ↔
    ∃ front c back, cs = front ++ back ∧ ds = front ++ c :: back ∧
      c = { stop, published := none, arrival, departure
            distance := distance.getD (between spacing front.getLast? back.head?) } ∧
      (∀ b ∈ front.getLast?, Precedes arrival departure distance b) ∧
      ∀ b ∈ back, ¬Precedes arrival departure distance b := by
  simp only [← sortsBefore_iff]
  constructor
  · rintro rfl
    refine ⟨_, _, _, (splitAfterLast_append (sortsBefore arrival departure distance) cs).symm, rfl,
      rfl, eq_true_of_getLast?_splitAfterLast _ cs, fun b hb => ?_⟩
    rw [eq_false_of_mem_splitAfterLast _ cs b hb]
    exact Bool.false_ne_true
  · rintro ⟨front, c, back, rfl, rfl, rfl, hfront, hback⟩
    rw [insert, splitAfterLast_append_of hfront fun b hb => Bool.eq_false_iff.2 (hback b hb)]

end Timetable.Calls
