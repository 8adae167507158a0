import Timetable.Change.Set
import Timetable.Geo.Sphere
import Timetable.Proofs.Table
import Timetable.Schedule.Edit

namespace Timetable

variable {R : Type}

namespace StopChange

def moves (c : StopChange R) : Bool := c.lat.isSome || c.lon.isSome

def place (l : Location R) (c : StopChange R) : Location R := ⟨c.lat.getD l.lat, c.lon.getD l.lon⟩

/-- What is noted of a change of a stop that has a place and perhaps a name. -/
def noted (c : StopChange R) (l : Location R) (name : Option String) : StopChange R where
  stop := c.stop
  name := c.name.bind fun _ => name
  lat := if c.moves then some l.lat else none
  lon := if c.moves then some l.lon else none

theorem place_eq_self {c : StopChange R} (h : c.moves = false) (l : Location R) :
    c.place l = l := by
  obtain ⟨hlat, hlon⟩ := Bool.or_eq_false_iff.1 h
  rw [Option.isSome_eq_false_iff, Option.isNone_iff_eq_none] at hlat hlon
  rw [place, hlat, hlon]
  rfl

@[simp] theorem stop_noted (c : StopChange R) (l : Location R) (name : Option String) :
    (c.noted l name).stop = c.stop :=
  rfl

@[simp] theorem moves_noted (c : StopChange R) (l : Location R) (name : Option String) :
    (c.noted l name).moves = c.moves := by
  have hmoves : (c.noted l name).moves =
      ((if c.moves then some l.lat else none).isSome ||
        (if c.moves then some l.lon else none).isSome) := rfl
  rw [hmoves]
  cases c.moves <;> rfl

theorem place_noted {c : StopChange R} (h : c.moves) (k l : Location R) (name : Option String) :
    (c.noted l name).place k = l := by
  simp [place, noted, h]

end StopChange

def movesOf (stop : Ident) (cs : List (StopChange R)) : List (StopChange R) :=
  cs.filter fun c => c.stop = stop ∧ c.moves

def namesOf (stop : Ident) (cs : List (StopChange R)) : List String :=
  cs.filterMap fun c => if c.stop = stop then c.name else none

def placeAfter (stop : Ident) (cs : List (StopChange R)) (l : Location R) : Location R :=
  (movesOf stop cs).foldl StopChange.place l

section Lists

variable {stop : Ident} {cs : List (StopChange R)} {c : StopChange R}

@[simp] theorem movesOf_concat (cs : List (StopChange R)) (c : StopChange R) :
    movesOf stop (cs ++ [c]) =
      movesOf stop cs ++ if c.stop = stop ∧ c.moves then [c] else [] := by
  rw [movesOf, List.filter_append, List.filter_singleton]
  simp [movesOf]

@[simp] theorem placeAfter_concat (cs : List (StopChange R)) (c : StopChange R) (l : Location R) :
    placeAfter stop (cs ++ [c]) l =
      if c.stop = stop then c.place (placeAfter stop cs l) else placeAfter stop cs l := by
  rw [placeAfter, movesOf_concat, List.foldl_append, ← placeAfter]
  cases hmoves : c.moves with
  | false => simp [StopChange.place_eq_self hmoves]
  | true =>
    by_cases he : c.stop = stop
    · simp [he]
    · simp [he]

@[simp] theorem namesOf_concat (cs : List (StopChange R)) (c : StopChange R) :
    namesOf stop (cs ++ [c]) =
      namesOf stop cs ++ (if c.stop = stop then c.name else none).toList := by
  rw [namesOf, List.filterMap_append, List.filterMap_cons, List.filterMap_nil]
  split <;> simp [namesOf, *]

end Lists

namespace Schedule

variable {g : Schedule R} {r : StopChanges R} {c : StopChange R} {s : Stop R}

theorem moveNoting_eq {u : StopChange R} (stored : g.stops[u.stop]? = some s) :
    moveNoting (g, u) s c.lat c.lon =
      ({ g with stops := g.stops.insert u.stop { s with location := c.place s.location } },
        { u with
          lat := if c.moves then some s.location.lat else u.lat
          lon := if c.moves then some s.location.lon else u.lon }) := by
  cases hmoves : c.moves with
  | true =>
    have hany : (c.lat.isNone && c.lon.isNone) = false := by
      rw [StopChange.moves] at hmoves
      rw [← Bool.not_eq_true', Bool.not_and, Option.not_isNone, Option.not_isNone, hmoves]
    simp only [moveNoting, hany, moveStop, stored]
    rfl
  | false =>
    have hnone : (c.lat.isNone && c.lon.isNone) = true := by
      rw [StopChange.moves] at hmoves
      rw [← Option.not_isSome, ← Option.not_isSome, ← Bool.not_or, hmoves]
      rfl
    rw [StopChange.place_eq_self hmoves, Table.insert_self stored, moveNoting, if_pos hnone]
    rfl

theorem changeStopNoting_eq (stored : g.stops[c.stop]? = some s) :
    changeStopNoting (g, r) c =
      ({ g with
          stops := g.stops.insert c.stop { s with location := c.place s.location }
          stopNames := c.name.elim g.stopNames (g.stopNames.insert c.stop) },
        r.add (c.noted s.location g.stopNames[c.stop]?)) := by
  generalize hnames : c.name.elim g.stopNames (g.stopNames.insert c.stop) = names
  generalize hname : (c.name.bind fun _ => g.stopNames[c.stop]?) = name
  have hrename : renameNoting (g, { stop := c.stop }) c.name =
      ({ g with stopNames := names }, { stop := c.stop, name }) := by
    rw [← hnames, ← hname]
    cases c.name <;> rfl
  have hmove := moveNoting_eq (c := c) (g := { g with stopNames := names })
    (u := { stop := c.stop, name }) stored
  simp only [changeStopNoting, stored, hrename, hmove, StopChange.noted, hname]

theorem changeStopNoting_absent (absent : g.stops[c.stop]? = none) :
    changeStopNoting (g, r) c = (g, r) := by
  simp only [changeStopNoting, absent]

section Change

variable (g : Schedule R) (r : StopChanges R) (c : StopChange R) (stop : Ident)

theorem stops_changeStopNoting :
    (changeStopNoting (g, r) c).1.stops[stop]? = (g.stops[stop]?).map fun s =>
      { s with location := if c.stop = stop then c.place s.location else s.location } := by
  by_cases he : c.stop = stop
  · subst he
    cases stored : g.stops[c.stop]? with
    | none => rw [changeStopNoting_absent stored, stored]; rfl
    | some s =>
      simp [changeStopNoting_eq stored]
  · have hkeep : (changeStopNoting (g, r) c).1.stops[stop]? = g.stops[stop]? := by
      cases stored : g.stops[c.stop]? with
      | none => rw [changeStopNoting_absent stored]
      | some s => simp [changeStopNoting_eq stored, he]
    simp only [hkeep, if_neg he]
    exact Option.map_id'.symm

variable {g stop}

theorem stopNames_changeStopNoting (known : stop ∈ g.stops) :
    (changeStopNoting (g, r) c).1.stopNames[stop]? =
      (if c.stop = stop then c.name else none).or g.stopNames[stop]? := by
  cases stored : g.stops[c.stop]? with
  | none =>
    have hne : c.stop ≠ stop := by
      rintro rfl
      exact (getElem?_eq_none_iff _ _).1 stored known
    rw [changeStopNoting_absent stored, if_neg hne, Option.none_or]
  | some s =>
    rw [changeStopNoting_eq stored]
    cases c.name with
    | none =>
      rw [ite_self, Option.none_or]
      rfl
    | some name =>
      rw [Option.elim_some, Table.getElem?_insert]
      split
      · rfl
      · rfl

theorem stopNames_changeStopNoting_unknown (unknown : stop ∉ g.stops) :
    (changeStopNoting (g, r) c).1.stopNames[stop]? = g.stopNames[stop]? := by
  cases stored : g.stops[c.stop]? with
  | none => rw [changeStopNoting_absent stored]
  | some s =>
    have hne : c.stop ≠ stop := by
      rintro rfl
      exact unknown (Table.mem_of_getElem? stored)
    rw [changeStopNoting_eq stored]
    cases c.name with
    | none => rfl
    | some name => simp [hne]

theorem changes_changeStopNoting : (changeStopNoting (g, r) c).2.changes =
    r.changes ++ ((g.stops[c.stop]?).map fun s =>
      c.noted s.location g.stopNames[c.stop]?).toList := by
  cases stored : g.stops[c.stop]? with
  | none =>
    rw [changeStopNoting_absent stored]
    exact (List.append_nil _).symm
  | some s =>
    rw [changeStopNoting_eq stored]
    rfl

theorem namesOf_changeStopNoting (known : stop ∈ g.stops) :
    namesOf stop (changeStopNoting (g, r) c).2.changes = namesOf stop r.changes ++
      ((if c.stop = stop then c.name else none).bind fun _ => g.stopNames[stop]?).toList := by
  rw [changes_changeStopNoting]
  cases stored : g.stops[c.stop]? with
  | none =>
    have hne : c.stop ≠ stop := by
      rintro rfl
      exact (getElem?_eq_none_iff _ _).1 stored known
    simp [hne]
  | some s =>
    rw [Option.map_some, Option.toList_some, namesOf_concat, StopChange.stop_noted]
    split
    · next he =>
      rw [he]
      rfl
    · rfl

theorem movesOf_changeStopNoting (stored : g.stops[stop]? = some s) :
    movesOf stop (changeStopNoting (g, r) c).2.changes = movesOf stop r.changes ++
      if c.stop = stop ∧ c.moves then [c.noted s.location g.stopNames[stop]?] else [] := by
  rw [changes_changeStopNoting]
  by_cases he : c.stop = stop
  · subst he
    simp [stored, movesOf_concat]
  · rw [if_neg fun h => he h.1, List.append_nil]
    cases g.stops[c.stop]? with
    | none => rw [Option.map_none, Option.toList_none, List.append_nil]
    | some u =>
      rw [Option.map_some, Option.toList_some, movesOf_concat, StopChange.stop_noted,
        if_neg fun h => he h.1, List.append_nil]

end Change

section Forth

variable (g : Schedule R) (stop : Ident) (cs : List (StopChange R))

theorem applyStops_concat (c : StopChange R) :
    g.applyStops ⟨cs ++ [c]⟩ = changeStopNoting (g.applyStops ⟨cs⟩) c :=
  List.foldl_append

theorem stops_applyStops : (g.applyStops ⟨cs⟩).1.stops[stop]? =
    (g.stops[stop]?).map fun s => { s with location := placeAfter stop cs s.location } := by
  induction cs using List.reverseRecOn with
  | nil => exact Option.map_id'.symm
  | append_singleton cs c ih =>
    rw [applyStops_concat, stops_changeStopNoting, ih, Option.map_map]
    simp [Function.comp_def]

@[simp] theorem mem_stops_applyStops : stop ∈ (g.applyStops ⟨cs⟩).1.stops ↔ stop ∈ g.stops := by
  rw [← Std.ExtTreeMap.isSome_getElem?_iff_mem, stops_applyStops, Option.isSome_map,
    Std.ExtTreeMap.isSome_getElem?_iff_mem]

theorem stopNames_applyStops (known : stop ∈ g.stops) : (g.applyStops ⟨cs⟩).1.stopNames[stop]? =
    ((namesOf stop cs).getLast?).or g.stopNames[stop]? := by
  induction cs using List.reverseRecOn with
  | nil => rfl
  | append_singleton cs c ih =>
    have hknown := (mem_stops_applyStops g stop cs).2 known
    rw [applyStops_concat, stopNames_changeStopNoting _ _ hknown, ih, namesOf_concat]
    cases (if c.stop = stop then c.name else none) with
    | none => simp
    | some name => simp

theorem stopNames_applyStops_unknown (unknown : stop ∉ g.stops) :
    (g.applyStops ⟨cs⟩).1.stopNames[stop]? = g.stopNames[stop]? := by
  induction cs using List.reverseRecOn with
  | nil => rfl
  | append_singleton cs c ih =>
    have hunknown : stop ∉ (g.applyStops ⟨cs⟩).1.stops := by simpa using unknown
    rw [applyStops_concat, stopNames_changeStopNoting_unknown _ _ hunknown, ih]

end Forth

section Back

variable {g : Schedule R} {stop : Ident} {s : Stop R}

/-- What is noted of a stop leads from where it is to where the last change found it. -/
theorem placeAfter_notes (stored : g.stops[stop]? = some s) (cs : List (StopChange R)) :
    placeAfter stop (g.applyStops ⟨cs⟩).2.changes (placeAfter stop cs s.location) =
      (movesOf stop cs).dropLast.foldl StopChange.place s.location := by
  induction cs using List.reverseRecOn with
  | nil => rfl
  | append_singleton cs c ih =>
    have hstored : (g.applyStops ⟨cs⟩).1.stops[stop]? =
        some { s with location := placeAfter stop cs s.location } := by
      rw [stops_applyStops, stored, Option.map_some]
    rw [placeAfter, applyStops_concat, movesOf_changeStopNoting _ _ hstored, List.foldl_append,
      ← placeAfter, placeAfter_concat, movesOf_concat]
    by_cases h : c.stop = stop ∧ c.moves
    · rw [if_pos h, if_pos h, List.foldl_cons, List.foldl_nil, StopChange.place_noted h.2,
        List.dropLast_concat]
      rfl
    · have hkeep : (if c.stop = stop then c.place (placeAfter stop cs s.location)
          else placeAfter stop cs s.location) = placeAfter stop cs s.location := by
        rw [← placeAfter_concat, placeAfter, movesOf_concat, if_neg h, List.append_nil]
        rfl
      rw [if_neg h, if_neg h, List.foldl_nil, List.append_nil, hkeep]
      exact ih

theorem namesOf_notes (known : stop ∈ g.stops) (cs : List (StopChange R)) :
    ((namesOf stop (g.applyStops ⟨cs⟩).2.changes).getLast?).or
        (g.applyStops ⟨cs⟩).1.stopNames[stop]? =
      (((namesOf stop cs).dropLast.getLast?).or g.stopNames[stop]?).or
        (namesOf stop cs).getLast? := by
  induction cs using List.reverseRecOn with
  | nil => exact (Option.or_none).symm
  | append_singleton cs c ih =>
    have hknown := (mem_stops_applyStops g stop cs).2 known
    rw [applyStops_concat, namesOf_changeStopNoting _ _ hknown,
      stopNames_changeStopNoting _ _ hknown, namesOf_concat]
    cases (if c.stop = stop then c.name else none) with
    | none => simpa using ih
    | some name =>
      rw [stopNames_applyStops g stop cs known] at ih ⊢
      rw [Option.bind_some, Option.toList_some, List.dropLast_concat, List.getLast?_concat,
        Option.some_or]
      cases hfound : ((namesOf stop cs).getLast?).or g.stopNames[stop]? with
      | some found => rw [Option.toList_some, List.getLast?_concat, Option.some_or]
      | none =>
        obtain ⟨hlast, hname⟩ := Option.or_eq_none_iff.1 hfound
        have hnil : namesOf stop cs = [] := List.getLast?_eq_none_iff.1 hlast
        rw [hname, hnil] at ih
        have hnone := (Option.or_eq_none_iff.1 ih).1
        rw [Option.toList_none, List.append_nil, hnone]

end Back

theorem stops_undone (g : Schedule R) (c : StopChanges R) (stop : Ident) :
    ((g.applyStops c).1.applyStops (g.applyStops c).2).1.stops[stop]? =
      (g.stops[stop]?).map fun s => { s with
        location := (movesOf stop c.changes).dropLast.foldl StopChange.place s.location } := by
  rw [stops_applyStops, stops_applyStops]
  cases stored : g.stops[stop]? with
  | none => rfl
  | some s => rw [Option.map_some, Option.map_some, Option.map_some, placeAfter_notes stored]

theorem stopNames_undone {g : Schedule R} {stop : Ident} (known : stop ∈ g.stops)
    (c : StopChanges R) :
    ((g.applyStops c).1.applyStops (g.applyStops c).2).1.stopNames[stop]? =
      (((namesOf stop c.changes).dropLast.getLast?).or g.stopNames[stop]?).or
        (namesOf stop c.changes).getLast? := by
  rw [stopNames_applyStops _ _ _ ((mem_stops_applyStops g stop c.changes).2 known)]
  exact namesOf_notes known c.changes

/-- Whatever changes are asked for, what is noted while they are applied leaves every stop its index
and brings it back to its place if and only if the changes that move it, but for the last, together
lead to where it was. A stop gets its name back if and only if the last name but one that was given
to it, if there was one, is the name that it had; if it had none, no name may be given. -/
theorem applyStops_undone_iff (g : Schedule R) (c : StopChanges R) (stop : Ident) :
    let done := g.applyStops c
    let undone := done.1.applyStops done.2
    (undone.1.stops[stop]?).map (·.index) = (g.stops[stop]?).map (·.index) ∧
    (undone.1.stops[stop]? = g.stops[stop]? ↔ ∀ s, g.stops[stop]? = some s →
      (movesOf stop c.changes).dropLast.foldl StopChange.place s.location = s.location) ∧
    (undone.1.stopNames[stop]? = g.stopNames[stop]? ↔ (stop ∈ g.stops →
      match g.stopNames[stop]? with
      | some name => ∀ former ∈ (namesOf stop c.changes).dropLast.getLast?, former = name
      | none => namesOf stop c.changes = [])) := by
  intro done undone
  have hstops : undone.1.stops[stop]? = _ := stops_undone g c stop
  refine ⟨?_, ?_, ?_⟩
  · rw [hstops, Option.map_map]
    rfl
  · rw [hstops]
    cases g.stops[stop]? with
    | none => simp
    | some s =>
      rw [Option.map_some, Option.some.injEq]
      constructor
      · rintro h _ ⟨⟩
        exact congrArg Stop.location h
      · intro h
        rw [h s rfl]
  · by_cases known : stop ∈ g.stops
    · have hnames : undone.1.stopNames[stop]? = _ := stopNames_undone known c
      rw [hnames, forall_prop_of_true known]
      cases g.stopNames[stop]? with
      | none =>
        rw [Option.or_none, Option.or_eq_none_iff, List.getLast?_eq_none_iff,
          List.getLast?_eq_none_iff]
        exact and_iff_right_of_imp fun hnil => by rw [hnil]; rfl
      | some name => cases (namesOf stop c.changes).dropLast.getLast? <;> simp
    · have hunknown : stop ∉ done.1.stops := by rwa [mem_stops_applyStops]
      have hkept : undone.1.stopNames[stop]? = g.stopNames[stop]? :=
        (stopNames_applyStops_unknown _ _ _ hunknown).trans
          (stopNames_applyStops_unknown _ _ _ known)
      exact iff_of_true hkept fun h => (known h).elim

def namelessDay : List (Edit Float) :=
  [.addStop { id := ⟨"A", "X"⟩, location := ⟨1, 1⟩, name := none }]

/-- The stop gets a name and is moved, and then it is moved again. -/
def movedTwice : StopChanges Float where
  changes := [{ stop := ⟨"A", "X"⟩, name := some "Square", lat := some 2 },
    { stop := ⟨"A", "X"⟩, lat := some 3 }]

/-- The undo leaves the stop where the first change had moved it, and with the name. -/
theorem applyStops_astray_movedTwice :
    let stop : Ident := ⟨"A", "X"⟩
    let g := empty.run namelessDay
    let done := g.applyStops movedTwice
    let undone := done.1.applyStops done.2
    g.Reachable ∧
    (g.stops[stop]?).any (·.location.lat == 1) ∧ g.stopNames[stop]? = none ∧
    (undone.1.stops[stop]?).any (·.location.lat == 2) ∧
    undone.1.stopNames[stop]? = some "Square" ∧
    (¬∀ id : Ident, undone.1.stops[id]? = g.stops[id]?) ∧
    ¬∀ id : Ident, undone.1.stopNames[id]? = g.stopNames[id]? := by
  intro stop g done undone
  have hplace : (g.stops[stop]?).any (·.location.lat == 1) := by decide +kernel
  have hnone : g.stopNames[stop]? = none := by decide +kernel
  have hmoved : (undone.1.stops[stop]?).any (·.location.lat == 2) := by decide +kernel
  have hname : undone.1.stopNames[stop]? = some "Square" := by decide +kernel
  refine ⟨⟨namelessDay, rfl⟩, hplace, hnone, hmoved, hname, fun h => ?_, fun h => ?_⟩
  · rw [h stop] at hmoved
    revert hmoved
    decide +kernel
  · rw [h stop, hnone] at hname
    cases hname

end Schedule

end Timetable
