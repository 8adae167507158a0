import Timetable.Dynamic.Basic
import Timetable.Proofs.Table

namespace Timetable

variable {R : Type}

theorem find?_eq_some_of_imp {α : Type} {p q : α → Bool} {l : List α} {a : α}
    (h : l.find? p = some a) (ha : q a) (himp : ∀ b ∈ l.takeWhile (!p ·), q b → p b) :
    l.find? q = some a := by
  induction l with
  | nil => cases h
  | cons b l ih =>
    rw [List.find?_cons] at h ⊢
    rw [List.takeWhile_cons] at himp
    cases hp : p b with
    | true =>
      rw [hp] at h
      cases h
      rw [ha]
    | false =>
      rw [hp] at h himp
      obtain ⟨hb, hl⟩ := List.forall_mem_cons.1 himp
      have hq : q b = false := by
        rw [Bool.eq_false_iff]
        exact fun hq => Bool.false_ne_true (hp.symm.trans (hb hq))
      rw [hq]
      exact ih h hl

/-- A running block and the schedule at the time at which it is registered. -/
structure Registration (R : Type) where
  schedule : Schedule R
  run : BlockRun R

namespace Registration

def configuration (r : Registration R) : Configuration R := r.run.configuration

def block (r : Registration R) : Ident := r.configuration.block

def latest? (rs : List (Registration R)) (block : Ident) : Option (Registration R) :=
  rs.reverse.find? fun r => r.block = block

theorem latest?_append (rs : List (Registration R)) (r : Registration R) (block : Ident) :
    latest? (rs ++ [r]) block = if r.block = block then some r else latest? rs block := by
  rw [latest?, List.reverse_append, List.reverse_singleton, List.singleton_append, List.find?_cons]
  split
  · next h => rw [if_pos (of_decide_eq_true h)]
  · next h => rw [if_neg (of_decide_eq_false h), latest?]

theorem mem_of_latest? {rs : List (Registration R)} {r : Registration R} {block : Ident}
    (h : latest? rs block = some r) : r ∈ rs ∧ r.block = block := by
  constructor
  · exact List.mem_reverse.1 (List.mem_of_find?_eq_some h)
  · simpa using List.find?_some h

theorem exists_latest? {rs : List (Registration R)} {r : Registration R} (h : r ∈ rs) :
    ∃ s, latest? rs r.block = some s := by
  rw [← Option.isSome_iff_exists, latest?, List.find?_isSome]
  exact ⟨r, List.mem_reverse.2 h, decide_eq_true rfl⟩

def shuttle (id block stop : String) (time : Int) : Trip Float :=
  .ofCalls ⟨"A", id⟩ ⟨"A", "R"⟩ (some ⟨"A", block⟩) ⟨"A", "S"⟩
    [{ stop := ⟨"A", stop⟩, published := none, arrival := time, departure := time, distance := 0 }]

/-- A block of trips that run in the given order, registered while nothing is scheduled. -/
def ofTrips (block : String) (ts : List (Trip Float)) : Registration Float :=
  { schedule := .empty
    run :=
      { configuration :=
          { block := ⟨"A", block⟩, services := .single ⟨"A", "S"⟩, legs := ts.map fun t => ⟨t, 0⟩ }
        date := default
        narratives := ∅ } }

end Registration

namespace Dynamic

open Registration

theorem foldl_registerTrip (routes : Table Ident Route) (run : BlockRun R) (ts : List (Trip R))
    (d : Dynamic R) : ts.foldl (registerTrip routes run) d =
      { d with
        trips := ts.foldl (fun trips t => trips.insert t.id t) d.trips
        routes := ts.foldl (fun rs t =>
          addToRoute rs t.route (BlockIndex.collectionOf routes t.route) t.id) d.routes
        byCollection := ts.foldl (fun lists t =>
          relist lists (BlockIndex.collectionOf routes t.route) run.configuration) d.byCollection
        narratives := ts.foldl (fun ns t =>
          ns.insert t.id (run.narratives[t.id]?.getD {})) d.narratives } := by
  induction ts generalizing d with
  | nil => rfl
  | cons t ts ih => rw [List.foldl_cons, ih]; rfl

variable [Zero R] [Add R]

section Register

variable (d : Dynamic R) (r : Registration R)

def accept : Dynamic R := d.register r.schedule r.run

theorem accept_eq : d.accept r =
    { runs := d.runs.insert r.block r.run
      trips := r.configuration.members.foldl (fun trips t => trips.insert t.id t) d.trips
      blocks := d.blocks.insert r.block { id := r.block, configurations := [r.configuration] }
      routes := r.configuration.members.foldl (fun rs t =>
        addToRoute rs t.route (BlockIndex.collectionOf r.schedule.routes t.route) t.id) d.routes
      narratives := r.configuration.members.foldl (fun ns t =>
        ns.insert t.id (r.run.narratives[t.id]?.getD {})) d.narratives
      byCollection := r.configuration.members.foldl (fun lists t => relist lists
        (BlockIndex.collectionOf r.schedule.routes t.route) r.configuration) d.byCollection
      byBlock := d.byBlock.insert r.block [r.configuration]
      byStop := (StopIndex.ofConfigurations [r.configuration]).toList.foldl
        (fun t e => t.insert e.1 (addDepartures (t.listAt e.1) e.2)) d.byStop } := by
  rw [accept, register, foldl_registerTrip]
  rfl

@[simp] theorem blocks_accept : (d.accept r).blocks =
    d.blocks.insert r.block { id := r.block, configurations := [r.configuration] } := by
  rw [accept_eq]

@[simp] theorem runs_accept : (d.accept r).runs = d.runs.insert r.block r.run := by
  rw [accept_eq]

@[simp] theorem byBlock_accept :
    (d.accept r).byBlock = d.byBlock.insert r.block [r.configuration] := by
  rw [accept_eq]

theorem routes_accept : (d.accept r).routes = r.configuration.members.foldl (fun rs t =>
    addToRoute rs t.route (BlockIndex.collectionOf r.schedule.routes t.route) t.id) d.routes := by
  rw [accept_eq]

theorem byCollection_accept : (d.accept r).byCollection =
    r.configuration.members.foldl (fun lists t => relist lists
      (BlockIndex.collectionOf r.schedule.routes t.route) r.configuration) d.byCollection := by
  rw [accept_eq]

theorem trips_accept : (d.accept r).trips =
    r.configuration.members.foldl (fun trips t => trips.insert t.id t) d.trips := by
  rw [accept_eq]

theorem mem_trips_accept {id : Ident} : id ∈ (d.accept r).trips ↔
    id ∈ d.trips ∨ ∃ t ∈ r.configuration.members, t.id = id := by
  rw [trips_accept, Std.ExtTreeMap.mem_iff_isSome_getElem?, Table.getElem?_foldl_insert Trip.id,
    Option.isSome_or, Bool.or_eq_true, List.find?_isSome, Std.ExtTreeMap.mem_iff_isSome_getElem?,
    or_comm]
  simp only [List.mem_reverse, decide_eq_true_eq]

def indicesAt (c : Configuration R) (stop : Ident) : List (StopIndex R) :=
  (StopIndex.ofConfigurations [c]).listAt stop

theorem listAt_byStop_accept (stop : Ident) : (d.accept r).byStop.listAt stop =
    addDepartures (d.byStop.listAt stop) (indicesAt r.configuration stop) := by
  rw [accept_eq]
  exact Table.listAt_merge addDepartures (fun _ => rfl) d.byStop _ stop

end Register

def registerAll (rs : List (Registration R)) : Dynamic R := rs.foldl accept empty

@[simp] theorem registerAll_append (rs : List (Registration R)) (r : Registration R) :
    registerAll (rs ++ [r]) = (registerAll rs).accept r := by
  rw [registerAll, List.foldl_append, List.foldl_cons, List.foldl_nil, registerAll]

section Latest

variable (rs : List (Registration R)) (block : Ident)

/-- A table in which each registration writes under its block shows the latest ones. -/
theorem getElem?_registerAll {V : Type} (table : Dynamic R → Table Ident V)
    (f : Registration R → V) (hempty : table empty = ∅)
    (haccept : ∀ d r, table (d.accept r) = (table d).insert r.block (f r)) :
    (table (registerAll rs))[block]? = (latest? rs block).map f := by
  induction rs using List.reverseRecOn with
  | nil =>
    have hnone : (table (registerAll []))[block]? = none := by
      rw [registerAll, List.foldl_nil, hempty, Std.ExtTreeMap.getElem?_empty]
    exact hnone
  | append_singleton rs r ih =>
    rw [registerAll_append, haccept, Table.getElem?_insert, ih, latest?_append]
    split <;> rfl

theorem blocks_registerAll : (registerAll rs).blocks[block]? =
    (latest? rs block).map fun r => { id := block, configurations := [r.configuration] } := by
  rw [getElem?_registerAll rs block blocks _ rfl blocks_accept]
  apply Option.map_congr
  intro r hr
  rw [(mem_of_latest? hr).2]

theorem runs_registerAll : (registerAll rs).runs[block]? = (latest? rs block).map (·.run) :=
  getElem?_registerAll rs block runs _ rfl runs_accept

theorem byBlock_registerAll :
    (registerAll rs).byBlock[block]? = (latest? rs block).map fun r => [r.configuration] :=
  getElem?_registerAll rs block byBlock _ rfl byBlock_accept

end Latest

end Dynamic

end Timetable
