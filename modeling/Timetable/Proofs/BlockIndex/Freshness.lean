import Timetable.Engine
import Timetable.Proofs.BlockIndex.Unshaped
import Timetable.Proofs.Schedule.Blocks

namespace Timetable

variable {R : Type}

namespace Schedule

@[simp] theorem version_fileRoute (g : Schedule R) (route collection : Ident) :
    (g.fileRoute route collection).version = g.version := by
  rw [fileRoute_eq]

variable [Zero R] {g h : Schedule R}

@[simp] theorem version_withdraw (g : Schedule R) (id : Ident) (t : Trip R) :
    (g.withdraw id t).version = g.version + 1 := by
  obtain ⟨blocks, hd, _⟩ := detach_eq { g with trips := g.trips.erase id } t
  rw [withdraw, hd]
  rfl

theorem Step.version_le (hs : Step g h) : g.version ≤ h.version := by
  cases hs with
  | aside same later => exact later
  | agency id timezone _ => exact Nat.le_refl _
  | route route collection _ _ => exact Nat.le_of_eq (version_fileRoute g route collection).symm
  | enter t _ _ _ _ => exact Nat.le_succ _
  | withdraw id t _ =>
    rw [version_withdraw]
    exact Nat.le_succ _
  | replan id t calls _ => exact Nat.le_succ _
  | reshape id t shape _ => exact Nat.le_refl _

theorem Steps.version_le (hs : Steps g h) : g.version ≤ h.version :=
  hs.induction (fun _ _ hf hs => Nat.le_trans hf hs.version_le) (Nat.le_refl _)

theorem Consistent.mem_routes (hg : Consistent g) {c : Configuration R}
    (hc : c ∈ g.blocks.values.flatMap (·.configurations)) {route : Ident}
    (hroute : route ∈ c.routes) : route ∈ g.routes := by
  rw [Configuration.routes, List.mem_eraseDups, List.mem_map] at hroute
  obtain ⟨leg, hleg, rfl⟩ := hroute
  have ht : leg.trip ∈ g.trips.values := by
    obtain ⟨b, hb, hcb⟩ := List.mem_flatMap.1 hc
    rw [← hg.members_perm.mem_iff]
    exact List.mem_flatMap.2 ⟨b, hb, List.mem_flatMap.2 ⟨c, hcb, List.mem_map_of_mem hleg⟩⟩
  exact hg.routed leg.trip.id leg.trip (hg.keyed.mem_values.1 ht)

end Schedule

namespace BlockIndex

open Schedule

theorem collectionsOf_congr {routes routes' : Table Ident Route} {c : Configuration R}
    (h : ∀ route ∈ c.routes, routes'[route]? = routes[route]?) :
    collectionsOf routes' c = collectionsOf routes c := by
  rw [collectionsOf, collectionsOf]
  congr 1
  apply List.map_congr_left
  intro route hroute
  rw [collectionOf, h route hroute, collectionOf]

variable [Zero R] {g h : Schedule R}

theorem unshaped_blocks_reshape (hg : Consistent g) {id : Ident} {t : Trip R}
    (stored : g.trips[id]? = some t) (shape : Option Ident) :
    ((g.revise id { t with shape }).blocks.map fun _ => Block.unshaped) =
      g.blocks.map fun _ => Block.unshaped := by
  apply Std.ExtTreeMap.ext_getElem?
  intro block
  rw [Std.ExtTreeMap.getElem?_map, Std.ExtTreeMap.getElem?_map, blocks_revise]
  split
  · cases hb : g.blocks[block]? with
    | none => rfl
    | some b =>
      have hunshaped : ∀ s ∈ g.tripsOf block, s.id = t.id →
          s.unshaped = Trip.unshaped { t with shape } := by
        intro s hs he
        rw [mem_tripsOf hg.keyed, he, hg.keyed id t stored, stored, Option.some.injEq] at hs
        rw [← hs.1]
        rfl
      rw [Option.map_some, Option.map_some, Option.map_some,
        (hg.groups hb).unshaped_replace (t := { t with shape }) (nodup_tripsOf hg.keyed block)
          hunshaped]
  · rfl

variable [Add R]

theorem unshaped_build_step (hg : Consistent g) (hs : Step g h) (hv : h.version = g.version) :
    (build h).unshaped = (build g).unshaped := by
  cases hs with
  | aside same _ =>
    exact unshaped_build_congr hv (by rw [same.blocks]) fun c _ => by rw [same.routes]
  | agency id timezone _ => exact unshaped_build_congr rfl rfl fun _ _ => rfl
  | route route collection _ new =>
    rw [fileRoute_eq]
    refine unshaped_build_congr rfl rfl fun c hc => collectionsOf_congr fun r hr => ?_
    have hne : route ≠ r := fun he => new (he ▸ hg.mem_routes hc hr)
    simp [hne]
  | enter t _ _ _ _ => exact (Nat.succ_ne_self _ hv).elim
  | withdraw id t _ =>
    rw [version_withdraw] at hv
    exact (Nat.succ_ne_self _ hv).elim
  | replan id t calls _ => exact (Nat.succ_ne_self _ hv).elim
  | reshape id t shape stored =>
    exact unshaped_build_congr rfl (unshaped_blocks_reshape hg stored shape) fun _ _ => rfl

/-- Steps that leave the version alone leave an index the same but for shapes. -/
theorem unshaped_build_steps (hg : Consistent g) (hs : Steps g h) (hv : h.version = g.version) :
    (build h).unshaped = (build g).unshaped := by
  induction hs with
  | refl => rfl
  | @tail f h hs hstep ih =>
    -- the version never falls, so it is the same all along
    have hfv : f.version = g.version :=
      Nat.le_antisymm (hv ▸ hstep.version_le) (Steps.version_le hs)
    rw [unshaped_build_step (hg.steps hs) hstep (hv.trans hfv.symm), ih hfv]

/-- Indices that by their version are out of date, or differ from a new one by nothing but
shapes. -/
structure FreshFor (i : BlockIndex R) (g : Schedule R) : Prop where
  earlier : i.version ≤ g.version
  current : i.version = g.version → i.unshaped = (build g).unshaped

theorem FreshFor.build (g : Schedule R) : FreshFor (build g) g := ⟨Nat.le_refl _, fun _ => rfl⟩

theorem FreshFor.steps {i : BlockIndex R} (hi : i.FreshFor g) (hg : Consistent g)
    (hs : Steps g h) : i.FreshFor h where
  earlier := Nat.le_trans hi.earlier hs.version_le
  current hv := by
    have hgv : h.version = g.version :=
      Nat.le_antisymm (hv ▸ hi.earlier) hs.version_le
    rw [hi.current (hv.trans hgv), unshaped_build_steps hg hs hgv]

theorem FreshFor.refresh {i : BlockIndex R} (hi : i.FreshFor g) :
    (i.refresh g).unshaped = (BlockIndex.build g).unshaped := by
  rw [BlockIndex.refresh]
  split
  · next hv => exact hi.current hv
  · rfl

theorem FreshFor.of_refresh {i : BlockIndex R} (hi : i.FreshFor g) : (i.refresh g).FreshFor g := by
  rw [BlockIndex.refresh]
  split
  · exact hi
  · exact .build g

end BlockIndex

namespace Engine

open BlockIndex Schedule

/-- What may happen while an index is in use. Whatever is asked of the index renews it first. -/
inductive Use (R : Type) where
  | edit (ed : Edit R)
  | ask

variable [Geometry R]

def use (e : Engine R) : Use R → Engine R
  | .edit ed => (e.edit ed).1
  | .ask => e.refresh

def useAll (e : Engine R) (uses : List (Use R)) : Engine R := uses.foldl use e

/-- The schedule is consistent, and by its version the index tells whether it is out of date. -/
structure Indexed (e : Engine R) : Prop where
  consistent : Consistent e.schedule
  fresh : e.index.FreshFor e.schedule

theorem Indexed.edit {e : Engine R} (he : e.Indexed) (ed : Edit R) : (e.edit ed).1.Indexed where
  consistent := he.consistent.steps (steps_apply e.schedule ed)
  fresh := he.fresh.steps he.consistent (steps_apply e.schedule ed)

theorem Indexed.use {e : Engine R} (he : e.Indexed) (u : Use R) : (e.use u).Indexed := by
  cases u with
  | edit ed => exact he.edit ed
  | ask => exact ⟨he.consistent, he.fresh.of_refresh⟩

theorem Indexed.useAll {e : Engine R} (he : e.Indexed) (uses : List (Use R)) :
    (e.useAll uses).Indexed := by
  induction uses generalizing e with
  | nil => exact he
  | cons u uses ih => exact ih (he.use u)

/-- Whatever edits and queries came before, a query is answered from an index that differs from a
new one by nothing but shapes, and an edit that leaves the version alone could change nothing else
of it. -/
theorem index_never_stale (settings : Settings) (calendar : Calendar) (now : Instant)
    {g : Schedule R} (h : g.Reachable) (uses : List (Use R)) :
    let e := (start settings calendar now g).useAll uses
    e.refresh.index.unshaped = (build e.schedule).unshaped ∧
    (∀ q, (e.refresh.index.configurations q).map Configuration.unshaped =
      ((build e.schedule).configurations q).map Configuration.unshaped) ∧
    (∀ stop, (e.refresh.index.departures stop).map StopIndex.unshaped =
      ((build e.schedule).departures stop).map StopIndex.unshaped) ∧
    ∀ ed, (e.edit ed).1.schedule.version = e.schedule.version →
      (build (e.edit ed).1.schedule).unshaped = (build e.schedule).unshaped := by
  intro e
  have hstart : (start settings calendar now g).Indexed := ⟨h.consistent, .build g⟩
  have he : e.Indexed := hstart.useAll uses
  have hindex : e.refresh.index.unshaped = (build e.schedule).unshaped := he.fresh.refresh
  refine ⟨hindex, fun q => ?_, fun stop => ?_, fun ed hv => ?_⟩
  · rw [← configurations_unshaped, hindex, configurations_unshaped]
  · rw [← departures_unshaped, hindex, departures_unshaped]
  · exact unshaped_build_steps he.consistent (steps_apply e.schedule ed) hv

/-- A trip gets a shape unnoticed by the version and loses a call between two queries. -/
def reshapedDay : List (Use Float) :=
  [.ask, .edit (.setTripShape ⟨"A", "T2"⟩ (some ⟨"A", "P"⟩)), .ask,
    .edit (.deleteStopTime ⟨"A", "T1"⟩ ⟨"A", "Y"⟩)]

theorem index_never_stale_reshapedDay :
    let g := Schedule.empty.run shortenedDay
    let e := (start default ⟨∅⟩ default g).useAll reshapedDay
    g.Reachable ∧
    e.refresh.index.unshaped = (build e.schedule).unshaped ∧
    (∀ q, (e.refresh.index.configurations q).map Configuration.unshaped =
      ((build e.schedule).configurations q).map Configuration.unshaped) ∧
    (∀ stop, (e.refresh.index.departures stop).map StopIndex.unshaped =
      ((build e.schedule).departures stop).map StopIndex.unshaped) ∧
    ∀ ed, (e.edit ed).1.schedule.version = e.schedule.version →
      (build (e.edit ed).1.schedule).unshaped = (build e.schedule).unshaped :=
  ⟨⟨shortenedDay, rfl⟩, index_never_stale default ⟨∅⟩ default ⟨shortenedDay, rfl⟩ reshapedDay⟩

end Engine

end Timetable
